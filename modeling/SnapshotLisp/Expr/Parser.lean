import SnapshotLisp.Expr
import SnapshotLisp.Error

/-!
Building trees from tokens by matching parentheses. Reading keeps the groups that are still open,
innermost first, so it walks the tokens once and needs no look-ahead. Only parentheses have a say;
every other token becomes an atom, whatever its text.
-/
namespace SnapshotLisp

namespace Group

/-- Adds an item to a group that is still open. Until it is closed its items stand newest first. -/
def push (g : Group) (item : Expr) : Group := ⟨item :: g.items, g.location⟩

def close (g : Group) : Group := ⟨g.items.reverse, g.location⟩

end Group

/-- Reads on inside the innermost open group, up to the parenthesis that closes the outermost one.
Gives that group and the tokens after it, or nothing when the tokens run out. -/
def readGroup : Group → List Group → List Token → Option (Group × List Token)
  | _, _, [] => none
  | inner, outer, t :: rest =>
    match t.kind with
    | .openParen => readGroup ⟨[], t.location⟩ (inner :: outer) rest
    | .closeParen =>
      match outer with
      | [] => some (inner.close, rest)
      | next :: further => readGroup (next.push inner.close.toExpr) further rest
    | .integer | .identifier | .blank => readGroup (inner.push (.atom t)) outer rest

section

variable {t : Token} (inner : Group) (outer : List Group) (rest : List Token)

theorem readGroup_open (opens : t.kind = .openParen) :
    readGroup inner outer (t :: rest) = readGroup ⟨[], t.location⟩ (inner :: outer) rest := by
  rw [readGroup.eq_def]
  simp only [opens]

theorem readGroup_close (closes : t.kind = .closeParen) (next : Group) :
    readGroup inner (next :: outer) (t :: rest) =
      readGroup (next.push inner.close.toExpr) outer rest := by
  rw [readGroup.eq_def]
  simp only [closes]

theorem readGroup_close_last (closes : t.kind = .closeParen) :
    readGroup inner [] (t :: rest) = some (inner.close, rest) := by
  rw [readGroup.eq_def]
  simp only [closes]

theorem readGroup_atom (plain : t.kind.isSyntax = false) :
    readGroup inner outer (t :: rest) = readGroup (inner.push (.atom t)) outer rest := by
  rw [readGroup.eq_def]
  cases kind : t.kind <;> simp [kind, TokenKind.isSyntax] at plain ⊢

end

theorem readGroup_rest_shorter {inner : Group} {outer : List Group} {tokens : List Token}
    {g : Group} {rest : List Token} (h : readGroup inner outer tokens = some (g, rest)) :
    rest.length < tokens.length := by
  induction tokens generalizing inner outer with
  | nil => simp [readGroup] at h
  | cons t later ih =>
    simp only [List.length_cons]
    unfold readGroup at h
    split at h
    · exact Nat.lt_succ_of_lt (ih h)
    · split at h
      · simp only [Option.some.injEq, Prod.mk.injEq] at h
        obtain ⟨_, rfl⟩ := h
        omega
      · exact Nat.lt_succ_of_lt (ih h)
    · exact Nat.lt_succ_of_lt (ih h)
    · exact Nat.lt_succ_of_lt (ih h)
    · exact Nat.lt_succ_of_lt (ih h)

def lastLocation (tokens : List Token) : Location :=
  match tokens.getLast? with
  | none => .nowhere
  | some t => t.location

def parseGroup (t : Token) (rest : List Token) : Except ParseError (Group × List Token) :=
  if t.kind = .openParen then
    match readGroup ⟨[], t.location⟩ [] rest with
    | some read => .ok read
    | none => .error ⟨.expectedClosingParen, lastLocation (t :: rest)⟩
  else .error ⟨.expectedOpenParen t.text, t.location⟩

theorem parseGroup_rest_shorter {t : Token} {tokens rest : List Token} {g : Group}
    (h : parseGroup t tokens = .ok (g, rest)) : rest.length < tokens.length := by
  unfold parseGroup at h
  split at h
  · split at h
    · rename_i read found
      simp only [Except.ok.injEq] at h
      subst h
      exact readGroup_rest_shorter found
    · simp at h
  · simp at h

/-- The group that starts at the token of that number, counted from zero, and the number of the
token after it. -/
def parse (tokens : List Token) (index : Nat) : Except ParseError (Group × Nat) :=
  match tokens.drop index with
  | [] => .error ⟨.expectedOpenParen "end of input", lastLocation tokens⟩
  | t :: rest => (parseGroup t rest).map fun read => (read.1, tokens.length - read.2.length)

def parseGroups : List Token → Except ParseError (List Group)
  | [] => .ok []
  | t :: rest =>
    match _h : parseGroup t rest with
    | .error e => .error e
    | .ok (g, later) => (parseGroups later).map (g :: ·)
termination_by tokens => tokens.length
decreasing_by
  have := parseGroup_rest_shorter _h
  simp only [List.length_cons]
  omega

theorem parseGroups_of_error {t : Token} {rest : List Token} {e : ParseError}
    (failed : parseGroup t rest = .error e) : parseGroups (t :: rest) = .error e := by
  rw [parseGroups]
  split
  · rename_i same
    rw [failed] at same
    cases same
    rfl
  · rename_i same
    rw [failed] at same
    cases same

theorem parseGroups_of_ok {t : Token} {rest later : List Token} {g : Group}
    (read : parseGroup t rest = .ok (g, later)) :
    parseGroups (t :: rest) = (parseGroups later).map (g :: ·) := by
  rw [parseGroups]
  split
  · rename_i same
    rw [read] at same
    cases same
  · rename_i same
    rw [read] at same
    cases same
    rfl

def programOf (groups : List Group) : Group :=
  ⟨.atom (.synthetic Builtin.sequence.name) :: groups.map Group.toExpr, .start⟩

def parseProgram (tokens : List Token) : Except ParseError Group :=
  (parseGroups tokens).map programOf

end SnapshotLisp
