import SnapshotLisp.Proofs.Congruence
import SnapshotLisp.Proofs.Flattening
import SnapshotLisp.Proofs.Layout
import SnapshotLisp.Proofs.Tokenization

/-!
Programs written out. Every word of a program is read back as the same word, because what is written
behind it is a blank, a closing parenthesis or nothing, and no token goes on into these. So the text
of a program has the program's tokens, the tokens make the program's tree, and running the text does
what the program does, one sequence further inside.
-/
namespace SnapshotLisp

def Token.word (t : Token) : TokenKind × String := (t.kind, t.text)

/-- No token goes on into the text, whatever its kind. -/
def Stops (rest : List Char) : Prop := ∀ c, rest.head? = some c → isBlank c ∨ c = ')'

theorem stops_nil : Stops [] := by
  intro c first
  cases first

theorem stops_close (rest : List Char) : Stops (')' :: rest) := by
  intro c first
  cases first
  exact Or.inr rfl

theorem stops_blanks {blanks : List Char} (empty : ∀ c ∈ blanks, isBlank c) (some : blanks ≠ [])
    (rest : List Char) : Stops (blanks ++ rest) := by
  cases blanks with
  | nil => exact absurd rfl some
  | cons b blanks =>
    intro c first
    cases first
    exact Or.inl (empty b List.mem_cons_self)

theorem Stops.mayEndAt {rest : List Char} (stops : Stops rest) (kind : TokenKind) :
    kind.MayEndAt rest := by
  cases kind with
  | openParen | closeParen | blank => trivial
  | identifier => exact stops
  | integer =>
    intro c first
    rcases stops c first with blank | rfl
    · cases digit : c.isDigit with
      | false => rfl
      | true => exact absurd blank (by simp [isBlank_of_isDigit digit])
    · decide

/-- The text is read as these words wherever it stands, as long as no token goes on behind it. -/
def Writes (text : List Char) (words : List (TokenKind × String)) : Prop :=
  ∀ start rest later, Stops rest → Tokenization (start + byteLength text) rest later →
    ∃ tokens, tokens.map Token.word = words ∧ Tokenization start (text ++ rest) (tokens ++ later)

theorem writes_nil : Writes [] [] :=
  fun _ _ _ _ cut => ⟨[], rfl, cut⟩

theorem tokenization_word {kind : TokenKind} {text rest : List Char} {start : Nat}
    {later : List Token} (spelled : kind.Spells text) (ended : kind.MayEndAt rest)
    (cut : Tokenization (start + byteLength text) rest later) :
    ∃ t : Token, t.word = (kind, String.ofList text) ∧
      Tokenization start (text ++ rest) (t :: later) := by
  refine ⟨⟨kind, String.ofList text, start, .nowhere⟩, rfl, ?_⟩
  have written : (String.ofList text).toList = text := String.toList_ofList
  have whole := Tokenization.token (t := ⟨kind, String.ofList text, start, .nowhere⟩)
    (by rwa [written]) ended cut
  rwa [written] at whole

theorem writes_word {t : Token} (spelled : t.kind.Spells t.text.toList) :
    Writes t.text.toList [t.word] := by
  intro start rest later stops cut
  obtain ⟨u, read, whole⟩ := tokenization_word spelled (stops.mayEndAt t.kind) cut
  rw [String.ofList_toList] at read
  exact ⟨[u], by rw [List.map_singleton, read]; rfl, whole⟩

section

variable {text text' : List Char} {words words' : List (TokenKind × String)}

theorem Writes.spaced (first : Writes text words) {blanks : List Char}
    (empty : ∀ c ∈ blanks, isBlank c) (some : blanks ≠ []) (second : Writes text' words') :
    Writes (text ++ (blanks ++ text')) (words ++ words') := by
  intro start rest later stops cut
  simp only [byteLength_append, ← Nat.add_assoc] at cut
  obtain ⟨tokens', read', cut'⟩ := second _ rest later stops cut
  have between := (Tokenization.blanks empty).mpr cut'
  obtain ⟨tokens, read, whole⟩ := first start _ _ (stops_blanks empty some _) between
  refine ⟨tokens ++ tokens', by rw [List.map_append, read, read'], ?_⟩
  simpa using whole

theorem Writes.enclosed (inside : Writes text words) :
    Writes ('(' :: (text ++ [')'])) ((.openParen, "(") :: (words ++ [(.closeParen, ")")])) := by
  intro start rest later _ cut
  have count : start + byteLength ('(' :: (text ++ [')'])) =
      start + byteLength ['('] + byteLength text + byteLength [')'] := by
    simp only [byteLength_cons, byteLength_append, byteLength_nil]
    omega
  rw [count] at cut
  -- From right to left: the closing parenthesis, what is inside, and the opening one.
  obtain ⟨close, closes, behind⟩ := tokenization_word .closeParen trivial cut
  obtain ⟨tokens, read, middle⟩ := inside _ _ _ (stops_close rest) behind
  obtain ⟨opening, opens, whole⟩ := tokenization_word .openParen trivial middle
  refine ⟨opening :: (tokens ++ [close]), ?_, by simpa using whole⟩
  rw [List.map_cons, List.map_append, List.map_singleton, opens, read, closes]

theorem lex_of_writes {source : String} (written : Writes source.toList words) :
    ∃ tokens, lex source = .ok tokens ∧ tokens.map Token.word = words := by
  obtain ⟨all, cut, lexed⟩ := lex_total source
  obtain ⟨tokens, read, whole⟩ := written 0 [] [] stops_nil (.nil _)
  rw [List.append_nil, List.append_nil] at whole
  have same := cut.tokenization_unique whole
  refine ⟨_, lexed, ?_⟩
  have forget : ∀ ts : List Token,
      ts.map Token.word = (ts.map Token.lexeme).map fun l => (l.1, l.2.1) := by
    intro ts
    rw [List.map_map]
    rfl
  rw [← read, forget, forget, same]

end

namespace Expr

/-- Every atom is a word that a text can have. -/
inductive Spelled : Expr → Prop where
  | atom {t : Token} (spelled : t.kind.Spells t.text.toList) (plain : t.kind.isSyntax = false) :
      Spelled (.atom t)
  | list {items : List Expr} {location : Location} (below : ∀ item ∈ items, Spelled item) :
      Spelled (.list items location)

theorem Spelled.plain {e : Expr} (spelled : e.Spelled) : e.Plain := by
  induction spelled with
  | atom spelled plain => exact .atom plain
  | list below ih => exact .list ih

theorem Placed.spelled {source : String} {tokens : List Token} (lexed : lex source = .ok tokens)
    {e : Expr} (placed : e.Placed tokens) : e.Spelled := by
  induction placed with
  | atom member plain =>
    obtain ⟨solid, accepted, _⟩ := token_stretch lexed member
    exact .atom (TokenKind.spells_of_accepts accepted solid) plain
  | list member opens below ih => exact .list ih

theorem writes_renderItems {items : List Expr}
    (below : ∀ item ∈ items, Writes item.render.toList (item.flatten.map Token.word)) :
    Writes (renderItems items).toList ((flattenItems items).map Token.word) := by
  induction items with
  | nil =>
    rw [renderItems, flattenItems]
    exact writes_nil
  | cons item later ih =>
    have first := below item List.mem_cons_self
    have others := ih fun e member => below e (List.mem_cons_of_mem item member)
    rw [flattenItems, List.map_append]
    cases later with
    | nil =>
      rw [renderItems, flattenItems, List.map_nil, List.append_nil]
      exact first
    | cons second more =>
      rw [renderItems_cons_cons, String.toList_append, String.toList_append, List.append_assoc]
      have blank : ∀ c ∈ " ".toList, isBlank c := List.forall_mem_singleton.mpr (by decide)
      exact first.spaced blank (by decide) others

theorem Spelled.writes {e : Expr} (spelled : e.Spelled) :
    Writes e.render.toList (e.flatten.map Token.word) := by
  induction spelled with
  | @atom t spelled plain =>
    rw [render, flatten]
    exact writes_word spelled
  | @list items location below ih =>
    rw [render, flatten, String.toList_append, String.toList_append, List.map_cons, List.map_append]
    exact (writes_renderItems ih).enclosed

end Expr

theorem like_of_words {tokens tokens' : List Token}
    (same : tokens.map Token.word = tokens'.map Token.word) :
    List.Forall₂ (Token.Like fun _ _ => True) tokens tokens' := by
  rw [← List.forall₂_eq_eq_eq, List.forall₂_map_left_iff, List.forall₂_map_right_iff] at same
  refine same.imp fun t t' words => ?_
  exact ⟨congrArg Prod.fst words, congrArg Prod.snd words, trivial⟩

theorem parse_of_words {g : Group} (plain : g.toExpr.Plain) {tokens : List Token}
    (same : g.toExpr.flatten.map Token.word = tokens.map Token.word) :
    ∃ tree, g.Like (fun _ _ => True) tree ∧ parse tokens 0 = .ok (tree, tokens.length) ∧
      parseGroups tokens = .ok [tree] := by
  have words := like_of_words same
  have flat : g.toExpr.flatten =
      .opening g.location :: (Expr.flattenItems g.items ++ [.closing]) := by
    rw [Group.toExpr, Expr.flatten]
  rw [flat] at words
  obtain ⟨t, rest, first, later, rfl⟩ := List.forall₂_cons_left_iff.mp words
  have whole : parseGroup (.opening g.location) (Expr.flattenItems g.items ++ [.closing]) =
      .ok (g, []) := by
    have itself : List.Forall₂ Token.Fits
        (.opening g.location :: (Expr.flattenItems g.items ++ [.closing])) g.toExpr.flatten := by
      rw [flat]
      exact List.forall₂_same.mpr fun t _ => .refl t
    have read := parseGroup_of_fits plain itself []
    rwa [List.append_nil] at read
  have both := parseGroup_like first later
  rw [whole] at both
  generalize outcome : parseGroup t rest = right at both
  cases both with
  | @ok _ read result =>
    obtain ⟨tree, behind⟩ := read
    obtain ⟨like, none⟩ := result
    rw [List.forall₂_nil_left_iff] at none
    subst none
    refine ⟨tree, like, ?_, ?_⟩
    · rw [parse_found (t := t) rfl, List.drop_succ_cons, List.drop_zero, outcome]
      rfl
    · rw [parseGroups_of_ok outcome, parseGroups]
      rfl

theorem run_programOf_single (depth : Nat) (g : Group) (s : State) :
    (eval (depth + 1) (programOf [g]).toExpr).run s = (eval depth g.toExpr).run
      { s with log := .applying Builtin.sequence.name 1 .start :: s.log } := by
  rw [Simulation.eval_programOf, Eval.run_bind, Eval.run_emit]
  simp [evalSequence]

theorem Builtin.spelled (builtin : Builtin) : TokenKind.identifier.Spells builtin.name.toList := by
  cases builtin <;>
    exact TokenKind.spells_of_accepts ⟨by decide, List.all_eq_true.mp (by decide)⟩ nofun

section

variable {source printed : String} {tokens tokens' : List Token} {groups : List Group}

theorem programOf_spelled (lexed : lex source = .ok tokens)
    (read : parseGroups tokens = .ok groups) : (programOf groups).toExpr.Spelled := by
  refine .list fun item member => ?_
  rcases List.mem_cons.mp member with same | member
  · subst same
    exact .atom Builtin.sequence.spelled rfl
  · obtain ⟨group, inside, same⟩ := List.mem_map.mp member
    subst same
    exact (parseGroups_placed read group inside).spelled lexed

theorem run_of_single (lexed : lex source = .ok tokens) (read : parseGroups tokens = .ok groups)
    (lexed' : lex printed = .ok tokens') {tree : Group} (read' : parseGroups tokens' = .ok [tree])
    (like : (programOf groups).Like (fun _ _ => True) tree) (depth : Nat) :
    (run depth source).Like (fun _ _ => True) (run (depth + 1) printed) := by
  obtain ⟨s, fresh, ran⟩ := run_of_groups lexed read
  obtain ⟨s', fresh', ran'⟩ := run_of_groups lexed' read'
  rw [ran, ran', run_programOf_single]
  have both := (relocated_simulation fun _ _ => True).eval_matches depth like.toExpr
  exact verdict_like (both s _ (relocated_fresh fresh fresh'))

end

theorem Verdict.Like.tooDeep_iff {places : Location → Location → Prop} {v w : Verdict}
    (like : v.Like places w) : v = .tooDeep ↔ w = .tooDeep := by
  cases like <;> simp

theorem comesTo_of_ended {source : String} {depth : Nat} (ended : run depth source ≠ .tooDeep) :
    ComesTo source (run depth source) :=
  ⟨ended, depth, rfl⟩

theorem comesTo_like_of_deeper {places : Location → Location → Prop} {source printed : String}
    (like : ∀ depth, (run depth source).Like places (run (depth + 1) printed)) :
    ((∃ v, ComesTo source v) ↔ ∃ w, ComesTo printed w) ∧
      ∀ v w, ComesTo source v → ComesTo printed w → v.Like places w := by
  have forward : ∀ v, ComesTo source v → ∃ w, ComesTo printed w ∧ v.Like places w := by
    rintro v ⟨ended, depth, rfl⟩
    have ended' : run (depth + 1) printed ≠ .tooDeep :=
      fun tooDeep => ended ((like depth).tooDeep_iff.mpr tooDeep)
    exact ⟨_, comesTo_of_ended ended', like depth⟩
  refine ⟨⟨?_, ?_⟩, ?_⟩
  · rintro ⟨v, comes⟩
    obtain ⟨w, comes', _⟩ := forward v comes
    exact ⟨w, comes'⟩
  · rintro ⟨w, ended, depth, rfl⟩
    -- More depth does no harm, and with one level more than that the source can be compared.
    have deeper := run_stable (Nat.le_succ depth) ended
    rw [← deeper] at ended
    have ended' : run depth source ≠ .tooDeep :=
      fun tooDeep => ended ((like depth).tooDeep_iff.mp tooDeep)
    exact ⟨_, comesTo_of_ended ended'⟩
  · intro v w comes comes'
    obtain ⟨w', again, related⟩ := forward v comes
    rw [comes'.unique again]
    exact related

/-- The program that is shown is a faithful one. Its text is read as one group with the same tree
up to positions and locations, it is shown as the same text again, and it runs like the text that it
was read from: to a like value, with the same complaint, or without an end. -/
theorem printed_program_faithful {source : String} {tokens : List Token} {program : Group}
    (lexed : lex source = .ok tokens) (parsed : parseProgram tokens = .ok program) :
    ∃ printed tokens' tree, printed = program.toExpr.render ∧ lex printed = .ok tokens' ∧
      parse tokens' 0 = .ok (tree, tokens'.length) ∧
      program.toExpr.Like (fun _ _ => True) tree.toExpr ∧ tree.toExpr.render = printed ∧
      ((∃ v, ComesTo source v) ↔ ∃ w, ComesTo printed w) ∧
      ∀ v w, ComesTo source v → ComesTo printed w → v.Like (fun _ _ => True) w ∧
        ∀ e e', v = .error e → w = .error e' → e.message = e'.message := by
  obtain ⟨groups, read, rfl⟩ := ok_of_map parsed
  have spelled := programOf_spelled lexed read
  obtain ⟨tokens', lexed', words⟩ := lex_of_writes spelled.writes
  obtain ⟨tree, like, whole, read'⟩ := parse_of_words spelled.plain words.symm
  obtain ⟨ends, same⟩ := comesTo_like_of_deeper (run_of_single lexed read lexed' read' like)
  refine ⟨_, tokens', tree, rfl, lexed', whole, like.toExpr, like.toExpr.render_eq.symm, ends, ?_⟩
  intro v w comes comes'
  have related := same v w comes comes'
  exact ⟨related, fun e e' left right => related.message_eq left right⟩

/-- A name with a parenthesis inside, and a number with a name right behind it. -/
theorem printed_program_faithful_of_joined :
    ∃ source tokens program, source = "(func f(g (a b)\n(+ a b))(f(g 12a)" ∧
      lex source = .ok tokens ∧ parseProgram tokens = .ok program ∧
      program.toExpr.render = "(begin (func f(g (a b) (+ a b)) (f(g 12 a))" ∧
      ∃ tokens' tree w, lex program.toExpr.render = .ok tokens' ∧
        parse tokens' 0 = .ok (tree, tokens'.length) ∧
        program.toExpr.Like (fun _ _ => True) tree.toExpr ∧
        ComesTo program.toExpr.render w := by
  have told : (match lex "(func f(g (a b)\n(+ a b))(f(g 12a)" with
      | .ok tokens => (parseProgram tokens).toOption.map fun program => program.toExpr.render
      | .error _ => none) = some "(begin (func f(g (a b) (+ a b)) (f(g 12 a))" := by decide +kernel
  have ended : run 6 "(func f(g (a b)\n(+ a b))(f(g 12a)" ≠ .tooDeep := by
    intro tooDeep
    have other : (match run 6 "(func f(g (a b)\n(+ a b))(f(g 12a)" with
      | .tooDeep => true
      | _ => false) = false := by decide +kernel
    rw [tooDeep] at other
    cases other
  split at told
  · rename_i tokens lexed
    cases parsed : parseProgram tokens with
    | error e =>
      rw [parsed] at told
      cases told
    | ok program =>
      rw [parsed] at told
      obtain ⟨_, tokens', tree, rfl, lexed', whole, like, _, ends, _⟩ :=
        printed_program_faithful lexed parsed
      obtain ⟨w, comes⟩ := ends.mp ⟨_, comesTo_of_ended ended⟩
      exact ⟨_, tokens, program, rfl, lexed, parsed, Option.some.inj told, tokens', tree, w, lexed',
        whole, like, comes⟩
  · cases told

end SnapshotLisp
