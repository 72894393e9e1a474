import SnapshotLisp.Proofs.Placement

/-!
Parsing as counting. Whether a token list can be read, and which of its tokens is blamed when it
cannot, depends on nothing but the number of parentheses that are open along the way. The groups that
the parser keeps open are as many as the count says.
-/
namespace SnapshotLisp

def Token.turn (t : Token) : Int :=
  match t.kind with
  | .openParen => 1
  | .closeParen => -1
  | .integer | .identifier | .blank => 0

/-- The number of parentheses that are open behind the tokens. -/
def nesting : List Token → Int
  | [] => 0
  | t :: rest => t.turn + nesting rest

@[simp] theorem nesting_nil : nesting [] = 0 := rfl

@[simp] theorem nesting_cons (t : Token) (rest : List Token) :
    nesting (t :: rest) = t.turn + nesting rest := rfl

@[simp] theorem nesting_append (xs ys : List Token) : nesting (xs ++ ys) = nesting xs + nesting ys := by
  induction xs with
  | nil => simp
  | cons t xs ih =>
    rw [List.cons_append, nesting_cons, nesting_cons, ih]
    omega

namespace Token

variable {t : Token}

theorem turn_of_open (opens : t.kind = .openParen) : t.turn = 1 := by
  rw [turn, opens]

theorem turn_of_close (closes : t.kind = .closeParen) : t.turn = -1 := by
  rw [turn, closes]

theorem turn_of_plain (plain : t.kind.isSyntax = false) : t.turn = 0 := by
  rw [turn]
  cases kind : t.kind <;> simp [kind, TokenKind.isSyntax] at plain ⊢

end Token

/-- From that level on the tokens stay inside parentheses, up to the end. -/
def Inside (level : Int) (tokens : List Token) : Prop :=
  ∀ before after, tokens = before ++ after → 0 < level + nesting before

/-- From that level on the tokens lead out of all parentheses, with the last of them and not before. -/
def Closes (level : Int) (tokens : List Token) : Prop :=
  level + nesting tokens = 0 ∧
    ∀ before after, tokens = before ++ after → after ≠ [] → 0 < level + nesting before

theorem Inside.nil {level : Int} (positive : 0 < level) : Inside level [] := by
  intro before after whole
  rw [(List.append_eq_nil_iff.mp whole.symm).1]
  simpa using positive

theorem Inside.cons {level next : Int} {t : Token} {rest : List Token} (positive : 0 < level)
    (turned : level + t.turn = next) (later : Inside next rest) : Inside level (t :: rest) := by
  intro before after whole
  rcases List.append_eq_cons_iff.mp whole.symm with ⟨rfl, _⟩ | ⟨more, rfl, split⟩
  · simpa using positive
  · have counted := later more after split
    rw [nesting_cons]
    omega

theorem Closes.last {level : Int} {t : Token} (positive : 0 < level) (out : level + t.turn = 0) :
    Closes level [t] := by
  refine ⟨by simpa using out, ?_⟩
  intro before after whole nonempty
  rcases List.append_eq_cons_iff.mp whole.symm with ⟨rfl, _⟩ | ⟨more, rfl, split⟩
  · simpa using positive
  · exact absurd (List.append_eq_nil_iff.mp split.symm).2 nonempty

theorem Closes.cons {level next : Int} {t : Token} {rest : List Token} (positive : 0 < level)
    (turned : level + t.turn = next) (later : Closes next rest) : Closes level (t :: rest) := by
  obtain ⟨out, first⟩ := later
  constructor
  · rw [nesting_cons]
    omega
  · intro before after whole nonempty
    rcases List.append_eq_cons_iff.mp whole.symm with ⟨rfl, _⟩ | ⟨more, rfl, split⟩
    · simpa using positive
    · have counted := first more after split nonempty
      rw [nesting_cons]
      omega

theorem readGroup_closes {tokens rest : List Token} {inner g : Group} {outer : List Group}
    (read : readGroup inner outer tokens = some (g, rest)) :
    ∃ consumed, tokens = consumed ++ rest ∧ Closes (outer.length + 1) consumed := by
  induction tokens generalizing inner outer with
  | nil => simp [readGroup] at read
  | cons t later ih =>
    have positive : (0 : Int) < outer.length + 1 := by omega
    rcases t.kind.paren_or_plain with opens | closes | plain
    · rw [readGroup_open _ _ _ opens] at read
      obtain ⟨consumed, whole, out⟩ := ih read
      refine ⟨t :: consumed, by rw [whole, List.cons_append], .cons positive ?_ out⟩
      rw [Token.turn_of_open opens, List.length_cons]
      omega
    · cases outer with
      | nil =>
        rw [readGroup_close_last _ _ closes] at read
        cases read
        exact ⟨[t], rfl, .last positive (by rw [Token.turn_of_close closes]; rfl)⟩
      | cons next further =>
        rw [readGroup_close _ _ _ closes] at read
        obtain ⟨consumed, whole, out⟩ := ih read
        refine ⟨t :: consumed, by rw [whole, List.cons_append], .cons positive ?_ out⟩
        rw [Token.turn_of_close closes, List.length_cons]
        omega
    · rw [readGroup_atom _ _ _ plain] at read
      obtain ⟨consumed, whole, out⟩ := ih read
      refine ⟨t :: consumed, by rw [whole, List.cons_append], .cons positive ?_ out⟩
      rw [Token.turn_of_plain plain]
      omega

theorem readGroup_inside {tokens : List Token} {inner : Group} {outer : List Group}
    (unread : readGroup inner outer tokens = none) : Inside (outer.length + 1) tokens := by
  have positive : (0 : Int) < outer.length + 1 := by omega
  induction tokens generalizing inner outer with
  | nil => exact .nil positive
  | cons t later ih =>
    rcases t.kind.paren_or_plain with opens | closes | plain
    · rw [readGroup_open _ _ _ opens] at unread
      refine .cons positive ?_ (ih unread (by omega))
      rw [Token.turn_of_open opens, List.length_cons]
      omega
    · cases outer with
      | nil => rw [readGroup_close_last _ _ closes] at unread; cases unread
      | cons next further =>
        rw [readGroup_close _ _ _ closes] at unread
        refine .cons positive ?_ (ih unread (by omega))
        rw [Token.turn_of_close closes, List.length_cons]
        omega
    · rw [readGroup_atom _ _ _ plain] at unread
      refine .cons positive ?_ (ih unread positive)
      rw [Token.turn_of_plain plain]
      omega

/-- Every token outside all parentheses opens one. -/
def Orderly (tokens : List Token) : Prop :=
  ∀ before t after, tokens = before ++ t :: after → nesting before = 0 → t.kind = .openParen

theorem orderly_nil : Orderly [] := by
  intro before t after whole
  simp at whole

theorem orderly_append {tokens rest : List Token} (orderly : Orderly tokens)
    (closed : nesting tokens = 0) : Orderly (tokens ++ rest) ↔ Orderly rest := by
  constructor
  · intro all before t after whole level
    refine all (tokens ++ before) t after (by rw [whole, List.append_assoc]) ?_
    rw [nesting_append, closed, level]
    rfl
  · intro behind before t after whole level
    rcases List.append_eq_append_iff.mp whole with ⟨more, same, split⟩ | ⟨more, same, split⟩
    · rw [same, nesting_append, closed] at level
      exact behind more t after split (by omega)
    · rcases List.append_eq_cons_iff.mp split.symm with ⟨rfl, begins⟩ | ⟨more', rfl, _⟩
      · exact behind [] t after begins rfl
      · exact orderly before t more' same level

theorem orderly_cons {t : Token} {rest : List Token} (opens : t.kind = .openParen)
    (within : ∀ before after, rest = before ++ after → after ≠ [] → 0 < 1 + nesting before) :
    Orderly (t :: rest) := by
  intro before u after whole level
  rcases List.append_eq_cons_iff.mp whole.symm with ⟨rfl, begins⟩ | ⟨more, rfl, split⟩
  · cases begins
    exact opens
  · have counted := within more (u :: after) split (List.cons_ne_nil u after)
    rw [nesting_cons, Token.turn_of_open opens] at level
    omega

theorem orderly_group {t : Token} {consumed : List Token} (opens : t.kind = .openParen)
    (closes : Closes 1 consumed) : Orderly (t :: consumed) ∧ nesting (t :: consumed) = 0 := by
  obtain ⟨out, first⟩ := closes
  constructor
  · exact orderly_cons opens first
  · rw [nesting_cons, Token.turn_of_open opens]
    exact out

theorem orderly_unclosed {t : Token} {rest : List Token} (opens : t.kind = .openParen)
    (inside : Inside 1 rest) : Orderly (t :: rest) ∧ 0 < nesting (t :: rest) := by
  constructor
  · exact orderly_cons opens fun before after whole _ => inside before after whole
  · rw [nesting_cons, Token.turn_of_open opens]
    exact inside rest [] (List.append_nil rest).symm

theorem parseGroup_ok {t : Token} {rest later : List Token} {g : Group}
    (read : parseGroup t rest = .ok (g, later)) :
    t.kind = .openParen ∧ ∃ consumed, rest = consumed ++ later ∧ Closes 1 consumed := by
  unfold parseGroup at read
  split at read
  · rename_i opens
    split at read
    · rename_i found
      cases read
      exact ⟨opens, readGroup_closes found⟩
    · cases read
  · cases read

theorem parseGroup_unclosed {t : Token} {rest : List Token} {e : ParseError}
    (failed : parseGroup t rest = .error e) (opens : t.kind = .openParen) :
    e = ⟨.expectedClosingParen, lastLocation (t :: rest)⟩ ∧ Inside 1 rest := by
  rw [parseGroup, if_pos opens] at failed
  split at failed
  · cases failed
  · rename_i unread
    cases failed
    exact ⟨rfl, readGroup_inside unread⟩

theorem lastLocation_append {tokens rest : List Token} (nonempty : rest ≠ []) :
    lastLocation (tokens ++ rest) = lastLocation rest := by
  unfold lastLocation
  rw [List.getLast?_append, List.getLast?_eq_some_getLast nonempty]
  rfl

/-- The verdict on a program, by the count. -/
inductive Judged {α : Type} (tokens : List Token) : Except ParseError α → Prop where
  | stray {before after : List Token} {t : Token} (whole : tokens = before ++ t :: after)
      (orderly : Orderly before) (level : nesting before = 0) (closed : t.kind ≠ .openParen) :
      Judged tokens (.error ⟨.expectedOpenParen t.text, t.location⟩)
  | unclosed (orderly : Orderly tokens) (level : 0 < nesting tokens) :
      Judged tokens (.error ⟨.expectedClosingParen, lastLocation tokens⟩)
  | read (orderly : Orderly tokens) (level : nesting tokens = 0) (result : α) :
      Judged tokens (.ok result)

namespace Judged

variable {α β : Type} {tokens : List Token} {result : Except ParseError α}

theorem map (judged : Judged tokens result) (f : α → β) : Judged tokens (result.map f) := by
  cases judged with
  | stray whole orderly level closed => exact .stray whole orderly level closed
  | unclosed orderly level => exact .unclosed orderly level
  | read orderly level result => exact .read orderly level (f result)

theorem of_disorderly (judged : Judged tokens result) (disorderly : ¬ Orderly tokens) :
    ∃ before t after, tokens = before ++ t :: after ∧ Orderly before ∧ nesting before = 0 ∧
      t.kind ≠ .openParen ∧ result = .error ⟨.expectedOpenParen t.text, t.location⟩ := by
  cases judged with
  | stray whole orderly level closed => exact ⟨_, _, _, whole, orderly, level, closed, rfl⟩
  | unclosed orderly level => exact absurd orderly disorderly
  | read orderly level result => exact absurd orderly disorderly

theorem of_unclosed (judged : Judged tokens result) (orderly : Orderly tokens)
    (positive : 0 < nesting tokens) :
    result = .error ⟨.expectedClosingParen, lastLocation tokens⟩ := by
  cases judged with
  | stray whole begins level closed => exact absurd (orderly _ _ _ whole level) closed
  | unclosed orderly level => rfl
  | read orderly level result => omega

theorem of_closed (judged : Judged tokens result) (orderly : Orderly tokens)
    (bounded : nesting tokens ≤ 0) : ∃ a, result = .ok a := by
  cases judged with
  | stray whole begins level closed => exact absurd (orderly _ _ _ whole level) closed
  | unclosed orderly level => omega
  | read orderly level result => exact ⟨result, rfl⟩

theorem not_incomplete (judged : Judged tokens result) {e : ParseError} (failed : result = .error e)
    (text : String) : e.cause ≠ .incompleteParse text := by
  cases judged with
  | stray | unclosed =>
    cases failed
    nofun
  | read => cases failed

end Judged

theorem parseGroups_judged (tokens : List Token) : Judged tokens (parseGroups tokens) := by
  fun_induction parseGroups tokens with
  | case1 => exact .read orderly_nil rfl []
  | case2 t rest e failed =>
    by_cases opens : t.kind = .openParen
    · obtain ⟨same, inside⟩ := parseGroup_unclosed failed opens
      obtain ⟨orderly, level⟩ := orderly_unclosed opens inside
      rw [same]
      exact .unclosed orderly level
    · rw [parseGroup, if_neg opens] at failed
      cases failed
      exact .stray rfl orderly_nil rfl opens
  | case3 t rest g later first ih =>
    obtain ⟨opens, consumed, split, closes⟩ := parseGroup_ok first
    obtain ⟨orderly, closed⟩ := orderly_group opens closes
    have whole : t :: rest = (t :: consumed) ++ later := by rw [split, List.cons_append]
    rw [whole]
    generalize parseGroups later = result at ih
    cases ih with
    | stray behind begins level closing =>
      refine .stray (by rw [behind, List.append_assoc]) ((orderly_append orderly closed).mpr begins) ?_
        closing
      rw [nesting_append, closed, level]
      rfl
    | unclosed begins level =>
      have nonempty : later ≠ [] := by
        rintro rfl
        exact absurd level (by decide)
      rw [← lastLocation_append nonempty]
      refine .unclosed ((orderly_append orderly closed).mpr begins) ?_
      rw [nesting_append, closed]
      omega
    | read begins level groups =>
      refine .read ((orderly_append orderly closed).mpr begins) ?_ _
      rw [nesting_append, closed, level]
      rfl

def segment (tokens : List Token) (first stop : Nat) : List Token :=
  (tokens.drop first).take (stop - first)

section

variable {tokens rest : List Token} {index : Nat} {t : Token}

theorem segment_succ (dropped : tokens.drop index = t :: rest) (count : Nat) :
    segment tokens index (index + 1 + count) = t :: rest.take count := by
  have counted : index + 1 + count - index = count + 1 := by omega
  rw [segment, dropped, counted, List.take_succ_cons]

theorem nesting_segment_closed {consumed later : List Token} (opens : t.kind = .openParen)
    (dropped : tokens.drop index = t :: (consumed ++ later)) (closes : Closes 1 consumed) :
    nesting (segment tokens index (index + 1 + consumed.length)) = 0 ∧
      ∀ stop, index < stop → stop < index + 1 + consumed.length →
        nesting (segment tokens index stop) ≠ 0 := by
  have turn := Token.turn_of_open opens
  obtain ⟨out, first⟩ := closes
  constructor
  · rw [segment_succ dropped, List.take_left, nesting_cons]
    omega
  · intro stop after before
    obtain ⟨count, rfl⟩ : ∃ count, stop = index + 1 + count := ⟨stop - (index + 1), by omega⟩
    have shorter : count ≤ consumed.length := by omega
    have more : consumed.drop count ≠ [] := by
      rw [ne_eq, List.drop_eq_nil_iff]
      omega
    have counted := first (consumed.take count) (consumed.drop count)
      (List.take_append_drop count consumed).symm more
    rw [segment_succ dropped, List.take_append_of_le_length shorter, nesting_cons]
    omega

theorem nesting_segment_unclosed (opens : t.kind = .openParen)
    (dropped : tokens.drop index = t :: rest) (inside : Inside 1 rest) {stop : Nat}
    (after : index < stop) : nesting (segment tokens index stop) ≠ 0 := by
  have turn := Token.turn_of_open opens
  obtain ⟨count, rfl⟩ : ∃ count, stop = index + 1 + count := ⟨stop - (index + 1), by omega⟩
  have counted := inside (rest.take count) (rest.drop count) (List.take_append_drop count rest).symm
  rw [segment_succ dropped, nesting_cons]
  omega

theorem drop_of_getElem? (found : tokens[index]? = some t) :
    tokens.drop index = t :: tokens.drop (index + 1) := by
  obtain ⟨bound, rfl⟩ := List.getElem?_eq_some_iff.mp found
  exact List.drop_eq_getElem_cons bound

theorem lastLocation_drop (found : tokens[index]? = some t) :
    lastLocation (t :: tokens.drop (index + 1)) = lastLocation tokens := by
  have split : tokens = tokens.take index ++ t :: tokens.drop (index + 1) := by
    rw [← drop_of_getElem? found, List.take_append_drop]
  conv => rhs; rw [split]
  exact (lastLocation_append (List.cons_ne_nil t _)).symm

theorem parse_past_end (missing : tokens[index]? = none) :
    parse tokens index = .error ⟨.expectedOpenParen "end of input", lastLocation tokens⟩ := by
  have dropped : tokens.drop index = [] :=
    List.drop_eq_nil_iff.mpr (List.getElem?_eq_none_iff.mp missing)
  rw [parse, dropped]

theorem parse_found (found : tokens[index]? = some t) :
    parse tokens index = (parseGroup t (tokens.drop (index + 1))).map
      fun read => (read.1, tokens.length - read.2.length) := by
  rw [parse, drop_of_getElem? found]

theorem parse_stray (found : tokens[index]? = some t) (closed : t.kind ≠ .openParen) :
    parse tokens index = .error ⟨.expectedOpenParen t.text, t.location⟩ := by
  rw [parse_found found, parseGroup, if_neg closed]
  rfl

theorem parse_open (found : tokens[index]? = some t) (opens : t.kind = .openParen) :
    (∃ g next, parse tokens index = .ok (g, next) ∧ index + 2 ≤ next ∧ next ≤ tokens.length ∧
      nesting (segment tokens index next) = 0 ∧
        ∀ stop, index < stop → stop < next → nesting (segment tokens index stop) ≠ 0) ∨
    parse tokens index = .error ⟨.expectedClosingParen, lastLocation tokens⟩ ∧
      ∀ stop, index < stop → nesting (segment tokens index stop) ≠ 0 := by
  have dropped := drop_of_getElem? found
  have bound := (List.getElem?_eq_some_iff.mp found).1
  have length := List.length_drop (i := index + 1) (l := tokens)
  rw [parse_found found]
  cases outcome : parseGroup t (tokens.drop (index + 1)) with
  | error e =>
    obtain ⟨same, inside⟩ := parseGroup_unclosed outcome opens
    rw [lastLocation_drop found] at same
    subst same
    exact Or.inr ⟨rfl, fun stop after => nesting_segment_unclosed opens dropped inside after⟩
  | ok read =>
    obtain ⟨g, later⟩ := read
    obtain ⟨_, consumed, split, closes⟩ := parseGroup_ok outcome
    rw [split] at dropped length
    rw [List.length_append] at length
    have next : tokens.length - later.length = index + 1 + consumed.length := by omega
    have nonempty : consumed ≠ [] := by
      rintro rfl
      exact absurd closes.1 (by decide)
    have positive := List.length_pos_iff.mpr nonempty
    refine Or.inl ⟨g, tokens.length - later.length, rfl, by omega, by omega, ?_⟩
    rw [next]
    exact nesting_segment_closed opens dropped closes

theorem lastLocation_eq (tokens : List Token) :
    lastLocation tokens = (tokens.getLast?.map Token.location).getD ⟨0, 0⟩ := by
  unfold lastLocation
  cases tokens.getLast? <;> rfl

end

/-- The parser and the count agree: on what can be read, on which complaint is made when something
cannot, and on the token that it is about. A program is never left half read. A single group ends
where the count from its first token on comes back to zero for the first time. -/
theorem parse_verdict_by_nesting (tokens : List Token) :
    (¬ Orderly tokens → ∃ before t after, tokens = before ++ t :: after ∧ Orderly before ∧
      nesting before = 0 ∧ t.kind ≠ .openParen ∧
        parseProgram tokens = .error ⟨.expectedOpenParen t.text, t.location⟩) ∧
    (Orderly tokens → 0 < nesting tokens → ∃ last, tokens.getLast? = some last ∧
      parseProgram tokens = .error ⟨.expectedClosingParen, last.location⟩) ∧
    (Orderly tokens → nesting tokens ≤ 0 → ∃ program, parseProgram tokens = .ok program) ∧
    (∀ e text, parseProgram tokens = .error e → e.cause ≠ .incompleteParse text) ∧
    ∀ index,
      (tokens[index]? = none → parse tokens index = .error
        ⟨.expectedOpenParen "end of input", (tokens.getLast?.map Token.location).getD ⟨0, 0⟩⟩) ∧
      (∀ t, tokens[index]? = some t → t.kind ≠ .openParen →
        parse tokens index = .error ⟨.expectedOpenParen t.text, t.location⟩) ∧
      ∀ t, tokens[index]? = some t → t.kind = .openParen →
        (∃ g next, parse tokens index = .ok (g, next) ∧ index + 2 ≤ next ∧
          next ≤ tokens.length ∧ nesting (segment tokens index next) = 0 ∧
          ∀ stop, index < stop → stop < next → nesting (segment tokens index stop) ≠ 0) ∨
        ∃ last, tokens.getLast? = some last ∧
          parse tokens index = .error ⟨.expectedClosingParen, last.location⟩ ∧
          ∀ stop, index < stop → stop ≤ tokens.length →
            nesting (segment tokens index stop) ≠ 0 := by
  have judged : Judged tokens (parseProgram tokens) := (parseGroups_judged tokens).map programOf
  refine ⟨judged.of_disorderly, ?_, judged.of_closed, fun e text failed =>
    judged.not_incomplete failed text, ?_⟩
  · intro orderly positive
    have nonempty : tokens ≠ [] := by
      rintro rfl
      exact absurd positive (by decide)
    obtain ⟨last, found, place⟩ := lastLocation_of_nonempty nonempty
    exact ⟨last, found, by rw [judged.of_unclosed orderly positive, place]⟩
  · intro index
    refine ⟨?_, fun t => parse_stray, ?_⟩
    · intro missing
      rw [parse_past_end missing, lastLocation_eq]
    · intro t found opens
      rcases parse_open found opens with read | ⟨failed, unclosed⟩
      · exact Or.inl read
      · have nonempty : tokens ≠ [] := by
          rintro rfl
          cases found
        obtain ⟨last, ends, place⟩ := lastLocation_of_nonempty nonempty
        rw [place] at failed
        exact Or.inr ⟨last, ends, failed, fun stop after _ => unclosed stop after⟩

end SnapshotLisp
