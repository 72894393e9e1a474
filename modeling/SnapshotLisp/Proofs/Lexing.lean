import SnapshotLisp.Token.Lexer
import SnapshotLisp.Proofs.Lines

/-!
Where tokens come from. Every text is cut into lexemes without a gap, so a token is a stretch of the
text, at the place where it says it stands. No token holds a blank, and therefore none reaches over
the end of a line.
-/
namespace SnapshotLisp

/-- The text can be a lexeme of the kind. -/
def TokenKind.Accepts (kind : TokenKind) : List Char → Prop
  | [] => False
  | first :: later => kind.starts first ∧ ∀ c ∈ later, kind.continues c

/-- The text from the cursor on, cut into lexemes each of which is as long as its kind lets it. -/
inductive Lexemes : Cursor → List Char → List Token → Prop where
  | nil (cursor : Cursor) : Lexemes cursor [] []
  | cons {cursor : Cursor} {kind : TokenKind} {text rest : List Char} {later : List Token}
      (accepted : kind.Accepts text)
      (longest : ∀ c, rest.head? = some c → kind.continues c = false)
      (below : Lexemes (cursor.afterAll text) rest later) :
      Lexemes cursor (text ++ rest)
        (⟨kind, String.ofList text, cursor.position, cursor.location⟩ :: later)

theorem starts_of_ofChar? {c : Char} {kind : TokenKind} (found : TokenKind.ofChar? c = some kind) :
    kind.starts c := by
  simpa using List.find?_some found

theorem accepts_takeWhile {c : Char} {kind : TokenKind} (found : TokenKind.ofChar? c = some kind)
    (cs : List Char) : kind.Accepts (c :: cs.takeWhile kind.continues) :=
  ⟨starts_of_ofChar? found, fun c member => List.all_eq_true.mp List.all_takeWhile c member⟩

theorem head_dropWhile {kind : TokenKind} {cs : List Char} {c : Char}
    (stops : (cs.dropWhile kind.continues).head? = some c) : kind.continues c = false := by
  have ends := List.head?_dropWhile_not kind.continues cs
  rw [stops] at ends
  simpa using ends

theorem lexemes_total (cursor : Cursor) (cs : List Char) :
    ∃ tokens, lexemes cursor cs = .ok tokens ∧ Lexemes cursor cs tokens := by
  fun_induction lexemes cursor cs with
  | case1 cursor => exact ⟨[], rfl, .nil cursor⟩
  | case2 cursor c cs none =>
    have some := TokenKind.ofChar?_isSome c
    rw [none] at some
    cases some
  | case3 cursor c cs kind found text e failed ih =>
    obtain ⟨tokens, read, _⟩ := ih
    rw [failed] at read
    cases read
  | case4 cursor c cs kind found text later read ih =>
    obtain ⟨tokens, same, cut⟩ := ih
    rw [read] at same
    cases same
    refine ⟨_, rfl, ?_⟩
    have whole : c :: cs = text ++ cs.dropWhile kind.continues := by
      simp [text]
    rw [whole]
    exact .cons (accepts_takeWhile found cs) (fun _ => head_dropWhile) cut

theorem Cursor.afterAll_append (cursor : Cursor) (cs ds : List Char) :
    cursor.afterAll (cs ++ ds) = (cursor.afterAll cs).afterAll ds :=
  List.foldl_append

theorem Cursor.afterAll_location (cursor : Cursor) (cs : List Char) :
    (cursor.afterAll cs).location = cursor.location.afterAll cs := by
  induction cs generalizing cursor with
  | nil => rfl
  | cons c cs ih => exact ih (cursor.after c)

theorem Lexemes.stretch {cursor : Cursor} {cs : List Char} {tokens : List Token}
    (cut : Lexemes cursor cs tokens) {t : Token} (member : t ∈ tokens) :
    t.kind.Accepts t.text.toList ∧ ∃ before rest, cs = before ++ (t.text.toList ++ rest) ∧
      cursor.afterAll before = ⟨t.position, t.location⟩ := by
  induction cut with
  | nil cursor => simp at member
  | @cons cursor kind text rest later accepted longest below ih =>
    rcases List.mem_cons.mp member with same | member
    · subst same
      rw [String.toList_ofList]
      exact ⟨accepted, [], rest, rfl, rfl⟩
    · obtain ⟨fits, before, behind, whole, place⟩ := ih member
      refine ⟨fits, text ++ before, behind, ?_, ?_⟩
      · rw [whole, List.append_assoc]
      · rw [Cursor.afterAll_append, place]

theorem lex_total (source : String) :
    ∃ all, Lexemes .start source.toList all ∧
      lex source = .ok (all.filter fun t => t.kind != .blank) := by
  obtain ⟨all, read, cut⟩ := lexemes_total .start source.toList
  exact ⟨all, cut, by rw [lex, read]; rfl⟩

theorem isBlank_of_isDigit {c : Char} (digit : c.isDigit) : isBlank c = false := by
  obtain ⟨low, high⟩ := Char.isDigit_iff_toNat.mp digit
  have least : 48 ≤ c.toNat := low
  have greatest : c.toNat ≤ 57 := high
  simp only [isBlank, blankRanges, List.any_cons, List.any_nil, Bool.or_false, Bool.or_eq_false_iff,
    Bool.and_eq_false_iff, decide_eq_false_iff_not]
  omega

theorem isBlank_of_accepts {kind : TokenKind} {text : List Char} (accepted : kind.Accepts text)
    (solid : kind ≠ .blank) : ∀ c ∈ text, isBlank c = false := by
  cases text with
  | nil => exact accepted.elim
  | cons first later =>
    obtain ⟨starts, continues⟩ := accepted
    intro c member
    cases kind with
    | openParen | closeParen =>
      simp only [TokenKind.starts, TokenKind.continues, beq_iff_eq] at starts continues
      rcases List.mem_cons.mp member with same | member
      · subst same
        subst starts
        decide
      · exact absurd (continues c member) Bool.false_ne_true
    | integer =>
      rcases List.mem_cons.mp member with same | member
      · subst same
        exact isBlank_of_isDigit starts
      · exact isBlank_of_isDigit (continues c member)
    | identifier =>
      rcases List.mem_cons.mp member with same | member
      · subst same
        simp only [TokenKind.starts, Bool.and_eq_true, Bool.not_eq_true'] at starts
        exact starts.1.1.1
      · have continued := continues c member
        simp only [TokenKind.continues, Bool.and_eq_true, Bool.not_eq_true'] at continued
        exact continued.1
    | blank => exact absurd rfl solid

theorem solid_of_not_blank {text : List Char} (solid : ∀ c ∈ text, isBlank c = false) :
    Solid text := by
  intro c member
  constructor
  · intro same
    subst same
    exact absurd (solid _ member) (by decide)
  · intro same
    subst same
    exact absurd (solid _ member) (by decide)

section

variable {source : String} {tokens : List Token} {t : Token}

theorem token_stretch (lexed : lex source = .ok tokens) (member : t ∈ tokens) :
    t.kind ≠ .blank ∧ t.kind.Accepts t.text.toList ∧
      ∃ before rest, source.toList = before ++ (t.text.toList ++ rest) ∧
        Cursor.start.afterAll before = ⟨t.position, t.location⟩ := by
  obtain ⟨all, cut, read⟩ := lex_total source
  rw [lexed] at read
  cases read
  obtain ⟨kept, solid⟩ := List.mem_filter.mp member
  exact ⟨by simpa using solid, cut.stretch kept⟩

theorem token_solid (lexed : lex source = .ok tokens) (member : t ∈ tokens) :
    Solid t.text.toList := by
  obtain ⟨solid, accepted, _⟩ := token_stretch lexed member
  exact solid_of_not_blank (isBlank_of_accepts accepted solid)

theorem token_oneLine (lexed : lex source = .ok tokens) (member : t ∈ tokens) : OneLine t.text :=
  fun newline => (token_solid lexed member _ newline).1 rfl

theorem token_nonempty (lexed : lex source = .ok tokens) (member : t ∈ tokens) :
    t.text.toList ≠ [] := by
  obtain ⟨_, accepted, _⟩ := token_stretch lexed member
  intro empty
  rw [empty] at accepted
  exact accepted

theorem token_in_line (lexed : lex source = .ok tokens) (member : t ∈ tokens) :
    1 ≤ t.location.column ∧ ∃ line, sourceLine source t.location.line = some line ∧
      t.text.toList <+: line.toList.drop (t.location.column - 1) := by
  obtain ⟨_, _, before, rest, whole, place⟩ := token_stretch lexed member
  have shown := Location.start_shows before (token_solid lexed member)
    (token_nonempty lexed member) rest whole
  have counted : Location.start.afterAll before = t.location := calc
    Location.start.afterAll before = (Cursor.start.afterAll before).location :=
      (Cursor.start.afterAll_location before).symm
    _ = t.location := by rw [place]
  rw [counted] at shown
  exact shown

end

end SnapshotLisp
