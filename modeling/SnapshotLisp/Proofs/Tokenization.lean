import SnapshotLisp.Proofs.Lexing

/-!
The tokens of a text, said without saying how to find them: stretches of the text in their order,
with nothing but blanks around them, each spelled as its kind asks and none ending where it could go
on. Every text can be cut in this way, and in this way only. Positions count bytes, so the text is
taken apart by characters and measured in bytes.
-/
namespace SnapshotLisp

def byteLength (cs : List Char) : Nat := (String.ofList cs).utf8ByteSize

@[simp] theorem byteLength_nil : byteLength [] = 0 := rfl

@[simp] theorem byteLength_cons (c : Char) (cs : List Char) :
    byteLength (c :: cs) = c.utf8Size + byteLength cs := by
  simp [byteLength, String.ofList_cons]

@[simp] theorem byteLength_append (cs ds : List Char) :
    byteLength (cs ++ ds) = byteLength cs + byteLength ds := by
  simp [byteLength, String.ofList_append]

theorem byteLength_toList (text : String) : byteLength text.toList = text.utf8ByteSize := by
  rw [byteLength, String.ofList_toList]

theorem byteLength_pos {cs : List Char} (nonempty : cs ≠ []) : 0 < byteLength cs := by
  cases cs with
  | nil => exact absurd rfl nonempty
  | cons c cs =>
    have positive := c.utf8Size_pos
    rw [byteLength_cons]
    omega

theorem beginning_of_byteLength_le {cs ds rest rest' : List Char} (same : cs ++ rest = ds ++ rest')
    (shorter : byteLength cs ≤ byteLength ds) : ∃ more, ds = cs ++ more ∧ rest = more ++ rest' := by
  rcases List.append_eq_append_iff.mp same with ⟨more, longer, split⟩ | ⟨more, longer, split⟩
  · exact ⟨more, longer, split⟩
  · cases more with
    | nil => exact ⟨[], by simpa using longer.symm, by simpa using split.symm⟩
    | cons c more =>
      have positive := c.utf8Size_pos
      rw [longer, byteLength_append, byteLength_cons] at shorter
      omega

theorem Cursor.afterAll_position (cursor : Cursor) (cs : List Char) :
    (cursor.afterAll cs).position = cursor.position + byteLength cs := by
  induction cs generalizing cursor with
  | nil => rfl
  | cons c cs ih =>
    have step : (cursor.afterAll (c :: cs)).position = (cursor.after c).position + byteLength cs :=
      ih (cursor.after c)
    rw [step, byteLength_cons]
    simp only [after]
    omega

namespace TokenKind

/-- How a token of the kind may be written. A blank is not among the tokens. -/
inductive Spells : TokenKind → List Char → Prop where
  | openParen : Spells .openParen ['(']
  | closeParen : Spells .closeParen [')']
  | integer {digits : List Char} (nonempty : digits ≠ []) (decimal : ∀ c ∈ digits, c.isDigit) :
      Spells .integer digits
  | identifier {first : Char} {later : List Char} (solid : isBlank first = false)
      (notOpen : first ≠ '(') (notClose : first ≠ ')') (notDigit : first.isDigit = false)
      (continues : ∀ c ∈ later, isBlank c = false ∧ c ≠ ')') :
      Spells .identifier (first :: later)

/-- A token of the kind may end where this text begins. -/
def MayEndAt : TokenKind → List Char → Prop
  | .integer, rest => ∀ c, rest.head? = some c → c.isDigit = false
  | .identifier, rest => ∀ c, rest.head? = some c → isBlank c ∨ c = ')'
  | .openParen, _ | .closeParen, _ | .blank, _ => True

theorem Spells.accepts {kind : TokenKind} {text : List Char} (spelled : kind.Spells text) :
    kind.Accepts text ∧ kind ≠ .blank := by
  cases spelled with
  | openParen => exact ⟨⟨rfl, by simp⟩, nofun⟩
  | closeParen => exact ⟨⟨rfl, by simp⟩, nofun⟩
  | integer nonempty decimal =>
    cases text with
    | nil => exact absurd rfl nonempty
    | cons first later =>
      refine ⟨⟨decimal first List.mem_cons_self, ?_⟩, nofun⟩
      intro c member
      exact decimal c (List.mem_cons_of_mem first member)
  | identifier solid notOpen notClose notDigit continues =>
    refine ⟨⟨by simp [starts, solid, notOpen, notClose, notDigit], ?_⟩, nofun⟩
    intro c member
    simp [TokenKind.continues, continues c member]

theorem spells_of_accepts {kind : TokenKind} {text : List Char} (accepted : kind.Accepts text)
    (solid : kind ≠ .blank) : kind.Spells text := by
  cases text with
  | nil => exact accepted.elim
  | cons first later =>
    obtain ⟨begins, continued⟩ := accepted
    cases kind with
    | openParen | closeParen =>
      simp only [starts, continues, beq_iff_eq] at begins continued
      subst begins
      cases later with
      | nil => constructor
      | cons c later => exact absurd (continued c List.mem_cons_self) Bool.false_ne_true
    | integer =>
      refine .integer (List.cons_ne_nil first later) fun c member => ?_
      rcases List.mem_cons.mp member with same | member
      · subst same
        exact begins
      · exact continued c member
    | identifier =>
      simp only [starts, Bool.and_eq_true, Bool.not_eq_true', bne_iff_ne] at begins
      obtain ⟨⟨⟨solid, notOpen⟩, notClose⟩, notDigit⟩ := begins
      refine .identifier solid notOpen notClose notDigit fun c member => ?_
      have next := continued c member
      simpa [continues] using next
    | blank => exact absurd rfl solid

theorem mayEndAt_iff {kind : TokenKind} (solid : kind ≠ .blank) (rest : List Char) :
    kind.MayEndAt rest ↔ ∀ c, rest.head? = some c → kind.continues c = false := by
  cases kind with
  | openParen | closeParen => simp [MayEndAt, continues]
  | integer => simp [MayEndAt, continues]
  | identifier =>
    simp only [MayEndAt, continues, Bool.and_eq_false_iff, Bool.not_eq_false', bne_eq_false_iff_eq]
  | blank => exact absurd rfl solid

theorem Spells.nonempty {kind : TokenKind} {text : List Char} (spelled : kind.Spells text) :
    text ≠ [] := by
  cases spelled with
  | openParen | closeParen => simp
  | integer nonempty decimal => exact nonempty
  | identifier => simp

theorem ofChar?_of_starts {kind : TokenKind} {c : Char} (begins : kind.starts c) :
    ofChar? c = some kind := by
  cases kind with
  | openParen | closeParen =>
    simp only [starts, beq_iff_eq] at begins
    subst begins
    decide
  | integer =>
    have digit : c.isDigit := begins
    have notOpen : c ≠ '(' := by
      rintro rfl
      exact absurd digit (by decide)
    have notClose : c ≠ ')' := by
      rintro rfl
      exact absurd digit (by decide)
    simp [ofChar?, all, starts, digit, notOpen, notClose]
  | identifier =>
    simp only [starts, Bool.and_eq_true, Bool.not_eq_true', bne_iff_ne] at begins
    simp [ofChar?, all, starts, begins]
  | blank =>
    have blank : isBlank c := begins
    have notOpen : c ≠ '(' := by
      rintro rfl
      exact absurd blank (by decide)
    have notClose : c ≠ ')' := by
      rintro rfl
      exact absurd blank (by decide)
    have notDigit : c.isDigit = false := by
      cases digit : c.isDigit with
      | false => rfl
      | true => exact absurd blank (by simp [isBlank_of_isDigit digit])
    simp [ofChar?, all, starts, blank, notOpen, notClose, notDigit]

theorem eq_of_starts {kind other : TokenKind} {c : Char} (one : kind.starts c)
    (two : other.starts c) : kind = other := by
  have found := ofChar?_of_starts one
  rw [ofChar?_of_starts two] at found
  exact (Option.some.inj found).symm

end TokenKind

def Token.stop (t : Token) : Nat := t.position + t.text.utf8ByteSize

/-- The tokens are those of a text that begins at that byte. -/
structure Tokenization (start : Nat) (source : List Char) (tokens : List Token) : Prop where
  spelled : ∀ t ∈ tokens, t.kind.Spells t.text.toList
  slice : ∀ t ∈ tokens, ∃ before after, source = before ++ (t.text.toList ++ after) ∧
    t.position = start + byteLength before ∧ t.kind.MayEndAt after
  ordered : tokens.Pairwise fun t u => t.stop ≤ u.position
  covered : ∀ before c after, source = before ++ c :: after →
    isBlank c ∨ ∃ t ∈ tokens, t.position ≤ start + byteLength before ∧
      start + byteLength before < t.stop

namespace Tokenization

variable {start : Nat} {c : Char} {cs rest : List Char} {t : Token} {tokens later : List Token}

theorem nil (start : Nat) : Tokenization start [] [] where
  spelled := by simp
  slice := by simp
  ordered := .nil
  covered := by simp

theorem stop_eq (t : Token) : t.stop = t.position + byteLength t.text.toList := by
  rw [Token.stop, byteLength_toList]

theorem position_lt_stop (cut : Tokenization start cs tokens) (member : t ∈ tokens) :
    t.position < t.stop := by
  have positive := byteLength_pos (cut.spelled t member).nonempty
  rw [stop_eq]
  omega

theorem start_le (cut : Tokenization start cs tokens) (member : t ∈ tokens) :
    start ≤ t.position := by
  obtain ⟨before, after, _, place, _⟩ := cut.slice t member
  omega

theorem eq_nil (cut : Tokenization start [] tokens) : tokens = [] := by
  cases tokens with
  | nil => rfl
  | cons t later =>
    obtain ⟨before, after, whole, _⟩ := cut.slice t List.mem_cons_self
    have nonempty := (cut.spelled t List.mem_cons_self).nonempty
    simp only [List.nil_eq, List.append_eq_nil_iff] at whole
    exact absurd whole.2.1 nonempty

theorem blank (empty : isBlank c) (cut : Tokenization (start + c.utf8Size) cs tokens) :
    Tokenization start (c :: cs) tokens where
  spelled := cut.spelled
  slice := by
    intro t member
    obtain ⟨before, after, whole, place, ended⟩ := cut.slice t member
    refine ⟨c :: before, after, by rw [whole, List.cons_append], ?_, ended⟩
    rw [byteLength_cons]
    omega
  ordered := cut.ordered
  covered := by
    intro before d after whole
    cases before with
    | nil =>
      simp only [List.nil_append, List.cons.injEq] at whole
      rw [← whole.1]
      exact Or.inl empty
    | cons x before =>
      simp only [List.cons_append, List.cons.injEq] at whole
      obtain ⟨same, whole⟩ := whole
      subst same
      have inside := cut.covered before d after whole
      rw [byteLength_cons, ← Nat.add_assoc]
      exact inside

theorem of_blank (empty : isBlank c) (cut : Tokenization start (c :: cs) tokens) :
    Tokenization (start + c.utf8Size) cs tokens where
  spelled := cut.spelled
  slice := by
    intro t member
    obtain ⟨before, after, whole, place, ended⟩ := cut.slice t member
    have spelled := cut.spelled t member
    cases before with
    | nil =>
      -- A token does not begin with a blank.
      obtain ⟨accepted, solid⟩ := spelled.accepts
      have first : c ∈ t.text.toList := by
        cases text : t.text.toList with
        | nil => exact absurd text spelled.nonempty
        | cons d later =>
          simp only [text, List.nil_append, List.cons_append, List.cons.injEq] at whole
          simp [whole.1]
      exact absurd empty (by simp [isBlank_of_accepts accepted solid c first])
    | cons x before =>
      simp only [List.cons_append, List.cons.injEq] at whole
      obtain ⟨same, whole⟩ := whole
      subst same
      rw [byteLength_cons] at place
      exact ⟨before, after, whole, by omega, ended⟩
  ordered := cut.ordered
  covered := by
    intro before d after whole
    have inside := cut.covered (c :: before) d after (by rw [whole, List.cons_append])
    rw [byteLength_cons, ← Nat.add_assoc] at inside
    exact inside

theorem token (spelled : t.kind.Spells t.text.toList) (ended : t.kind.MayEndAt rest)
    (cut : Tokenization t.stop rest later) :
    Tokenization t.position (t.text.toList ++ rest) (t :: later) where
  spelled := by
    intro u member
    rcases List.mem_cons.mp member with same | member
    · subst same
      exact spelled
    · exact cut.spelled u member
  slice := by
    intro u member
    rcases List.mem_cons.mp member with same | member
    · subst same
      exact ⟨[], rest, rfl, rfl, ended⟩
    · obtain ⟨before, after, whole, place, ends⟩ := cut.slice u member
      refine ⟨t.text.toList ++ before, after, by rw [whole, List.append_assoc], ?_, ends⟩
      rw [byteLength_append, place, stop_eq, Nat.add_assoc]
  ordered := List.pairwise_cons.mpr ⟨fun u member => cut.start_le member, cut.ordered⟩
  covered := by
    intro before c after whole
    by_cases inside : byteLength before < byteLength t.text.toList
    · refine Or.inr ⟨t, List.mem_cons_self, by omega, ?_⟩
      rw [stop_eq]
      omega
    · obtain ⟨more, same, split⟩ := beginning_of_byteLength_le whole (by omega)
      subst same
      rw [byteLength_append, ← Nat.add_assoc, ← stop_eq]
      rcases cut.covered more c after split with empty | ⟨u, member, covers⟩
      · exact Or.inl empty
      · exact Or.inr ⟨u, List.mem_cons_of_mem t member, covers⟩

theorem of_token (cut : Tokenization t.position (t.text.toList ++ rest) (t :: later)) :
    Tokenization t.stop rest later where
  spelled := fun u member => cut.spelled u (List.mem_cons_of_mem t member)
  slice := by
    intro u member
    obtain ⟨before, after, whole, place, ends⟩ := cut.slice u (List.mem_cons_of_mem t member)
    have behind : t.stop ≤ u.position := (List.pairwise_cons.mp cut.ordered).1 u member
    rw [stop_eq] at behind
    obtain ⟨more, same, split⟩ := beginning_of_byteLength_le whole (by omega)
    subst same
    rw [byteLength_append] at place
    refine ⟨more, after, split, ?_, ends⟩
    rw [stop_eq]
    omega
  ordered := (List.pairwise_cons.mp cut.ordered).2
  covered := by
    intro before c after whole
    have inside := cut.covered (t.text.toList ++ before) c after (by rw [whole, List.append_assoc])
    rw [byteLength_append, ← Nat.add_assoc, ← stop_eq] at inside
    rcases inside with empty | ⟨u, member, low, high⟩
    · exact Or.inl empty
    · rcases List.mem_cons.mp member with same | member
      · subst same
        omega
      · exact Or.inr ⟨u, member, low, high⟩

theorem first_of_solid (solid : isBlank c = false) (cut : Tokenization start (c :: cs) tokens) :
    ∃ t later, tokens = t :: later ∧ t.position = start := by
  obtain ⟨t, member, low, high⟩ : ∃ t ∈ tokens, t.position ≤ start ∧ start < t.stop := by
    simpa [solid] using cut.covered [] c cs rfl
  have least := cut.start_le member
  cases tokens with
  | nil => simp at member
  | cons u later =>
    refine ⟨u, later, rfl, ?_⟩
    have bound := cut.start_le List.mem_cons_self
    rcases List.mem_cons.mp member with same | member
    · subst same
      omega
    · have behind : u.stop ≤ t.position := (List.pairwise_cons.mp cut.ordered).1 t member
      have grows := cut.position_lt_stop List.mem_cons_self
      omega

theorem blanks {text : List Char} (empty : ∀ c ∈ text, isBlank c) :
    Tokenization start (text ++ rest) tokens ↔
      Tokenization (start + byteLength text) rest tokens := by
  induction text generalizing start with
  | nil => simp
  | cons c text ih =>
    have first : isBlank c := empty c List.mem_cons_self
    have others : ∀ d ∈ text, isBlank d := fun d member => empty d (List.mem_cons_of_mem c member)
    rw [byteLength_cons, ← Nat.add_assoc, ← ih others]
    exact ⟨of_blank first, blank first⟩

end Tokenization

theorem isBlank_of_accepts_blank {text : List Char} (accepted : TokenKind.blank.Accepts text) :
    ∀ c ∈ text, isBlank c := by
  cases text with
  | nil => exact accepted.elim
  | cons first later =>
    obtain ⟨begins, continued⟩ := accepted
    intro c member
    rcases List.mem_cons.mp member with same | member
    · subst same
      exact begins
    · exact continued c member

theorem eq_nil_of_longest {kind : TokenKind} {text more rest : List Char}
    (accepted : kind.Accepts (text ++ more)) (nonempty : text ≠ [])
    (longest : ∀ c, (more ++ rest).head? = some c → kind.continues c = false) : more = [] := by
  cases text with
  | nil => exact absurd rfl nonempty
  | cons first later =>
    cases more with
    | nil => rfl
    | cons c more =>
      have goesOn : kind.continues c := accepted.2 c (by simp)
      have stops := longest c rfl
      rw [goesOn] at stops
      cases stops

theorem eq_of_longest {kind : TokenKind} {text text' rest rest' : List Char}
    (accepted : kind.Accepts text) (accepted' : kind.Accepts text')
    (longest : ∀ c, rest.head? = some c → kind.continues c = false)
    (longest' : ∀ c, rest'.head? = some c → kind.continues c = false)
    (same : text ++ rest = text' ++ rest') : text = text' := by
  have nonempty : ∀ {cs}, kind.Accepts cs → cs ≠ [] := by
    rintro cs fits rfl
    exact fits
  rcases List.append_eq_append_iff.mp same with ⟨more, longer, split⟩ | ⟨more, longer, split⟩
  · subst longer
    subst split
    simp [eq_nil_of_longest accepted' (nonempty accepted) longest]
  · subst longer
    subst split
    simp [eq_nil_of_longest accepted (nonempty accepted') longest']

section

variable {cursor : Cursor} {cs : List Char} {all : List Token}

theorem Lexemes.tokenization (cut : Lexemes cursor cs all) :
    Tokenization cursor.position cs (all.filter fun t => t.kind != .blank) := by
  induction cut with
  | nil cursor => exact .nil cursor.position
  | @cons cursor kind text rest later accepted longest below ih =>
    rw [Cursor.afterAll_position] at ih
    by_cases empty : kind = .blank
    · subst empty
      exact (Tokenization.blanks (isBlank_of_accepts_blank accepted)).mpr ih
    · rw [List.filter_cons_of_pos (by simpa using empty)]
      have spelled := TokenKind.spells_of_accepts accepted empty
      have ended := (TokenKind.mayEndAt_iff empty rest).mpr longest
      have written : (String.ofList text).toList = text := String.toList_ofList
      have stop : Token.stop ⟨kind, String.ofList text, cursor.position, cursor.location⟩ =
          cursor.position + byteLength text := rfl
      rw [← stop] at ih
      have cut := Tokenization.token (by rwa [written]) ended ih
      rwa [written] at cut

def Token.lexeme (t : Token) : TokenKind × String × Nat := (t.kind, t.text, t.position)

theorem Tokenization.first_lexeme {start : Nat} {kind : TokenKind} {text rest : List Char}
    {tokens : List Token} (tokenized : Tokenization start (text ++ rest) tokens)
    (accepted : kind.Accepts text) (solid : kind ≠ .blank)
    (longest : ∀ c, rest.head? = some c → kind.continues c = false) :
    ∃ t later, tokens = t :: later ∧ t.kind = kind ∧ t.text = String.ofList text ∧
      t.position = start ∧ Tokenization (start + byteLength text) rest later := by
  cases text with
  | nil => exact accepted.elim
  | cons c more =>
    have first : isBlank c = false := isBlank_of_accepts accepted solid c List.mem_cons_self
    obtain ⟨t, later, same, place⟩ := tokenized.first_of_solid first
    subst same
    obtain ⟨before, after, whole, position, ended⟩ := tokenized.slice t List.mem_cons_self
    obtain ⟨fits, notBlank⟩ := (tokenized.spelled t List.mem_cons_self).accepts
    have stops := (TokenKind.mayEndAt_iff notBlank after).mp ended
    -- The token is at the start, so nothing stands before it.
    have atStart : before = [] := by
      cases before with
      | nil => rfl
      | cons d before =>
        have positive := d.utf8Size_pos
        rw [byteLength_cons] at position
        omega
    subst atStart
    have kinds : t.kind = kind := by
      cases written : t.text.toList with
      | nil => rw [written] at fits; exact fits.elim
      | cons d later =>
        rw [written] at fits whole
        simp only [List.nil_append, List.cons_append, List.cons.injEq] at whole
        rw [← whole.1] at fits
        exact TokenKind.eq_of_starts fits.1 accepted.1
    subst kinds
    have texts : t.text.toList = c :: more :=
      eq_of_longest fits accepted stops longest whole.symm
    subst place
    rw [← texts] at tokenized ⊢
    refine ⟨t, later, rfl, rfl, String.ofList_toList.symm, rfl, ?_⟩
    rw [← Tokenization.stop_eq]
    exact tokenized.of_token

theorem Lexemes.tokenization_unique (cut : Lexemes cursor cs all) {other : List Token}
    (tokenized : Tokenization cursor.position cs other) :
    other.map Token.lexeme = (all.filter fun t => t.kind != .blank).map Token.lexeme := by
  -- The induction is on the lexemes that the text was cut into: at each of them the other tokens
  -- have no choice.
  induction cut generalizing other with
  | nil cursor => rw [tokenized.eq_nil]; rfl
  | @cons cursor kind text rest later accepted longest below ih =>
    rw [Cursor.afterAll_position] at ih
    by_cases empty : kind = .blank
    · subst empty
      exact ih ((Tokenization.blanks (isBlank_of_accepts_blank accepted)).mp tokenized)
    · obtain ⟨t, others, same, kinds, texts, place, cut⟩ :=
        tokenized.first_lexeme accepted empty longest
      subst same
      rw [List.filter_cons_of_pos (by simpa using empty), List.map_cons, List.map_cons, ih cut]
      simp [Token.lexeme, kinds, texts, place]

end

/-- Every text has its tokens, and they are its one tokenization, up to the locations that a
tokenization does not speak of. -/
theorem lex_unique_tokenization (source : String) :
    ∃ tokens, lex source = .ok tokens ∧ Tokenization 0 source.toList tokens ∧
      (∀ t ∈ tokens, t.text ≠ "" ∧ t.kind ≠ .blank) ∧
      (tokens.Pairwise fun t u => t.position < u.position) ∧
      ∀ other, Tokenization 0 source.toList other →
        other.map Token.lexeme = tokens.map Token.lexeme := by
  obtain ⟨all, cut, lexed⟩ := lex_total source
  have tokenized := cut.tokenization
  refine ⟨_, lexed, tokenized, ?_, ?_, fun other another => cut.tokenization_unique another⟩
  · intro t member
    have spelled := tokenized.spelled t member
    refine ⟨?_, spelled.accepts.2⟩
    intro empty
    exact spelled.nonempty (by rw [empty]; rfl)
  · refine tokenized.ordered.imp_of_mem ?_
    intro t u member _ behind
    exact Nat.lt_of_lt_of_le (tokenized.position_lt_stop member) behind

end SnapshotLisp
