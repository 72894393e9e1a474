import SnapshotLisp.Proofs.Counting
import SnapshotLisp.Proofs.Printing

/-!
Blanks between tokens. At a blank there is nothing to remember but where one is: what stands in
front of it and what stands behind it are lexed each for itself, and the tokens behind are those of
their own text, moved. So the blanks between tokens may be exchanged for others.
-/
namespace SnapshotLisp

def tokensFrom (cursor : Cursor) (cs : List Char) : Except LexError (List Token) :=
  (lexemes cursor cs).map fun all => all.filter fun t => t.kind != .blank

theorem lex_eq (source : String) : lex source = tokensFrom .start source.toList := rfl

section

variable {cursor : Cursor} {kind : TokenKind} {text rest : List Char}

theorem lexemes_of_longest (cursor : Cursor) (accepted : kind.Accepts text)
    (longest : ∀ c, rest.head? = some c → kind.continues c = false) :
    lexemes cursor (text ++ rest) = (lexemes (cursor.afterAll text) rest).map
      (⟨kind, String.ofList text, cursor.position, cursor.location⟩ :: ·) := by
  cases text with
  | nil => exact accepted.elim
  | cons first later =>
    obtain ⟨begins, continued⟩ := accepted
    have ended : rest.takeWhile kind.continues = [] ∧ rest.dropWhile kind.continues = rest := by
      cases rest with
      | nil => exact ⟨rfl, rfl⟩
      | cons c rest => simp [longest c rfl]
    have taken : (later ++ rest).takeWhile kind.continues = later := by
      rw [List.takeWhile_append_of_pos continued, ended.1, List.append_nil]
    have left : (later ++ rest).dropWhile kind.continues = rest := by
      rw [List.dropWhile_append_of_pos continued, ended.2]
    rw [List.cons_append, lexemes, TokenKind.ofChar?_of_starts begins]
    simp only [taken, left]
    cases lexemes (cursor.afterAll (first :: later)) rest <;> rfl

theorem tokensFrom_token (cursor : Cursor) (accepted : kind.Accepts text) (solid : kind ≠ .blank)
    (longest : ∀ c, rest.head? = some c → kind.continues c = false) :
    tokensFrom cursor (text ++ rest) = (tokensFrom (cursor.afterAll text) rest).map
      (⟨kind, String.ofList text, cursor.position, cursor.location⟩ :: ·) := by
  unfold tokensFrom
  rw [lexemes_of_longest cursor accepted longest]
  cases lexemes (cursor.afterAll text) rest with
  | error e => rfl
  | ok all => simp [Except.map, solid]

theorem tokensFrom_run (cursor : Cursor) (empty : ∀ c ∈ text, isBlank c)
    (longest : ∀ c, rest.head? = some c → isBlank c = false) :
    tokensFrom cursor (text ++ rest) = tokensFrom (cursor.afterAll text) rest := by
  cases text with
  | nil => rfl
  | cons first later =>
    have accepted : TokenKind.blank.Accepts (first :: later) :=
      ⟨empty first List.mem_cons_self, fun c member => empty c (List.mem_cons_of_mem first member)⟩
    unfold tokensFrom
    rw [lexemes_of_longest cursor accepted longest]
    cases lexemes (cursor.afterAll (first :: later)) rest with
    | error e => rfl
    | ok all => simp [Except.map]

theorem tokensFrom_blanks {blanks : List Char} (empty : ∀ c ∈ blanks, isBlank c)
    (cursor : Cursor) (rest : List Char) :
    tokensFrom cursor (blanks ++ rest) = tokensFrom (cursor.afterAll blanks) rest := by
  -- The lexer takes a run of blanks as a whole, and the run may go on into the rest. From before
  -- the blanks and from behind them it comes to the end of the same run.
  let more := rest.takeWhile isBlank
  let behind := rest.dropWhile isBlank
  have whole : more ++ behind = rest := List.takeWhile_append_dropWhile
  have blank : ∀ c ∈ more, isBlank c :=
    fun c member => List.all_eq_true.mp List.all_takeWhile c member
  have solid : ∀ c, behind.head? = some c → isBlank c = false := by
    intro c first
    exact @head_dropWhile .blank rest c first
  have all : ∀ c ∈ blanks ++ more, isBlank c := by
    intro c member
    rcases List.mem_append.mp member with member | member
    · exact empty c member
    · exact blank c member
  calc tokensFrom cursor (blanks ++ rest)
      = tokensFrom cursor (blanks ++ more ++ behind) := by rw [List.append_assoc, whole]
    _ = tokensFrom (cursor.afterAll (blanks ++ more)) behind := tokensFrom_run cursor all solid
    _ = tokensFrom ((cursor.afterAll blanks).afterAll more) behind := by
      rw [Cursor.afterAll_append]
    _ = tokensFrom (cursor.afterAll blanks) (more ++ behind) :=
      (tokensFrom_run (cursor.afterAll blanks) blank solid).symm
    _ = tokensFrom (cursor.afterAll blanks) rest := by rw [whole]

theorem Lexemes.tokensFrom_append {cs : List Char} {all : List Token} (cut : Lexemes cursor cs all)
    (stops : Stops rest) :
    tokensFrom cursor (cs ++ rest) = (tokensFrom (cursor.afterAll cs) rest).map
      ((all.filter fun t => t.kind != .blank) ++ ·) := by
  -- The induction is on the lexemes of the first text. The last of them ends where it did, because
  -- no token goes on into the second text.
  induction cut with
  | nil cursor =>
    rw [List.nil_append]
    change _ = (tokensFrom cursor rest).map ([] ++ ·)
    cases tokensFrom cursor rest <;> rfl
  | @cons cursor kind text between later accepted longest below ih =>
    rw [List.append_assoc, Cursor.afterAll_append]
    by_cases empty : kind = .blank
    · subst empty
      rw [tokensFrom_blanks (isBlank_of_accepts_blank accepted), ih]
      rfl
    · have further : ∀ c, (between ++ rest).head? = some c → kind.continues c = false := by
        cases between with
        | nil => exact (TokenKind.mayEndAt_iff empty rest).mp (stops.mayEndAt kind)
        | cons d between => exact longest
      rw [tokensFrom_token cursor accepted empty further, ih,
        List.filter_cons_of_pos (by simpa using empty)]
      cases tokensFrom ((cursor.afterAll text).afterAll between) rest <;> rfl

end

/-- The place in a text that has this one in front of it. On the first line the characters in front
count too, as far as they are on that line. -/
def Location.behind (front : String) (l : Location) : Location where
  line := l.line + front.toList.count '\n'
  column :=
    if l.line = 1 then l.column + (front.toList.rtakeWhile (· != '\n')).length else l.column

def Cursor.behind (front : String) (cursor : Cursor) : Cursor :=
  ⟨cursor.position + front.utf8ByteSize, cursor.location.behind front⟩

def Token.behind (front : String) (t : Token) : Token where
  kind := t.kind
  text := t.text
  position := t.position + front.utf8ByteSize
  location := t.location.behind front

section

variable (front : String)

theorem Location.after_behind {l : Location} (counted : 1 ≤ l.line) (c : Char) :
    (l.behind front).after c = (l.after c).behind front := by
  by_cases newline : c = '\n'
  · have below : l.line + 1 ≠ 1 := by omega
    simp only [after, behind, newline, if_true, if_neg below]
    congr 1
    omega
  · by_cases first : l.line = 1
    · simp only [after, behind, newline, if_false, first, if_true]
      congr 1
      omega
    · simp [after, behind, newline, first]

theorem Cursor.after_behind {cursor : Cursor} (counted : 1 ≤ cursor.location.line) (c : Char) :
    (cursor.behind front).after c = (cursor.after c).behind front := by
  simp only [after, behind, Location.after_behind front counted]
  congr 1
  omega

theorem Cursor.line_le_after (cursor : Cursor) (c : Char) :
    cursor.location.line ≤ (cursor.after c).location.line := by
  simp only [after, Location.after]
  split <;> simp

theorem Cursor.line_le_afterAll (cursor : Cursor) (cs : List Char) :
    cursor.location.line ≤ (cursor.afterAll cs).location.line := by
  induction cs generalizing cursor with
  | nil => exact Nat.le_refl _
  | cons c cs ih => exact Nat.le_trans (cursor.line_le_after c) (ih (cursor.after c))

theorem Cursor.afterAll_behind {cursor : Cursor} (counted : 1 ≤ cursor.location.line)
    (cs : List Char) : (cursor.behind front).afterAll cs = (cursor.afterAll cs).behind front := by
  induction cs generalizing cursor with
  | nil => rfl
  | cons c cs ih =>
    have further := ih (Nat.le_trans counted (cursor.line_le_after c))
    rw [← Cursor.after_behind front counted] at further
    exact further

theorem Location.start_behind : start.afterAll front.toList = start.behind front := by
  have line := start_afterAll_line front.toList
  have column := start_afterAll_column front.toList
  cases place : start.afterAll front.toList with
  | mk l c =>
    simp only [place] at line column
    simp [behind, start, line, column]

theorem Cursor.start_behind : start.afterAll front.toList = start.behind front := by
  have position := start.afterAll_position front.toList
  have location := start.afterAll_location front.toList
  rw [byteLength_toList] at position
  calc start.afterAll front.toList
      = ⟨(start.afterAll front.toList).position, (start.afterAll front.toList).location⟩ := rfl
    _ = ⟨start.position + front.utf8ByteSize, Location.start.behind front⟩ := by
      rw [position, location, ← Location.start_behind]
      rfl

theorem lexemes_behind {cursor : Cursor} (counted : 1 ≤ cursor.location.line) (cs : List Char) :
    lexemes (cursor.behind front) cs = (lexemes cursor cs).map (List.map (Token.behind front)) := by
  obtain ⟨all, read, cut⟩ := lexemes_total cursor cs
  rw [read]
  clear read
  induction cut with
  | nil cursor => rw [lexemes]; rfl
  | @cons cursor kind text rest later accepted longest below ih =>
    have further := ih (Nat.le_trans counted (cursor.line_le_afterAll text))
    rw [lexemes_of_longest _ accepted longest, Cursor.afterAll_behind front counted, further]
    rfl

theorem tokensFrom_behind {cursor : Cursor} (counted : 1 ≤ cursor.location.line) (cs : List Char) :
    tokensFrom (cursor.behind front) cs =
      (tokensFrom cursor cs).map (List.map (Token.behind front)) := by
  unfold tokensFrom
  rw [lexemes_behind front counted]
  cases lexemes cursor cs with
  | error e => rfl
  | ok all =>
    simp only [Except.map, List.filter_map]
    rfl

end

/-- Lexing composes over blanks. The tokens of the second text are moved behind the first text and
the blanks: bytes and lines are counted on, and columns are too as long as they are on the line that
the blanks end in. -/
theorem lex_over_blanks {blanks : String} (empty : ∀ c ∈ blanks.toList, isBlank c)
    (some : blanks ≠ "") (first second : String) :
    ∃ tokens tokens', lex first = .ok tokens ∧ lex second = .ok tokens' ∧
      lex (first ++ blanks ++ second) =
        .ok (tokens ++ tokens'.map (Token.behind (first ++ blanks))) := by
  obtain ⟨all, cut, lexed⟩ := lex_total first
  obtain ⟨all', _, lexed'⟩ := lex_total second
  have nonempty : blanks.toList ≠ [] := by simpa using some
  refine ⟨_, _, lexed, lexed', ?_⟩
  rw [lex_eq] at lexed'
  rw [lex_eq, String.toList_append, String.toList_append, List.append_assoc,
    cut.tokensFrom_append (stops_blanks empty nonempty _), tokensFrom_blanks empty,
    ← Cursor.afterAll_append, ← String.toList_append, Cursor.start_behind,
    tokensFrom_behind _ (by decide), lexed']
  rfl

/-- A wide blank of three bytes behind a line end, with more blanks on both sides. -/
theorem lex_over_blanks_of_line_end :
    ∃ tokens, lex "(+ é " = .ok tokens ∧ lex " 1\n x)" = .ok [⟨.integer, "1", 1, ⟨1, 2⟩⟩,
        ⟨.identifier, "x", 4, ⟨2, 2⟩⟩, ⟨.closeParen, ")", 5, ⟨2, 3⟩⟩] ∧
      lex ("(+ é " ++ "\n\u3000" ++ " 1\n x)") = .ok (tokens ++ [⟨.integer, "1", 11, ⟨2, 3⟩⟩,
        ⟨.identifier, "x", 14, ⟨3, 2⟩⟩, ⟨.closeParen, ")", 15, ⟨3, 3⟩⟩]) := by
  have empty : ∀ c ∈ "\n\u3000".toList, isBlank c := List.all_eq_true.mp (by decide)
  obtain ⟨tokens, tokens', lexed, lexed', whole⟩ :=
    lex_over_blanks empty (by decide) "(+ é " " 1\n x)"
  have known : lex " 1\n x)" = .ok [⟨.integer, "1", 1, ⟨1, 2⟩⟩, ⟨.identifier, "x", 4, ⟨2, 2⟩⟩,
    ⟨.closeParen, ")", 5, ⟨2, 3⟩⟩] := by decide +kernel
  rw [known] at lexed'
  cases lexed'
  exact ⟨tokens, lexed, known, whole⟩

section

variable {text : List Char} {words : List (TokenKind × String)} {blanks : List Char}

theorem Writes.led (written : Writes text words) (empty : ∀ c ∈ blanks, isBlank c) :
    Writes (blanks ++ text) words := by
  intro start rest later stops cut
  rw [byteLength_append, ← Nat.add_assoc] at cut
  obtain ⟨tokens, read, whole⟩ := written _ rest later stops cut
  refine ⟨tokens, read, ?_⟩
  rw [List.append_assoc]
  exact (Tokenization.blanks empty).mpr whole

theorem Writes.trailed (written : Writes text words) (empty : ∀ c ∈ blanks, isBlank c) :
    Writes (text ++ blanks) words := by
  intro start rest later stops cut
  rw [byteLength_append, ← Nat.add_assoc] at cut
  have ended : Stops (blanks ++ rest) := by
    cases blanks with
    | nil => exact stops
    | cons b more => exact stops_blanks empty (List.cons_ne_nil b more) rest
  obtain ⟨tokens, read, whole⟩ := written start _ later ended ((Tokenization.blanks empty).mpr cut)
  refine ⟨tokens, read, ?_⟩
  rw [List.append_assoc]
  exact whole

end

def spread : List Token → List String → String
  | t :: tokens, gap :: gaps => t.text ++ gap ++ spread tokens gaps
  | _, _ => ""

theorem writes_spread {tokens : List Token} (spelled : ∀ t ∈ tokens, t.kind.Spells t.text.toList)
    {gaps : List String} (count : gaps.length = tokens.length)
    (empty : ∀ gap ∈ gaps, ∀ c ∈ gap.toList, isBlank c) (apart : ∀ gap ∈ gaps.dropLast, gap ≠ "") :
    Writes (spread tokens gaps).toList (tokens.map Token.word) := by
  induction tokens generalizing gaps with
  | nil =>
    rw [spread]
    · exact writes_nil
    · simp
  | cons t later ih =>
    cases gaps with
    | nil => simp at count
    | cons gap gaps =>
      have word := writes_word (spelled t List.mem_cons_self)
      have blank := empty gap List.mem_cons_self
      rw [spread, String.toList_append, String.toList_append, List.append_assoc]
      cases later with
      | nil =>
        rw [spread, String.toList_empty, List.append_nil]
        · exact word.trailed blank
        · simp
      | cons u more =>
        -- There is another token, so this gap is not the last one.
        have inner : gaps ≠ [] := by
          intro none
          simp [none] at count
        rw [List.dropLast_cons_of_ne_nil inner] at apart
        have some : gap.toList ≠ [] := by
          have := apart gap List.mem_cons_self
          simpa using this
        refine word.spaced blank some (ih ?_ ?_ ?_ ?_)
        · intro v member
          exact spelled v (List.mem_cons_of_mem t member)
        · simpa using count
        · intro other member
          exact empty other (List.mem_cons_of_mem gap member)
        · intro other member
          exact apart other (List.mem_cons_of_mem gap member)

theorem intercalate_eq_spread (t : Token) (later : List Token) :
    " ".intercalate ((t :: later).map Token.text) =
      spread (t :: later) (later.map (fun _ => " ") ++ [""]) := by
  induction later generalizing t with
  | nil => simp [spread]
  | cons u more ih =>
    rw [List.map_cons, List.map_cons, String.intercalate_cons_cons, ← List.map_cons, ih]
    simp [spread]

/-- Lexing again loses nothing. Whatever blanks are put between the tokens of a text, as long as
there are some between any two of them, the same words are read. Single spaces will do. -/
theorem relex_lossless {source : String} {tokens : List Token} (lexed : lex source = .ok tokens) :
    (∀ lead gaps, gaps.length = tokens.length →
      (∀ gap ∈ lead :: gaps, ∀ c ∈ gap.toList, isBlank c) → (∀ gap ∈ gaps.dropLast, gap ≠ "") →
        ∃ tokens', lex (lead ++ spread tokens gaps) = .ok tokens' ∧
          tokens'.map Token.word = tokens.map Token.word) ∧
    ∃ tokens', lex (" ".intercalate (tokens.map Token.text)) = .ok tokens' ∧
      tokens'.map Token.word = tokens.map Token.word := by
  have spelled : ∀ t ∈ tokens, t.kind.Spells t.text.toList := by
    intro t member
    obtain ⟨solid, accepted, _⟩ := token_stretch lexed member
    exact TokenKind.spells_of_accepts accepted solid
  have spaced : ∀ gaps : List String, gaps.length = tokens.length →
      (∀ gap ∈ gaps, ∀ c ∈ gap.toList, isBlank c) → (∀ gap ∈ gaps.dropLast, gap ≠ "") →
        Writes (spread tokens gaps).toList (tokens.map Token.word) :=
    fun gaps count empty apart => writes_spread spelled count empty apart
  constructor
  · intro lead gaps count empty apart
    rw [List.forall_mem_cons] at empty
    have written := spaced gaps count empty.2 apart
    apply lex_of_writes
    rw [String.toList_append]
    exact written.led empty.1
  · apply lex_of_writes
    cases tokens with
    | nil => exact writes_nil
    | cons t later =>
      rw [intercalate_eq_spread]
      apply spaced
      · simp
      · have blank : isBlank ' ' := by decide
        simp [or_imp, forall_and, blank]
      · simp

theorem relex_lossless_of_joined :
    ∃ tokens tokens', lex "(f(g 12a)" = .ok tokens ∧
      lex "\n( f(g\u3000 12\t\ta\r\n) " = .ok tokens' ∧
        tokens'.map Token.word = tokens.map Token.word := by
  have lexed : lex "(f(g 12a)" = .ok [⟨.openParen, "(", 0, ⟨1, 1⟩⟩, ⟨.identifier, "f(g", 1, ⟨1, 2⟩⟩,
    ⟨.integer, "12", 5, ⟨1, 6⟩⟩, ⟨.identifier, "a", 7, ⟨1, 8⟩⟩, ⟨.closeParen, ")", 8, ⟨1, 9⟩⟩] := by
    decide +kernel
  let gaps := [" ", "\u3000 ", "\t\t", "\r\n", " "]
  have tested : ∀ gap ∈ "\n" :: gaps, gap.toList.all isBlank := by decide
  have empty : ∀ gap ∈ "\n" :: gaps, ∀ c ∈ gap.toList, isBlank c :=
    fun gap member => List.all_eq_true.mp (tested gap member)
  obtain ⟨tokens', again, words⟩ := (relex_lossless lexed).1 "\n" gaps rfl empty (by decide)
  exact ⟨_, tokens', lexed, again, words⟩

end SnapshotLisp
