import SnapshotLisp.Proofs.Counting

/-!
Columns counted out of slices. Instead of following every character, one may remember where the
current line starts, and when a token is met count the characters from there up to it. The slice
that is counted lies in the text and cuts no character in two, so there always is one, and it gives
the locations that the tokens have.
-/
namespace SnapshotLisp

def IsBoundary (source : String) (byte : Nat) : Prop := (String.Pos.Raw.mk byte).IsValid source

instance (source : String) (byte : Nat) : Decidable (IsBoundary source byte) :=
  inferInstanceAs (Decidable ((String.Pos.Raw.mk byte).IsValid source))

theorem isBoundary_of_beginning {source : String} {before rest : List Char}
    (whole : source.toList = before ++ rest) : IsBoundary source (byteLength before) := by
  refine String.Pos.Raw.isValid_iff_exists_append.mpr
    ⟨String.ofList before, String.ofList rest, ?_, rfl⟩
  rw [← String.ofList_append, ← whole, String.ofList_toList]

/-- The text from one byte to another. There is none unless both are boundaries, in this order. -/
def slice? (source : String) (start stop : Nat) : Option String :=
  if first : IsBoundary source start then
    if last : IsBoundary source stop then
      (source.slice? ⟨⟨start⟩, first⟩ ⟨⟨stop⟩, last⟩).map String.Slice.copy
    else
      none
  else
    none

theorem slice?_eq_some {source : String} {before text rest : List Char}
    (whole : source.toList = before ++ (text ++ rest)) :
    slice? source (byteLength before) (byteLength (before ++ text)) =
      some (String.ofList text) := by
  have regrouped : source.toList = (before ++ text) ++ rest := by rw [whole, List.append_assoc]
  have first := isBoundary_of_beginning whole
  have last := isBoundary_of_beginning regrouped
  let left : source.Pos := ⟨⟨byteLength before⟩, first⟩
  let right : source.Pos := ⟨⟨byteLength (before ++ text)⟩, last⟩
  have leftSplits : left.Splits (.ofList before) (.ofList text ++ .ofList rest) :=
    ⟨by rw [← String.ofList_append, ← String.ofList_append, ← whole, String.ofList_toList], rfl⟩
  have rightSplits : right.Splits (.ofList before ++ .ofList text) (.ofList rest) := by
    rw [← String.ofList_append]
    exact ⟨by rw [← String.ofList_append, ← regrouped, String.ofList_toList], rfl⟩
  obtain ⟨ordered, same⟩ :=
    String.copy_slice_eq_iff_splits.mpr ⟨_, _, leftSplits, rightSplits⟩
  rw [slice?, dif_pos first, dif_pos last, String.slice?, dif_pos ordered, Option.map_some, same]

def lastNewline? : List Char → Option Nat
  | [] => none
  | c :: cs =>
    match lastNewline? cs with
    | some bytes => some (c.utf8Size + bytes)
    | none => if c = '\n' then some 0 else none

theorem not_mem_of_lastNewline? {cs : List Char} (none : lastNewline? cs = none) : '\n' ∉ cs := by
  induction cs with
  | nil => simp
  | cons c cs ih =>
    unfold lastNewline? at none
    split at none
    · cases none
    · rename_i later
      split at none
      · cases none
      · rename_i other
        simp [Ne.symm other, ih later]

theorem split_of_lastNewline? {cs : List Char} {bytes : Nat}
    (found : lastNewline? cs = some bytes) :
    ∃ before after, cs = before ++ '\n' :: after ∧ byteLength before = bytes ∧ '\n' ∉ after := by
  induction cs generalizing bytes with
  | nil => cases found
  | cons c cs ih =>
    unfold lastNewline? at found
    split at found
    · rename_i later
      cases found
      obtain ⟨before, after, rfl, count, free⟩ := ih later
      exact ⟨c :: before, after, rfl, by rw [byteLength_cons, count], free⟩
    · rename_i later
      split at found
      · rename_i newline
        cases found
        exact ⟨[], cs, by rw [newline, List.nil_append], rfl, not_mem_of_lastNewline? later⟩
      · cases found

theorem Location.afterAll_of_oneLine {cs : List Char} (oneLine : '\n' ∉ cs) (l : Location) :
    l.afterAll cs = ⟨l.line, l.column + cs.length⟩ := by
  induction cs generalizing l with
  | nil => rfl
  | cons c cs ih =>
    rw [List.mem_cons, not_or] at oneLine
    have step : l.afterAll (c :: cs) = (l.after c).afterAll cs := rfl
    rw [step, ih oneLine.2, after, if_neg (Ne.symm oneLine.1), List.length_cons, Nat.add_assoc,
      Nat.add_comm 1]

/-- What is remembered of the current line: its number and the byte where it starts. -/
structure LineMark where
  line : Nat
  start : Nat
  deriving DecidableEq, Repr

namespace LineMark

def first : LineMark := ⟨1, 0⟩

def past (mark : LineMark) (position : Nat) (blanks : List Char) : LineMark :=
  match lastNewline? blanks with
  | none => mark
  | some bytes => ⟨mark.line + blanks.count '\n', position + bytes + 1⟩

def locate (mark : LineMark) (source : String) (position : Nat) : Option Location :=
  (slice? source mark.start position).map fun text => ⟨mark.line, text.length + 1⟩

def meet (mark : LineMark) : List Token → List (LineMark × Token)
  | [] => []
  | t :: later =>
    if t.kind = .blank then
      (mark.past t.position t.text.toList).meet later
    else
      (mark, t) :: mark.meet later

theorem map_snd_meet (mark : LineMark) (all : List Token) :
    (mark.meet all).map Prod.snd = all.filter fun t => t.kind != .blank := by
  induction all generalizing mark with
  | nil => rfl
  | cons t later ih =>
    unfold meet
    split
    · rename_i blank
      simp [blank, ih]
    · rename_i solid
      simp [solid, ih]

/-- The mark stands where the last line of these characters begins. -/
def Fits (mark : LineMark) (before : List Char) : Prop :=
  ∃ early line, before = early ++ line ∧ '\n' ∉ line ∧ byteLength early = mark.start ∧
    Location.start.afterAll early = ⟨mark.line, 1⟩

theorem first_fits : first.Fits [] := ⟨[], [], rfl, by simp, rfl, rfl⟩

section

variable {mark : LineMark} {before : List Char}

theorem Fits.append (fits : mark.Fits before) {text : List Char} (oneLine : '\n' ∉ text) :
    mark.Fits (before ++ text) := by
  obtain ⟨early, line, rfl, free, placed⟩ := fits
  refine ⟨early, line ++ text, by rw [List.append_assoc], ?_, placed⟩
  rw [List.mem_append, not_or]
  exact ⟨free, oneLine⟩

theorem Fits.line_eq (fits : mark.Fits before) : mark.line = 1 + before.count '\n' := by
  obtain ⟨early, line, rfl, free, _, location⟩ := fits
  have counted := Location.start_afterAll_line early
  rw [location] at counted
  rw [List.count_append, List.count_eq_zero.mpr free, Nat.add_zero]
  exact counted

theorem Fits.past (fits : mark.Fits before) (blanks : List Char) :
    (mark.past (byteLength before) blanks).Fits (before ++ blanks) := by
  unfold LineMark.past
  split
  · rename_i none
    exact fits.append (not_mem_of_lastNewline? none)
  · rename_i bytes found
    obtain ⟨front, line, rfl, count, free⟩ := split_of_lastNewline? found
    -- The new line begins behind the last newline, whatever line was current before.
    refine ⟨before ++ front ++ ['\n'], line, by simp, free, ?_, ?_⟩
    · rw [byteLength_append, byteLength_append, count]
      rfl
    · rw [Location.afterAll_concat, Location.after, if_pos rfl, Location.start_afterAll_line,
        fits.line_eq]
      simp [List.count_eq_zero.mpr free, Nat.add_assoc]

theorem Fits.in_range (fits : mark.Fits before) {source : String} {rest : List Char}
    (whole : source.toList = before ++ rest) :
    mark.start ≤ byteLength before ∧ byteLength before ≤ source.utf8ByteSize ∧
      IsBoundary source mark.start ∧ IsBoundary source (byteLength before) := by
  have inside : byteLength before ≤ source.utf8ByteSize := by
    rw [← byteLength_toList, whole, byteLength_append]
    omega
  have last := isBoundary_of_beginning whole
  obtain ⟨early, line, rfl, _, start, _⟩ := fits
  rw [List.append_assoc] at whole
  have first := isBoundary_of_beginning whole
  rw [byteLength_append] at inside last ⊢
  rw [start] at first inside last ⊢
  exact ⟨Nat.le_add_right _ _, inside, first, last⟩

theorem Fits.locate_eq (fits : mark.Fits before) {source : String} {rest : List Char}
    (whole : source.toList = before ++ rest) :
    mark.locate source (byteLength before) = some (Location.start.afterAll before) := by
  obtain ⟨early, line, rfl, free, start, location⟩ := fits
  rw [List.append_assoc] at whole
  have counted : Location.start.afterAll (early ++ line) = ⟨mark.line, 1 + line.length⟩ := calc
    Location.start.afterAll (early ++ line) = (Location.start.afterAll early).afterAll line :=
      List.foldl_append
    _ = ⟨mark.line, 1 + line.length⟩ := by rw [location, Location.afterAll_of_oneLine free]
  rw [locate, ← start, slice?_eq_some whole, counted, Option.map_some, String.length_ofList,
    Nat.add_comm]

end

/-- The slice from the mark to the token is one, and its length gives the place of the token. -/
structure Locates (mark : LineMark) (source : String) (t : Token) : Prop where
  ordered : mark.start ≤ t.position
  inside : t.position ≤ source.utf8ByteSize
  first : IsBoundary source mark.start
  last : IsBoundary source t.position
  counted : mark.locate source t.position = some t.location

theorem Fits.locates {mark : LineMark} {before rest : List Char} (fits : mark.Fits before)
    {source : String} (whole : source.toList = before ++ rest) {t : Token}
    (position : t.position = byteLength before)
    (location : t.location = Location.start.afterAll before) : mark.Locates source t := by
  obtain ⟨ordered, inside, first, last⟩ := fits.in_range whole
  have counted := fits.locate_eq whole
  rw [← position] at ordered inside last counted
  rw [← location] at counted
  exact ⟨ordered, inside, first, last, counted⟩

end LineMark

theorem Lexemes.meet_locates {cursor : Cursor} {cs : List Char} {all : List Token}
    (cut : Lexemes cursor cs all) {source : String} {before : List Char} {mark : LineMark}
    (whole : source.toList = before ++ cs) (here : Cursor.start.afterAll before = cursor)
    (fits : mark.Fits before) {mark' : LineMark} {t : Token} (met : (mark', t) ∈ mark.meet all) :
    mark'.Locates source t := by
  induction cut generalizing before mark with
  | nil cursor => cases met
  | @cons cursor kind text rest later accepted longest below ih =>
    have position : cursor.position = byteLength before := by
      rw [← here, Cursor.afterAll_position]
      exact Nat.zero_add _
    have next : source.toList = (before ++ text) ++ rest := by rw [whole, List.append_assoc]
    have behind : Cursor.start.afterAll (before ++ text) = cursor.afterAll text := by
      rw [Cursor.afterAll_append, here]
    unfold LineMark.meet at met
    split at met
    · simp only [String.toList_ofList, position] at met
      exact ih next behind (fits.past text) met
    · rename_i solid
      rcases List.mem_cons.mp met with same | met
      · cases same
        have location : cursor.location = Location.start.afterAll before := by
          rw [← here, Cursor.afterAll_location]
          rfl
        exact fits.locates whole position location
      · have oneLine : '\n' ∉ text :=
          fun newline => (solid_of_not_blank (isBlank_of_accepts accepted solid) _ newline).1 rfl
        exact ih next behind (fits.append oneLine) met

theorem lex_locates (source : String) :
    ∃ all, lexemes .start source.toList = .ok all ∧
      lex source = .ok ((LineMark.first.meet all).map Prod.snd) ∧
      ∀ mark t, (mark, t) ∈ LineMark.first.meet all → mark.Locates source t := by
  obtain ⟨all, read, cut⟩ := lexemes_total .start source.toList
  refine ⟨all, read, ?_, ?_⟩
  · rw [LineMark.map_snd_meet, lex, read]
    rfl
  · intro mark t met
    exact cut.meet_locates rfl rfl LineMark.first_fits met

end SnapshotLisp
