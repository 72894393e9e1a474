import SnapshotLisp.Location
import SnapshotLisp.Text.Lines

/-!
Locations and lines. Counting line and column from character to character leads to the same place as
cutting the text into lines: what stands behind the characters counted is found again in the line of
that number, from that column on. The two ways differ on line ends, so this is said of stretches of
text that hold none of their characters.
-/
namespace SnapshotLisp

def OneLine (text : String) : Prop := '\n' ∉ text.toList

instance (text : String) : Decidable (OneLine text) :=
  inferInstanceAs (Decidable ('\n' ∉ text.toList))

@[simp] theorem oneLine_append (a b : String) : OneLine (a ++ b) ↔ OneLine a ∧ OneLine b := by
  simp [OneLine]

theorem newline_not_mem_lines (cs : List Char) : ∀ line ∈ lines cs, '\n' ∉ line := by
  fun_induction lines cs with
  | case1 => simp
  | case2 rest ih => simpa using ih
  | case3 rest ih => simpa using ih
  | case4 c rest notNewline notReturn empty ih =>
    intro line member newline
    simp only [List.mem_singleton] at member
    subst member
    simp only [List.mem_singleton] at newline
    exact notNewline newline.symm
  | case5 c rest notNewline notReturn first later found ih =>
    rw [found] at ih
    intro line member newline
    rcases List.mem_cons.mp member with same | member
    · subst same
      rcases List.mem_cons.mp newline with same | newline
      · exact notNewline same.symm
      · exact ih first List.mem_cons_self newline
    · exact ih line (List.mem_cons_of_mem first member) newline

theorem oneLine_sourceLine {source line : String} {number : Nat}
    (found : sourceLine source number = some line) : OneLine line := by
  cases number with
  | zero => simp [sourceLine] at found
  | succ index =>
    simp only [sourceLine, Option.map_eq_some_iff] at found
    obtain ⟨cs, member, same⟩ := found
    subst same
    rw [OneLine, String.toList_ofList]
    exact newline_not_mem_lines _ cs (List.mem_of_getElem? member)

/-- Row and column are those of a stretch of text in the lines of the whole, counted from zero. -/
def Shows (cs : List Char) (row column : Nat) (text : List Char) : Prop :=
  ∃ line, (lines cs)[row]? = some line ∧ text <+: line.drop column

theorem lines_cons {c : Char} {rest : List Char} (notNewline : c ≠ '\n')
    (notReturn : ∀ later, c = '\r' → rest ≠ '\n' :: later) :
    lines (c :: rest) = (c :: (lines rest).headD []) :: (lines rest).tail := by
  rw [lines]
  · cases lines rest <;> rfl
  · exact notNewline
  · intro later same begins
    exact notReturn later same begins

theorem lines_return_newline (rest : List Char) :
    lines ('\r' :: '\n' :: rest) = lines ('\n' :: rest) := by
  rw [lines, lines]

variable {rest text : List Char} {row column : Nat}

theorem Shows.newline (shows : Shows rest row column text) :
    Shows ('\n' :: rest) (row + 1) column text := by
  obtain ⟨line, found, starts⟩ := shows
  exact ⟨line, by simpa [lines] using found, starts⟩

theorem Shows.next_row {c : Char} (notNewline : c ≠ '\n')
    (shows : Shows rest (row + 1) column text) : Shows (c :: rest) (row + 1) column text := by
  by_cases ends : c = '\r' ∧ ∃ later, rest = '\n' :: later
  · obtain ⟨same, later, begins⟩ := ends
    subst same
    subst begins
    rw [Shows, lines_return_newline]
    exact shows
  · obtain ⟨line, found, starts⟩ := shows
    refine ⟨line, ?_, starts⟩
    rw [lines_cons notNewline fun later same begins => ends ⟨same, later, begins⟩]
    simpa using found

theorem Shows.next_column {c : Char} (notNewline : c ≠ '\n') (nonempty : text ≠ [])
    (shows : Shows rest 0 column text) : Shows (c :: rest) 0 (column + 1) text := by
  obtain ⟨line, found, starts⟩ := shows
  have regular : ∀ later, c = '\r' → rest ≠ '\n' :: later := by
    intro later _ begins
    subst begins
    simp only [lines, List.getElem?_cons_zero, Option.some.injEq] at found
    subst found
    exact nonempty (by simpa using starts)
  refine ⟨c :: line, ?_, by simpa using starts⟩
  rw [lines_cons notNewline regular]
  cases cut : lines rest with
  | nil => simp [cut] at found
  | cons first later =>
    rw [cut] at found
    simp only [List.getElem?_cons_zero, Option.some.injEq] at found
    subst found
    rfl

def Solid (text : List Char) : Prop := ∀ c ∈ text, c ≠ '\n' ∧ c ≠ '\r'

theorem shows_first (solid : Solid text) (nonempty : text ≠ []) (rest : List Char) :
    Shows (text ++ rest) 0 0 text := by
  induction text with
  | nil => exact absurd rfl nonempty
  | cons c later ih =>
    obtain ⟨notNewline, notReturn⟩ := solid c List.mem_cons_self
    refine ⟨c :: (lines (later ++ rest)).headD [], ?_, ?_⟩
    · rw [List.cons_append, lines_cons notNewline fun _ same => absurd same notReturn]
      rfl
    · rw [List.drop_zero, List.cons_prefix_cons]
      refine ⟨rfl, ?_⟩
      by_cases last : later = []
      · subst last
        exact List.nil_prefix
      · have below : Solid later := fun x member => solid x (List.mem_cons_of_mem c member)
        obtain ⟨line, found, starts⟩ := ih below last
        rw [List.drop_zero] at starts
        cases cut : lines (later ++ rest) with
        | nil => simp [cut] at found
        | cons first others =>
          rw [cut] at found
          simp only [List.getElem?_cons_zero, Option.some.injEq] at found
          subst found
          exact starts

namespace Location

def afterAll (l : Location) (cs : List Char) : Location := cs.foldl after l

/-- The place that is counted to is the place in the lines. On the line where the counting began its
column counts too, on a later one it is forgotten. -/
theorem shows_afterAll (l : Location) (before : List Char) (solid : Solid text)
    (nonempty : text ≠ []) (rest : List Char) :
    let here := l.afterAll before
    here.line = l.line ∧ l.column ≤ here.column ∧
        Shows (before ++ (text ++ rest)) 0 (here.column - l.column) text ∨
      l.line < here.line ∧ 1 ≤ here.column ∧
        Shows (before ++ (text ++ rest)) (here.line - l.line) (here.column - 1) text := by
  induction before generalizing l with
  | nil =>
    refine Or.inl ⟨rfl, Nat.le_refl _, ?_⟩
    rw [afterAll, List.foldl_nil, Nat.sub_self]
    exact shows_first solid nonempty rest
  | cons c before ih =>
    have counted : l.afterAll (c :: before) = (l.after c).afterAll before := rfl
    rw [counted, List.cons_append]
    have later := ih (l.after c)
    generalize (l.after c).afterAll before = here at later
    -- A newline starts the counting anew; any other character is one more column of this line.
    by_cases newline : c = '\n'
    · subst newline
      simp only [after, if_true] at later
      rcases later with ⟨same, past, shows⟩ | ⟨below, past, shows⟩
      · refine Or.inr ⟨by omega, past, ?_⟩
        rw [same, Nat.add_sub_cancel_left]
        exact shows.newline
      · refine Or.inr ⟨by omega, past, ?_⟩
        have row : here.line - l.line = here.line - (l.line + 1) + 1 := by omega
        rw [row]
        exact shows.newline
    · simp only [after, if_neg newline] at later
      rcases later with ⟨same, past, shows⟩ | ⟨below, past, shows⟩
      · refine Or.inl ⟨same, by omega, ?_⟩
        have column : here.column - l.column = here.column - (l.column + 1) + 1 := by omega
        rw [column]
        exact shows.next_column newline nonempty
      · refine Or.inr ⟨below, past, ?_⟩
        obtain ⟨row, counts⟩ : ∃ row, here.line - l.line = row + 1 :=
          ⟨here.line - l.line - 1, by omega⟩
        rw [counts] at shows ⊢
        exact shows.next_row newline

theorem start_shows (before : List Char) (solid : Solid text) (nonempty : text ≠ [])
    (rest : List Char) {source : String} (whole : source.toList = before ++ (text ++ rest)) :
    let here := start.afterAll before
    1 ≤ here.column ∧ ∃ line, sourceLine source here.line = some line ∧
      text <+: line.toList.drop (here.column - 1) := by
  intro here
  have places : 1 ≤ here.line ∧ 1 ≤ here.column ∧
      Shows (before ++ (text ++ rest)) (here.line - 1) (here.column - 1) text := by
    rcases start.shows_afterAll before solid nonempty rest with
      ⟨same, past, shows⟩ | ⟨below, past, shows⟩
    · have first : here.line = 1 := same
      refine ⟨by omega, past, ?_⟩
      rw [first]
      exact shows
    · exact ⟨Nat.le_of_lt below, past, shows⟩
  obtain ⟨numbered, past, line, found, starts⟩ := places
  refine ⟨past, String.ofList line, ?_, by rwa [String.toList_ofList]⟩
  obtain ⟨index, counts⟩ : ∃ index, here.line = index + 1 := ⟨here.line - 1, by omega⟩
  rw [counts, Nat.add_sub_cancel, ← whole] at found
  rw [counts, sourceLine, found]
  rfl

end Location

end SnapshotLisp
