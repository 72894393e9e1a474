import SnapshotLisp.Proofs.Tokenization
import Mathlib.Data.List.DropRight

/-!
Locations as counts. The line of a token is one more than the newlines before it and its column one
more than the characters since the last of them, and the lines of a text are the pieces between its
newlines. So both numbers can be checked against the text alone, without following how the tokens
were found.
-/
namespace SnapshotLisp

namespace Location

theorem afterAll_concat (l : Location) (cs : List Char) (c : Char) :
    l.afterAll (cs ++ [c]) = (l.afterAll cs).after c := by
  simp [afterAll]

theorem start_afterAll_line (cs : List Char) : (start.afterAll cs).line = 1 + cs.count '\n' := by
  induction cs using List.reverseRecOn with
  | nil => rfl
  | append_singleton cs c ih =>
    rw [afterAll_concat, after, List.count_append, List.count_singleton]
    by_cases newline : c = '\n'
    · simp [newline, ih, Nat.add_assoc]
    · simp [newline, ih]

theorem start_afterAll_column (cs : List Char) :
    (start.afterAll cs).column = 1 + (cs.rtakeWhile (· != '\n')).length := by
  induction cs using List.reverseRecOn with
  | nil => rfl
  | append_singleton cs c ih =>
    rw [afterAll_concat, after, List.rtakeWhile_concat]
    by_cases newline : c = '\n'
    · simp [newline]
    · simp [newline, ih, Nat.add_assoc]

end Location

theorem beginning_unique {cs ds rest rest' : List Char} (same : cs ++ rest = ds ++ rest')
    (count : byteLength cs = byteLength ds) : cs = ds := by
  obtain ⟨more, longer, _⟩ := beginning_of_byteLength_le same (Nat.le_of_eq count)
  subst longer
  rw [byteLength_append] at count
  cases more with
  | nil => simp
  | cons c more =>
    have positive := byteLength_pos (List.cons_ne_nil c more)
    omega

def withoutReturn (piece : List Char) : List Char :=
  if piece.getLast? = some '\r' then piece.dropLast else piece

/-- The lines that the pieces between newlines are. There is no newline behind the last piece, so it
keeps its return, and it is no line at all when it is empty. -/
def linesOfPieces : List (List Char) → List (List Char)
  | [] => []
  | [last] => if last = [] then [] else [last]
  | piece :: next :: later => withoutReturn piece :: linesOfPieces (next :: later)

theorem withoutReturn_cons {c : Char} {piece : List Char} (more : c = '\r' → piece ≠ []) :
    withoutReturn (c :: piece) = c :: withoutReturn piece := by
  cases piece with
  | nil =>
    have other : c ≠ '\r' := fun same => more same rfl
    simp [withoutReturn, other]
  | cons d piece =>
    unfold withoutReturn
    rw [List.getLast?_cons_cons, List.dropLast_cons_cons]
    split <;> rfl

theorem splitOn_newline_cons (c : Char) (rest : List Char) :
    (c :: rest).splitOn '\n' =
      if c = '\n' then [] :: rest.splitOn '\n' else (rest.splitOn '\n').modifyHead (c :: ·) := by
  rw [List.splitOn_eq_splitOnP, List.splitOnP_cons_eq_if_modifyHead]
  simp [List.splitOn_eq_splitOnP]

theorem begins_with_newline {rest : List Char} {next : List Char} {later : List (List Char)}
    (pieces : rest.splitOn '\n' = [] :: next :: later) : ∃ more, rest = '\n' :: more := by
  cases rest with
  | nil => simp at pieces
  | cons c more =>
    rw [splitOn_newline_cons] at pieces
    by_cases newline : c = '\n'
    · exact ⟨more, by rw [newline]⟩
    · rw [if_neg newline] at pieces
      cases cut : more.splitOn '\n' <;> simp [cut] at pieces

theorem linesOfPieces_cons {c : Char} {rest : List Char} (notNewline : c ≠ '\n')
    (notReturn : ∀ more, c = '\r' → rest ≠ '\n' :: more) :
    linesOfPieces ((c :: rest).splitOn '\n') =
      (c :: (linesOfPieces (rest.splitOn '\n')).headD []) ::
        (linesOfPieces (rest.splitOn '\n')).tail := by
  rw [splitOn_newline_cons, if_neg notNewline]
  cases cut : rest.splitOn '\n' with
  | nil => exact absurd cut (List.splitOn_ne_nil _ _)
  | cons first later =>
    cases later with
    | nil => by_cases empty : first = [] <;> simp [linesOfPieces, empty]
    | cons next later =>
      have more : c = '\r' → first ≠ [] := by
        intro same empty
        subst empty
        obtain ⟨behind, begins⟩ := begins_with_newline cut
        exact notReturn behind same begins
      simp [linesOfPieces, withoutReturn_cons more]

theorem linesOfPieces_behind (piece rest : List Char) :
    linesOfPieces (piece :: rest.splitOn '\n') =
      withoutReturn piece :: linesOfPieces (rest.splitOn '\n') := by
  cases cut : rest.splitOn '\n' with
  | nil => exact absurd cut (List.splitOn_ne_nil _ _)
  | cons first later => rfl

theorem lines_eq_linesOfPieces (cs : List Char) : lines cs = linesOfPieces (cs.splitOn '\n') := by
  fun_induction lines cs with
  | case1 => rfl
  | case2 rest ih =>
    rw [splitOn_newline_cons, if_pos rfl, linesOfPieces_behind, ih]
    rfl
  | case3 rest ih =>
    rw [splitOn_newline_cons, splitOn_newline_cons, if_neg (by decide), if_pos rfl,
      List.modifyHead_cons, linesOfPieces_behind, ih]
    rfl
  | case4 c rest notNewline notReturn empty ih =>
    rw [linesOfPieces_cons notNewline notReturn, ← ih, empty]
    rfl
  | case5 c rest notNewline notReturn first later found ih =>
    rw [linesOfPieces_cons notNewline notReturn, ← ih, found]
    rfl

theorem sourceLine_eq (source : String) (number : Nat) :
    sourceLine source number =
      if number = 0 then none
      else (linesOfPieces (source.toList.splitOn '\n'))[number - 1]?.map String.ofList := by
  cases number with
  | zero => rfl
  | succ index => rw [sourceLine, lines_eq_linesOfPieces]; rfl

/-- The locations of tokens are exact. With the characters before the token's byte counted, its line
and column follow, and the line of that number, cut out of the text by its newlines, has the token
from that column on. -/
theorem token_location_exact {source : String} {tokens : List Token} {t : Token}
    (lexed : lex source = .ok tokens) (member : t ∈ tokens) :
    (∃ before after, source.toList = before ++ (t.text.toList ++ after) ∧
      byteLength before = t.position) ∧
    (∀ before after, source.toList = before ++ after → byteLength before = t.position →
      t.location.line = 1 + before.count '\n' ∧
      t.location.column = 1 + (before.rtakeWhile (· != '\n')).length) ∧
    (∃ line, sourceLine source t.location.line = some line ∧
      t.text.toList <+: line.toList.drop (t.location.column - 1)) ∧
    ∀ number, sourceLine source number =
      if number = 0 then none
      else (linesOfPieces (source.toList.splitOn '\n'))[number - 1]?.map String.ofList := by
  obtain ⟨_, _, before, after, whole, place⟩ := token_stretch lexed member
  have position : byteLength before = t.position := by
    have counted := Cursor.start.afterAll_position before
    rw [place] at counted
    simpa [Cursor.start] using counted.symm
  have location : Location.start.afterAll before = t.location := by
    have counted := Cursor.start.afterAll_location before
    rw [place] at counted
    exact counted.symm
  have shown := (token_in_line lexed member).2
  refine ⟨⟨before, after, whole, position⟩, ?_, shown, sourceLine_eq source⟩
  intro before' after' whole' position'
  have same : before' = before :=
    beginning_unique (whole'.symm.trans whole) (position'.trans position.symm)
  rw [same, ← location, Location.start_afterAll_line, Location.start_afterAll_column]
  exact ⟨rfl, rfl⟩

/-- Behind a character of two bytes and a line end of two characters. -/
theorem token_location_exact_of_lambda :
    ∃ source tokens t, source = "(+ é\r\n  (λ 1))" ∧ lex source = .ok tokens ∧ t ∈ tokens ∧
      t = ⟨.identifier, "λ", 10, ⟨2, 4⟩⟩ ∧
      t.location.line = 1 + "(+ é\r\n  (".toList.count '\n' ∧
      t.location.column = 1 + ("(+ é\r\n  (".toList.rtakeWhile (· != '\n')).length ∧
      ∃ line, sourceLine source 2 = some line ∧ "λ".toList <+: line.toList.drop 3 := by
  obtain ⟨tokens, lexed, member⟩ : ∃ tokens, lex "(+ é\r\n  (λ 1))" = .ok tokens ∧
      ⟨.identifier, "λ", 10, ⟨2, 4⟩⟩ ∈ tokens :=
    ⟨[⟨.openParen, "(", 0, ⟨1, 1⟩⟩, ⟨.identifier, "+", 1, ⟨1, 2⟩⟩, ⟨.identifier, "é", 3, ⟨1, 4⟩⟩,
      ⟨.openParen, "(", 9, ⟨2, 3⟩⟩, ⟨.identifier, "λ", 10, ⟨2, 4⟩⟩, ⟨.integer, "1", 13, ⟨2, 6⟩⟩,
      ⟨.closeParen, ")", 14, ⟨2, 7⟩⟩, ⟨.closeParen, ")", 15, ⟨2, 8⟩⟩], by decide +kernel, by simp⟩
  obtain ⟨_, counts, shown, _⟩ := token_location_exact lexed member
  obtain ⟨line, column⟩ := counts "(+ é\r\n  (".toList "λ 1))".toList (by decide) (by decide)
  exact ⟨_, tokens, _, rfl, lexed, member, rfl, line, column, shown⟩

end SnapshotLisp
