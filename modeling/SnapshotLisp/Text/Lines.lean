/-!
The lines of a text. A line ends at `\n`, which is no part of it, and neither is one `\r` directly
before that `\n`. A `\r` anywhere else belongs to its line, and a final `\n` starts no further line.
-/
namespace SnapshotLisp

def lines : List Char → List (List Char)
  | [] => []
  | '\n' :: rest => [] :: lines rest
  | '\r' :: '\n' :: rest => [] :: lines rest
  | c :: rest =>
    match lines rest with
    | [] => [[c]]
    | line :: later => (c :: line) :: later

/-- The line of that number, counted from one. -/
def sourceLine (text : String) (number : Nat) : Option String :=
  match number with
  | 0 => none
  | index + 1 => (lines text.toList)[index]?.map String.ofList

end SnapshotLisp
