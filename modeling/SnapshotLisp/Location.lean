/-!
Places in program text as a reader counts them: lines and columns from one, columns in characters.
-/
namespace SnapshotLisp

structure Location where
  line : Nat
  column : Nat
  deriving DecidableEq, Repr

namespace Location

def start : Location := ⟨1, 1⟩

/-- Stands in where there is no token to point at. No character of a text is here. -/
def nowhere : Location := ⟨0, 0⟩

def after (l : Location) (c : Char) : Location :=
  if c = '\n' then ⟨l.line + 1, 1⟩ else ⟨l.line, l.column + 1⟩

def render (l : Location) : String := s!"line {l.line}, column {l.column}"

end Location

end SnapshotLisp
