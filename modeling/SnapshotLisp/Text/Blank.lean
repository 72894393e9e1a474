/-!
The blank characters of program text: the code points with the Unicode property White_Space.
Core's `Char.isWhitespace` knows only four of them, so the property is a table here.
-/
namespace SnapshotLisp

/-- Code point ranges of White_Space, both ends included, in increasing order. -/
def blankRanges : List (Nat × Nat) :=
  [(0x9, 0xD), (0x20, 0x20), (0x85, 0x85), (0xA0, 0xA0), (0x1680, 0x1680), (0x2000, 0x200A),
   (0x2028, 0x2029), (0x202F, 0x202F), (0x205F, 0x205F), (0x3000, 0x3000)]

def isBlank (c : Char) : Bool :=
  blankRanges.any fun range => range.1 ≤ c.toNat && c.toNat ≤ range.2

end SnapshotLisp
