/-!
The integers of the language: signed words of 64 bits. Arithmetic is exact or refused, it never
wraps around. A numeral is one optional sign and decimal digits, as many as one likes.
-/
namespace SnapshotLisp

abbrev Word := Int64

namespace Word

def least : Int := -9223372036854775808

def greatest : Int := 9223372036854775807

def ofInt? (n : Int) : Option Word :=
  if least ≤ n ∧ n ≤ greatest then some (Int64.ofInt n) else none

def add? (a b : Word) : Option Word := ofInt? (a.toInt + b.toInt)

def sub? (a b : Word) : Option Word := ofInt? (a.toInt - b.toInt)

theorem toInt_in_range (w : Word) : least ≤ w.toInt ∧ w.toInt ≤ greatest := by
  have low := w.le_toInt
  have high := w.toInt_lt
  simp only [least, greatest]
  omega

theorem ofInt?_eq_some_iff {n : Int} {w : Word} : ofInt? n = some w ↔ w.toInt = n := by
  unfold ofInt?
  constructor
  · intro h
    split at h
    · rename_i inside
      simp only [Option.some.injEq] at h
      subst h
      simp only [least, greatest] at inside
      exact Int64.toInt_ofInt_of_le (by omega) (by omega)
    · simp at h
  · intro h
    subst h
    rw [if_pos w.toInt_in_range, Int64.ofInt_toInt]

end Word

/-- The number that a run of digits writes. A numeral has at least one digit. -/
def readDigits? (digits : List Char) : Option Int :=
  if digits ≠ [] ∧ digits.all Char.isDigit then some (Nat.ofDigitChars 10 digits 0) else none

def readNumeral? : List Char → Option Int
  | '+' :: digits => readDigits? digits
  | '-' :: digits => (readDigits? digits).map fun n => -n
  | digits => readDigits? digits

def Word.ofNumeral? (text : String) : Option Word :=
  (readNumeral? text.toList).bind Word.ofInt?

end SnapshotLisp
