import SnapshotLisp.Proofs.Arithmetic
import SnapshotLisp.Proofs.Printing

/-!
Numbers as they are written. What a numeral stands for is said by the places of its digits, each one
counting for its power of ten; reading it takes the digits in from the left. The two agree on every
text, so a literal is its exact value or it is refused, and zeros in front never count. What a
number is shown as is a numeral of it, and so a number that was shown can be put into a program
again.
-/
namespace SnapshotLisp

def placeValue : List Char → Nat
  | [] => 0
  | digit :: later => (digit.toNat - '0'.toNat) * 10 ^ later.length + placeValue later

def Decimal (digits : List Char) : Prop := digits ≠ [] ∧ ∀ c ∈ digits, '0' ≤ c ∧ c ≤ '9'

/-- The text writes the number: one sign or none, then digits, and nothing else. -/
inductive Numeral : List Char → Int → Prop where
  | unsigned {digits : List Char} (decimal : Decimal digits) : Numeral digits (placeValue digits)
  | plus {digits : List Char} (decimal : Decimal digits) :
      Numeral ('+' :: digits) (placeValue digits)
  | minus {digits : List Char} (decimal : Decimal digits) :
      Numeral ('-' :: digits) (-placeValue digits)

section

variable {digits text : List Char} {n : Int}

theorem isDigit_iff {c : Char} : c.isDigit ↔ '0' ≤ c ∧ c ≤ '9' := by
  simp [Char.isDigit, Char.le_def]

theorem Decimal.isDigit (decimal : Decimal digits) : ∀ c ∈ digits, c.isDigit :=
  fun c member => isDigit_iff.mpr (decimal.2 c member)

theorem Decimal.not_cons {sign : Char} (signed : sign.isDigit = false) :
    ¬ Decimal (sign :: digits) := by
  intro decimal
  have digit := decimal.isDigit sign List.mem_cons_self
  rw [signed] at digit
  cases digit

theorem ofDigitChars_eq_placeValue (digits : List Char) :
    Nat.ofDigitChars 10 digits 0 = placeValue digits := by
  induction digits with
  | nil => rfl
  | cons digit later ih =>
    rw [Nat.ofDigitChars_cons, Nat.ofDigitChars_eq_ofDigitChars_zero, ih, placeValue,
      Nat.mul_zero, Nat.zero_add, Nat.mul_comm]

theorem readDigits?_eq_some_iff :
    readDigits? digits = some n ↔ Decimal digits ∧ n = placeValue digits := by
  have decimal : Decimal digits ↔ digits ≠ [] ∧ digits.all Char.isDigit := by
    simp [Decimal, isDigit_iff]
  rw [decimal, ← ofDigitChars_eq_placeValue, readDigits?]
  by_cases read : digits ≠ [] ∧ digits.all Char.isDigit
  · rw [if_pos read, Option.some.injEq, eq_comm]
    exact (and_iff_right read).symm
  · rw [if_neg read]
    constructor
    · intro unread
      cases unread
    · rintro ⟨accepted, _⟩
      exact absurd accepted read

theorem readNumeral?_eq_some_iff : readNumeral? text = some n ↔ Numeral text n := by
  constructor
  · intro read
    unfold readNumeral? at read
    split at read
    · obtain ⟨decimal, rfl⟩ := readDigits?_eq_some_iff.mp read
      exact .plus decimal
    · obtain ⟨m, digits, rfl⟩ := Option.map_eq_some_iff.mp read
      obtain ⟨decimal, rfl⟩ := readDigits?_eq_some_iff.mp digits
      exact .minus decimal
    · obtain ⟨decimal, rfl⟩ := readDigits?_eq_some_iff.mp read
      exact .unsigned decimal
  · intro numeral
    cases numeral with
    | unsigned decimal =>
      unfold readNumeral?
      split
      · exact absurd decimal (Decimal.not_cons (by decide))
      · exact absurd decimal (Decimal.not_cons (by decide))
      · exact readDigits?_eq_some_iff.mpr ⟨decimal, rfl⟩
    | plus decimal => exact readDigits?_eq_some_iff.mpr ⟨decimal, rfl⟩
    | minus decimal =>
      rw [readNumeral?, readDigits?_eq_some_iff.mpr ⟨decimal, rfl⟩]
      rfl

theorem Word.ofNumeral?_eq_some_iff {text : String} {word : Word} :
    Word.ofNumeral? text = some word ↔ Numeral text.toList word.toInt := by
  rw [ofNumeral?, Option.bind_eq_some_iff]
  constructor
  · rintro ⟨n, read, fits⟩
    rw [ofInt?_eq_some_iff.mp fits]
    exact readNumeral?_eq_some_iff.mp read
  · intro numeral
    exact ⟨word.toInt, readNumeral?_eq_some_iff.mpr numeral, ofInt?_eq_some_iff.mpr rfl⟩

end

theorem atomValue_integer_iff {t : Token} (integer : t.kind = .integer) (env : Environment)
    {word : Word} :
    atomValue env t = .ok (.integer word) ↔ Numeral t.text.toList word.toInt := by
  rw [atomValue, if_pos integer, ← Word.ofNumeral?_eq_some_iff]
  cases Word.ofNumeral? t.text <;> simp

theorem atomValue_of_no_numeral {t : Token} (integer : t.kind = .integer) (env : Environment)
    (none : ¬ ∃ n, Numeral t.text.toList n ∧ Word.InRange n) :
    atomValue env t = .error ⟨.numericFormat t.text, t.location⟩ := by
  rw [atomValue, if_pos integer]
  cases read : Word.ofNumeral? t.text with
  | none => rfl
  | some word =>
    have numeral := Word.ofNumeral?_eq_some_iff.mp read
    exact absurd ⟨word.toInt, numeral, word.inRange_toInt⟩ none

theorem Word.exists_of_inRange {n : Int} (inside : InRange n) : ∃ word : Word, word.toInt = n := by
  cases found : ofInt? n with
  | none => exact absurd inside (ofInt?_eq_none_iff.mp found)
  | some word => exact ⟨word, ofInt?_eq_some_iff.mp found⟩

def zeroPadded (zeros n : Nat) : List Char := List.replicate zeros '0' ++ Nat.toDigits 10 n

theorem decimal_zeroPadded (zeros n : Nat) : Decimal (zeroPadded zeros n) := by
  constructor
  · simp [zeroPadded]
  · intro c member
    rw [← isDigit_iff]
    rcases List.mem_append.mp member with zero | digit
    · rw [(List.mem_replicate.mp zero).2]
      decide
    · exact Nat.isDigit_of_mem_toDigits (by decide) (by decide) digit

theorem placeValue_zeroPadded (zeros n : Nat) : placeValue (zeroPadded zeros n) = n := by
  rw [← ofDigitChars_eq_placeValue, zeroPadded, Nat.ofDigitChars_append,
    Nat.ofDigitChars_replicate_zero, Nat.mul_zero, Nat.ofDigitChars_ten_toDigits]

theorem numeral_zeroPadded (zeros : Nat) {n : Int} (nonnegative : 0 ≤ n) :
    Numeral (zeroPadded zeros n.toNat) n := by
  have numeral := Numeral.unsigned (decimal_zeroPadded zeros n.toNat)
  rwa [placeValue_zeroPadded, Int.toNat_of_nonneg nonnegative] at numeral

theorem render_nonnegative {word : Word} (nonnegative : 0 ≤ word.toInt) :
    (Value.integer word).render = String.ofList (Nat.toDigits 10 word.toInt.toNat) := by
  rw [Value.render, Int.toString_eq_repr, Int.repr_eq_if, if_pos nonnegative,
    Nat.repr_eq_ofList_toDigits]

theorem render_negative {word : Word} (negative : word.toInt < 0) :
    (Value.integer word).render = "-" ++ String.ofList (Nat.toDigits 10 (-word.toInt).toNat) := by
  rw [Value.render, Int.toString_eq_repr, Int.repr_eq_if, if_neg (by omega),
    Nat.repr_eq_ofList_toDigits]

def Expr.ofNumber (zeros : Nat) (word : Word) : Expr :=
  .atom ⟨.integer, String.ofList (zeroPadded zeros word.toInt.toNat), 0, .start⟩

/-- A built-in form applied to literals, each with the zeros in front that are given with it. -/
def Group.ofNumbers (builtin : Builtin) (numbers : List (Nat × Word)) : Group :=
  ⟨.atom (.synthetic builtin.name) :: numbers.map fun number => .ofNumber number.1 number.2, .start⟩

theorem Group.ofNumbers_spelled (builtin : Builtin) (numbers : List (Nat × Word)) :
    (Group.ofNumbers builtin numbers).toExpr.Spelled := by
  refine .list fun item member => ?_
  rcases List.mem_cons.mp member with same | member
  · subst same
    exact .atom builtin.spelled rfl
  · obtain ⟨number, _, same⟩ := List.mem_map.mp member
    subst same
    have written := decimal_zeroPadded number.1 number.2.toInt.toNat
    refine .atom ?_ rfl
    rw [String.toList_ofList]
    exact .integer written.1 written.isDigit

theorem run_of_group {g : Group} (spelled : g.toExpr.Spelled) :
    ∃ tree s, g.Like (fun _ _ => True) tree ∧
      ∀ depth, run (depth + 1) g.toExpr.render = ((eval depth tree.toExpr).run s).verdict := by
  obtain ⟨tokens, lexed, words⟩ := lex_of_writes spelled.writes
  obtain ⟨tree, like, _, read⟩ := parse_of_words spelled.plain words.symm
  obtain ⟨s, _, ran⟩ := run_of_groups lexed read
  refine ⟨tree, { s with log := .applying Builtin.sequence.name 1 .start :: s.log }, like, ?_⟩
  intro depth
  rw [ran, run_programOf_single]

theorem inTurn_numbers {numbers : List (Nat × Word)}
    (nonnegative : ∀ number ∈ numbers, 0 ≤ number.2.toInt) {operands : List Expr}
    (like : List.Forall₂ (Expr.Like fun _ _ => True)
      (numbers.map fun number => .ofNumber number.1 number.2) operands) (depth : Nat) (s : State) :
    InTurn (eval (depth + 1)) s operands ((numbers.map Prod.snd).map .integer) s := by
  induction numbers generalizing operands with
  | nil =>
    cases like
    exact .nil s
  | cons number later ih =>
    obtain ⟨zeros, word⟩ := number
    rw [List.forall_mem_cons] at nonnegative
    obtain ⟨operand, others, same, rest, rfl⟩ := List.forall₂_cons_left_iff.mp like
    refine .cons ?_ (ih nonnegative.2 rest)
    cases same with
    | @atom _ t same =>
      have numeral : Numeral t.text.toList word.toInt := by
        rw [← same.text, String.toList_ofList]
        exact numeral_zeroPadded zeros nonnegative.1
      have value := (atomValue_integer_iff same.kind.symm s.env).mpr numeral
      simp only [eval, evalStep, Eval.run_bind, Eval.run_env, value, Eval.run_ofExcept_ok,
        Eval.run_pure]

theorem run_numbers {builtin : Builtin} {total : List Word → Int} {numbers : List (Nat × Word)}
    (tally : ∀ ev location s operands, operands.length = numbers.length →
      Tally ev total location s operands ((callBuiltin ev builtin operands location).run s))
    (nonnegative : ∀ number ∈ numbers, 0 ≤ number.2.toInt)
    (fits : StaysInRange total (numbers.map Prod.snd)) {word : Word}
    (exact : word.toInt = total (numbers.map Prod.snd)) (depth : Nat) :
    run (depth + 3) (Group.ofNumbers builtin numbers).toExpr.render =
      .value (some (.integer word)) := by
  obtain ⟨⟨items, location⟩, s, like, ran⟩ := run_of_group (Group.ofNumbers_spelled builtin numbers)
  obtain ⟨head, operands, named, others, rfl⟩ := List.forall₂_cons_left_iff.mp like.items
  have keyword : head.identifier? = some builtin.name := named.identifier?_eq.symm
  have count : operands.length = numbers.length := by
    rw [← others.length_eq, List.length_map]
  let begun : State := { s with log := .applying builtin.name operands.length location :: s.log }
  have reckoned := tally (eval (depth + 1)) location begun operands count
  have gave := inTurn_numbers nonnegative others depth begun
  have done := (reckoned.done _ _).mpr ⟨_, word, gave, fits, exact, rfl⟩
  rw [ran, Group.toExpr, eval_builtin keyword, Eval.run_bind, Eval.run_emit]
  exact congrArg Outcome.verdict done

theorem render_sum_of_number (zeros : Nat) {word : Word} (nonnegative : 0 ≤ word.toInt) :
    (Group.ofNumbers .add [(zeros, word)]).toExpr.render =
      "(+ " ++ String.ofList (List.replicate zeros '0') ++ (Value.integer word).render ++ ")" := by
  rw [render_nonnegative nonnegative, ← String.toList_inj]
  simp [Group.ofNumbers, Group.toExpr, Expr.ofNumber, Expr.render, Expr.renderItems, zeroPadded,
    Token.synthetic, Builtin.name]

theorem render_difference_of_number (zeros : Nat) (word : Word) :
    (Group.ofNumbers .subtract [(0, 0), (zeros, word)]).toExpr.render =
      "(- 0 " ++ String.ofList (List.replicate zeros '0') ++
        String.ofList (Nat.toDigits 10 word.toInt.toNat) ++ ")" := by
  rw [← String.toList_inj]
  simp [Group.ofNumbers, Group.toExpr, Expr.ofNumber, Expr.render, Expr.renderItems, zeroPadded,
    Token.synthetic, Builtin.name]

theorem run_sum_of_shown {word : Word} (nonnegative : 0 ≤ word.toInt) (zeros depth : Nat) :
    run (depth + 3) ("(+ " ++ String.ofList (List.replicate zeros '0') ++
      (Value.integer word).render ++ ")") = .value (some (.integer word)) := by
  have alone : sumOf [word] = word.toInt := by simp [sumOf]
  rw [← render_sum_of_number zeros nonnegative]
  refine run_numbers ?_ (List.forall_mem_singleton.mpr nonnegative) ?_ alone.symm depth
  · intro ev location s operands _
    exact callBuiltin_add_tally ev location s operands
  · exact staysInRange_cons_iff.mpr ⟨alone ▸ word.inRange_toInt, staysInRange_nil⟩

/-- The least word of all is left out, because there is no word opposite to it. -/
theorem run_difference_of_shown {word : Word} (more : -2 ^ 63 < word.toInt)
    (negative : word.toInt < 0) (zeros depth : Nat) :
    ∃ digits, (Value.integer word).render = "-" ++ digits ∧
      run (depth + 3) ("(- 0 " ++ String.ofList (List.replicate zeros '0') ++ digits ++ ")") =
        .value (some (.integer word)) := by
  have inside : Word.InRange (-word.toInt) := by
    have := word.inRange_toInt
    unfold Word.InRange at this ⊢
    omega
  obtain ⟨size, opposite⟩ := Word.exists_of_inRange inside
  have first : differenceOf [0] = (0 : Word).toInt := rfl
  have reckoned : differenceOf [0, size] = word.toInt := by
    simp [differenceOf, sumOf, opposite]
  refine ⟨_, render_negative negative, ?_⟩
  rw [← opposite, ← render_difference_of_number]
  refine run_numbers ?_ ?_ ?_ reckoned.symm depth
  · intro ev location s operands count
    cases operands with
    | nil => cases count
    | cons first later => exact callBuiltin_subtract_tally ev location s first later
  · have positive : 0 ≤ size.toInt := by omega
    exact List.forall_mem_cons.mpr ⟨Int.le_refl 0, List.forall_mem_singleton.mpr positive⟩
  · refine staysInRange_cons_iff.mpr ⟨first ▸ Word.inRange_toInt 0, ?_⟩
    exact staysInRange_cons_iff.mpr ⟨reckoned ▸ word.inRange_toInt, staysInRange_nil⟩

/-- A literal is exact or it is refused: an integer token has the value that its text writes, if it
writes one that fits in a word, and is a number format error otherwise. A number that was shown is
the same number in a program; a negative one is taken from zero, as no literal is lexed with its
sign. -/
theorem integer_literals_exact :
    (∀ (t : Token) (env : Environment), t.kind = .integer →
      (∀ n : Int, (∃ word : Word, word.toInt = n ∧ atomValue env t = .ok (.integer word)) ↔
        Numeral t.text.toList n ∧ Word.InRange n) ∧
      ((¬ ∃ n, Numeral t.text.toList n ∧ Word.InRange n) →
        atomValue env t = .error ⟨.numericFormat t.text, t.location⟩)) ∧
    (∀ (word : Word) (zeros depth : Nat), 0 ≤ word.toInt →
      run (depth + 3) ("(+ " ++ String.ofList (List.replicate zeros '0') ++
        (Value.integer word).render ++ ")") = .value (some (.integer word))) ∧
    ∀ (word : Word) (zeros depth : Nat), -2 ^ 63 < word.toInt → word.toInt < 0 →
      ∃ digits, (Value.integer word).render = "-" ++ digits ∧
        run (depth + 3) ("(- 0 " ++ String.ofList (List.replicate zeros '0') ++ digits ++ ")") =
          .value (some (.integer word)) := by
  refine ⟨?_, ?_, ?_⟩
  · intro t env integer
    refine ⟨?_, atomValue_of_no_numeral integer env⟩
    intro n
    constructor
    · rintro ⟨word, rfl, value⟩
      exact ⟨(atomValue_integer_iff integer env).mp value, word.inRange_toInt⟩
    · rintro ⟨numeral, inside⟩
      obtain ⟨word, rfl⟩ := Word.exists_of_inRange inside
      exact ⟨word, rfl, (atomValue_integer_iff integer env).mpr numeral⟩
  · intro word zeros depth nonnegative
    exact run_sum_of_shown nonnegative zeros depth
  · intro word zeros depth more negative
    exact run_difference_of_shown more negative zeros depth

/-- The digits of the least word with a sign and without it, where they write a number that is too
large; and the two ends of what can be shown and taken up again. -/
theorem integer_literals_exact_of_ends :
    (∃ word : Word, word.toInt = -2 ^ 63 ∧
      atomValue .empty ⟨.integer, "-0009223372036854775808", 0, .start⟩ = .ok (.integer word)) ∧
    atomValue .empty ⟨.integer, "0009223372036854775808", 0, .start⟩ =
      .error ⟨.numericFormat "0009223372036854775808", .start⟩ ∧
    run 3 "(+ 009223372036854775807)" = .value (some (.integer 9223372036854775807)) ∧
    run 3 "(- 0 009223372036854775807)" = .value (some (.integer (-9223372036854775807))) := by
  obtain ⟨literals, shown, shownNegative⟩ := integer_literals_exact
  refine ⟨?_, ?_, ?_, ?_⟩
  · have decimal : Decimal "0009223372036854775808".toList := ⟨by decide, by simp⟩
    exact ((literals _ .empty rfl).1 (-2 ^ 63)).mpr ⟨.minus decimal, by unfold Word.InRange; omega⟩
  · refine (literals ⟨.integer, "0009223372036854775808", 0, .start⟩ .empty rfl).2 ?_
    rintro ⟨n, numeral, inside⟩
    have read : readNumeral? "0009223372036854775808".toList = some 9223372036854775808 := by decide
    rw [readNumeral?_eq_some_iff.mpr numeral] at read
    cases read
    unfold Word.InRange at inside
    omega
  · exact shown 9223372036854775807 2 0 (by decide)
  · obtain ⟨digits, same, ran⟩ := shownNegative (-9223372036854775807) 2 0 (by decide) (by decide)
    have told : digits = "9223372036854775807" := by
      have whole : "-" ++ "9223372036854775807" = "-" ++ digits := same
      exact ((String.append_right_inj "-").mp whole).symm
    rw [told] at ran
    exact ran

end SnapshotLisp
