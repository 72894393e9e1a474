import SnapshotLisp.Proofs.InTurn
import Mathlib.Algebra.BigOperators.Group.List.Basic
import Mathlib.Algebra.Ring.Int.Defs

/-!
Exact arithmetic. A sum or a difference is reckoned in unbounded integers here, over the operands
that were evaluated, and compared with what the evaluator does in words. A total that is no word
ends the evaluation on the spot, even where later operands would bring it back into range, so it is
the totals on the way that count and not only the last one.
-/
namespace SnapshotLisp

def Word.InRange (n : Int) : Prop := -2 ^ 63 ≤ n ∧ n ≤ 2 ^ 63 - 1

theorem Word.inRange_iff {n : Int} : Word.InRange n ↔ least ≤ n ∧ n ≤ greatest := by
  unfold InRange least greatest
  omega

theorem Word.inRange_toInt (w : Word) : Word.InRange w.toInt :=
  inRange_iff.mpr w.toInt_in_range

theorem Word.ofInt?_eq_none_iff {n : Int} : Word.ofInt? n = none ↔ ¬ Word.InRange n := by
  rw [inRange_iff, ofInt?, ite_eq_right_iff]
  simp

def sumOf (words : List Word) : Int := (words.map Int64.toInt).sum

def differenceOf : List Word → Int
  | [] => 0
  | first :: later => first.toInt - sumOf later

def StaysInRange (total : List Word → Int) (words : List Word) : Prop :=
  ∀ i < words.length, Word.InRange (total (words.take (i + 1)))

inductive Faulty (ev : Evaluator) (operand : Expr) (s : State) : EvalError → State → Prop where
  | fails {e : EvalError} {t : State} (ran : (ev operand).run s = .failed e t) :
      Faulty ev operand s e t
  | other {found : Option Value} {t : State} (ran : (ev operand).run s = .done found t)
      (notInteger : ∀ word, found ≠ some (.integer word)) :
      Faulty ev operand s ⟨.expectedInteger (Value.describe found), operand.location⟩ t

/-- Something happens at an operand, and all before it are integers with their totals in range. -/
def Meets (ev : Evaluator) (total : List Word → Int) (s : State) (operands : List Expr)
    (event : Expr → List Word → State → Prop) : Prop :=
  ∃ operand words mid, ComesUp ev s operands operand (words.map .integer) mid ∧
    StaysInRange total words ∧ event operand words mid

def Overflows (ev : Evaluator) (total : List Word → Int) (s : State) (operands : List Expr)
    (t : State) : Prop :=
  Meets ev total s operands fun operand words mid => ∃ word,
    (ev operand).run mid = .done (some (.integer word)) t ∧
      ¬ Word.InRange (total (words ++ [word]))

def Faults (ev : Evaluator) (total : List Word → Int) (s : State) (operands : List Expr)
    (e : EvalError) (t : State) : Prop :=
  Meets ev total s operands fun operand _ mid => Faulty ev operand mid e t

/-- The outcome of reckoning a total from left to right. It is an integer if all operands are and no
total leaves the range on the way, and then it is the last total. It is an overflow of its own if
the total leaves the range with one of the operands; an operand may also fail with that very error,
and then it is not. All other failures are those of the first operand that is at fault. -/
structure Tally (ev : Evaluator) (total : List Word → Int) (location : Location) (s : State)
    (operands : List Expr) (outcome : Outcome (Option Value)) : Prop where
  done : ∀ result t, outcome = .done result t ↔
    ∃ words word, InTurn ev s operands (words.map .integer) t ∧ StaysInRange total words ∧
      word.toInt = total words ∧ result = some (.integer word)
  overflow : ∀ t, outcome = .failed ⟨.overflow, location⟩ t ∧
      ¬ Faults ev total s operands ⟨.overflow, location⟩ t ↔ Overflows ev total s operands t
  failed : ∀ e t, outcome = .failed e t ↔
    e = ⟨.overflow, location⟩ ∧ Overflows ev total s operands t ∨ Faults ev total s operands e t
  tooDeep : outcome = .tooDeep ↔
    Meets ev total s operands fun operand _ mid => (ev operand).run mid = .tooDeep

section

variable {total : List Word → Int} {word : Word} {words : List Word}

theorem staysInRange_nil : StaysInRange total [] := by
  intro i inside
  cases inside

theorem staysInRange_cons_iff : StaysInRange total (word :: words) ↔
    Word.InRange (total [word]) ∧ StaysInRange (fun later => total (word :: later)) words := by
  constructor
  · intro fits
    refine ⟨fits 0 (Nat.zero_lt_succ _), ?_⟩
    intro i inside
    exact fits (i + 1) (Nat.succ_lt_succ inside)
  · rintro ⟨first, later⟩ i inside
    cases i with
    | zero => exact first
    | succ i => exact later i (Nat.lt_of_succ_lt_succ inside)

end

section

variable {ev : Evaluator} {total : List Word → Int} {location : Location} {s mid t : State}
  {operand : Expr} {later : List Expr} {word : Word} {outcome : Outcome (Option Value)}
  {event : Expr → List Word → State → Prop}

theorem Meets.append {operands : List Expr} (meets : Meets ev total s operands event)
    (more : List Expr) : Meets ev total s (operands ++ more) event := by
  obtain ⟨operand, words, mid, up, fits, happens⟩ := meets
  exact ⟨operand, words, mid, up.append more, fits, happens⟩

theorem not_meets_nil : ¬ Meets ev total s [] event := by
  rintro ⟨operand, words, mid, up, _⟩
  exact not_comesUp_nil up

theorem meets_cons_iff : Meets ev total s (operand :: later) event ↔
    event operand [] s ∨ ∃ word mid, (ev operand).run s = .done (some (.integer word)) mid ∧
      Word.InRange (total [word]) ∧ Meets ev (fun words => total (word :: words)) mid later
        fun e words => event e (word :: words) := by
  constructor
  · rintro ⟨e, words, mid, up, fits, happens⟩
    rcases comesUp_cons_iff.mp up with ⟨rfl, none, rfl⟩ | ⟨value, others, next, some, ran, rest⟩
    · rw [List.map_eq_nil_iff] at none
      subst none
      exact Or.inl happens
    · obtain ⟨word, words, rfl, rfl, rfl⟩ := List.map_eq_cons_iff.mp some
      obtain ⟨first, fits⟩ := staysInRange_cons_iff.mp fits
      exact Or.inr ⟨word, next, ran, first, e, words, mid, rest, fits, happens⟩
  · rintro (happens | ⟨word, next, ran, first, e, words, mid, up, fits, happens⟩)
    · have up : ComesUp ev s (operand :: later) operand [] s :=
        comesUp_cons_iff.mpr (Or.inl ⟨rfl, rfl, rfl⟩)
      exact ⟨operand, [], s, up, staysInRange_nil, happens⟩
    · refine ⟨e, word :: words, mid, ?_, staysInRange_cons_iff.mpr ⟨first, fits⟩, happens⟩
      exact comesUp_cons_iff.mpr (Or.inr ⟨_, _, next, rfl, ran, up⟩)

theorem meets_behind (ran : (ev operand).run s = .done (some (.integer word)) mid)
    (inside : Word.InRange (total [word])) (quiet : ¬ event operand [] s) :
    Meets ev total s (operand :: later) event ↔
      Meets ev (fun words => total (word :: words)) mid later
        fun e words => event e (word :: words) := by
  rw [meets_cons_iff]
  constructor
  · rintro (happens | ⟨word', mid', again, _, meets⟩)
    · exact absurd happens quiet
    · rw [ran] at again
      cases again
      exact meets
  · intro meets
    exact Or.inr ⟨word, mid, ran, inside, meets⟩

theorem meets_here (stops : ∀ word mid, (ev operand).run s = .done (some (.integer word)) mid →
      ¬ Word.InRange (total [word])) :
    Meets ev total s (operand :: later) event ↔ event operand [] s := by
  rw [meets_cons_iff, or_iff_left]
  rintro ⟨word, mid, ran, inside, _⟩
  exact stops word mid ran inside

theorem integers_cons_iff {words : List Word} :
    InTurn ev s (operand :: later) (words.map .integer) t ∧ StaysInRange total words ↔
      ∃ word others mid, words = word :: others ∧
        (ev operand).run s = .done (some (.integer word)) mid ∧ Word.InRange (total [word]) ∧
          InTurn ev mid later (others.map .integer) t ∧
            StaysInRange (fun words => total (word :: words)) others := by
  constructor
  · rintro ⟨gave, fits⟩
    obtain ⟨value, others, mid, some, ran, rest⟩ := inTurn_cons_iff.mp gave
    obtain ⟨word, words, rfl, rfl, rfl⟩ := List.map_eq_cons_iff.mp some
    obtain ⟨first, fits⟩ := staysInRange_cons_iff.mp fits
    exact ⟨word, words, mid, rfl, ran, first, rest, fits⟩
  · rintro ⟨word, others, mid, rfl, ran, first, rest, fits⟩
    exact ⟨inTurn_cons_iff.mpr ⟨_, _, mid, rfl, ran, rest⟩,
      staysInRange_cons_iff.mpr ⟨first, fits⟩⟩

theorem evalInteger_of_integer (ran : (ev operand).run s = .done (some (.integer word)) mid) :
    (evalInteger ev operand).run s = .done word mid := by
  rw [evalInteger, Eval.run_bind, ran]
  rfl

theorem evalInteger_of_tooDeep (ran : (ev operand).run s = .tooDeep) :
    (evalInteger ev operand).run s = .tooDeep := by
  rw [evalInteger, Eval.run_bind, ran]

theorem Faulty.evalInteger_eq {e : EvalError} (fault : Faulty ev operand s e t) :
    (evalInteger ev operand).run s = .failed e t := by
  cases fault with
  | fails ran => rw [evalInteger, Eval.run_bind, ran]
  | other ran notInteger =>
    rw [evalInteger, Eval.run_bind, ran]
    dsimp only
    split
    · exact absurd rfl (notInteger _)
    · rfl

theorem Faulty.unique {e e' : EvalError} {t' : State} (one : Faulty ev operand s e t)
    (two : Faulty ev operand s e' t') : e = e' ∧ t = t' := by
  have same := one.evalInteger_eq.symm.trans two.evalInteger_eq
  cases same
  exact ⟨rfl, rfl⟩

theorem Faulty.not_integer {e : EvalError} (fault : Faulty ev operand s e t) :
    (ev operand).run s ≠ .done (some (.integer word)) mid := by
  intro ran
  have same := fault.evalInteger_eq.symm.trans (evalInteger_of_integer ran)
  cases same

theorem Faulty.not_tooDeep {e : EvalError} (fault : Faulty ev operand s e t) :
    (ev operand).run s ≠ .tooDeep := by
  intro ran
  have same := fault.evalInteger_eq.symm.trans (evalInteger_of_tooDeep ran)
  cases same

theorem operand_cases (ev : Evaluator) (operand : Expr) (s : State) :
    (∃ word mid, (ev operand).run s = .done (some (.integer word)) mid) ∨
      (∃ e t, Faulty ev operand s e t) ∨ (ev operand).run s = .tooDeep := by
  cases ran : (ev operand).run s with
  | done found t =>
    by_cases integer : ∃ word, found = some (.integer word)
    · obtain ⟨word, rfl⟩ := integer
      exact Or.inl ⟨word, t, rfl⟩
    · refine Or.inr (Or.inl ⟨_, t, .other ran ?_⟩)
      intro word same
      exact integer ⟨word, same⟩
  | failed e t => exact Or.inr (Or.inl ⟨e, t, .fails ran⟩)
  | tooDeep => exact Or.inr (Or.inr rfl)

theorem not_integers_here (stops : ∀ word mid,
      (ev operand).run s = .done (some (.integer word)) mid → ¬ Word.InRange (total [word]))
    (words : List Word) :
    ¬ (InTurn ev s (operand :: later) (words.map .integer) t ∧ StaysInRange total words) := by
  intro integers
  obtain ⟨word, others, mid, _, ran, inside, _⟩ := integers_cons_iff.mp integers
  exact stops word mid ran inside

namespace Tally

theorem nil (exact : word.toInt = total []) :
    Tally ev total location s [] (.done (some (.integer word)) s) where
  done := by
    intro result t
    constructor
    · intro same
      cases same
      exact ⟨[], word, .nil s, staysInRange_nil, exact, rfl⟩
    · rintro ⟨words, last, gave, _, same, rfl⟩
      obtain ⟨none, rfl⟩ := inTurn_nil_iff.mp gave
      rw [List.map_eq_nil_iff] at none
      subst none
      rw [← exact] at same
      rw [Int64.toInt_inj.mp same]
  overflow := by simp [Overflows, not_meets_nil]
  failed := by simp [Overflows, Faults, not_meets_nil]
  tooDeep := by simp [not_meets_nil]

theorem cons (ran : (ev operand).run s = .done (some (.integer word)) mid)
    (inside : Word.InRange (total [word]))
    (behind : Tally ev (fun words => total (word :: words)) location mid later outcome) :
    Tally ev total location s (operand :: later) outcome := by
  have overflows : ∀ t, Overflows ev total s (operand :: later) t ↔
      Overflows ev (fun words => total (word :: words)) mid later t := by
    intro t
    apply meets_behind ran inside
    simp [ran, inside]
  have faults : ∀ e t, Faults ev total s (operand :: later) e t ↔
      Faults ev (fun words => total (word :: words)) mid later e t := by
    intro e t
    exact meets_behind ran inside fun fault => fault.not_integer ran
  refine ⟨?_, ?_, ?_, ?_⟩
  · intro result t
    rw [behind.done]
    constructor
    · rintro ⟨words, last, gave, fits, exact, rfl⟩
      obtain ⟨gave, fits⟩ := integers_cons_iff.mpr ⟨word, words, mid, rfl, ran, inside, gave, fits⟩
      exact ⟨word :: words, last, gave, fits, exact, rfl⟩
    · rintro ⟨words, last, gave, fits, exact, rfl⟩
      obtain ⟨first, others, next, rfl, again, _, gave, fits⟩ := integers_cons_iff.mp ⟨gave, fits⟩
      rw [ran] at again
      cases again
      exact ⟨others, last, gave, fits, exact, rfl⟩
  · intro t
    rw [overflows, faults]
    exact behind.overflow t
  · intro e t
    rw [overflows, faults]
    exact behind.failed e t
  · rw [behind.tooDeep, meets_behind ran inside]
    simp [ran]

theorem stop (stops : ∀ word mid,
      (ev operand).run s = .done (some (.integer word)) mid → ¬ Word.InRange (total [word]))
    (notDone : ∀ result t, outcome ≠ .done result t)
    (failed : ∀ e t, outcome = .failed e t ↔ e = ⟨.overflow, location⟩ ∧
      (∃ word, (ev operand).run s = .done (some (.integer word)) t) ∨ Faulty ev operand s e t)
    (tooDeep : outcome = .tooDeep ↔ (ev operand).run s = .tooDeep) :
    Tally ev total location s (operand :: later) outcome := by
  have overflows : ∀ t, Overflows ev total s (operand :: later) t ↔
      ∃ word, (ev operand).run s = .done (some (.integer word)) t := by
    intro t
    rw [Overflows, meets_here stops]
    exact exists_congr fun word => and_iff_left_of_imp fun ran => stops word t ran
  have faults : ∀ e t, Faults ev total s (operand :: later) e t ↔ Faulty ev operand s e t :=
    fun e t => meets_here stops
  refine ⟨?_, ?_, ?_, ?_⟩
  · intro result t
    constructor
    · intro ended
      exact absurd ended (notDone result t)
    · rintro ⟨words, _, gave, fits, _⟩
      exact absurd ⟨gave, fits⟩ (not_integers_here stops words)
  · intro t
    rw [overflows, faults, failed]
    constructor
    · rintro ⟨⟨_, integer⟩ | fault, notFault⟩
      · exact integer
      · exact absurd fault notFault
    · rintro ⟨word, ran⟩
      exact ⟨Or.inl ⟨rfl, word, ran⟩, fun fault => fault.not_integer ran⟩
  · intro e t
    rw [overflows, faults, failed]
  · rw [tooDeep, meets_here stops]

theorem overflowed (ran : (ev operand).run s = .done (some (.integer word)) mid)
    (outside : ¬ Word.InRange (total [word])) :
    Tally ev total location s (operand :: later) (.failed ⟨.overflow, location⟩ mid) := by
  apply stop
  · intro next after again
    rw [ran] at again
    cases again
    exact outside
  · nofun
  · intro e t
    constructor
    · intro same
      cases same
      exact Or.inl ⟨rfl, word, ran⟩
    · rintro (⟨rfl, next, again⟩ | fault)
      · rw [ran] at again
        cases again
        rfl
      · exact absurd ran fault.not_integer
  · simp [ran]

theorem faulty {e : EvalError} (fault : Faulty ev operand s e t) :
    Tally ev total location s (operand :: later) (.failed e t) := by
  apply stop
  · intro word mid ran
    exact absurd ran fault.not_integer
  · nofun
  · intro e' t'
    constructor
    · intro same
      cases same
      exact Or.inr fault
    · rintro (⟨_, word, ran⟩ | again)
      · exact absurd ran fault.not_integer
      · obtain ⟨rfl, rfl⟩ := fault.unique again
        rfl
  · simp [fault.not_tooDeep]

theorem deeper (ran : (ev operand).run s = .tooDeep) :
    Tally ev total location s (operand :: later) .tooDeep := by
  apply stop
  · intro word mid again
    rw [ran] at again
    cases again
  · nofun
  · intro e t
    constructor
    · nofun
    · rintro (⟨_, word, again⟩ | fault)
      · rw [ran] at again
        cases again
      · exact absurd ran fault.not_tooDeep
  · simp [ran]

end Tally

end

section

variable {ev : Evaluator} {location : Location} {total : List Word → Int}

def Eval.valued (x : Eval Word) : Eval (Option Value) := do pure (some (.integer (← x)))

theorem evalTotal_tally {step : Word → Word → Option Word} {change : Int → Int}
    (exact : ∀ a b, step a b = Word.ofInt? (a.toInt + change b.toInt)) {begun : Word}
    (operands : List Expr) (s : State)
    (totals : ∀ words : List Word,
      total words = begun.toInt + (words.map fun word => change word.toInt).sum) :
    Tally ev total location s operands
      ((evalTotal ev step location begun operands).valued.run s) := by
  -- The induction is on the operands, for every total that the reckoning may have come to before.
  induction operands generalizing begun s total with
  | nil => exact .nil (by simp [totals])
  | cons operand later ih =>
    have first : ∀ word, total [word] = begun.toInt + change word.toInt := by simp [totals]
    unfold Eval.valued evalTotal
    rw [Eval.run_bind, Eval.run_bind]
    rcases operand_cases ev operand s with ⟨word, mid, ran⟩ | ⟨e, t, fault⟩ | ran
    · rw [evalInteger_of_integer ran]
      dsimp only
      cases stepped : step begun word with
      | some next =>
        rw [exact, Word.ofInt?_eq_some_iff, ← first] at stepped
        refine .cons ran (stepped ▸ next.inRange_toInt) (ih mid ?_)
        intro words
        rw [stepped, first, totals]
        simp [Int.add_assoc]
      | none =>
        rw [exact, Word.ofInt?_eq_none_iff, ← first] at stepped
        exact .overflowed ran stepped
    · rw [fault.evalInteger_eq]
      exact .faulty fault
    · rw [evalInteger_of_tooDeep ran]
      exact .deeper ran

theorem callBuiltin_add_tally (ev : Evaluator) (location : Location) (s : State)
    (operands : List Expr) :
    Tally ev sumOf location s operands ((callBuiltin ev .add operands location).run s) := by
  have exact : ∀ a b, Word.add? a b = Word.ofInt? (a.toInt + id b.toInt) := fun _ _ => rfl
  refine evalTotal_tally exact operands s ?_
  intro words
  simp [sumOf]

theorem callBuiltin_subtract_tally (ev : Evaluator) (location : Location) (s : State)
    (first : Expr) (later : List Expr) :
    Tally ev differenceOf location s (first :: later)
      ((callBuiltin ev .subtract (first :: later) location).run s) := by
  have exact : ∀ a b, Word.sub? a b = Word.ofInt? (a.toInt + -b.toInt) := fun _ _ => rfl
  change Tally _ _ _ _ _ ((evalInteger ev first >>= fun begun =>
    (evalTotal ev Word.sub? location begun later).valued).run s)
  rw [Eval.run_bind]
  rcases operand_cases ev first s with ⟨word, mid, ran⟩ | ⟨e, t, fault⟩ | ran
  · have alone : differenceOf [word] = word.toInt := by simp [differenceOf, sumOf]
    rw [evalInteger_of_integer ran]
    refine .cons ran (alone ▸ word.inRange_toInt) (evalTotal_tally exact later mid ?_)
    intro words
    rw [differenceOf, sumOf, Int.sub_eq_add_neg, List.sum_neg, List.map_map]
    rfl
  · rw [fault.evalInteger_eq]
    exact .faulty fault
  · rw [evalInteger_of_tooDeep ran]
    exact .deeper ran

end

/-- Sums and differences are exact: they are what the unbounded totals say, as long as all of these
are in range. The operand that takes a total out of range is the last one to be evaluated, so what
stands behind it has no say. -/
theorem arithmetic_exact (depth : Nat) (location : Location) (s : State) :
    (∀ operands, Tally (eval depth) sumOf location s operands
      ((callBuiltin (eval depth) .add operands location).run s)) ∧
    (∀ first later, Tally (eval depth) differenceOf location s (first :: later)
      ((callBuiltin (eval depth) .subtract (first :: later) location).run s)) ∧
    ∀ total operands later t, Overflows (eval depth) total s operands t →
      Overflows (eval depth) total s (operands ++ later) t := by
  refine ⟨callBuiltin_add_tally (eval depth) location s,
    callBuiltin_subtract_tally (eval depth) location s, ?_⟩
  intro total operands later t overflows
  exact overflows.append later

-- The last operand is not evaluated, or it would be at fault and bind `f`.
example : (match (callBuiltin (eval 2) .add [.atom ⟨.integer, "9223372036854775807", 0, .start⟩,
      .atom ⟨.integer, "1", 0, .start⟩, .list [.atom (.synthetic "func"), .atom (.synthetic "f"),
        .list [] .start, .list [] .start] .start] .start).run ⟨.empty, 0, []⟩ with
    | .failed e t => some (e.cause, t.env.isEmpty)
    | _ => none) = some (.overflow, true) := by decide +kernel

end SnapshotLisp
