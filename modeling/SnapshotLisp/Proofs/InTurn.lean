import SnapshotLisp.Evaluator

/-!
Expressions evaluated in turn. Each one finds what those before it have left, and it is only come to
when all of those have given a value. Sums and calls evaluate their operands in this way and differ
in what they do with the values.
-/
namespace SnapshotLisp

/-- The expressions, each in the state that those before it left, give these values. -/
inductive InTurn (ev : Evaluator) : State → List Expr → List Value → State → Prop where
  | nil (s : State) : InTurn ev s [] [] s
  | cons {s mid t : State} {e : Expr} {later : List Expr} {value : Value} {values : List Value}
      (first : (ev e).run s = .done (some value) mid) (others : InTurn ev mid later values t) :
      InTurn ev s (e :: later) (value :: values) t

def ComesUp (ev : Evaluator) (s : State) (es : List Expr) (e : Expr) (values : List Value)
    (mid : State) : Prop :=
  ∃ early later, es = early ++ e :: later ∧ InTurn ev s early values mid

section

variable {ev : Evaluator} {s t mid : State} {e first : Expr} {es later : List Expr}
  {values : List Value}

theorem InTurn.length_eq (gave : InTurn ev s es values t) : values.length = es.length := by
  induction gave with
  | nil s => rfl
  | cons first others ih => rw [List.length_cons, List.length_cons, ih]

theorem inTurn_nil_iff : InTurn ev s [] values t ↔ values = [] ∧ t = s := by
  constructor
  · rintro ⟨⟩
    exact ⟨rfl, rfl⟩
  · rintro ⟨rfl, rfl⟩
    exact .nil t

theorem inTurn_cons_iff : InTurn ev s (e :: later) values t ↔
    ∃ value others mid, values = value :: others ∧ (ev e).run s = .done (some value) mid ∧
      InTurn ev mid later others t := by
  constructor
  · rintro (_ | ⟨first, others⟩)
    exact ⟨_, _, _, rfl, first, others⟩
  · rintro ⟨value, others, mid, rfl, first, rest⟩
    exact .cons first rest

theorem ComesUp.append (up : ComesUp ev s es e values mid) (more : List Expr) :
    ComesUp ev s (es ++ more) e values mid := by
  obtain ⟨early, later, rfl, gave⟩ := up
  exact ⟨early, later ++ more, by simp, gave⟩

theorem not_comesUp_nil : ¬ ComesUp ev s [] e values mid := by
  rintro ⟨early, later, split, _⟩
  simp at split

theorem comesUp_cons_iff : ComesUp ev s (first :: later) e values mid ↔
    e = first ∧ values = [] ∧ mid = s ∨
      ∃ value others next, values = value :: others ∧ (ev first).run s = .done (some value) next ∧
        ComesUp ev next later e others mid := by
  constructor
  · rintro ⟨early, behind, split, gave⟩
    cases early with
    | nil =>
      rw [List.nil_append, List.cons.injEq] at split
      exact Or.inl ⟨split.1.symm, inTurn_nil_iff.mp gave⟩
    | cons head early =>
      rw [List.cons_append, List.cons.injEq] at split
      obtain ⟨rfl, split⟩ := split
      obtain ⟨value, others, next, rfl, ran, rest⟩ := inTurn_cons_iff.mp gave
      exact Or.inr ⟨value, others, next, rfl, ran, early, behind, split, rest⟩
  · rintro (⟨rfl, rfl, rfl⟩ | ⟨value, others, next, rfl, ran, early, behind, rfl, rest⟩)
    · exact ⟨[], later, rfl, .nil mid⟩
    · exact ⟨first :: early, behind, rfl, .cons ran rest⟩

theorem inTurn_or_comesUp (ev : Evaluator) (s : State) (es : List Expr) :
    (∃ values t, InTurn ev s es values t) ∨
      ∃ e values mid, ComesUp ev s es e values mid ∧
        ∀ value t, (ev e).run mid ≠ .done (some value) t := by
  induction es generalizing s with
  | nil => exact Or.inl ⟨[], s, .nil s⟩
  | cons first later ih =>
    by_cases gives : ∃ value mid, (ev first).run s = .done (some value) mid
    · obtain ⟨value, mid, ran⟩ := gives
      rcases ih mid with ⟨values, t, gave⟩ | ⟨e, values, last, up, stuck⟩
      · exact Or.inl ⟨value :: values, t, .cons ran gave⟩
      · refine Or.inr ⟨e, value :: values, last, ?_, stuck⟩
        exact comesUp_cons_iff.mpr (Or.inr ⟨value, values, mid, rfl, ran, up⟩)
    · refine Or.inr ⟨first, [], s, comesUp_cons_iff.mpr (Or.inl ⟨rfl, rfl, rfl⟩), ?_⟩
      intro value t ran
      exact gives ⟨value, t, ran⟩

end

end SnapshotLisp
