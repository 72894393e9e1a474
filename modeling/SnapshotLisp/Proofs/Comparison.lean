import SnapshotLisp.Evaluation

/-!
Two evaluations side by side. A comparison says what has to hold between them: of the functions they
hold, of their bindings and of the errors they end with. Identities and logs are not compared. The
laws here are those of the steps that evaluations are put together from.
-/
namespace SnapshotLisp

/-- The same word, the same truth, or functions whose closures are related. The identities of the
functions do not matter. -/
inductive Value.Like (closures : Closure → Closure → Prop) : Value → Value → Prop where
  | integer (word : Word) : Like closures (.integer word) (.integer word)
  | boolean (truth : Bool) : Like closures (.boolean truth) (.boolean truth)
  | function {identity identity' : Nat} {closure closure' : Closure}
      (related : closures closure closure') :
      Like closures (.function identity closure) (.function identity' closure')

theorem Value.Like.refl {closures : Closure → Closure → Prop} (same : ∀ c, closures c c)
    (v : Value) : v.Like closures v := by
  cases v with
  | integer word => exact .integer word
  | boolean truth => exact .boolean truth
  | function identity closure => exact .function (same closure)

theorem Value.Like.mono {weak strong : Closure → Closure → Prop} {v w : Value}
    (weaker : ∀ c d, strong c d → weak c d) (like : v.Like strong w) : v.Like weak w := by
  cases like with
  | integer word => exact .integer word
  | boolean truth => exact .boolean truth
  | function related => exact .function (weaker _ _ related)

/-- What has to hold between two evaluations. After an excused error of the first one nothing is
asked of the second. -/
structure Comparison where
  closure : Closure → Closure → Prop
  env : Environment → Environment → Prop
  error : EvalError → EvalError → Prop
  excused : EvalError → Prop

namespace Comparison

variable {α β γ δ : Type} (k : Comparison)

abbrev value : Value → Value → Prop := Value.Like k.closure

inductive Outcomes (results : α → β → Prop) : Outcome α → Outcome β → Prop where
  | done {a : α} {b : β} {s t : State} (result : results a b) (bindings : k.env s.env t.env) :
      Outcomes results (.done a s) (.done b t)
  | failed {e f : EvalError} {s t : State} (error : k.error e f) (bindings : k.env s.env t.env) :
      Outcomes results (.failed e s) (.failed f t)
  | excused {e : EvalError} {s : State} {other : Outcome β} (allowed : k.excused e) :
      Outcomes results (.failed e s) other
  | tooDeep : Outcomes results .tooDeep .tooDeep

inductive Checks (results : α → β → Prop) : Except EvalError α → Except EvalError β → Prop where
  | ok {a : α} {b : β} (result : results a b) : Checks results (.ok a) (.ok b)
  | error {e f : EvalError} (error : k.error e f) : Checks results (.error e) (.error f)
  | excused {e : EvalError} {other : Except EvalError β} (allowed : k.excused e) :
      Checks results (.error e) other

variable {k} {results : α → β → Prop}

theorem Outcomes.of_done {a : α} {s : State} {other : Outcome β}
    (outcomes : k.Outcomes results (.done a s) other) :
    ∃ b t, other = .done b t ∧ results a b ∧ k.env s.env t.env := by
  cases outcomes with
  | done result bindings => exact ⟨_, _, rfl, result, bindings⟩

theorem Outcomes.of_failed {e : EvalError} {s : State} {other : Outcome β}
    (outcomes : k.Outcomes results (.failed e s) other) (strict : ¬ k.excused e) :
    ∃ f t, other = .failed f t ∧ k.error e f ∧ k.env s.env t.env := by
  cases outcomes with
  | failed error bindings => exact ⟨_, _, rfl, error, bindings⟩
  | excused allowed => exact absurd allowed strict

variable (k)

def Matches (results : α → β → Prop) (x : Eval α) (y : Eval β) : Prop :=
  ∀ s t, k.env s.env t.env → k.Outcomes results (x.run s) (y.run t)

variable {k}

theorem checks_bind {results : α → β → Prop} {results' : γ → δ → Prop} {x : Except EvalError α}
    {y : Except EvalError β} {f : α → Except EvalError γ} {g : β → Except EvalError δ}
    (first : k.Checks results x y)
    (later : ∀ a b, results a b → k.Checks results' (f a) (g b)) :
    k.Checks results' (x >>= f) (y >>= g) := by
  cases first with
  | ok result => exact later _ _ result
  | error error => exact .error error
  | excused allowed => exact .excused allowed

theorem checks_mono {weak strong : α → β → Prop} {x : Except EvalError α} {y : Except EvalError β}
    (weaker : ∀ a b, strong a b → weak a b) (checks : k.Checks strong x y) : k.Checks weak x y := by
  cases checks with
  | ok result => exact .ok (weaker _ _ result)
  | error error => exact .error error
  | excused allowed => exact .excused allowed

end Comparison

end SnapshotLisp
