import SnapshotLisp.Run
import SnapshotLisp.Proofs.SameSimulation

/-!
More bindings do no harm. An evaluation that succeeds does so in every larger environment as well,
with the same result: a name that is not bound can only be noticed by failing on it, and nothing
goes on after a failure.
-/
namespace SnapshotLisp

abbrev Value.Alike : Value → Value → Prop := Value.Like (· = ·)

namespace Environment

def Below (first second : Environment) : Prop :=
  ∀ name v, first.get? name = some v → ∃ w, second.get? name = some w ∧ v.Alike w

theorem empty_below (env : Environment) : empty.Below env := by
  intro name v bound
  simp at bound

theorem Below.define {first second : Environment} (below : first.Below second) {v w : Value}
    (alike : v.Alike w) (name : String) : (first.define name v).Below (second.define name w) := by
  intro other u bound
  rw [get?_define] at bound ⊢
  split at bound
  · rename_i same
    cases bound
    exact ⟨w, by rw [if_pos same], alike⟩
  · rename_i different
    rw [if_neg different]
    exact below other u bound

end Environment

def EvalCause.isLookup : EvalCause → Bool
  | .unknownVariable _ | .expectedFunction _ => true
  | _ => false

def Comparison.ofBelow : Comparison where
  closure := (· = ·)
  env := Environment.Below
  error := (· = ·)
  excused e := e.cause.isLookup

namespace Environment

variable {first second : Environment}

theorem Below.atomValue (below : first.Below second) (token : Token) :
    Comparison.ofBelow.Checks Comparison.ofBelow.value (atomValue first token)
      (atomValue second token) := by
  unfold SnapshotLisp.atomValue
  split
  · cases Word.ofNumeral? token.text with
    | some word => exact .ok (.integer word)
    | none => exact .error rfl
  · cases bound : first.get? token.text with
    | some v =>
      obtain ⟨w, found, alike⟩ := below token.text v bound
      rw [found]
      exact .ok alike
    | none => exact .excused rfl

theorem Below.callee (below : first.Below second) (name : String) (head : Location) :
    Comparison.ofBelow.Checks (· = ·) (callee first name head) (callee second name head) := by
  unfold SnapshotLisp.callee
  cases bound : first.get? name with
  | some v =>
    obtain ⟨w, found, alike⟩ := below name v bound
    rw [found]
    cases alike with
    | integer word => exact .excused rfl
    | boolean truth => exact .excused rfl
    | function same => exact .ok same
  | none => exact .excused rfl

end Environment

theorem below_simulation : SameSimulation Comparison.ofBelow (fun _ => True) where
  closure_eq := id
  atom := fun _ _ _ below => below.atomValue _
  found := fun _ _ _ _ _ _ below => below.callee _ _
  operand := fun _ _ _ _ => trivial
  accepted := fun _ _ _ _ => rfl
  refused := fun _ _ _ _ => rfl
  form := fun _ _ _ _ => trivial
  body := fun _ => trivial
  define := fun below alike => below.define alike _
  blamed := fun _ _ => rfl
  mismatch := fun _ _ _ _ => rfl

/-- Success is monotone in the bindings. What holds of every larger environment holds in particular
of any environment after a fresh one, and of the one that the first evaluation left. -/
theorem evaluation_monotone (depth : Nat) (e : Expr) :
    (∀ s t : State, s.env.Below t.env →
      (∀ result s', (eval depth e).run s = .done result s' →
        ∃ result' t', (eval depth e).run t = .done result' t' ∧
          Option.Rel Value.Alike result result' ∧ s'.env.Below t'.env) ∧
      (∀ error s', (eval depth e).run s = .failed error s' → error.cause.isLookup = false →
        ∃ t', (eval depth e).run t = .failed error t' ∧ s'.env.Below t'.env)) ∧
    (∀ result s', (eval depth e).run .initial = .done result s' →
      (∀ t, ∃ result' t', (eval depth e).run t = .done result' t' ∧
        Option.Rel Value.Alike result result') ∧
      ∃ result' t', (eval depth e).run s' = .done result' t' ∧
        Option.Rel Value.Alike result result') := by
  have step := below_simulation.eval_matches depth (e := e) trivial
  have success : ∀ s t : State, s.env.Below t.env → ∀ result s',
      (eval depth e).run s = .done result s' → ∃ result' t',
        (eval depth e).run t = .done result' t' ∧
          Option.Rel Value.Alike result result' ∧ s'.env.Below t'.env := by
    intro s t below result s' ended
    have outcomes := step s t below
    rw [ended] at outcomes
    exact outcomes.of_done
  refine ⟨fun s t below => ⟨success s t below, ?_⟩, ?_⟩
  · intro error s' ended strict
    have outcomes := step s t below
    rw [ended] at outcomes
    obtain ⟨error', t', failed, same, after⟩ :=
      outcomes.of_failed (by simp [Comparison.ofBelow, strict])
    cases same
    exact ⟨t', failed, after⟩
  · intro result s' ended
    have anywhere : ∀ t, ∃ result' t', (eval depth e).run t = .done result' t' ∧
        Option.Rel Value.Alike result result' := by
      intro t
      obtain ⟨result', t', again, alike, _⟩ :=
        success .initial t (Environment.empty_below t.env) result s' ended
      exact ⟨result', t', again, alike⟩
    exact ⟨anywhere, anywhere s'⟩

def Outcome.isDone {α : Type} : Outcome α → Bool
  | .done _ _ => true
  | .failed _ _ | .tooDeep => false

theorem Outcome.exists_of_isDone {α : Type} {x : Outcome α} {after : α → State → Prop}
    (ended : x.isDone) (holds : ∀ result s, x = .done result s → after result s) :
    ∃ result s, x = .done result s ∧ after result s := by
  cases x with
  | done result s => exact ⟨result, s, rfl, holds result s rfl⟩
  | failed error s => cases ended
  | tooDeep => cases ended

/-- `(begin (func f (g) (g)) (f (func g () (+))))` calls the function that it is given. -/
theorem evaluation_monotone_of_call :
    ∃ e, e = Expr.list [.atom (.synthetic "begin"),
        .list [.atom (.synthetic "func"), .atom (.synthetic "f"),
          .list [.atom (.synthetic "g")] .start, .list [.atom (.synthetic "g")] .start] .start,
        .list [.atom (.synthetic "f"), .list [.atom (.synthetic "func"), .atom (.synthetic "g"),
          .list [] .start, .list [.atom (.synthetic "+")] .start] .start] .start] .start ∧
      ∃ result s', (eval 6 e).run .initial = .done result s' ∧
        ∀ t, ∃ result' t', (eval 6 e).run t = .done result' t' ∧
          Option.Rel Value.Alike result result' := by
  refine ⟨_, rfl, Outcome.exists_of_isDone (by decide +kernel) ?_⟩
  intro result s' ended
  exact ((evaluation_monotone _ _).2 result s' ended).1

end SnapshotLisp
