import SnapshotLisp.Environment
import SnapshotLisp.Error
import SnapshotLisp.Event

/-!
Evaluations as functions of a state. A failed evaluation keeps what was bound and logged before the
failure. One that would go deeper than it is allowed has no result and no state: what it would have
come to is not known.
-/
namespace SnapshotLisp

/-- The identity is that of the next function to be defined. It never goes back, not even where
bindings are given up, so no two functions share one. The log stands newest first. -/
structure State where
  env : Environment
  identity : Nat
  log : List Event

inductive Outcome (α : Type) where
  | done (result : α) (state : State)
  | failed (error : EvalError) (state : State)
  | tooDeep

def Eval (α : Type) := State → Outcome α

namespace Eval

variable {α β : Type}

@[inline] def run (x : Eval α) (s : State) : Outcome α := x s

@[ext] theorem ext {x y : Eval α} (h : ∀ s, x.run s = y.run s) : x = y := funext h

@[inline] def pure (a : α) : Eval α := fun s => .done a s

@[inline] def bind (x : Eval α) (f : α → Eval β) : Eval β := fun s =>
  match x.run s with
  | .done a t => (f a).run t
  | .failed e t => .failed e t
  | .tooDeep => .tooDeep

@[always_inline] instance : Monad Eval where
  pure := pure
  bind := bind

@[simp] theorem run_pure (a : α) (s : State) : (Pure.pure a : Eval α).run s = .done a s := rfl

theorem run_bind (x : Eval α) (f : α → Eval β) (s : State) :
    (x >>= f).run s = match x.run s with
      | .done a t => (f a).run t
      | .failed e t => .failed e t
      | .tooDeep => .tooDeep := rfl

instance : LawfulMonad Eval := LawfulMonad.mk' Eval
  (by
    intro α x
    ext s
    change (x >>= fun a => Pure.pure (id a)).run s = x.run s
    rw [run_bind]
    cases x.run s <;> rfl)
  (fun _ _ => rfl)
  (by
    intro α β γ x f g
    ext s
    simp only [run_bind]
    cases x.run s <;> rfl)

@[inline] def fail (cause : EvalCause) (location : Location) : Eval α :=
  fun s => .failed ⟨cause, location⟩ s

@[inline] def ofExcept (x : Except EvalError α) : Eval α := fun s =>
  match x with
  | .ok a => .done a s
  | .error e => .failed e s

@[inline] def tooDeep : Eval α := fun _ => .tooDeep

@[inline] def env : Eval Environment := fun s => .done s.env s

@[inline] def emit (event : Event) : Eval Unit := fun s =>
  .done () { s with log := event :: s.log }

def define (closure : Closure) : Eval Value := fun s =>
  let function := Value.function s.identity closure
  .done function { s with
    env := s.env.define closure.name function
    identity := s.identity + 1 }

/-- Runs in the environment given and takes the present one up again afterwards, also after a
failure. -/
@[inline] def within (env : Environment) (x : Eval α) : Eval α := fun s =>
  match x.run { s with env := env } with
  | .done a t => .done a { t with env := s.env }
  | .failed e t => .failed e { t with env := s.env }
  | .tooDeep => .tooDeep

@[simp] theorem run_fail (cause : EvalCause) (location : Location) (s : State) :
    (fail cause location : Eval α).run s = .failed ⟨cause, location⟩ s := rfl

@[simp] theorem run_ofExcept_ok (a : α) (s : State) : (ofExcept (.ok a)).run s = .done a s := rfl

@[simp] theorem run_ofExcept_error (e : EvalError) (s : State) :
    (ofExcept (.error e) : Eval α).run s = .failed e s := rfl

@[simp] theorem run_tooDeep (s : State) : (tooDeep : Eval α).run s = .tooDeep := rfl

@[simp] theorem run_env (s : State) : env.run s = .done s.env s := rfl

@[simp] theorem run_emit (event : Event) (s : State) :
    (emit event).run s = .done () { s with log := event :: s.log } := rfl

theorem run_within (inner : Environment) (x : Eval α) (s : State) :
    (within inner x).run s = match x.run { s with env := inner } with
      | .done a t => .done a { t with env := s.env }
      | .failed e t => .failed e { t with env := s.env }
      | .tooDeep => .tooDeep := rfl

end Eval

end SnapshotLisp
