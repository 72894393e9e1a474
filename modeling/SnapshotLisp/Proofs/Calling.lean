import SnapshotLisp.Proofs.Frame
import SnapshotLisp.Proofs.InTurn

/-!
The call of a function, step by step. Which function is called is settled before the arguments are
evaluated; whether their number is right is looked at behind them. The body runs in a copy of what
they have left, with the parameters bound on top, and nothing it binds is there for the caller.
-/
namespace SnapshotLisp

namespace Environment

theorem get?_snapshot_of_not_mem {name : String} {params : List String} (other : name ∉ params)
    (env : Environment) (values : List Value) :
    (env.snapshot params values).get? name = env.get? name := by
  induction params generalizing env values with
  | nil => rfl
  | cons param params ih =>
    rw [List.mem_cons, not_or] at other
    cases values with
    | nil => rfl
    | cons value values =>
      have rest := ih other.2 (env.define param value) values
      rw [get?_define, if_neg other.1] at rest
      exact rest

theorem get?_snapshot_of_last {name : String} {before after : List String} (last : name ∉ after)
    (env : Environment) {values : List Value}
    (count : values.length = (before ++ name :: after).length) :
    (env.snapshot (before ++ name :: after) values).get? name = values[before.length]? := by
  induction before generalizing env values with
  | nil =>
    cases values with
    | nil => simp at count
    | cons value values =>
      have rest := get?_snapshot_of_not_mem last (env.define name value) values
      rw [get?_define, if_pos rfl] at rest
      exact rest
  | cons param before ih =>
    cases values with
    | nil => simp at count
    | cons value values =>
      simp only [List.cons_append, List.length_cons, Nat.add_right_cancel_iff] at count
      exact ih (env.define param value) count

end Environment

def Outcome.backIn {α : Type} (env : Environment) : Outcome α → Outcome α
  | .done a t => .done a { t with env := env }
  | .failed e t => .failed e { t with env := env }
  | .tooDeep => .tooDeep

section

variable {ev : Evaluator} {s t mid : State} {arg : Expr} {args early later : List Expr}
  {value : Value} {values : List Value}

theorem evalValues_cons_of_value (first : (ev arg).run s = .done (some value) mid)
    (later : List Expr) :
    (evalValues ev (arg :: later)).run s = match (evalValues ev later).run mid with
      | .done others t => .done (value :: others) t
      | .failed e t => .failed e t
      | .tooDeep => .tooDeep := by
  simp only [evalValues, evalValue, Eval.run_bind, first, Eval.run_pure]
  cases (evalValues ev later).run mid <;> rfl

theorem InTurn.evalValues_eq (gave : InTurn ev s args values t) :
    (evalValues ev args).run s = .done values t := by
  induction gave with
  | nil s => rfl
  | cons first others ih => rw [evalValues_cons_of_value first, ih]

theorem InTurn.evalValues_append (gave : InTurn ev s early values mid) {rest : List Expr}
    (ends : ∀ others t, (evalValues ev rest).run mid ≠ .done others t) :
    (evalValues ev (early ++ rest)).run s = (evalValues ev rest).run mid := by
  induction gave with
  | nil s => rfl
  | cons first others ih =>
    rw [List.cons_append, evalValues_cons_of_value first, ih ends]
    cases ran : (evalValues ev rest).run _ with
    | done others t => exact absurd ran (ends others t)
    | failed e t => rfl
    | tooDeep => rfl

theorem callClosure_of_values {closure : Closure} (gave : InTurn ev s args values mid)
    (location : Location) :
    (callClosure ev closure args location).run s =
      if args.length = closure.params.length then
        ((evalBody ev closure.body).run ⟨mid.env.snapshot closure.params values, mid.identity,
          .calling closure.name args.length :: mid.log⟩).backIn mid.env
      else
        .failed ⟨.argumentCountMismatch closure.name closure.params.length args.length, location⟩
          mid := by
  unfold callClosure
  rw [Eval.run_bind, gave.evalValues_eq, ← gave.length_eq]
  dsimp only
  split
  · rw [Eval.run_bind, Eval.run_emit]
    dsimp only
    rw [Eval.run_bind, Eval.run_env]
    dsimp only
    rw [Eval.run_within]
    rfl
  · rfl

theorem callClosure_of_stop (up : ComesUp ev s args arg values mid) (closure : Closure)
    (location : Location) :
    (∀ e t, (ev arg).run mid = .failed e t →
      (callClosure ev closure args location).run s = .failed e t) ∧
    (∀ t, (ev arg).run mid = .done none t →
      (callClosure ev closure args location).run s = .failed ⟨.missingValue, arg.location⟩ t) ∧
    ((ev arg).run mid = .tooDeep →
      (callClosure ev closure args location).run s = .tooDeep) := by
  obtain ⟨early, later, rfl, gave⟩ := up
  have stops : ∀ stop : Outcome (List Value), (evalValues ev (arg :: later)).run mid = stop →
      (∀ others t, stop ≠ .done others t) →
        (evalValues ev (early ++ arg :: later)).run s = stop := by
    rintro stop rfl ends
    exact gave.evalValues_append ends
  unfold callClosure
  refine ⟨?_, ?_, ?_⟩
  · intro e t ran
    have stop := stops (.failed e t) (by simp [evalValues, evalValue, Eval.run_bind, ran]) nofun
    rw [Eval.run_bind, stop]
  · intro t ran
    have stop := stops (.failed ⟨.missingValue, arg.location⟩ t)
      (by simp [evalValues, evalValue, Eval.run_bind, ran]) nofun
    rw [Eval.run_bind, stop]
  · intro ran
    have stop := stops .tooDeep (by simp [evalValues, evalValue, Eval.run_bind, ran]) nofun
    rw [Eval.run_bind, stop]

end

theorem eval_call {name : String} {head : Expr} {s : State} {identity : Nat} {closure : Closure}
    (named : head.identifier? = some name) (free : Builtin.ofName? name = none)
    (bound : s.env.get? name = some (.function identity closure)) (depth : Nat)
    (args : List Expr) (location : Location) :
    (eval (depth + 1) (.list (head :: args) location)).run s =
      (callClosure (eval depth) closure args location).run
        { s with log := .applying name args.length location :: s.log } := by
  simp only [eval, evalStep, evalApplication, named, evalNamed, free, Eval.run_bind, Eval.run_emit,
    Eval.run_env, bound]

theorem Outcome.env_backIn {α : Type} {env : Environment} {x : Outcome α} {t : State}
    (ended : (x.backIn env).state? = some t) : t.env = env := by
  cases x with
  | done a u =>
    cases ended
    rfl
  | failed e u =>
    cases ended
    rfl
  | tooDeep => cases ended

theorem callClosure_leaves {ev : Evaluator} {closure : Closure} {args : List Expr}
    {location : Location} {s t : State}
    (ended : ((callClosure ev closure args location).run s).state? = some t) :
    (∃ values mid, InTurn ev s args values mid ∧ t.env = mid.env) ∨
      ∃ arg values mid, ComesUp ev s args arg values mid ∧ ((ev arg).run mid).state? = some t := by
  rcases inTurn_or_comesUp ev s args with ⟨values, mid, gave⟩ | ⟨arg, values, mid, up, stuck⟩
  · refine Or.inl ⟨values, mid, gave, ?_⟩
    rw [callClosure_of_values gave] at ended
    split at ended
    · exact Outcome.env_backIn ended
    · cases ended
      rfl
  · refine Or.inr ⟨arg, values, mid, up, ?_⟩
    obtain ⟨failed, missing, tooDeep⟩ := callClosure_of_stop up closure location
    cases ran : (ev arg).run mid with
    | done found u =>
      cases found with
      | some value => exact absurd ran (stuck value u)
      | none =>
        rw [missing u ran] at ended
        exact ended
    | failed e u =>
      rw [failed e u ran] at ended
      exact ended
    | tooDeep =>
      rw [tooDeep ran] at ended
      cases ended

/-- How a function is called. It is the one bound before the arguments are evaluated. They are
evaluated in turn, and the first one that fails or has no value ends the call. Then they are
counted, and then the body runs in a copy of what they have left, where of equal parameters the last
one has its argument. -/
theorem call_protocol {name : String} {head : Expr} {s : State} {identity : Nat}
    {closure : Closure} (named : head.identifier? = some name)
    (free : Builtin.ofName? name = none)
    (bound : s.env.get? name = some (.function identity closure)) (depth : Nat)
    (args : List Expr) (location : Location) :
    let begun : State := { s with log := .applying name args.length location :: s.log }
    let outcome := (eval (depth + 1) (.list (head :: args) location)).run s
    (∀ arg values mid, ComesUp (eval depth) begun args arg values mid →
      (∀ e t, (eval depth arg).run mid = .failed e t → outcome = .failed e t) ∧
      (∀ t, (eval depth arg).run mid = .done none t →
        outcome = .failed ⟨.missingValue, arg.location⟩ t) ∧
      ((eval depth arg).run mid = .tooDeep → outcome = .tooDeep)) ∧
    (∀ values mid, InTurn (eval depth) begun args values mid →
      (args.length ≠ closure.params.length → outcome = .failed
        ⟨.argumentCountMismatch closure.name closure.params.length args.length, location⟩ mid) ∧
      (args.length = closure.params.length →
        ∃ copy : Environment,
          (∀ x, x ∉ closure.params → copy.get? x = mid.env.get? x) ∧
          (∀ before x after, closure.params = before ++ x :: after → x ∉ after →
            copy.get? x = values[before.length]?) ∧
          outcome = ((evalBody (eval depth) closure.body).run
            ⟨copy, mid.identity, .calling closure.name args.length :: mid.log⟩).backIn mid.env)) ∧
    ((∃ values mid, InTurn (eval depth) begun args values mid) ∨
      ∃ arg values mid, ComesUp (eval depth) begun args arg values mid ∧
        ∀ value t, (eval depth arg).run mid ≠ .done (some value) t) ∧
    ∀ t, outcome.state? = some t →
      (∃ values mid, InTurn (eval depth) begun args values mid ∧ t.env = mid.env) ∨
        ∃ arg values mid, ComesUp (eval depth) begun args arg values mid ∧
          ((eval depth arg).run mid).state? = some t := by
  intro begun outcome
  have called : outcome = (callClosure (eval depth) closure args location).run begun :=
    eval_call named free bound depth args location
  rw [called]
  refine ⟨?_, ?_, inTurn_or_comesUp (eval depth) begun args, fun t => callClosure_leaves⟩
  · intro arg values mid up
    exact callClosure_of_stop up closure location
  · intro values mid gave
    rw [callClosure_of_values gave]
    constructor
    · intro other
      exact if_neg other
    · intro same
      refine ⟨mid.env.snapshot closure.params values, ?_, ?_, if_pos same⟩
      · intro x other
        exact Environment.get?_snapshot_of_not_mem other mid.env values
      · intro before x after split last
        have count := gave.length_eq.trans same
        rw [split] at count ⊢
        exact Environment.get?_snapshot_of_last last mid.env count

/-- `(f (func f () ()) (+))`, where `f` is `(func f (a a) (+ a))`. The old function is called, its
parameter is the second argument, and afterwards `f` is the new one. -/
theorem call_protocol_of_redefinition :
    ∃ (old new : Closure) (args : List Expr) (s mid : State) (copy : Environment),
      old = ⟨"f", ["a", "a"], [.atom (.synthetic "+"), .atom (.synthetic "a")], .start⟩ ∧
      new = ⟨"f", [], [], .start⟩ ∧
      args = [.list [.atom (.synthetic "func"), .atom (.synthetic "f"), .list [] .start,
        .list [] .start] .start, .list [.atom (.synthetic "+")] .start] ∧
      s.env.get? "f" = some (.function 0 old) ∧ mid.env.get? "f" = some (.function 1 new) ∧
      copy.get? "f" = some (.function 1 new) ∧ copy.get? "a" = some (.integer 0) ∧
      (eval 4 (.list (.atom (.synthetic "f") :: args) .start)).run s =
        ((evalBody (eval 3) old.body).run
          ⟨copy, mid.identity, .calling "f" 2 :: mid.log⟩).backIn mid.env := by
  let old : Closure := ⟨"f", ["a", "a"], [.atom (.synthetic "+"), .atom (.synthetic "a")], .start⟩
  let new : Closure := ⟨"f", [], [], .start⟩
  let args : List Expr := [.list [.atom (.synthetic "func"), .atom (.synthetic "f"),
    .list [] .start, .list [] .start] .start, .list [.atom (.synthetic "+")] .start]
  let s : State := ⟨Environment.empty.define "f" (.function 0 old), 1, []⟩
  let begun : State := { s with log := .applying "f" 2 .start :: s.log }
  obtain ⟨mid, gave, redefined⟩ : ∃ mid,
      InTurn (eval 3) begun args [.function 1 new, .integer 0] mid ∧
        mid.env.get? "f" = some (.function 1 new) :=
    ⟨_, .cons rfl (.cons rfl (.nil _)), rfl⟩
  have named : (Expr.atom (.synthetic "f")).identifier? = some "f" := rfl
  have bound : s.env.get? "f" = some (.function 0 old) := rfl
  obtain ⟨_, called, _⟩ := call_protocol named rfl bound 3 args .start
  obtain ⟨copy, others, params, ran⟩ := (called _ mid gave).2 rfl
  exact ⟨old, new, args, s, mid, copy, rfl, rfl, rfl, bound, redefined,
    (others "f" (by decide)).trans redefined, params ["a"] "a" [] rfl (by decide), ran⟩

end SnapshotLisp
