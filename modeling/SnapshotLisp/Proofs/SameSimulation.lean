import SnapshotLisp.Proofs.Simulation

/-!
Simulations in which both evaluations are of the same expression, in environments that may differ.
Started twice in the same state, such a pair tells of a single run: it keeps every invariant that
the comparison can express.
-/
namespace SnapshotLisp

inductive Expr.Blamed : Expr → EvalError → Prop where
  | empty (location : Location) : Blamed (.list [] location) ⟨.expectedFunction "()", location⟩
  | nameless {head : Expr} {args : List Expr} {location : Location}
      (named : head.identifier? = none) :
      Blamed (.list (head :: args) location) ⟨.expectedFunction head.render, head.location⟩
  | arity (items : List Expr) (location : Location) (builtin : Builtin) (count : Nat) :
      Blamed (.list items location) ⟨.builtinArity builtin count, location⟩
  | overflow (items : List Expr) (location : Location) :
      Blamed (.list items location) ⟨.overflow, location⟩
  | missing (items : List Expr) (location : Location) :
      Blamed (.list items location) ⟨.missingValue, location⟩
  | notInteger (e : Expr) (found : Option Value) :
      Blamed e ⟨.expectedInteger (Value.describe found), e.location⟩
  | notBoolean (e : Expr) (found : Option Value) :
      Blamed e ⟨.expectedBoolean (Value.describe found), e.location⟩

theorem Comparison.checks_self {k : Comparison} {α : Type} {results : α → α → Prop}
    {x : Except EvalError α} (ok : ∀ a, x = .ok a → results a a)
    (error : ∀ e, x = .error e → k.error e e) : k.Checks results x x := by
  cases x with
  | ok a => exact .ok (ok a rfl)
  | error e => exact .error (error e rfl)

/-- What is left to show where both evaluations are of the same expression, as long as it is one of
the good ones. -/
structure SameSimulation (k : Comparison) (good : Expr → Prop) : Prop where
  closure_eq : ∀ {closure closure'}, k.closure closure closure' → closure = closure'
  atom : ∀ {token}, good (.atom token) → ∀ {env env'}, k.env env env' →
    k.Checks k.value (atomValue env token) (atomValue env' token)
  found : ∀ {head args location}, good (.list (head :: args) location) →
    ∀ {name}, head.identifier? = some name → Builtin.ofName? name = none →
      ∀ {env env'}, k.env env env' →
        k.Checks k.closure (callee env name head.location) (callee env' name head.location)
  operand : ∀ {head args location}, good (.list (head :: args) location) →
    head.identifier? ≠ some Builtin.define.name → ∀ e ∈ args, good e
  accepted : ∀ {head name params body location},
    good (.list [head, name, params, body] location) →
      head.identifier? = some Builtin.define.name →
        ∀ closure, Closure.ofParts name params body = .ok closure → k.closure closure closure
  refused : ∀ {head name params body location},
    good (.list [head, name, params, body] location) →
      head.identifier? = some Builtin.define.name →
        ∀ e, Closure.ofParts name params body = .error e → k.error e e
  form : ∀ {closure}, k.closure closure closure → closure.body.isSequence →
    ∀ e ∈ closure.body.items, good e
  body : ∀ {closure}, k.closure closure closure → good closure.body.toExpr
  define : ∀ {env env' name v v'}, k.env env env' → k.value v v' →
    k.env (env.define name v) (env'.define name v')
  blamed : ∀ {e error}, good e → e.Blamed error → k.error error error
  mismatch : ∀ {items location}, good (.list items location) →
    ∀ {closure}, k.closure closure closure → ∀ count,
      k.error ⟨.argumentCountMismatch closure.name closure.params.length count, location⟩
        ⟨.argumentCountMismatch closure.name closure.params.length count, location⟩

namespace SameSimulation

variable {k : Comparison} {good : Expr → Prop}

theorem same_list {items : List Expr} (holds : ∀ e ∈ items, good e) :
    List.Forall₂ (fun e e' => e = e' ∧ good e) items items :=
  List.forall₂_same.mpr fun e member => ⟨rfl, holds e member⟩

theorem name_eq (sim : SameSimulation k good) {closure closure' : Closure}
    (related : k.closure closure closure') : closure.name = closure'.name := by
  rw [sim.closure_eq related]

theorem applies (sim : SameSimulation k good) {items : List Expr} {location : Location}
    (holds : good (.list items location)) :
    (k.coupling False sim.define).Applies (fun e e' => e = e' ∧ good e) items location items
      location := by
  cases items with
  | nil => exact .empty (sim.blamed holds (.empty location))
  | cons head args =>
    cases named : head.identifier? with
    | none => exact .nameless named named (sim.blamed holds (.nameless named))
    | some name =>
      refine .named named named rfl (fun builtin => sim.blamed holds (.arity _ _ builtin _))
        (sim.blamed holds (.overflow _ _)) ?_ ?_ (fun free => sim.found holds named free) ?_
      · intro other
        refine same_list (sim.operand holds ?_)
        rw [named]
        exact fun same => other (Option.some.inj same)
      · intro w
        refine ⟨(), Comparison.coupling_noted _ _, ?_⟩
        intro definition text params body text' params' body' left right
        subst definition
        subst left
        cases right
        apply Comparison.coupling_parts sim.name_eq
        exact Comparison.checks_self (sim.accepted holds named) (sim.refused holds named)
      · intro w closure closure' related count
        cases sim.closure_eq related
        exact sim.mismatch holds related count

theorem simulates (sim : SameSimulation k good) :
    (k.coupling False sim.define).Simulates (fun e e' => e = e' ∧ good e) where
  atom := by
    intro token e' both
    obtain ⟨same, holds⟩ := both
    exact ⟨token, same.symm, sim.atom holds⟩
  list := by
    intro items location e' both
    obtain ⟨same, holds⟩ := both
    exact ⟨items, location, same.symm, sim.applies holds⟩
  missing := by
    intro items location e' both
    obtain ⟨same, holds⟩ := both
    subst same
    exact sim.blamed holds (.missing items location)
  notInteger := by
    intro e e' both found
    obtain ⟨same, holds⟩ := both
    subst same
    exact sim.blamed holds (.notInteger e found)
  notBoolean := by
    intro e e' both found
    obtain ⟨same, holds⟩ := both
    subst same
    exact sim.blamed holds (.notBoolean e found)
  params := by
    intro w closure closure' related
    cases sim.closure_eq related
    rfl
  calling _ := ⟨(), Comparison.coupling_noted _ _⟩

theorem simulation (sim : SameSimulation k good) :
    Simulation k (fun e e' => e = e' ∧ good e) where
  define := sim.define
  simulates := sim.simulates
  sequence := by
    intro closure closure' related
    cases sim.closure_eq related
    rfl
  forms := by
    intro closure closure' related sequence
    cases sim.closure_eq related
    exact same_list (sim.form related sequence)
  body := by
    intro closure closure' related
    cases sim.closure_eq related
    exact ⟨rfl, sim.body related⟩

theorem eval_matches (sim : SameSimulation k good) (depth : Nat) {e : Expr} (holds : good e) :
    k.Matches (Option.Rel k.value) (eval depth e) (eval depth e) :=
  sim.simulation.eval_matches depth ⟨rfl, holds⟩

end SameSimulation

namespace Comparison

/-- Bindings are compared name by name, as far as the names go, and no error is excused. -/
def pointwise (names : String → Prop) (closure : Closure → Closure → Prop)
    (error : EvalError → EvalError → Prop) : Comparison where
  closure := closure
  env first second := ∀ name, names name →
    Option.Rel (Value.Like closure) (first.get? name) (second.get? name)
  error := error
  excused _ := False

variable {names : String → Prop} {closure : Closure → Closure → Prop}
  {error : EvalError → EvalError → Prop} {first second : Environment}

theorem pointwise_define (agree : (pointwise names closure error).env first second) {v w : Value}
    (like : v.Like closure w) (name : String) :
    (pointwise names closure error).env (first.define name v) (second.define name w) := by
  intro other mentioned
  rw [Environment.get?_define, Environment.get?_define]
  split
  · exact .some like
  · exact agree other mentioned

theorem pointwise_atomValue {token token' : Token} (kind : token.kind = token'.kind)
    (text : token.text = token'.text) (mentioned : token.kind ≠ .integer → names token.text)
    (numeral : token.kind = .integer → error ⟨.numericFormat token.text, token.location⟩
      ⟨.numericFormat token.text, token'.location⟩)
    (unbound : token.kind ≠ .integer → error ⟨.unknownVariable token.text, token.location⟩
      ⟨.unknownVariable token.text, token'.location⟩)
    (agree : (pointwise names closure error).env first second) :
    (pointwise names closure error).Checks (pointwise names closure error).value
      (atomValue first token) (atomValue second token') := by
  unfold atomValue
  rw [← kind, ← text]
  split
  · rename_i integer
    cases Word.ofNumeral? token.text with
    | some word => exact .ok (.integer word)
    | none => exact .error (numeral integer)
  · rename_i other
    have bound := agree token.text (mentioned other)
    generalize first.get? token.text = left at bound
    generalize second.get? token.text = right at bound
    cases bound with
    | some like => exact .ok like
    | none => exact .error (unbound other)

theorem pointwise_callee {name : String} {head head' : Location} (mentioned : names name)
    (mistyped : ∀ v : Value, error ⟨.expectedFunction s!"{name} ({v.typeName})", head⟩
      ⟨.expectedFunction s!"{name} ({v.typeName})", head'⟩)
    (unbound : error ⟨.expectedFunction name, head⟩ ⟨.expectedFunction name, head'⟩)
    (agree : (pointwise names closure error).env first second) :
    (pointwise names closure error).Checks closure (callee first name head)
      (callee second name head') := by
  have bound := agree name mentioned
  unfold callee
  generalize first.get? name = left at bound
  generalize second.get? name = right at bound
  cases bound with
  | some like =>
    cases like with
    | integer word => exact .error (mistyped (.integer word))
    | boolean truth => exact .error (mistyped (.boolean truth))
    | function related => exact .ok related
  | none => exact .error unbound

end Comparison

end SnapshotLisp
