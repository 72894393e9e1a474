import SnapshotLisp.Expr.Parser
import SnapshotLisp.Proofs.Lockstep

/-!
Simulations: what a comparison needs to know about corresponding expressions so that whole runs
compare. The two evaluations go in step, one level of depth against one level, and neither logs nor
identities are looked at: a coupling in a world where nothing ever happens.
-/
namespace SnapshotLisp

/-- Corresponding expressions simulate each other in a world where nothing is told of the past, and
the bodies of corresponding functions are read in the same way. -/
structure Simulation (k : Comparison) (expr : Expr → Expr → Prop) : Prop where
  define : ∀ {env env' name v v'}, k.env env env' → k.value v v' →
    k.env (env.define name v) (env'.define name v')
  simulates : (k.coupling False define).Simulates expr
  sequence : ∀ {closure closure'}, k.closure closure closure' →
    closure.body.isSequence = closure'.body.isSequence
  forms : ∀ {closure closure'}, k.closure closure closure' → closure.body.isSequence →
    List.Forall₂ expr closure.body.items closure'.body.items
  body : ∀ {closure closure'}, k.closure closure closure' →
    expr closure.body.toExpr closure'.body.toExpr

namespace Simulation

variable {k : Comparison} {expr : Expr → Expr → Prop}

def coupling (sim : Simulation k expr) : Coupling := k.coupling False sim.define

theorem matches_of_coupled (sim : Simulation k expr) {α β : Type} {results : α → β → Prop}
    {x : Eval α} {y : Eval β} (both : sim.coupling.Coupled (fun _ => results) () x y) :
    k.Matches results x y := by
  intro s t bindings
  have outcomes := both s t ⟨bindings, trivial⟩
  generalize x.run s = left at outcomes
  generalize y.run t = right at outcomes
  cases outcomes with
  | done _ result after => exact .done result after.bindings
  | failed _ error after => exact .failed error after.bindings
  | excused allowed => exact .excused allowed
  | tooDeep => exact .tooDeep
  | unknown allowed => exact allowed.elim

theorem evaluators_coupled (sim : Simulation k expr) (depth : Nat) :
    sim.coupling.Evaluators expr (eval depth) (eval depth) :=
  sim.simulates.eval_coupled
    (fun both => Coupling.Simulates.bodies_of_shape both sim.sequence sim.forms sim.body) depth

theorem eval_matches (sim : Simulation k expr) (depth : Nat) {e e' : Expr} (same : expr e e') :
    k.Matches (Option.Rel k.value) (eval depth e) (eval depth e') :=
  sim.matches_of_coupled ((sim.evaluators_coupled depth).answers same)

theorem eval_programOf (depth : Nat) (groups : List Group) :
    eval (depth + 1) (programOf groups).toExpr =
      (Eval.emit (.applying Builtin.sequence.name (groups.map Group.toExpr).length .start) >>=
        fun _ => evalSequence (eval depth) none (groups.map Group.toExpr)) :=
  rfl

theorem program_matches (sim : Simulation k expr) {groups groups' : List Group}
    (same : List.Forall₂ expr (groups.map Group.toExpr) (groups'.map Group.toExpr)) (depth : Nat) :
    k.Matches (Option.Rel k.value) (eval depth (programOf groups).toExpr)
      (eval depth (programOf groups').toExpr) := by
  cases depth with
  | zero => exact fun _ _ _ => .tooDeep
  | succ depth =>
    rw [eval_programOf, eval_programOf]
    have both := sim.evaluators_coupled depth
    exact sim.matches_of_coupled (Coupling.coupled_emit (Comparison.coupling_noted _ _)
      (Coupling.Simulates.evalSequence_coupled both same .none))

end Simulation

end SnapshotLisp
