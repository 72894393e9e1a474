import SnapshotLisp.Builtin
import SnapshotLisp.Error
import SnapshotLisp.Value

/-!
Built-in forms with their arguments told apart, still unevaluated, and the reading of a function
definition. A form exists exactly for the argument counts its arity accepts, so the evaluator never
meets a missing argument.
-/
namespace SnapshotLisp

inductive Form where
  | conditional (condition consequence alternative : Expr)
  | less (left right : Expr)
  | sum (operands : List Expr)
  | difference (first : Expr) (later : List Expr)
  | sequence (items : List Expr)
  | definition (name params body : Expr)
  deriving Repr

def Builtin.form? : Builtin → List Expr → Option Form
  | .conditional, [condition, consequence, alternative] =>
    some (.conditional condition consequence alternative)
  | .less, [left, right] => some (.less left right)
  | .add, operands => some (.sum operands)
  | .subtract, first :: later => some (.difference first later)
  | .sequence, items => some (.sequence items)
  | .define, [name, params, body] => some (.definition name params body)
  | _, _ => none

theorem Builtin.form?_isSome (b : Builtin) (args : List Expr) :
    (b.form? args).isSome = b.arity.accepts args.length := by
  rcases args with _ | ⟨_, _ | ⟨_, _ | ⟨_, _ | ⟨_, _⟩⟩⟩⟩ <;> cases b <;>
    simp [form?, arity, Arity.accepts]

namespace Closure

def invalid (details : String) (e : Expr) : EvalError :=
  ⟨.invalidDefinition details, e.location⟩

def readName (e : Expr) : Except EvalError String :=
  match e.identifier? with
  | none => .error (invalid s!"expected a function name, got {e.render}" e)
  | some name =>
    match Builtin.ofName? name with
    | some _ => .error (invalid s!"cannot redefine builtin '{name}'" e)
    | none => .ok name

def readParam (e : Expr) : Except EvalError String :=
  match e.identifier? with
  | none => .error (invalid s!"expected a parameter name, got {e.render}" e)
  | some name => .ok name

def readParams (e : Expr) : Except EvalError (List String) :=
  match e.group? with
  | none => .error (invalid s!"expected a parameter list, got {e.render}" e)
  | some params => params.items.mapM readParam

def readBody (e : Expr) : Except EvalError Group :=
  match e.group? with
  | none => .error (invalid s!"expected a body list, got {e.render}" e)
  | some body => .ok body

/-- Reads the parts from left to right; the first one at fault is reported. -/
def ofParts (name params body : Expr) : Except EvalError Closure := do
  let name ← readName name
  let params ← readParams params
  let body ← readBody body
  return ⟨name, params, body⟩

end Closure

end SnapshotLisp
