import SnapshotLisp.Expr
import SnapshotLisp.Word

/-!
Values. Each time a function is defined the closure gets a number of its own, and that number alone
tells functions apart: two definitions with the same text are still two functions.
-/
namespace SnapshotLisp

/-- A function keeps no bindings. Its body sees those of the place it is called from. -/
structure Closure where
  name : String
  params : List String
  body : Group
  deriving Repr

inductive Value where
  | integer (word : Word)
  | boolean (truth : Bool)
  | function (identity : Nat) (closure : Closure)
  deriving Repr

namespace Value

def typeName : Value → String
  | .integer _ => "integer"
  | .boolean _ => "boolean"
  | .function _ _ => "function"

def render : Value → String
  | .integer word => toString word.toInt
  | .boolean true => "true"
  | .boolean false => "false"
  | .function _ closure => s!"<func {closure.name}>"

def same : Value → Value → Bool
  | .integer a, .integer b => a == b
  | .boolean a, .boolean b => a == b
  | .function a _, .function b _ => a == b
  | _, _ => false

def describe : Option Value → String
  | none => "nothing"
  | some v => v.typeName

end Value

end SnapshotLisp
