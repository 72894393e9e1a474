import SnapshotLisp.Evaluation
import SnapshotLisp.Form

/-!
The evaluator. Everything here is said for a given way `ev` of evaluating the expressions below, and
the knot is tied at the end by counting down the depth. A function body runs in a copy of the
caller's bindings, so what it binds is gone when the call is over.
-/
namespace SnapshotLisp

abbrev Evaluator := Expr → Eval (Option Value)

/-- Only the kind of a token decides: a parenthesis, say, is looked up by its text. -/
def atomValue (env : Environment) (t : Token) : Except EvalError Value :=
  if t.kind = .integer then
    match Word.ofNumeral? t.text with
    | some word => .ok (.integer word)
    | none => .error ⟨.numericFormat t.text, t.location⟩
  else
    match env.get? t.text with
    | some value => .ok value
    | none => .error ⟨.unknownVariable t.text, t.location⟩

section

variable (ev : Evaluator)

def evalValue (e : Expr) : Eval Value := do
  match ← ev e with
  | some value => pure value
  | none => Eval.fail .missingValue e.location

def evalInteger (e : Expr) : Eval Word := do
  match ← ev e with
  | some (.integer word) => pure word
  | found => Eval.fail (.expectedInteger (Value.describe found)) e.location

def evalBoolean (e : Expr) : Eval Bool := do
  match ← ev e with
  | some (.boolean truth) => pure truth
  | found => Eval.fail (.expectedBoolean (Value.describe found)) e.location

def evalSequence : Option Value → List Expr → Eval (Option Value)
  | last, [] => pure last
  | _, item :: later => do evalSequence (← ev item) later

def evalTotal (step : Word → Word → Option Word) (location : Location) :
    Word → List Expr → Eval Word
  | total, [] => pure total
  | total, operand :: later => do
    match step total (← evalInteger ev operand) with
    | some next => evalTotal step location next later
    | none => Eval.fail .overflow location

def evalValues : List Expr → Eval (List Value)
  | [] => pure []
  | e :: later => do
    let value ← evalValue ev e
    let values ← evalValues later
    pure (value :: values)

def evalForm (location : Location) : Form → Eval (Option Value)
  | .conditional condition consequence alternative => do
    if ← evalBoolean ev condition then ev consequence else ev alternative
  | .less left right => do
    let a ← evalInteger ev left
    let b ← evalInteger ev right
    pure (some (.boolean (a < b)))
  | .sum operands => do
    pure (some (.integer (← evalTotal ev Word.add? location 0 operands)))
  | .difference first later => do
    pure (some (.integer (← evalTotal ev Word.sub? location (← evalInteger ev first) later)))
  | .sequence items => evalSequence ev none items
  | .definition name params body => do
    let closure ← Eval.ofExcept (Closure.ofParts name params body)
    Eval.emit (.defining closure.name closure.params.length)
    pure (some (← Eval.define closure))

def callBuiltin (builtin : Builtin) (args : List Expr) (location : Location) :
    Eval (Option Value) :=
  match builtin.form? args with
  | some form => evalForm ev location form
  | none => Eval.fail (.builtinArity builtin args.length) location

/-- A body that starts with a list is a sequence of forms, any other is one application. -/
def evalBody (body : Group) : Eval (Option Value) :=
  match body.items with
  | .list _ _ :: _ => evalSequence ev none body.items
  | _ => ev body.toExpr

def callClosure (closure : Closure) (args : List Expr) (location : Location) :
    Eval (Option Value) := do
  let values ← evalValues ev args
  if values.length = closure.params.length then
    Eval.emit (.calling closure.name values.length)
    Eval.within ((← Eval.env).snapshot closure.params values) (evalBody ev closure.body)
  else
    Eval.fail (.argumentCountMismatch closure.name closure.params.length values.length) location

/-- The built-in forms come first: a binding of such a name has no say at the head of a list. -/
def evalNamed (name : String) (head : Location) (args : List Expr) (location : Location) :
    Eval (Option Value) := do
  Eval.emit (.applying name args.length location)
  match Builtin.ofName? name with
  | some builtin => callBuiltin ev builtin args location
  | none =>
    match (← Eval.env).get? name with
    | some (.function _ closure) => callClosure ev closure args location
    | some other => Eval.fail (.expectedFunction s!"{name} ({other.typeName})") head
    | none => Eval.fail (.expectedFunction name) head

def evalApplication (items : List Expr) (location : Location) : Eval (Option Value) :=
  match items with
  | [] => Eval.fail (.expectedFunction "()") location
  | head :: args =>
    match head.identifier? with
    | some name => evalNamed ev name head.location args location
    | none => Eval.fail (.expectedFunction head.render) head.location

def evalStep : Evaluator
  | .atom token => do pure (some (← Eval.ofExcept (atomValue (← Eval.env) token)))
  | .list items location => evalApplication ev items location

end

/-- Evaluation that may nest as deep as given. Only the calls of functions can make it go deeper
than the expression itself is. -/
def eval : Nat → Evaluator
  | 0 => fun _ => Eval.tooDeep
  | depth + 1 => evalStep (eval depth)

theorem eval_builtin {builtin : Builtin} {head : Expr}
    (named : head.identifier? = some builtin.name) (depth : Nat) (args : List Expr)
    (location : Location) :
    eval (depth + 1) (.list (head :: args) location) =
      (Eval.emit (.applying builtin.name args.length location) >>= fun _ =>
        callBuiltin (eval depth) builtin args location) := by
  simp only [eval, evalStep, evalApplication, named, evalNamed, Builtin.ofName?_name]

end SnapshotLisp
