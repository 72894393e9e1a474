import SnapshotLisp.Token.Lexer
import SnapshotLisp.Expr.Parser
import SnapshotLisp.Evaluator

/-!
Sessions: several environments under names of their own, one of them current, and one evaluation
after another. Functions keep their identity across all environments of a session, and the count of
identities goes on when a step fails. A step that asks for something that is not there is refused
and changes nothing.
-/
namespace SnapshotLisp

inductive Input where
  | text (source : String)
  | given (tokens : List Token)

def Input.read : Input → Except LexError (List Token)
  | .text source => lex source
  | .given tokens => .ok tokens

inductive Operand where
  | integer (word : Word)
  | boolean (truth : Bool)
  | variable (name : String)
  | last

inductive Expected where
  | integer
  | boolean
  | value

/-- What to evaluate of the tokens read. An index counts tokens; a location is that of the call. -/
inductive Task where
  | program
  | form (index : Nat)
  | atom (index : Nat)
  | application (index : Nat) (location : Location)
  | call (name : String) (index : Nat) (location : Location)
  | builtin (builtin : Builtin) (index : Nat) (location : Location)
  | typed (expected : Expected) (index : Nat)

inductive Step where
  | evaluate (input : Input) (task : Task)
  | define (name : String) (value : Operand)
  | get (name : String)
  | snapshot (target : String) (params : List String) (args : List Operand)
  | new (target : String)
  | use (environment : String)
  | same (a b : Operand)
  | sameEnvironment (a b : String)

inductive Reply where
  | value (result : Option Value)
  | error (error : Error)
  | done
  | same (answer : Bool)

inductive Refusal where
  | unbound (name : String)
  | noLastValue
  | noEnvironment (name : String)
  | noFunction (name : String)
  | noToken (index : Nat)
  | noItem
  | tooDeep
  deriving DecidableEq, Repr

def Refusal.message : Refusal → String
  | .unbound name => s!"no binding of '{name}'"
  | .noLastValue => "no last value"
  | .noEnvironment name => s!"no environment '{name}'"
  | .noFunction name => s!"no function '{name}'"
  | .noToken index => s!"no token {index}"
  | .noItem => "the list has no item"
  | .tooDeep => "evaluation goes too deep"

/-- The other environments do not include the current one. -/
structure Session where
  name : String
  env : Environment
  others : List (String × Environment)
  last : Option Value
  identity : Nat

namespace Session

def start : Session := ⟨"globals", .empty, [], none, 0⟩

def environment? (s : Session) (name : String) : Option Environment :=
  if name = s.name then some s.env else s.others.lookup name

def switch (s : Session) (name : String) (env : Environment) : Session :=
  { s with
    name := name
    env := env
    others := ((s.name, s.env) :: s.others).filter fun other => other.1 != name }

def operand (s : Session) : Operand → Except Refusal Value
  | .integer word => .ok (.integer word)
  | .boolean truth => .ok (.boolean truth)
  | .variable name =>
    match s.env.get? name with
    | some value => .ok value
    | none => .error (.unbound name)
  | .last =>
    match s.last with
    | some value => .ok value
    | none => .error .noLastValue

inductive Halt where
  | refused (refusal : Refusal)
  | failed (error : Error)

def group (tokens : List Token) (index : Nat) : Except Halt Group :=
  match parse tokens index with
  | .ok (group, _) => .ok group
  | .error e => .error (.failed (.parse e))

def typed (depth : Nat) (e : Expr) : Expected → Eval (Option Value)
  | .integer => do pure (some (.integer (← evalInteger (eval depth) e)))
  | .boolean => do pure (some (.boolean (← evalBoolean (eval depth) e)))
  | .value => do pure (some (← evalValue (eval depth) e))

def plan (s : Session) (depth : Nat) (tokens : List Token) :
    Task → Except Halt (Eval (Option Value))
  | .program =>
    match parseProgram tokens with
    | .ok program => .ok (eval depth program.toExpr)
    | .error e => .error (.failed (.parse e))
  | .form index => do
    let g ← group tokens index
    return eval depth g.toExpr
  | .atom index =>
    match tokens[index]? with
    | some token => .ok do pure (some (← Eval.ofExcept (atomValue (← Eval.env) token)))
    | none => .error (.refused (.noToken index))
  | .application index location => do
    let g ← group tokens index
    return evalApplication (eval depth) g.items location
  | .call name index location => do
    let g ← group tokens index
    match s.env.get? name with
    | some (.function _ closure) => return callClosure (eval depth) closure g.items location
    | _ => .error (.refused (.noFunction name))
  | .builtin builtin index location => do
    let g ← group tokens index
    return callBuiltin (eval depth) builtin g.items location
  | .typed expected index => do
    let g ← group tokens index
    match g.items with
    | [] => .error (.refused .noItem)
    | first :: _ => return typed depth first expected

/-- Bindings made before a failure stay, the last value is then left alone. -/
def evaluate (s : Session) (x : Eval (Option Value)) : Except Refusal (Reply × Session) :=
  match x.run ⟨s.env, s.identity, []⟩ with
  | .done result t =>
    .ok (.value result, { s with env := t.env, identity := t.identity, last := result })
  | .failed e t => .ok (.error (.eval e), { s with env := t.env, identity := t.identity })
  | .tooDeep => .error .tooDeep

def step (s : Session) (depth : Nat) : Step → Except Refusal (Reply × Session)
  | .evaluate input task =>
    match input.read with
    | .error e => .ok (.error (.lex e), s)
    | .ok tokens =>
      match s.plan depth tokens task with
      | .ok x => s.evaluate x
      | .error (.failed e) => .ok (.error e, s)
      | .error (.refused refusal) => .error refusal
  | .define name value => do
    return (.done, { s with env := s.env.define name (← s.operand value) })
  | .get name => .ok (.value (s.env.get? name), s)
  | .snapshot target params args => do
    return (.done, s.switch target (s.env.snapshot params (← args.mapM s.operand)))
  | .new target => .ok (.done, s.switch target .empty)
  | .use name =>
    match s.environment? name with
    | some env => .ok (.done, s.switch name env)
    | none => .error (.noEnvironment name)
  | .same a b => do
    return (.same ((← s.operand a).same (← s.operand b)), s)
  | .sameEnvironment a b =>
    match s.environment? a, s.environment? b with
    | some first, some second => .ok (.same (first.same second), s)
    | none, _ => .error (.noEnvironment a)
    | _, none => .error (.noEnvironment b)

end Session

end SnapshotLisp
