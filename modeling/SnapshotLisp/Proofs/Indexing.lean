import SnapshotLisp.Proofs.Congruence
import SnapshotLisp.Proofs.Slicing

/-!
Arguments taken by their places. A built-in form may take its arguments out of the list one by one,
by index and at the moment it needs them, if their number has been checked before. What is to be
done where an index is out of range, be it that everything breaks off there, can then be left open:
it makes no difference to any evaluation. The body of a function is given to the form for sequences
without a check, and that form asks for no place in particular.
-/
namespace SnapshotLisp

namespace Indexed

section

variable (missing : ∀ α : Type, Eval α) (ev : Evaluator)

def argument (args : List Expr) (index : Nat) : Eval Expr :=
  match args[index]? with
  | some arg => pure arg
  | none => missing Expr

/-- The arguments from that place on. The place behind the last one has none, but it is there. -/
def argumentsFrom (args : List Expr) (index : Nat) : Eval (List Expr) :=
  if index ≤ args.length then pure (args.drop index) else missing (List Expr)

def perform (location : Location) (args : List Expr) : Builtin → Eval (Option Value)
  | .conditional => do
    if ← evalBoolean ev (← argument missing args 0) then
      ev (← argument missing args 1)
    else
      ev (← argument missing args 2)
  | .less => do
    let a ← evalInteger ev (← argument missing args 0)
    let b ← evalInteger ev (← argument missing args 1)
    pure (some (.boolean (a < b)))
  | .add => do
    pure (some (.integer (← evalTotal ev Word.add? location 0 args)))
  | .subtract => do
    let first ← evalInteger ev (← argument missing args 0)
    let later ← argumentsFrom missing args 1
    pure (some (.integer (← evalTotal ev Word.sub? location first later)))
  | .sequence => evalSequence ev none args
  | .define => do
    let name ← Eval.ofExcept (Closure.readName (← argument missing args 0))
    let params ← Eval.ofExcept (Closure.readParams (← argument missing args 1))
    let body ← Eval.ofExcept (Closure.readBody (← argument missing args 2))
    Eval.emit (.defining name params.length)
    pure (some (← Eval.define ⟨name, params, body⟩))

def callBuiltin (builtin : Builtin) (args : List Expr) (location : Location) :
    Eval (Option Value) :=
  if builtin.arity.accepts args.length then
    perform missing ev location args builtin
  else
    Eval.fail (.builtinArity builtin args.length) location

def evalBody (body : Group) : Eval (Option Value) :=
  match body.items with
  | .list _ _ :: _ => perform missing ev body.location body.items .sequence
  | _ => ev body.toExpr

def callClosure (closure : Closure) (args : List Expr) (location : Location) :
    Eval (Option Value) := do
  let values ← evalValues ev args
  if values.length = closure.params.length then
    Eval.emit (.calling closure.name values.length)
    Eval.within ((← Eval.env).snapshot closure.params values) (evalBody missing ev closure.body)
  else
    Eval.fail (.argumentCountMismatch closure.name closure.params.length values.length) location

def evalNamed (name : String) (head : Location) (args : List Expr) (location : Location) :
    Eval (Option Value) := do
  Eval.emit (.applying name args.length location)
  match Builtin.ofName? name with
  | some builtin => callBuiltin missing ev builtin args location
  | none =>
    match (← Eval.env).get? name with
    | some (.function _ closure) => callClosure missing ev closure args location
    | some other => Eval.fail (.expectedFunction s!"{name} ({other.typeName})") head
    | none => Eval.fail (.expectedFunction name) head

def evalApplication (items : List Expr) (location : Location) : Eval (Option Value) :=
  match items with
  | [] => Eval.fail (.expectedFunction "()") location
  | head :: args =>
    match head.identifier? with
    | some name => evalNamed missing ev name head.location args location
    | none => Eval.fail (.expectedFunction head.render) head.location

def evalStep : Evaluator
  | .atom token => do pure (some (← Eval.ofExcept (atomValue (← Eval.env) token)))
  | .list items location => evalApplication missing ev items location

end

/-- Evaluation that takes arguments by index, with what it does where an index is out of range. -/
def eval (missing : ∀ α : Type, Eval α) : Nat → Evaluator
  | 0 => fun _ => Eval.tooDeep
  | depth + 1 => evalStep missing (eval missing depth)

section

variable (missing : ∀ α : Type, Eval α) (ev : Evaluator)

theorem ofExcept_bind {α β : Type} (x : Except EvalError α) (f : α → Except EvalError β) :
    Eval.ofExcept (x >>= f) = Eval.ofExcept x >>= fun a => Eval.ofExcept (f a) := by
  cases x <;> rfl

theorem perform_of_form {builtin : Builtin} {args : List Expr} {form : Form}
    (read : builtin.form? args = some form) (location : Location) :
    perform missing ev location args builtin = evalForm ev location form := by
  unfold Builtin.form? at read
  split at read <;> cases read
  · rfl
  · rfl
  · rfl
  · rfl
  · rfl
  · simp only [evalForm, Closure.ofParts, ofExcept_bind, bind_assoc]
    rfl

-- Without the check, a comparison of nothing comes to an index that is out of range.
example (location : Location) (s : State) :
    (perform (fun _ => Eval.tooDeep) ev location [] .less).run s = .tooDeep := rfl

theorem callBuiltin_eq (builtin : Builtin) (args : List Expr) (location : Location) :
    callBuiltin missing ev builtin args location =
      SnapshotLisp.callBuiltin ev builtin args location := by
  have accepted := builtin.form?_isSome args
  unfold callBuiltin SnapshotLisp.callBuiltin
  cases read : builtin.form? args with
  | some form =>
    rw [read, Option.isSome_some] at accepted
    rw [← accepted, if_pos rfl]
    exact perform_of_form missing ev read location
  | none =>
    rw [read, Option.isSome_none] at accepted
    rw [← accepted]
    rfl

theorem evalBody_eq (body : Group) : evalBody missing ev body = SnapshotLisp.evalBody ev body := by
  obtain ⟨items, location⟩ := body
  rcases items with _ | ⟨_ | _, later⟩ <;> rfl

theorem callClosure_eq (closure : Closure) (args : List Expr) (location : Location) :
    callClosure missing ev closure args location =
      SnapshotLisp.callClosure ev closure args location := by
  simp only [callClosure, SnapshotLisp.callClosure, evalBody_eq]

theorem evalNamed_eq (name : String) (head : Location) (args : List Expr) (location : Location) :
    evalNamed missing ev name head args location =
      SnapshotLisp.evalNamed ev name head args location := by
  apply congrArg (Eval.emit _ >>= ·)
  funext _
  cases Builtin.ofName? name with
  | some builtin => exact callBuiltin_eq missing ev builtin args location
  | none =>
    apply congrArg (Eval.env >>= ·)
    funext env
    cases env.get? name with
    | none => rfl
    | some value =>
      cases value with
      | integer word => rfl
      | boolean truth => rfl
      | function identity closure => exact callClosure_eq missing ev closure args location

theorem evalStep_eq : evalStep missing ev = SnapshotLisp.evalStep ev := by
  funext e
  cases e with
  | atom token => rfl
  | list items location =>
    cases items with
    | nil => rfl
    | cons head args =>
      unfold evalStep SnapshotLisp.evalStep evalApplication SnapshotLisp.evalApplication
      dsimp only
      cases head.identifier? with
      | none => rfl
      | some name => exact evalNamed_eq missing ev name head.location args location

end

theorem eval_eq (missing : ∀ α : Type, Eval α) (depth : Nat) :
    eval missing depth = SnapshotLisp.eval depth := by
  induction depth with
  | zero => rfl
  | succ depth ih => rw [eval, evalStep_eq, ih, SnapshotLisp.eval]

/-- On its way the evaluation comes to an index out of range: it comes out otherwise if something
else is done there. -/
def Misses (depth : Nat) (e : Expr) (s : State) : Prop :=
  ∃ one other : ∀ α : Type, Eval α, (eval one depth e).run s ≠ (eval other depth e).run s

theorem not_misses (depth : Nat) (e : Expr) (s : State) : ¬ Misses depth e s := by
  rintro ⟨one, other, differ⟩
  apply differ
  rw [eval_eq one, eval_eq other]

end Indexed

theorem eval_settles (e : Expr) (s : State) :
    (∃ enough outcome, outcome ≠ .tooDeep ∧ ∀ depth, enough ≤ depth →
      (eval depth e).run s = outcome) ∨ ∀ depth, (eval depth e).run s = .tooDeep := by
  by_cases ends : ∃ enough, (eval enough e).run s ≠ .tooDeep
  · obtain ⟨enough, ended⟩ := ends
    exact Or.inl ⟨enough, _, ended, fun depth more => eval_extended more e s ended⟩
  · exact Or.inr (by simpa using ends)

/-- Nothing is ever taken from where there is nothing. Every slice of a text that a place is counted
in begins and ends at boundaries of the text, in this order. No evaluation comes to an index of an
argument that is out of range, whatever functions are bound and however deep they are called, so
with indexes too it ends with a value, with none or with an error, or it never ends. -/
theorem indices_stay_in_range :
    (∀ source, ∃ all, lexemes .start source.toList = .ok all ∧
      lex source = .ok ((LineMark.first.meet all).map Prod.snd) ∧
      ∀ mark t, (mark, t) ∈ LineMark.first.meet all → mark.Locates source t) ∧
    (∀ depth e s, ¬ Indexed.Misses depth e s) ∧
    (∀ missing depth, Indexed.eval missing depth = eval depth) ∧
    ∀ missing e s,
      (∃ enough value t, ∀ depth, enough ≤ depth →
        (Indexed.eval missing depth e).run s = .done (some value) t) ∨
      (∃ enough t, ∀ depth, enough ≤ depth →
        (Indexed.eval missing depth e).run s = .done none t) ∨
      (∃ enough error t, ∀ depth, enough ≤ depth →
        (Indexed.eval missing depth e).run s = .failed error t) ∨
      ∀ depth, (Indexed.eval missing depth e).run s = .tooDeep := by
  refine ⟨lex_locates, Indexed.not_misses, Indexed.eval_eq, ?_⟩
  intro missing e s
  simp only [Indexed.eval_eq]
  rcases eval_settles e s with ⟨enough, outcome, ended, settled⟩ | never
  · cases outcome with
    | done result t =>
      cases result with
      | some value => exact Or.inl ⟨enough, value, t, settled⟩
      | none => exact Or.inr (Or.inl ⟨enough, t, settled⟩)
    | failed error t => exact Or.inr (Or.inr (Or.inl ⟨enough, error, t, settled⟩))
    | tooDeep => exact absurd rfl ended
  · exact Or.inr (Or.inr (Or.inr never))

end SnapshotLisp
