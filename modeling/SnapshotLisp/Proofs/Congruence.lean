import SnapshotLisp.Run
import SnapshotLisp.Proofs.Lexing
import SnapshotLisp.Proofs.Simulation

/-!
What holds of all evaluations alike, because of the few steps that they are put together from. A
relation that these steps keep need only be shown of the expressions below to hold of a whole one.
Two such relations are here. An evaluation that has ended within some depth ends in the same way
when it may go deeper. And the log is only written: what stands in it has no say in what follows.
-/
namespace SnapshotLisp

/-- A relation between evaluations that the steps they are put together from keep. -/
structure Congruence (rel : ∀ {α : Type}, Eval α → Eval α → Prop) : Prop where
  pure : ∀ {α : Type} (a : α), rel (pure a) (pure a)
  fail : ∀ {α : Type} (cause : EvalCause) (location : Location),
    rel (Eval.fail cause location : Eval α) (Eval.fail cause location)
  env : rel Eval.env Eval.env
  emit : ∀ event, rel (Eval.emit event) (Eval.emit event)
  define : ∀ closure, rel (Eval.define closure) (Eval.define closure)
  bind : ∀ {α β : Type} {x y : Eval α} {f g : α → Eval β}, rel x y → (∀ a, rel (f a) (g a)) →
    rel (x >>= f) (y >>= g)
  within : ∀ {α : Type} {x y : Eval α} (inner : Environment), rel x y →
    rel (Eval.within inner x) (Eval.within inner y)

namespace Congruence

variable {rel : ∀ {α : Type}, Eval α → Eval α → Prop} {ev ev' : Evaluator}

theorem ofExcept (c : Congruence @rel) {α : Type} (x : Except EvalError α) :
    rel (Eval.ofExcept x) (Eval.ofExcept x) := by
  cases x with
  | ok a => exact c.pure a
  | error e => exact c.fail e.cause e.location

theorem evalValue (c : Congruence @rel) (both : ∀ e, rel (ev e) (ev' e)) (e : Expr) :
    rel (evalValue ev e) (evalValue ev' e) := by
  apply c.bind (both e)
  intro found
  cases found with
  | none => exact c.fail _ _
  | some value => exact c.pure value

theorem evalInteger (c : Congruence @rel) (both : ∀ e, rel (ev e) (ev' e)) (e : Expr) :
    rel (evalInteger ev e) (evalInteger ev' e) := by
  apply c.bind (both e)
  intro found
  split
  · exact c.pure _
  · exact c.fail _ _

theorem evalBoolean (c : Congruence @rel) (both : ∀ e, rel (ev e) (ev' e)) (e : Expr) :
    rel (evalBoolean ev e) (evalBoolean ev' e) := by
  apply c.bind (both e)
  intro found
  split
  · exact c.pure _
  · exact c.fail _ _

theorem evalSequence (c : Congruence @rel) (both : ∀ e, rel (ev e) (ev' e)) (last : Option Value)
    (items : List Expr) : rel (evalSequence ev last items) (evalSequence ev' last items) := by
  induction items generalizing last with
  | nil => exact c.pure last
  | cons item later ih =>
    apply c.bind (both item)
    intro value
    exact ih value

theorem evalTotal (c : Congruence @rel) (both : ∀ e, rel (ev e) (ev' e))
    (step : Word → Word → Option Word) (location : Location) (total : Word)
    (operands : List Expr) :
    rel (evalTotal ev step location total operands)
      (evalTotal ev' step location total operands) := by
  induction operands generalizing total with
  | nil => exact c.pure total
  | cons operand later ih =>
    apply c.bind (c.evalInteger both operand)
    intro word
    cases step total word with
    | none => exact c.fail _ _
    | some next => exact ih next

theorem evalValues (c : Congruence @rel) (both : ∀ e, rel (ev e) (ev' e)) (args : List Expr) :
    rel (evalValues ev args) (evalValues ev' args) := by
  induction args with
  | nil => exact c.pure []
  | cons arg later ih =>
    apply c.bind (c.evalValue both arg)
    intro value
    apply c.bind ih
    intro values
    exact c.pure (value :: values)

theorem evalForm (c : Congruence @rel) (both : ∀ e, rel (ev e) (ev' e)) (location : Location)
    (form : Form) : rel (evalForm ev location form) (evalForm ev' location form) := by
  cases form with
  | conditional condition consequence alternative =>
    apply c.bind (c.evalBoolean both condition)
    intro truth
    cases truth with
    | true => exact both consequence
    | false => exact both alternative
  | less left right =>
    apply c.bind (c.evalInteger both left)
    intro a
    apply c.bind (c.evalInteger both right)
    intro b
    exact c.pure _
  | sum operands =>
    apply c.bind (c.evalTotal both _ _ _ operands)
    intro total
    exact c.pure _
  | difference first later =>
    apply c.bind (c.evalInteger both first)
    intro word
    apply c.bind (c.evalTotal both _ _ word later)
    intro total
    exact c.pure _
  | sequence items => exact c.evalSequence both none items
  | definition name params body =>
    apply c.bind (c.ofExcept _)
    intro closure
    apply c.bind (c.emit _)
    intro _
    apply c.bind (c.define closure)
    intro function
    exact c.pure _

theorem callBuiltin (c : Congruence @rel) (both : ∀ e, rel (ev e) (ev' e)) (builtin : Builtin)
    (args : List Expr) (location : Location) :
    rel (callBuiltin ev builtin args location) (callBuiltin ev' builtin args location) := by
  unfold SnapshotLisp.callBuiltin
  cases builtin.form? args with
  | none => exact c.fail _ _
  | some form => exact c.evalForm both location form

theorem evalBody (c : Congruence @rel) (both : ∀ e, rel (ev e) (ev' e)) (body : Group) :
    rel (evalBody ev body) (evalBody ev' body) := by
  rw [evalBody_eq, evalBody_eq]
  split
  · exact c.evalSequence both none body.items
  · exact both body.toExpr

theorem callClosure (c : Congruence @rel) (both : ∀ e, rel (ev e) (ev' e)) (closure : Closure)
    (args : List Expr) (location : Location) :
    rel (callClosure ev closure args location) (callClosure ev' closure args location) := by
  apply c.bind (c.evalValues both args)
  intro values
  split
  · apply c.bind (c.emit _)
    intro _
    apply c.bind c.env
    intro env
    exact c.within _ (c.evalBody both closure.body)
  · exact c.fail _ _

theorem evalNamed (c : Congruence @rel) (both : ∀ e, rel (ev e) (ev' e)) (name : String)
    (head : Location) (args : List Expr) (location : Location) :
    rel (evalNamed ev name head args location) (evalNamed ev' name head args location) := by
  apply c.bind (c.emit _)
  intro _
  cases Builtin.ofName? name with
  | some builtin => exact c.callBuiltin both builtin args location
  | none =>
    apply c.bind c.env
    intro env
    split
    · exact c.callClosure both _ args location
    · exact c.fail _ _
    · exact c.fail _ _

theorem evalStep (c : Congruence @rel) (both : ∀ e, rel (ev e) (ev' e)) (e : Expr) :
    rel (evalStep ev e) (evalStep ev' e) := by
  cases e with
  | atom token =>
    apply c.bind c.env
    intro env
    apply c.bind (c.ofExcept _)
    intro value
    exact c.pure _
  | list items location =>
    simp only [SnapshotLisp.evalStep]
    unfold evalApplication
    cases items with
    | nil => exact c.fail _ _
    | cons head args =>
      dsimp only
      cases head.identifier? with
      | none => exact c.fail _ _
      | some name => exact c.evalNamed both name head.location args location

end Congruence

namespace Eval

/-- Where the first evaluation ends, the second ends in the same way. -/
def Extended {α : Type} (x y : Eval α) : Prop := ∀ s, x.run s ≠ .tooDeep → y.run s = x.run s

theorem extended_congruence : Congruence @Extended where
  pure := fun _ _ _ => rfl
  fail := fun _ _ _ _ => rfl
  env := fun _ _ => rfl
  emit := fun _ _ _ => rfl
  define := fun _ _ _ => rfl
  bind := by
    intro α β x y f g first later s ended
    rw [run_bind] at ended
    rw [run_bind, run_bind]
    cases ran : x.run s with
    | done a t =>
      rw [ran] at ended
      rw [first s (by rw [ran]; nofun), ran]
      exact later a t ended
    | failed e t => rw [first s (by rw [ran]; nofun), ran]
    | tooDeep =>
      rw [ran] at ended
      exact absurd rfl ended
  within := by
    intro α x y inner first s ended
    rw [run_within] at ended
    rw [run_within, run_within]
    cases ran : x.run { s with env := inner } with
    | done a t => rw [first _ (by rw [ran]; nofun), ran]
    | failed e t => rw [first _ (by rw [ran]; nofun), ran]
    | tooDeep =>
      rw [ran] at ended
      exact absurd rfl ended

end Eval

theorem eval_extended_succ (depth : Nat) (e : Expr) :
    (eval depth e).Extended (eval (depth + 1) e) := by
  induction depth generalizing e with
  | zero =>
    intro s ended
    exact absurd rfl ended
  | succ depth ih => exact Eval.extended_congruence.evalStep ih e

theorem eval_extended {depth more : Nat} (enough : depth ≤ more) (e : Expr) :
    (eval depth e).Extended (eval more e) := by
  induction enough with
  | refl => exact fun _ _ => rfl
  | @step more enough ih =>
    intro s ended
    have same := ih s ended
    rw [← same] at ended
    rw [eval_extended_succ more e s ended, same]

theorem eval_unique {depth depth' : Nat} {e : Expr} {s : State}
    (ended : (eval depth e).run s ≠ .tooDeep) (ended' : (eval depth' e).run s ≠ .tooDeep) :
    (eval depth e).run s = (eval depth' e).run s := by
  rcases Nat.le_total depth depth' with less | more
  · exact (eval_extended less e s ended).symm
  · exact eval_extended more e s ended'

def State.unlogged (s : State) : State := { s with log := [] }

theorem State.unlogged_eq_iff {s t : State} :
    s.unlogged = t.unlogged ↔ s.env = t.env ∧ s.identity = t.identity := by
  simp [unlogged]

namespace Outcome

variable {α : Type}

def unlogged : Outcome α → Outcome α
  | .done a s => .done a s.unlogged
  | .failed e s => .failed e s.unlogged
  | .tooDeep => .tooDeep

theorem unlogged_eq_cases {x y : Outcome α} (same : x.unlogged = y.unlogged) :
    (∃ a s t, x = .done a s ∧ y = .done a t ∧ s.unlogged = t.unlogged) ∨
      (∃ e s t, x = .failed e s ∧ y = .failed e t ∧ s.unlogged = t.unlogged) ∨
      x = .tooDeep ∧ y = .tooDeep := by
  cases x <;> cases y <;> simp_all [unlogged]

end Outcome

namespace Eval

variable {α : Type}

def SameButLog (x y : Eval α) : Prop :=
  ∀ s t, s.unlogged = t.unlogged → (x.run s).unlogged = (y.run t).unlogged

theorem sameButLog_emit (event : Event) : (emit event).SameButLog (Pure.pure ()) :=
  fun _ _ same => congrArg (Outcome.done ()) same

theorem sameButLog_congruence : Congruence @SameButLog where
  pure := fun a _ _ same => congrArg (Outcome.done a) same
  fail := fun cause location _ _ same => congrArg (Outcome.failed ⟨cause, location⟩) same
  env := by
    intro s t same
    rw [run_env, run_env, (State.unlogged_eq_iff.mp same).1]
    exact congrArg (Outcome.done t.env) same
  emit := fun _ _ _ same => congrArg (Outcome.done ()) same
  define := by
    intro closure s t same
    obtain ⟨bindings, count⟩ := State.unlogged_eq_iff.mp same
    simp [run, define, Outcome.unlogged, State.unlogged, bindings, count]
  bind := by
    intro α β x y f g first later s t same
    rw [run_bind, run_bind]
    rcases Outcome.unlogged_eq_cases (first s t same) with
      ⟨a, s', t', left, right, after⟩ | ⟨e, s', t', left, right, after⟩ | ⟨left, right⟩
    · rw [left, right]
      exact later a s' t' after
    · rw [left, right]
      exact congrArg (Outcome.failed e) after
    · rw [left, right]
  within := by
    intro α x y inner first s t same
    obtain ⟨bindings, count⟩ := State.unlogged_eq_iff.mp same
    have inside : State.unlogged { s with env := inner } = State.unlogged { t with env := inner } :=
      State.unlogged_eq_iff.mpr ⟨rfl, count⟩
    -- Only the count of identities comes out again; the bindings are those from before.
    have outside : ∀ {s' t' : State}, s'.unlogged = t'.unlogged →
        State.unlogged { s' with env := s.env } = State.unlogged { t' with env := t.env } :=
      fun after => State.unlogged_eq_iff.mpr ⟨bindings, (State.unlogged_eq_iff.mp after).2⟩
    rw [run_within, run_within]
    rcases Outcome.unlogged_eq_cases (first _ _ inside) with
      ⟨a, s', t', left, right, after⟩ | ⟨e, s', t', left, right, after⟩ | ⟨left, right⟩
    · rw [left, right]
      exact congrArg (Outcome.done a) (outside after)
    · rw [left, right]
      exact congrArg (Outcome.failed e) (outside after)
    · rw [left, right]

end Eval

theorem eval_sameButLog (depth : Nat) (e : Expr) : (eval depth e).SameButLog (eval depth e) := by
  induction depth generalizing e with
  | zero => exact fun _ _ _ => rfl
  | succ depth ih => exact Eval.sameButLog_congruence.evalStep ih e

/-- What the run of a text comes to, once it may go as deep as it needs. -/
def ComesTo (source : String) (v : Verdict) : Prop :=
  v ≠ .tooDeep ∧ ∃ depth, run depth source = v

theorem run_stable {source : String} {depth more : Nat} (enough : depth ≤ more)
    (ended : run depth source ≠ .tooDeep) : run more source = run depth source := by
  obtain ⟨all, _, lexed⟩ := lex_total source
  generalize all.filter (fun t => t.kind != .blank) = tokens at lexed
  cases read : parseGroups tokens with
  | error e => rw [run_of_unread lexed read, run_of_unread lexed read]
  | ok groups =>
    obtain ⟨s, _, ran⟩ := run_of_groups lexed read
    rw [ran] at ended
    rw [ran, ran]
    have finished : (eval depth (programOf groups).toExpr).run s ≠ .tooDeep := by
      intro tooDeep
      rw [tooDeep] at ended
      exact ended rfl
    rw [eval_extended enough _ s finished]

theorem ComesTo.unique {source : String} {v w : Verdict} (one : ComesTo source v)
    (two : ComesTo source w) : v = w := by
  obtain ⟨endedV, depthV, ranV⟩ := one
  obtain ⟨endedW, depthW, ranW⟩ := two
  subst ranV
  subst ranW
  rcases Nat.le_total depthV depthW with less | more
  · exact (run_stable less endedV).symm
  · exact run_stable more endedW

end SnapshotLisp
