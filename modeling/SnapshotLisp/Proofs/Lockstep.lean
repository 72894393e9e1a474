import SnapshotLisp.Evaluator
import SnapshotLisp.Proofs.Coupling
import SnapshotLisp.Proofs.Form
import Mathlib.Data.List.Forall2

/-!
The evaluator in lockstep with itself. A coupling of corresponding expressions is kept by every
function of the evaluator, so that one level of evaluation keeps what the level below it keeps. How
deep the two levels below may go is left open, and so is how a body of one evaluation corresponds to
a body of the other.
-/
namespace SnapshotLisp

/-- Whether a body is read as a sequence of forms. -/
def Group.isSequence (g : Group) : Bool :=
  match g.items with
  | .list _ _ :: _ => true
  | _ => false

theorem evalBody_eq (ev : Evaluator) (body : Group) :
    evalBody ev body =
      if body.isSequence then evalSequence ev none body.items else ev body.toExpr := by
  obtain ⟨items, location⟩ := body
  rcases items with _ | ⟨_ | ⟨_, _⟩, _⟩ <;> rfl

def callee (env : Environment) (name : String) (head : Location) : Except EvalError Closure :=
  match env.get? name with
  | some (.function _ closure) => .ok closure
  | some other => .error ⟨.expectedFunction s!"{name} ({other.typeName})", head⟩
  | none => .error ⟨.expectedFunction name, head⟩

theorem evalNamed_of_free (ev : Evaluator) {name : String} (free : Builtin.ofName? name = none)
    (head : Location) (args : List Expr) (location : Location) :
    evalNamed ev name head args location =
      (Eval.emit (.applying name args.length location) >>= fun _ =>
        Eval.env >>= fun env => Eval.ofExcept (callee env name head) >>= fun closure =>
          callClosure ev closure args location) := by
  unfold evalNamed callee
  rw [free]
  refine congrArg (Eval.emit _ >>= ·) (funext fun _ => ?_)
  refine congrArg (Eval.env >>= ·) (funext fun env => ?_)
  rcases env.get? name with _ | ⟨_ | _ | ⟨_, _⟩⟩ <;> rfl

inductive Form.Like (expr : Expr → Expr → Prop) : Form → Form → Prop where
  | conditional {condition condition' consequence consequence' alternative alternative' : Expr}
      (first : expr condition condition') (second : expr consequence consequence')
      (third : expr alternative alternative') :
      Like expr (.conditional condition consequence alternative)
        (.conditional condition' consequence' alternative')
  | less {left left' right right' : Expr} (first : expr left left') (second : expr right right') :
      Like expr (.less left right) (.less left' right')
  | sum {operands operands' : List Expr} (same : List.Forall₂ expr operands operands') :
      Like expr (.sum operands) (.sum operands')
  | difference {first first' : Expr} {later later' : List Expr} (head : expr first first')
      (same : List.Forall₂ expr later later') :
      Like expr (.difference first later) (.difference first' later')
  | sequence {items items' : List Expr} (same : List.Forall₂ expr items items') :
      Like expr (.sequence items) (.sequence items')

theorem Builtin.form?_like {expr : Expr → Expr → Prop} {builtin : Builtin}
    (other : builtin ≠ .define) {args args' : List Expr} (same : List.Forall₂ expr args args') :
    Option.Rel (Form.Like expr) (builtin.form? args) (builtin.form? args') := by
  cases builtin with
  | conditional =>
    rcases same with _ | ⟨first, _ | ⟨second, _ | ⟨third, _ | ⟨_, _⟩⟩⟩⟩
    · exact .none
    · exact .none
    · exact .none
    · exact .some (.conditional first second third)
    · exact .none
  | less =>
    rcases same with _ | ⟨first, _ | ⟨second, _ | ⟨_, _⟩⟩⟩
    · exact .none
    · exact .none
    · exact .some (.less first second)
    · exact .none
  | add => exact .some (.sum same)
  | subtract =>
    cases same with
    | nil => exact .none
    | cons first later => exact .some (.difference first later)
  | sequence => exact .some (.sequence same)
  | define => exact absurd rfl other

namespace Coupling

/-- What a coupling needs of two lists that are evaluated against each other. -/
inductive Applies (k : Coupling) (expr : Expr → Expr → Prop) :
    List Expr → Location → List Expr → Location → Prop where
  | empty {location location' : Location}
      (blamed : k.error ⟨.expectedFunction "()", location⟩ ⟨.expectedFunction "()", location'⟩) :
      Applies k expr [] location [] location'
  | nameless {head head' : Expr} {args args' : List Expr} {location location' : Location}
      (left : head.identifier? = none) (right : head'.identifier? = none)
      (blamed : k.error ⟨.expectedFunction head.render, head.location⟩
        ⟨.expectedFunction head'.render, head'.location⟩) :
      Applies k expr (head :: args) location (head' :: args') location'
  | named {name : String} {head head' : Expr} {args args' : List Expr}
      {location location' : Location} (left : head.identifier? = some name)
      (right : head'.identifier? = some name) (count : args.length = args'.length)
      (arity : ∀ builtin, k.error ⟨.builtinArity builtin args.length, location⟩
        ⟨.builtinArity builtin args'.length, location'⟩)
      (overflow : k.error ⟨.overflow, location⟩ ⟨.overflow, location'⟩)
      (operands : name ≠ Builtin.define.name → List.Forall₂ expr args args')
      (applied : ∀ w, ∃ w', k.Noted (.applying name args.length location)
        (.applying name args'.length location') w w' ∧
          (name = Builtin.define.name → ∀ {text params body text' params' body'},
            args = [text, params, body] → args' = [text', params', body'] →
              (k.side w').Checks (k.Defines w') (Closure.ofParts text params body)
                (Closure.ofParts text' params' body')))
      (found : Builtin.ofName? name = none → ∀ {w env env'}, k.env w env env' →
        (k.side w).Checks (k.closure w) (callee env name head.location)
          (callee env' name head'.location))
      (mismatch : ∀ {w closure closure'}, k.closure w closure closure' → ∀ count,
        k.error ⟨.argumentCountMismatch closure.name closure.params.length count, location⟩
          ⟨.argumentCountMismatch closure'.name closure'.params.length count, location'⟩) :
      Applies k expr (head :: args) location (head' :: args') location'

/-- Corresponding expressions have the same shape, ask for corresponding bindings, go wrong in
corresponding ways and log what the world admits. -/
structure Simulates (k : Coupling) (expr : Expr → Expr → Prop) : Prop where
  atom : ∀ {token e'}, expr (.atom token) e' → ∃ token', e' = .atom token' ∧
    ∀ {w env env'}, k.env w env env' →
      (k.side w).Checks (k.value w) (atomValue env token) (atomValue env' token')
  list : ∀ {items location e'}, expr (.list items location) e' → ∃ items' location',
    e' = .list items' location' ∧ k.Applies expr items location items' location'
  missing : ∀ {items location e'}, expr (.list items location) e' →
    k.error ⟨.missingValue, location⟩ ⟨.missingValue, e'.location⟩
  notInteger : ∀ {e e'}, expr e e' → ∀ found,
    k.error ⟨.expectedInteger (Value.describe found), e.location⟩
      ⟨.expectedInteger (Value.describe found), e'.location⟩
  notBoolean : ∀ {e e'}, expr e e' → ∀ found,
    k.error ⟨.expectedBoolean (Value.describe found), e.location⟩
      ⟨.expectedBoolean (Value.describe found), e'.location⟩
  params : ∀ {w closure closure'}, k.closure w closure closure' → closure.params = closure'.params
  calling : ∀ {w closure closure'}, k.closure w closure closure' →
    ∃ w', k.Noted (.calling closure.name closure.params.length)
      (.calling closure'.name closure'.params.length) w w'

variable (k : Coupling)

abbrev Answers (w : k.World) : Option Value → Option Value → Prop := Option.Rel (k.value w)

/-- An expression that comes to no value is a list. -/
def Result (e : Expr) (w : k.World) (found found' : Option Value) : Prop :=
  k.Answers w found found' ∧ (found = none → ∃ items location, e = .list items location)

def Evaluators (expr : Expr → Expr → Prop) (ev ev' : Evaluator) : Prop :=
  ∀ w e e', expr e e' → k.Coupled (k.Result e) w (ev e) (ev' e')

def Bodies (ev ev' : Evaluator) : Prop :=
  ∀ w closure closure', k.closure w closure closure' →
    k.Coupled k.Answers w (evalBody ev closure.body) (evalBody ev' closure'.body)

variable {k} {w : k.World}

theorem Evaluators.answers {expr : Expr → Expr → Prop} {ev ev' : Evaluator}
    (both : k.Evaluators expr ev ev') {e e' : Expr} (same : expr e e') :
    k.Coupled k.Answers w (ev e) (ev' e') :=
  coupled_mono (fun _ _ _ result => result.1) (both w e e' same)

theorem snapshot {params : List String} {values values' : List Value}
    (like : List.Forall₂ (k.value w) values values') {env env' : Environment}
    (bindings : k.env w env env') :
    k.env w (env.snapshot params values) (env'.snapshot params values') := by
  unfold Environment.snapshot
  induction like generalizing params env env' with
  | nil => simpa using bindings
  | cons first later ih =>
    cases params with
    | nil => simpa using bindings
    | cons param params => exact ih (k.define bindings first)

namespace Simulates

variable {expr : Expr → Expr → Prop} {ev ev' : Evaluator}

theorem evalValue_coupled (sim : k.Simulates expr) (both : k.Evaluators expr ev ev')
    {e e' : Expr} (same : expr e e') : k.Coupled k.value w (evalValue ev e) (evalValue ev' e') := by
  apply coupled_bind (both w _ _ same)
  intro w' found found' _ result
  obtain ⟨like, shape⟩ := result
  cases like with
  | some like => exact coupled_pure like
  | none =>
    obtain ⟨items, location, rfl⟩ := shape rfl
    exact coupled_fail (sim.missing same)

theorem evalInteger_coupled (sim : k.Simulates expr) (both : k.Evaluators expr ev ev')
    {e e' : Expr} (same : expr e e') :
    k.Coupled (fun _ => (· = ·)) w (evalInteger ev e) (evalInteger ev' e') := by
  apply coupled_bind (both w _ _ same)
  intro w' found found' _ result
  obtain ⟨like, _⟩ := result
  cases like with
  | some like =>
    cases k.kinds like with
    | integer word => exact coupled_pure rfl
    | boolean truth => exact coupled_fail (sim.notInteger same (some (.boolean truth)))
    | @function identity _ closure _ _ =>
      exact coupled_fail (sim.notInteger same (some (.function identity closure)))
  | none => exact coupled_fail (sim.notInteger same none)

theorem evalBoolean_coupled (sim : k.Simulates expr) (both : k.Evaluators expr ev ev')
    {e e' : Expr} (same : expr e e') :
    k.Coupled (fun _ => (· = ·)) w (evalBoolean ev e) (evalBoolean ev' e') := by
  apply coupled_bind (both w _ _ same)
  intro w' found found' _ result
  obtain ⟨like, _⟩ := result
  cases like with
  | some like =>
    cases k.kinds like with
    | integer word => exact coupled_fail (sim.notBoolean same (some (.integer word)))
    | boolean truth => exact coupled_pure rfl
    | @function identity _ closure _ _ =>
      exact coupled_fail (sim.notBoolean same (some (.function identity closure)))
  | none => exact coupled_fail (sim.notBoolean same none)

theorem evalSequence_coupled (both : k.Evaluators expr ev ev') {items items' : List Expr}
    (same : List.Forall₂ expr items items') {last last' : Option Value}
    (like : k.Answers w last last') :
    k.Coupled k.Answers w (evalSequence ev last items) (evalSequence ev' last' items') := by
  induction same generalizing w last last' with
  | nil => exact coupled_pure like
  | cons first later ih =>
    apply coupled_bind (both w _ _ first)
    intro w' found found' _ result
    exact ih result.1

theorem evalTotal_coupled (sim : k.Simulates expr) (both : k.Evaluators expr ev ev')
    {operands operands' : List Expr} (same : List.Forall₂ expr operands operands')
    {location location' : Location}
    (overflow : k.error ⟨.overflow, location⟩ ⟨.overflow, location'⟩)
    (step : Word → Word → Option Word) (total : Word) :
    k.Coupled (fun _ => (· = ·)) w (evalTotal ev step location total operands)
      (evalTotal ev' step location' total operands') := by
  induction same generalizing w total with
  | nil => exact coupled_pure rfl
  | cons first later ih =>
    apply coupled_bind (sim.evalInteger_coupled both first)
    intro w' word word' _ same
    subst same
    cases step total word with
    | none => exact coupled_fail overflow
    | some next => exact ih next

theorem evalValues_coupled (sim : k.Simulates expr) (both : k.Evaluators expr ev ev')
    {args args' : List Expr} (same : List.Forall₂ expr args args') :
    k.Coupled (fun w => List.Forall₂ (k.value w)) w (evalValues ev args)
      (evalValues ev' args') := by
  induction same generalizing w with
  | nil => exact coupled_pure .nil
  | cons first later ih =>
    apply coupled_bind (sim.evalValue_coupled both first)
    intro w' value value' _ like
    apply coupled_bind ih
    intro w'' values values' further likes
    exact coupled_pure (.cons (k.value_later further like) likes)

theorem evalForm_coupled (sim : k.Simulates expr) (both : k.Evaluators expr ev ev')
    {form form' : Form} (same : form.Like expr form') {location location' : Location}
    (overflow : k.error ⟨.overflow, location⟩ ⟨.overflow, location'⟩) :
    k.Coupled k.Answers w (evalForm ev location form) (evalForm ev' location' form') := by
  cases same with
  | conditional first second third =>
    apply coupled_bind (sim.evalBoolean_coupled both first)
    intro w' truth truth' _ same
    subst same
    cases truth with
    | true => exact both.answers second
    | false => exact both.answers third
  | less first second =>
    apply coupled_bind (sim.evalInteger_coupled both first)
    intro w' a a' _ same
    subst same
    apply coupled_bind (sim.evalInteger_coupled both second)
    intro w'' b b' _ same
    subst same
    exact coupled_pure (.some (k.boolean _ _))
  | sum same =>
    apply coupled_bind (sim.evalTotal_coupled both same overflow _ _)
    intro w' total total' _ same
    subst same
    exact coupled_pure (.some (k.integer _ total))
  | difference head same =>
    apply coupled_bind (sim.evalInteger_coupled both head)
    intro w' first first' _ equal
    subst equal
    apply coupled_bind (sim.evalTotal_coupled both same overflow _ _)
    intro w'' total total' _ equal
    subst equal
    exact coupled_pure (.some (k.integer _ total))
  | sequence same => exact evalSequence_coupled both same .none

theorem definition_coupled {name params body name' params' body' : Expr}
    (parts : (k.side w).Checks (k.Defines w) (Closure.ofParts name params body)
      (Closure.ofParts name' params' body')) {location location' : Location} :
    k.Coupled k.Answers w (evalForm ev location (.definition name params body))
      (evalForm ev' location' (.definition name' params' body')) := by
  have checked : k.Coupled k.Defines w (Eval.ofExcept (Closure.ofParts name params body))
      (Eval.ofExcept (Closure.ofParts name' params' body')) := coupled_ofExcept parts
  apply coupled_bind checked
  intro w' closure closure' _ defines
  exact coupled_definition defines

theorem callBuiltin_coupled (sim : k.Simulates expr) (both : k.Evaluators expr ev ev')
    {builtin : Builtin} {args args' : List Expr} {location location' : Location}
    (count : args.length = args'.length)
    (arity : k.error ⟨.builtinArity builtin args.length, location⟩
      ⟨.builtinArity builtin args'.length, location'⟩)
    (overflow : k.error ⟨.overflow, location⟩ ⟨.overflow, location'⟩)
    (operands : builtin ≠ .define → List.Forall₂ expr args args')
    (parts : builtin = .define → ∀ {name params body name' params' body'},
      args = [name, params, body] → args' = [name', params', body'] →
        (k.side w).Checks (k.Defines w) (Closure.ofParts name params body)
          (Closure.ofParts name' params' body')) :
    k.Coupled k.Answers w (callBuiltin ev builtin args location)
      (callBuiltin ev' builtin args' location') := by
  unfold callBuiltin
  -- The arguments of a definition need not correspond, only what is read from them.
  by_cases defines : builtin = .define
  · subst defines
    rcases args with _ | ⟨name, _ | ⟨params, _ | ⟨body, _ | ⟨_, _⟩⟩⟩⟩ <;>
      rcases args' with _ | ⟨name', _ | ⟨params', _ | ⟨body', _ | ⟨_, _⟩⟩⟩⟩ <;>
      simp only [List.length_cons, List.length_nil] at count <;> try omega
    · exact coupled_fail arity
    · exact coupled_fail arity
    · exact coupled_fail arity
    · exact definition_coupled (parts rfl rfl rfl)
    · exact coupled_fail arity
  · have forms := Builtin.form?_like defines (operands defines)
    generalize builtin.form? args = left at forms
    generalize builtin.form? args' = right at forms
    cases forms with
    | some same => exact sim.evalForm_coupled both same overflow
    | none => exact coupled_fail arity

theorem callClosure_coupled (sim : k.Simulates expr) (both : k.Evaluators expr ev ev')
    (bodies : k.Bodies ev ev') {closure closure' : Closure}
    (related : k.closure w closure closure') {args args' : List Expr}
    (same : List.Forall₂ expr args args') {location location' : Location}
    (mismatch : ∀ count,
      k.error ⟨.argumentCountMismatch closure.name closure.params.length count, location⟩
        ⟨.argumentCountMismatch closure'.name closure'.params.length count, location'⟩) :
    k.Coupled k.Answers w (callClosure ev closure args location)
      (callClosure ev' closure' args' location') := by
  apply coupled_bind (sim.evalValues_coupled both same)
  intro w₁ values values' later likes
  have known := k.closure_later later related
  obtain ⟨w₂, noted⟩ := sim.calling known
  rw [← sim.params related] at mismatch noted ⊢
  rw [← likes.length_eq]
  split
  · rename_i enough
    rw [enough]
    refine coupled_emit noted (coupled_bind coupled_env ?_)
    intro w₃ env env' further bindings
    have since := k.trans noted.later further
    have copies := likes.imp fun _ _ like => k.value_later since like
    exact coupled_within (snapshot copies bindings) (bodies _ _ _ (k.closure_later since known))
  · exact coupled_fail (mismatch values.length)

theorem evalNamed_coupled_of_free (sim : k.Simulates expr) (both : k.Evaluators expr ev ev')
    (bodies : k.Bodies ev ev') {name : String} (free : Builtin.ofName? name = none)
    {head head' location location' : Location} {args args' : List Expr} {w' : k.World}
    (noted : k.Noted (.applying name args.length location) (.applying name args'.length location')
      w w') (arguments : List.Forall₂ expr args args')
    (found : ∀ {w env env'}, k.env w env env' → (k.side w).Checks (k.closure w)
      (callee env name head) (callee env' name head'))
    (mismatch : ∀ {w closure closure'}, k.closure w closure closure' → ∀ count,
      k.error ⟨.argumentCountMismatch closure.name closure.params.length count, location⟩
        ⟨.argumentCountMismatch closure'.name closure'.params.length count, location'⟩) :
    k.Coupled k.Answers w (evalNamed ev name head args location)
      (evalNamed ev' name head' args' location') := by
  rw [evalNamed_of_free _ free, evalNamed_of_free _ free]
  refine coupled_emit noted (coupled_bind coupled_env ?_)
  intro w₁ env env' _ bindings
  have checked : k.Coupled k.closure w₁ (Eval.ofExcept (callee env name head))
      (Eval.ofExcept (callee env' name head')) := coupled_ofExcept (found bindings)
  apply coupled_bind checked
  intro w₂ closure closure' _ related
  exact sim.callClosure_coupled both bodies related arguments (mismatch related)

theorem evalApplication_coupled (sim : k.Simulates expr) (both : k.Evaluators expr ev ev')
    (bodies : k.Bodies ev ev') {items items' : List Expr} {location location' : Location}
    (applies : k.Applies expr items location items' location') :
    k.Coupled k.Answers w (evalApplication ev items location)
      (evalApplication ev' items' location') := by
  unfold evalApplication
  cases applies with
  | empty blamed => exact coupled_fail blamed
  | nameless left right blamed =>
    simp only [left, right]
    exact coupled_fail blamed
  | @named name _ _ _ _ _ _ left right count arity overflow operands applied found mismatch =>
    simp only [left, right]
    obtain ⟨w', noted, parts⟩ := applied w
    cases known : Builtin.ofName? name with
    | some builtin =>
      have same : builtin.name = name := Builtin.ofName?_eq_some_iff.mp known
      subst same
      simp only [evalNamed, Builtin.ofName?_name]
      refine coupled_emit noted (sim.callBuiltin_coupled both count (arity builtin) overflow ?_ ?_)
      · intro other
        exact operands fun same => other (Builtin.name_injective same)
      · intro defines
        exact parts (congrArg Builtin.name defines)
    | none =>
      refine sim.evalNamed_coupled_of_free both bodies known noted (operands ?_) (found known)
        mismatch
      intro same
      subst same
      simp at known

theorem evalStep_coupled (sim : k.Simulates expr) (both : k.Evaluators expr ev ev')
    (bodies : k.Bodies ev ev') : k.Evaluators expr (evalStep ev) (evalStep ev') := by
  intro w e e' same
  cases e with
  | atom token =>
    obtain ⟨token', rfl, checks⟩ := sim.atom same
    apply coupled_bind coupled_env
    intro w' env env' _ bindings
    have checked : k.Coupled k.value w' (Eval.ofExcept (atomValue env token))
        (Eval.ofExcept (atomValue env' token')) := coupled_ofExcept (checks bindings)
    apply coupled_bind checked
    intro w'' value value' _ like
    exact coupled_pure ⟨.some like, nofun⟩
  | list items location =>
    obtain ⟨items', location', rfl, applies⟩ := sim.list same
    refine coupled_mono ?_ (sim.evalApplication_coupled both bodies applies)
    intro w found found' like
    exact ⟨like, fun _ => ⟨items, location, rfl⟩⟩

theorem bodies_of_shape (both : k.Evaluators expr ev ev')
    (sequence : ∀ {w closure closure'}, k.closure w closure closure' →
      closure.body.isSequence = closure'.body.isSequence)
    (forms : ∀ {w closure closure'}, k.closure w closure closure' → closure.body.isSequence →
      List.Forall₂ expr closure.body.items closure'.body.items)
    (body : ∀ {w closure closure'}, k.closure w closure closure' →
      expr closure.body.toExpr closure'.body.toExpr) : k.Bodies ev ev' := by
  intro w closure closure' related
  rw [evalBody_eq, evalBody_eq, ← sequence related]
  split
  · rename_i several
    exact evalSequence_coupled both (forms related several) .none
  · exact both.answers (body related)

theorem eval_coupled (sim : k.Simulates expr)
    (bodies : ∀ {ev ev'}, k.Evaluators expr ev ev' → k.Bodies ev ev') (depth : Nat) :
    k.Evaluators expr (eval depth) (eval depth) := by
  induction depth with
  | zero => exact fun _ _ _ _ _ _ _ => .tooDeep
  | succ depth ih => exact sim.evalStep_coupled ih (bodies ih)

end Simulates

end Coupling

end SnapshotLisp
