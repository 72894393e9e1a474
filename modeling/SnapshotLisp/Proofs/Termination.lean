import SnapshotLisp.Proofs.Calling
import SnapshotLisp.Proofs.Congruence
import SnapshotLisp.Proofs.Invariant

/-!
Only calls of functions can go on for ever. An expression whose lists, as far as they stand outside
definitions, are headed by built-in forms needs no more depth than its own lists have. The built-in
forms ask for nothing but their operands, one level further in, and a definition asks for nothing.
What the names in reach are bound to does not matter.
-/
namespace SnapshotLisp

namespace Expr

mutual

def height : Expr → Nat
  | .atom _ => 0
  | .list items _ => heightOf items + 1

def heightOf : List Expr → Nat
  | [] => 0
  | item :: later => max (height item) (heightOf later)

end

theorem height_le_heightOf {items : List Expr} {item : Expr} (member : item ∈ items) :
    item.height ≤ heightOf items := by
  induction items with
  | nil => cases member
  | cons first later ih =>
    rw [heightOf]
    cases member with
    | head => omega
    | tail _ member =>
      have bound := ih member
      omega

/-- What a list gives its head to work on. A definition keeps its parts as they are. -/
def operands : Expr → List Expr
  | .atom _ | .list [] _ => []
  | .list (head :: args) _ =>
    if head.identifier? = some Builtin.define.name then [] else args

theorem operands_builtin {builtin : Builtin} {head : Expr}
    (named : head.identifier? = some builtin.name) (other : builtin ≠ .define) (args : List Expr)
    (location : Location) : (Expr.list (head :: args) location).operands = args := by
  rw [operands, named, if_neg]
  intro same
  exact other (Builtin.name_injective (Option.some.inj same))

theorem mem_operands {e item : Expr} (member : item ∈ e.operands) :
    ∃ head args location, e = .list (head :: args) location ∧
      head.identifier? ≠ some Builtin.define.name ∧ item ∈ args := by
  unfold operands at member
  split at member
  · cases member
  · cases member
  · split at member
    · cases member
    · exact ⟨_, _, _, rfl, by assumption, member⟩

theorem height_lt_of_operand {e item : Expr} (member : item ∈ e.operands) :
    item.height < e.height := by
  obtain ⟨head, args, location, rfl, _, member⟩ := mem_operands member
  have bound := height_le_heightOf (List.mem_cons_of_mem head member)
  rw [height]
  omega

theorem exposes_operand {e item node : Expr} (member : item ∈ e.operands)
    (exposed : item.Exposes node) : e.Exposes node := by
  obtain ⟨head, args, location, rfl, notDefinition, member⟩ := mem_operands member
  exact .inside notDefinition (List.mem_cons_of_mem head member) exposed

/-- Every name at the head of a list is that of a built-in form, except inside definitions. -/
def BuiltinHeads (e : Expr) : Prop :=
  ∀ head args location name, e.Exposes (.list (head :: args) location) →
    head.identifier? = some name → ∃ builtin, Builtin.ofName? name = some builtin

theorem BuiltinHeads.operand {e item : Expr} (heads : e.BuiltinHeads)
    (member : item ∈ e.operands) : item.BuiltinHeads := by
  intro head args location name exposed named
  exact heads head args location name (exposes_operand member exposed) named

theorem builtinHeads_atom (token : Token) : (Expr.atom token).BuiltinHeads := by
  intro head args location name exposed
  cases exposed

theorem builtinHeads_list (builtin : Builtin) {token : Token} {args : List Expr}
    {location : Location} (named : (Expr.atom token).identifier? = some builtin.name)
    (below : builtin ≠ .define → ∀ item ∈ args, item.BuiltinHeads) :
    (Expr.list (.atom token :: args) location).BuiltinHeads := by
  intro head later place name exposed identified
  cases exposed with
  | itself =>
    rw [named] at identified
    cases identified
    exact ⟨builtin, Builtin.ofName?_name builtin⟩
  | @inside _ _ item _ notDefinition member exposed =>
    cases member with
    | head => cases exposed
    | tail _ member =>
      refine below ?_ item member head later place name exposed identified
      rintro rfl
      exact notDefinition named

end Expr

section

variable {ev ev' : Evaluator}

theorem evalInteger_agree {e : Expr} (agree : ev e = ev' e) :
    evalInteger ev e = evalInteger ev' e := by
  rw [evalInteger, evalInteger, agree]

theorem evalSequence_agree {items : List Expr} (agree : ∀ e ∈ items, ev e = ev' e)
    (last : Option Value) : evalSequence ev last items = evalSequence ev' last items := by
  induction items generalizing last with
  | nil => rfl
  | cons item later ih =>
    rw [evalSequence, evalSequence, agree item (by simp)]
    congr 1
    funext value
    exact ih (fun e member => agree e (by simp [member])) value

theorem evalTotal_agree {operands : List Expr} (agree : ∀ e ∈ operands, ev e = ev' e)
    (step : Word → Word → Option Word) (location : Location) (total : Word) :
    evalTotal ev step location total operands = evalTotal ev' step location total operands := by
  induction operands generalizing total with
  | nil => rfl
  | cons operand later ih =>
    rw [evalTotal, evalTotal, evalInteger_agree (agree operand (by simp))]
    congr 1
    funext word
    cases step total word with
    | none => rfl
    | some next => exact ih (fun e member => agree e (by simp [member])) next

theorem evalForm_agree {form : Form} (agree : ∀ e ∈ form.operands, ev e = ev' e)
    (location : Location) : evalForm ev location form = evalForm ev' location form := by
  cases form with
  | conditional condition consequence alternative =>
    simp only [Form.operands, List.forall_mem_cons] at agree
    obtain ⟨first, second, third, _⟩ := agree
    rw [evalForm, evalForm, evalBoolean, evalBoolean, first, second, third]
  | less left right =>
    simp only [Form.operands, List.forall_mem_cons] at agree
    obtain ⟨first, second, _⟩ := agree
    rw [evalForm, evalForm, evalInteger_agree first, evalInteger_agree second]
  | sum operands =>
    have same := evalTotal_agree agree Word.add? location 0
    exact congrArg (· >>= _) same
  | difference first later =>
    obtain ⟨start, others⟩ := List.forall_mem_cons.mp agree
    simp only [evalForm, evalInteger_agree start, evalTotal_agree others]
  | sequence items => exact evalSequence_agree agree none
  | definition name params body => rfl

theorem evalStep_agree {e : Expr} (heads : e.BuiltinHeads)
    (agree : ∀ item ∈ e.operands, ev item = ev' item) : evalStep ev e = evalStep ev' e := by
  cases e with
  | atom token => rfl
  | list items location =>
    cases items with
    | nil => rfl
    | cons head args =>
      cases named : head.identifier? with
      | none => simp only [evalStep, evalApplication, named]
      | some name =>
        obtain ⟨builtin, found⟩ := heads head args location name (.itself _) named
        have same : builtin.name = name := Builtin.ofName?_eq_some_iff.mp found
        subst same
        simp only [evalStep, evalApplication, named, evalNamed, found, callBuiltin]
        cases read : builtin.form? args with
        | none => rfl
        | some form =>
          have below : ∀ item ∈ form.operands, ev item = ev' item := by
            obtain ⟨other, same⟩ | ⟨_, _, _, _, _, rfl⟩ := Builtin.form?_cases read
            · rw [Expr.operands_builtin named other] at agree
              rw [same]
              exact agree
            · intro item member
              cases member
          dsimp only
          rw [evalForm_agree below]

end

namespace Eval

def Ends {α : Type} (x : Eval α) : Prop := ∀ s, x.run s ≠ .tooDeep

theorem ends_congruence : Congruence fun {α} (x _ : Eval α) => x.Ends where
  pure := by
    intro α a s
    nofun
  fail := by
    intro α cause location s
    nofun
  env := by
    intro s
    nofun
  emit := by
    intro event s
    nofun
  define := by
    intro closure s
    nofun
  bind := by
    intro α β x y f g first later s
    rw [run_bind]
    cases ran : x.run s with
    | done a t => exact later a t
    | failed e t => nofun
    | tooDeep => exact absurd ran (first s)
  within := by
    intro α x y inner first s
    rw [run_within]
    cases ran : x.run { s with env := inner } with
    | done a t => nofun
    | failed e t => nofun
    | tooDeep => exact absurd ran (first _)

end Eval

theorem evalStep_ends {ev : Evaluator} {e : Expr} (heads : e.BuiltinHeads)
    (below : ∀ item ∈ e.operands, (ev item).Ends) : (evalStep ev e).Ends := by
  classical
  -- Nothing but the operands is asked for, so elsewhere the evaluator may as well be one that ends.
  let tamed : Evaluator := fun item => if item ∈ e.operands then ev item else pure none
  have agree : ∀ item ∈ e.operands, ev item = tamed item := by
    intro item member
    exact (if_pos member).symm
  have ends : ∀ item, (tamed item).Ends := by
    intro item
    by_cases member : item ∈ e.operands
    · rw [← agree item member]
      exact below item member
    · simp only [tamed, if_neg member]
      exact Eval.ends_congruence.pure none
  rw [evalStep_agree heads agree]
  exact @Congruence.evalStep _ tamed tamed Eval.ends_congruence ends e

theorem eval_ends {depth : Nat} {e : Expr} (heads : e.BuiltinHeads) (enough : e.height < depth) :
    (eval depth e).Ends := by
  induction depth generalizing e with
  | zero => omega
  | succ depth ih =>
    apply evalStep_ends heads
    intro item member
    have lower := Expr.height_lt_of_operand member
    exact ih (heads.operand member) (by omega)

theorem operand_of_asks {ev : Evaluator} {e e' : Expr} {s s' : State} (heads : e.BuiltinHeads)
    (asks : Asks ev e s e' s') : e' ∈ e.operands := by
  obtain ⟨other, agrees, differs⟩ := asks
  by_contra outside
  apply differs
  rw [evalStep_agree heads]
  intro item member
  ext t
  apply agrees
  left
  rintro rfl
  exact outside member

theorem exposes_of_visits {depth below : Nat} {e node : Expr} {s t : State}
    (heads : e.BuiltinHeads) (visits : Visits depth e s below node t) :
    e.Exposes node ∧ depth + node.height ≤ below + e.height := by
  induction visits with
  | itself depth e s => exact ⟨.itself e, Nat.le_refl _⟩
  | inside asks further ih =>
    have member := operand_of_asks heads asks
    have lower := Expr.height_lt_of_operand member
    obtain ⟨exposed, bound⟩ := ih (heads.operand member)
    constructor
    · exact Expr.exposes_operand member exposed
    · omega

/-- Without a call, evaluation ends in every state, with a value, with none or with an error, and
nothing but the height of the expression decides how deep it must be allowed to go. On its way it
comes to nodes of the expression only, to none of them inside a definition, and it is never further
down than the node it is at. -/
theorem builtin_heads_terminate {e : Expr} (heads : e.BuiltinHeads) (s : State) :
    ((∃ result t, (eval (e.height + 1) e).run s = .done result t) ∨
      ∃ error t, (eval (e.height + 1) e).run s = .failed error t) ∧
    (∀ depth, e.height < depth → (eval depth e).run s = (eval (e.height + 1) e).run s) ∧
    ∀ depth below node t, Visits depth e s below node t →
      e.Exposes node ∧ depth + node.height ≤ below + e.height := by
  have ends := eval_ends heads (Nat.lt_succ_self e.height) s
  refine ⟨?_, ?_, ?_⟩
  · cases ran : (eval (e.height + 1) e).run s with
    | done result t => exact Or.inl ⟨result, t, rfl⟩
    | failed error t => exact Or.inr ⟨error, t, rfl⟩
    | tooDeep => exact absurd ran ends
  · intro depth enough
    exact eval_extended enough e s ends
  · intro depth below node t visits
    exact exposes_of_visits heads visits

theorem eval_self_call {name : String} {token : Token} {s : State} {identity : Nat}
    {location : Location} (named : (Expr.atom token).identifier? = some name)
    (free : Builtin.ofName? name = none)
    (bound : s.env.get? name = some (.function identity ⟨name, [], ⟨[.atom token], location⟩⟩))
    (depth : Nat) : (eval depth (.list [.atom token] location)).run s = .tooDeep := by
  induction depth generalizing s with
  | zero => rfl
  | succ depth ih =>
    have fits : ([] : List Expr).length = ([] : List String).length := rfl
    rw [eval_call named free bound, callClosure_of_values (.nil _), if_pos fits]
    have inside := @ih ⟨s.env.snapshot [] [], s.identity,
      .calling name 0 :: .applying name 0 location :: s.log⟩ bound
    exact congrArg (Outcome.backIn s.env) inside

/-- In a state where `(f)` never returns, `f` may still be read and a call of it be defined. -/
theorem builtin_heads_terminate_of_loop :
    ∃ (s : State) (call e : Expr), call.render = "(f)" ∧
      (∀ depth, (eval depth call).run s = .tooDeep) ∧
      e.render = "(begin (func g () (f)) (if (< (+) (+)) g f))" ∧ e.height = 4 ∧
      ∀ depth, 4 < depth → (eval depth e).run s ≠ .tooDeep := by
  let name (text : String) : Expr := .atom (.synthetic text)
  let form (text : String) (args : List Expr) : Expr := .list (name text :: args) .start
  let loop : Closure := ⟨"f", [], ⟨[name "f"], .start⟩⟩
  let s : State := ⟨Environment.empty.define "f" (.function 0 loop), 1, []⟩
  let definition := form "func" [name "g", .list [] .start, form "f" []]
  let test := form "<" [form "+" [], form "+" []]
  let choice := form "if" [test, name "g", name "f"]
  let e := form "begin" [definition, choice]
  have atom (text : String) : (name text).BuiltinHeads := Expr.builtinHeads_atom _
  have sum : (form "+" []).BuiltinHeads := Expr.builtinHeads_list .add rfl (by simp)
  have tested : test.BuiltinHeads := Expr.builtinHeads_list .less rfl (by simp [sum])
  have defined : definition.BuiltinHeads := Expr.builtinHeads_list .define rfl (by simp)
  have chosen : choice.BuiltinHeads :=
    Expr.builtinHeads_list .conditional rfl (by simp [tested, atom])
  have heads : e.BuiltinHeads := Expr.builtinHeads_list .sequence rfl (by simp [defined, chosen])
  refine ⟨s, form "f" [], e, by decide +kernel, eval_self_call rfl rfl rfl, by decide +kernel,
    by decide +kernel, ?_⟩
  intro depth enough
  obtain ⟨ends, stable, _⟩ := builtin_heads_terminate heads s
  rw [stable depth enough]
  rcases ends with ⟨result, t, ran⟩ | ⟨error, t, ran⟩
  · rw [ran]
    nofun
  · rw [ran]
    nofun

end SnapshotLisp
