import SnapshotLisp.Proofs.Frame
import SnapshotLisp.Proofs.Monotonicity

/-!
Bindings that are not asked for have no influence. The names an evaluation may ask for are those
written in the expression and in the bodies of all functions it can get hold of; a set of names that
is closed in this sense is a wall that nothing passes, neither inwards nor outwards.
-/
namespace SnapshotLisp

namespace Expr

mutual

/-- The names whose bindings an evaluation may ask for. At the head of a list the name of a built-in
form is none of them. -/
def names (atHead : Bool) : Expr → List String
  | .atom token =>
    if token.kind = .integer ∨ atHead ∧ (Builtin.ofName? token.text).isSome then []
    else [token.text]
  | .list items _ => itemNames true items

def itemNames (atHead : Bool) : List Expr → List String
  | [] => []
  | item :: later => names atHead item ++ itemNames false later

end

theorem names_list (atHead : Bool) (items : List Expr) (location : Location) :
    (Expr.list items location).names atHead = itemNames true items := by
  rw [names]

theorem mem_itemNames_of_mem {items : List Expr} {item : Expr} (member : item ∈ items)
    {name : String} (mentioned : name ∈ item.names false) : name ∈ itemNames false items := by
  induction items with
  | nil => simp at member
  | cons first later ih =>
    rw [itemNames, List.mem_append]
    rcases List.mem_cons.mp member with same | member
    · subst same
      exact Or.inl mentioned
    · exact Or.inr (ih member)

theorem mem_names_of_arg {head : Expr} {args : List Expr} {location : Location} {arg : Expr}
    (member : arg ∈ args) {name : String} (mentioned : name ∈ arg.names false) (atHead : Bool) :
    name ∈ (Expr.list (head :: args) location).names atHead := by
  rw [names_list, itemNames, List.mem_append]
  exact Or.inr (mem_itemNames_of_mem member mentioned)

theorem mem_names_of_identifier {e : Expr} {name : String} (named : e.identifier? = some name)
    (atHead : Bool) (free : atHead = true → Builtin.ofName? name = none) :
    name ∈ e.names atHead := by
  cases e with
  | atom token =>
    simp only [identifier?, Option.ite_none_right_eq_some, Option.some.injEq] at named
    obtain ⟨kind, text⟩ := named
    subst text
    rw [names, if_neg]
    · simp
    · rintro (integer | ⟨head, known⟩)
      · rw [kind] at integer
        cases integer
      · rw [free head] at known
        cases known
  | list items location => simp [identifier?] at named

theorem name_mem_names {e : Expr} {closure : Closure} (introduced : e.Introduces closure)
    (atHead : Bool) : closure.name ∈ e.names atHead := by
  obtain ⟨_, node, exposed, defines⟩ := introduced
  induction exposed generalizing atHead with
  | itself e =>
    cases defines with
    | form keyword named parameters =>
      refine mem_names_of_arg List.mem_cons_self ?_ atHead
      exact mem_names_of_identifier named false nofun
  | @inside items location item node notDefinition member below ih =>
    cases items with
    | nil => simp at member
    | cons head args =>
      rcases List.mem_cons.mp member with same | member
      · subst same
        rw [names_list, itemNames, List.mem_append]
        exact Or.inl (ih true defines)
      · exact mem_names_of_arg member (ih false defines) atHead

end Expr

def Environment.AgreesOn (first second : Environment) (names : String → Prop) : Prop :=
  ∀ name, names name → Option.Rel Value.Alike (first.get? name) (second.get? name)

theorem Environment.agreesOn_define_other (env : Environment) {names : String → Prop}
    {name : String} (other : ¬ names name) (v : Value) :
    env.AgreesOn (env.define name v) names := by
  intro used member
  have different : used ≠ name := fun same => other (same ▸ member)
  rw [get?_define, if_neg different]
  cases env.get? used with
  | none => exact .none
  | some bound => exact .some (Value.Like.refl (fun _ => rfl) bound)

def Closure.Within (closure : Closure) (names : String → Prop) : Prop :=
  ∀ name ∈ closure.body.toExpr.names false, names name

def Comparison.ofNames (names : String → Prop) : Comparison :=
  pointwise names (fun c d => c = d ∧ c.Within names) (· = ·)

theorem names_simulation (names : String → Prop) :
    SameSimulation (Comparison.ofNames names) (fun e => ∀ name ∈ e.names false, names name) where
  closure_eq := fun related => related.1
  atom := by
    intro token mentioned env env' agree
    refine Comparison.pointwise_atomValue rfl rfl ?_ (fun _ => rfl) (fun _ => rfl) agree
    intro other
    exact mentioned token.text (by simp [Expr.names, other])
  found := by
    intro head args location mentioned name named free env env' agree
    refine Comparison.pointwise_callee (mentioned name ?_) (fun _ => rfl) rfl agree
    rw [Expr.names_list, Expr.itemNames, List.mem_append]
    exact Or.inl (Expr.mem_names_of_identifier named true fun _ => free)
  operand := by
    intro head args location mentioned _ e member name inner
    exact mentioned name (Expr.mem_names_of_arg member inner false)
  accepted := by
    intro head name params body location mentioned _ closure read
    refine ⟨rfl, fun inner stored => mentioned inner ?_⟩
    obtain ⟨_, _, _, same⟩ := Closure.ofParts_ok read
    rw [← same] at stored
    exact Expr.mem_names_of_arg (by simp) stored false
  refused := fun _ _ _ _ => rfl
  form := by
    intro closure related sequence e member name inner
    apply related.2 name
    obtain ⟨_, _, items, location⟩ := closure
    rcases items with _ | ⟨_ | ⟨inside, place⟩, later⟩
    · simp at member
    · simp [Group.isSequence] at sequence
    · rw [Group.toExpr, Expr.names_list, Expr.itemNames, List.mem_append]
      rcases List.mem_cons.mp member with same | member
      · subst same
        rw [Expr.names_list] at inner ⊢
        exact Or.inl inner
      · exact Or.inr (Expr.mem_itemNames_of_mem member inner)
  body := fun related => related.2
  define := fun agree like => Comparison.pointwise_define agree like _
  blamed := fun _ _ => rfl
  mismatch := fun _ _ _ _ => rfl

/-- The same outcome, except for the identities of functions and for bindings of other names. -/
inductive Outcome.Agrees (names : String → Prop) :
    Outcome (Option Value) → Outcome (Option Value) → Prop where
  | done {result result' : Option Value} {s t : State}
      (alike : Option.Rel Value.Alike result result') (after : s.env.AgreesOn t.env names) :
      Agrees names (.done result s) (.done result' t)
  | failed (error : EvalError) {s t : State} (after : s.env.AgreesOn t.env names) :
      Agrees names (.failed error s) (.failed error t)
  | tooDeep : Agrees names .tooDeep .tooDeep

section

variable {names : String → Prop}

theorem alike_of_names {v w : Value} (like : (Comparison.ofNames names).value v w) : v.Alike w :=
  like.mono fun _ _ related => related.1

theorem alike_of_names_option {found found' : Option Value}
    (like : Option.Rel (Comparison.ofNames names).value found found') :
    Option.Rel Value.Alike found found' := by
  cases like with
  | some like => exact .some (alike_of_names like)
  | none => exact .none

theorem agreesOn_of_names {first second : Environment}
    (agree : (Comparison.ofNames names).env first second) : first.AgreesOn second names :=
  fun name mentioned => alike_of_names_option (agree name mentioned)

theorem names_of_agreesOn {first second : Environment} (agree : first.AgreesOn second names)
    (closed : ∀ name identity closure, names name →
      first.get? name = some (.function identity closure) → closure.Within names) :
    (Comparison.ofNames names).env first second := by
  intro name mentioned
  have bound := agree name mentioned
  cases held : first.get? name with
  | none =>
    rw [held] at bound
    generalize second.get? name = right at bound
    cases bound
    exact .none
  | some v =>
    rw [held] at bound
    generalize second.get? name = right at bound
    cases bound with
    | some alike =>
      cases alike with
      | integer word => exact .some (.integer word)
      | boolean truth => exact .some (.boolean truth)
      | function same => exact .some (.function ⟨same, closed name _ _ mentioned held⟩)

theorem eval_agrees {e : Expr} {s t : State} (mentioned : ∀ name ∈ e.names false, names name)
    (agree : (Comparison.ofNames names).env s.env t.env) (depth : Nat) :
    ((eval depth e).run s).Agrees names ((eval depth e).run t) := by
  have outcomes := (names_simulation names).eval_matches depth mentioned s t agree
  generalize (eval depth e).run s = left at outcomes
  generalize (eval depth e).run t = right at outcomes
  cases outcomes with
  | done like after => exact .done (alike_of_names_option like) (agreesOn_of_names after)
  | failed same after =>
    cases same
    exact .failed _ (agreesOn_of_names after)
  | excused allowed => exact allowed.elim
  | tooDeep => exact .tooDeep

theorem eval_keeps_other {e : Expr} {s s' : State} (mentioned : ∀ name ∈ e.names false, names name)
    {depth : Nat} (ended : ((eval depth e).run s).state? = some s') {name : String}
    (other : ¬ names name) : s'.env.get? name = s.env.get? name := by
  rcases (eval_grows depth e s s' ended).get?_eq_or name with
    same | ⟨identity, closure, introduced, bound, _⟩
  · exact same
  · subst bound
    exact absurd (mentioned _ (Expr.name_mem_names introduced false)) other

end

/-- Noninterference. Only the bindings of a closed set of names have a say in an evaluation, and only
they can be changed by it. The name of a built-in form need not be in the set as long as it stands
at the heads of lists only, and then it may be bound to anything. -/
theorem noninterference {names : String → Prop} {e : Expr} {s t : State}
    (mentioned : ∀ name ∈ e.names false, names name)
    (closed : ∀ name identity closure, names name →
      s.env.get? name = some (.function identity closure) →
        ∀ inner ∈ closure.body.toExpr.names false, names inner)
    (agree : s.env.AgreesOn t.env names) (depth : Nat) :
    ((eval depth e).run s).Agrees names ((eval depth e).run t) ∧
    (∀ s', ((eval depth e).run s).state? = some s' →
      ∀ name, ¬ names name → s'.env.get? name = s.env.get? name) ∧
    (∀ t', ((eval depth e).run t).state? = some t' →
      ∀ name, ¬ names name → t'.env.get? name = t.env.get? name) ∧
    (∀ (builtin : Builtin) (v : Value), ¬ names builtin.name →
      ((eval depth e).run s).Agrees names
        ((eval depth e).run { s with env := s.env.define builtin.name v })) := by
  have start := names_of_agreesOn agree closed
  refine ⟨eval_agrees mentioned start depth, ?_, ?_, ?_⟩
  · intro s' ended name other
    exact eval_keeps_other mentioned ended other
  · intro t' ended name other
    exact eval_keeps_other mentioned ended other
  · intro builtin v unused
    apply eval_agrees mentioned
    exact names_of_agreesOn (s.env.agreesOn_define_other unused v) closed

/-- `(f x)`, where `f` is bound to a function `(func f (+) (+ x))` and `+` may be bound to a truth. -/
theorem noninterference_of_bound_plus :
    ∃ e s t, e = Expr.list [.atom (.synthetic "f"), .atom (.synthetic "x")] .start ∧
      s.env = (Environment.empty.define "x" (.integer 1)).define "f" (.function 0
        ⟨"f", ["+"], [.atom (.synthetic "+"), .atom (.synthetic "x")], .start⟩) ∧
      t.env = s.env.define "+" (.boolean true) ∧
      ((eval 4 e).run s).Agrees (· ∈ ["f", "x"]) ((eval 4 e).run t) := by
  refine ⟨_, ⟨_, 0, []⟩, ⟨_, 0, []⟩, rfl, rfl, rfl, ?_⟩
  refine (noninterference (by decide) ?_ (Environment.agreesOn_define_other _ (by decide) _) 4).1
  intro name identity closure member bound
  rcases List.mem_pair.mp member with same | same
  · subst same
    cases bound
    decide
  · subst same
    cases bound

end SnapshotLisp
