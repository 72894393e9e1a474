import SnapshotLisp.Evaluator
import SnapshotLisp.Proofs.Form

/-!
What an evaluation leaves behind in the bindings around it: functions that it defined in the open,
and nothing else. A call runs on a copy that is given up afterwards, so neither a parameter nor a
definition inside a called body ever counts. A definition inside another one is stored unread.
-/
namespace SnapshotLisp

namespace Expr

/-- The node stands in the expression, and not inside a definition there. -/
inductive Exposes : Expr → Expr → Prop where
  | itself (e : Expr) : Exposes e e
  | inside {items : List Expr} {location : Location} {item node : Expr}
      (notDefinition : items.head?.bind identifier? ≠ some Builtin.define.name)
      (member : item ∈ items) (below : Exposes item node) : Exposes (.list items location) node

/-- What evaluating the expression may bind where it is evaluated. -/
def Introduces (e : Expr) (closure : Closure) : Prop :=
  Builtin.ofName? closure.name = none ∧ ∃ node, e.Exposes node ∧ node.Defines closure

theorem introduces_inside {items : List Expr} {location : Location} {item : Expr}
    {closure : Closure} (notDefinition : items.head?.bind identifier? ≠ some Builtin.define.name)
    (member : item ∈ items) (introduced : item.Introduces closure) :
    (Expr.list items location).Introduces closure := by
  obtain ⟨free, node, exposed, defines⟩ := introduced
  exact ⟨free, node, .inside notDefinition member exposed, defines⟩

theorem introduces_definition {head name params body : Expr} {location : Location}
    {closure : Closure} (keyword : head.identifier? = some Builtin.define.name)
    (read : Closure.ofParts name params body = .ok closure) :
    (Expr.list [head, name, params, body] location).Introduces closure :=
  ⟨(Closure.ofParts_ok read).2.1, _, .itself _, defines_of_ofParts keyword read location⟩

end Expr

namespace Environment

/-- The second environment is the first with functions bound on top, each to its own name. -/
inductive Grown (allowed : Closure → Prop) (first : Environment) : Environment → Prop where
  | unchanged : Grown allowed first first
  | defined {env : Environment} {identity : Nat} {closure : Closure}
      (before : Grown allowed first env) (known : allowed closure) :
      Grown allowed first (env.define closure.name (.function identity closure))

variable {allowed more : Closure → Prop} {first second third : Environment}

theorem Grown.trans (early : Grown allowed first second) (late : Grown allowed second third) :
    Grown allowed first third := by
  induction late with
  | unchanged => exact early
  | defined before known ih => exact .defined ih known

theorem Grown.mono (weaker : ∀ closure, allowed closure → more closure)
    (grown : Grown allowed first second) : Grown more first second := by
  induction grown with
  | unchanged => exact .unchanged
  | defined before known ih => exact .defined ih (weaker _ known)

theorem Grown.get?_eq_or (grown : Grown allowed first second) (name : String) :
    second.get? name = first.get? name ∨
      ∃ identity closure, allowed closure ∧ closure.name = name ∧
        second.get? name = some (.function identity closure) := by
  induction grown with
  | unchanged => exact Or.inl rfl
  | @defined env identity closure before known ih =>
    rw [get?_define]
    split
    · rename_i same
      exact Or.inr ⟨identity, closure, known, same.symm, rfl⟩
    · exact ih

theorem Grown.still_bound (grown : Grown allowed first second) {name : String}
    (bound : (first.get? name).isSome) : (second.get? name).isSome := by
  rcases grown.get?_eq_or name with same | ⟨identity, closure, _, _, found⟩
  · rw [same]
    exact bound
  · rw [found]
    rfl

theorem Grown.eq_of_none_allowed (grown : Grown allowed first second)
    (none : ∀ closure, ¬ allowed closure) : second = first := by
  cases grown with
  | unchanged => rfl
  | defined before known => exact absurd known (none _)

end Environment

def Outcome.state? {α : Type} : Outcome α → Option State
  | .done _ s => some s
  | .failed _ s => some s
  | .tooDeep => none

namespace Eval

variable {α β : Type} {allowed more : Closure → Prop}

/-- However the evaluation ends, all it has done to the bindings is to add functions to them. -/
def Grows (allowed : Closure → Prop) (x : Eval α) : Prop :=
  ∀ s t, (x.run s).state? = some t → s.env.Grown allowed t.env

theorem Grows.mono {x : Eval α} (weaker : ∀ closure, allowed closure → more closure)
    (grows : x.Grows allowed) : x.Grows more :=
  fun s t ended => (grows s t ended).mono weaker

theorem grows_of_env_kept {x : Eval α} (kept : ∀ s t, (x.run s).state? = some t → t.env = s.env) :
    x.Grows allowed := by
  intro s t ended
  rw [kept s t ended]
  exact .unchanged

theorem grows_pure (a : α) : (Pure.pure a : Eval α).Grows allowed :=
  grows_of_env_kept (by rintro s t ⟨⟩; rfl)

theorem grows_fail (cause : EvalCause) (location : Location) :
    (fail cause location : Eval α).Grows allowed :=
  grows_of_env_kept (by rintro s t ⟨⟩; rfl)

theorem grows_ofExcept (x : Except EvalError α) : (ofExcept x).Grows allowed := by
  cases x with
  | ok a => exact grows_pure a
  | error e => exact grows_fail e.cause e.location

theorem grows_tooDeep : (tooDeep : Eval α).Grows allowed := by
  rintro s t ⟨⟩

theorem grows_env : env.Grows allowed :=
  grows_of_env_kept (by rintro s t ⟨⟩; rfl)

theorem grows_emit (event : Event) : (emit event).Grows allowed :=
  grows_of_env_kept (by rintro s t ⟨⟩; rfl)

theorem grows_define {closure : Closure} (known : allowed closure) :
    (define closure).Grows allowed := by
  rintro s t ⟨⟩
  exact .defined .unchanged known

theorem grows_ofExcept_bind {x : Except EvalError α} {f : α → Eval β}
    (hf : ∀ a, x = .ok a → (f a).Grows allowed) : (ofExcept x >>= f).Grows allowed := by
  cases x with
  | ok a => exact hf a rfl
  | error e => exact grows_fail e.cause e.location

theorem env_within {inner : Environment} {x : Eval α} {s t : State}
    (ended : ((within inner x).run s).state? = some t) : t.env = s.env := by
  rw [run_within] at ended
  split at ended
  · cases ended
    rfl
  · cases ended
    rfl
  · cases ended

theorem grows_bind {x : Eval α} {f : α → Eval β} (hx : x.Grows allowed)
    (hf : ∀ a, (f a).Grows allowed) : (x >>= f).Grows allowed := by
  intro s t ended
  rw [run_bind] at ended
  cases ran : x.run s with
  | done a mid =>
    rw [ran] at ended
    have early : s.env.Grown allowed mid.env := hx s mid (by rw [ran]; rfl)
    exact early.trans (hf a mid t ended)
  | failed e mid =>
    rw [ran] at ended
    cases ended
    exact hx s t (by rw [ran]; rfl)
  | tooDeep =>
    rw [ran] at ended
    cases ended

end Eval

section

variable {ev : Evaluator} {allowed : Closure → Prop}

theorem evalValue_grows {e : Expr} (he : (ev e).Grows allowed) : (evalValue ev e).Grows allowed := by
  apply Eval.grows_bind he
  intro found
  cases found with
  | none => exact Eval.grows_fail _ _
  | some value => exact Eval.grows_pure _

theorem evalInteger_grows {e : Expr} (he : (ev e).Grows allowed) :
    (evalInteger ev e).Grows allowed := by
  apply Eval.grows_bind he
  intro found
  split
  · exact Eval.grows_pure _
  · exact Eval.grows_fail _ _

theorem evalBoolean_grows {e : Expr} (he : (ev e).Grows allowed) :
    (evalBoolean ev e).Grows allowed := by
  apply Eval.grows_bind he
  intro found
  split
  · exact Eval.grows_pure _
  · exact Eval.grows_fail _ _

theorem evalSequence_grows {items : List Expr} (hitems : ∀ e ∈ items, (ev e).Grows allowed)
    (last : Option Value) : (evalSequence ev last items).Grows allowed := by
  induction items generalizing last with
  | nil => exact Eval.grows_pure last
  | cons item later ih =>
    apply Eval.grows_bind (hitems item (by simp))
    intro value
    exact ih (fun e member => hitems e (by simp [member])) value

theorem evalTotal_grows {operands : List Expr} (hoperands : ∀ e ∈ operands, (ev e).Grows allowed)
    (step : Word → Word → Option Word) (location : Location) (total : Word) :
    (evalTotal ev step location total operands).Grows allowed := by
  induction operands generalizing total with
  | nil => exact Eval.grows_pure total
  | cons operand later ih =>
    apply Eval.grows_bind (evalInteger_grows (hoperands operand (by simp)))
    intro word
    cases step total word with
    | none => exact Eval.grows_fail _ _
    | some next => exact ih (fun e member => hoperands e (by simp [member])) next

theorem evalValues_grows {args : List Expr} (hargs : ∀ e ∈ args, (ev e).Grows allowed) :
    (evalValues ev args).Grows allowed := by
  induction args with
  | nil => exact Eval.grows_pure []
  | cons arg later ih =>
    apply Eval.grows_bind (evalValue_grows (hargs arg (by simp)))
    intro value
    apply Eval.grows_bind (ih fun e member => hargs e (by simp [member]))
    intro values
    exact Eval.grows_pure _

theorem evalForm_grows {form : Form} (hoperands : ∀ e ∈ form.operands, (ev e).Grows allowed)
    (hdefinition : ∀ name params body closure, form = .definition name params body →
      Closure.ofParts name params body = .ok closure → allowed closure) (location : Location) :
    (evalForm ev location form).Grows allowed := by
  cases form with
  | conditional condition consequence alternative =>
    apply Eval.grows_bind (evalBoolean_grows (hoperands condition (by simp [Form.operands])))
    intro truth
    cases truth with
    | true => exact hoperands consequence (by simp [Form.operands])
    | false => exact hoperands alternative (by simp [Form.operands])
  | less left right =>
    apply Eval.grows_bind (evalInteger_grows (hoperands left (by simp [Form.operands])))
    intro a
    apply Eval.grows_bind (evalInteger_grows (hoperands right (by simp [Form.operands])))
    intro b
    exact Eval.grows_pure _
  | sum operands =>
    apply Eval.grows_bind (evalTotal_grows hoperands _ _ _)
    intro total
    exact Eval.grows_pure _
  | difference first later =>
    apply Eval.grows_bind (evalInteger_grows (hoperands first (by simp [Form.operands])))
    intro word
    apply Eval.grows_bind
    · exact evalTotal_grows (fun e member => hoperands e (by simp [Form.operands, member])) _ _ _
    · intro total
      exact Eval.grows_pure _
  | sequence items => exact evalSequence_grows hoperands none
  | definition name params body =>
    apply Eval.grows_ofExcept_bind
    intro closure read
    apply Eval.grows_bind (Eval.grows_emit _)
    intro _
    apply Eval.grows_bind (Eval.grows_define (hdefinition name params body closure rfl read))
    intro function
    exact Eval.grows_pure _

theorem callClosure_env {closure : Closure} {args : List Expr} {location : Location} {s t : State}
    (ended : ((callClosure ev closure args location).run s).state? = some t) :
    ∃ mid, ((evalValues ev args).run s).state? = some mid ∧ t.env = mid.env := by
  unfold callClosure at ended
  rw [Eval.run_bind] at ended
  cases ran : (evalValues ev args).run s with
  | done values mid =>
    rw [ran] at ended
    refine ⟨mid, rfl, ?_⟩
    dsimp only at ended
    split at ended
    · have body : ((Eval.within (mid.env.snapshot closure.params values)
          (evalBody ev closure.body)).run
            { mid with log := .calling closure.name values.length :: mid.log }).state? = some t :=
        ended
      have kept := Eval.env_within body
      exact kept
    · cases ended
      rfl
  | failed e mid =>
    rw [ran] at ended
    exact ⟨mid, rfl, by cases ended; rfl⟩
  | tooDeep =>
    rw [ran] at ended
    cases ended

theorem callClosure_grows {args : List Expr} (hargs : ∀ e ∈ args, (ev e).Grows allowed)
    (closure : Closure) (location : Location) :
    (callClosure ev closure args location).Grows allowed := by
  intro s t ended
  obtain ⟨mid, left, same⟩ := callClosure_env ended
  rw [same]
  exact evalValues_grows hargs s mid left

theorem callBuiltin_grows {builtin : Builtin} {args : List Expr}
    (hargs : builtin ≠ .define → ∀ e ∈ args, (ev e).Grows allowed)
    (hdefinition : builtin = .define → ∀ name params body closure, args = [name, params, body] →
      Closure.ofParts name params body = .ok closure → allowed closure) (location : Location) :
    (callBuiltin ev builtin args location).Grows allowed := by
  unfold callBuiltin
  cases read : builtin.form? args with
  | none => exact Eval.grows_fail _ _
  | some form =>
    rcases Builtin.form?_cases read with ⟨other, same⟩ | ⟨name, params, body, rfl, rfl, rfl⟩
    · subst same
      apply evalForm_grows (hargs other)
      rintro name params body closure rfl -
      cases builtin <;> simp_all [Form.operands, Builtin.form?]
    · apply evalForm_grows
      · simp [Form.operands]
      · rintro _ _ _ closure ⟨⟩ accepted
        exact hdefinition rfl name params body closure rfl accepted

theorem evalNamed_grows {name : String} {args : List Expr}
    (hargs : name ≠ Builtin.define.name → ∀ e ∈ args, (ev e).Grows allowed)
    (hdefinition : name = Builtin.define.name → ∀ name params body closure,
      args = [name, params, body] → Closure.ofParts name params body = .ok closure →
      allowed closure) (head location : Location) :
    (evalNamed ev name head args location).Grows allowed := by
  apply Eval.grows_bind (Eval.grows_emit _)
  intro _
  cases found : Builtin.ofName? name with
  | some builtin =>
    have named : builtin.name = name := Builtin.ofName?_eq_some_iff.mp found
    subst named
    apply callBuiltin_grows
    · intro other
      exact hargs fun same => other (Builtin.name_injective same)
    · rintro rfl
      exact hdefinition rfl
  | none =>
    have other : name ≠ Builtin.define.name := by
      rintro rfl
      simp at found
    apply Eval.grows_bind Eval.grows_env
    intro env
    split
    · exact callClosure_grows (hargs other) _ _
    · exact Eval.grows_fail _ _
    · exact Eval.grows_fail _ _

end

theorem evalStep_grows {ev : Evaluator} (hev : ∀ e, (ev e).Grows e.Introduces) (e : Expr) :
    (evalStep ev e).Grows e.Introduces := by
  cases e with
  | atom token =>
    apply Eval.grows_bind Eval.grows_env
    intro env
    apply Eval.grows_bind (Eval.grows_ofExcept _)
    intro value
    exact Eval.grows_pure _
  | list items location =>
    simp only [evalStep]
    unfold evalApplication
    cases items with
    | nil => exact Eval.grows_fail _ _
    | cons head args =>
      dsimp only
      cases named : head.identifier? with
      | none => exact Eval.grows_fail _ _
      | some name =>
        apply evalNamed_grows
        · intro other e member
          refine (hev e).mono fun closure introduced => ?_
          refine Expr.introduces_inside ?_ (List.mem_cons_of_mem head member) introduced
          simp [named, other]
        · rintro rfl _ _ _ closure rfl accepted
          exact Expr.introduces_definition named accepted

theorem eval_grows (depth : Nat) (e : Expr) : (eval depth e).Grows e.Introduces := by
  induction depth generalizing e with
  | zero => exact Eval.grows_tooDeep
  | succ depth ih => exact evalStep_grows ih e

theorem eval_definition {depth : Nat} {head : Expr} {args : List Expr} {location : Location}
    {s t : State} {result : Option Value} (keyword : head.identifier? = some Builtin.define.name)
    (ended : (eval depth (.list (head :: args) location)).run s = .done result t) :
    ∃ closure, (Expr.list (head :: args) location).Defines closure ∧
      result = some (.function s.identity closure) ∧
      t.env = s.env.define closure.name (.function s.identity closure) := by
  cases depth with
  | zero => cases ended
  | succ depth =>
    rw [eval_builtin keyword, Eval.run_bind, Eval.run_emit] at ended
    unfold callBuiltin at ended
    cases read : Builtin.define.form? args with
    | none =>
      rw [read] at ended
      cases ended
    | some form =>
      obtain ⟨other, _⟩ | ⟨name, params, body, _, rfl, rfl⟩ := Builtin.form?_cases read
      · exact absurd rfl other
      rw [read] at ended
      cases parts : Closure.ofParts name params body with
      | error e =>
        simp only [evalForm, parts] at ended
        cases ended
      | ok closure =>
        simp only [evalForm, parts] at ended
        cases ended
        exact ⟨closure, Expr.defines_of_ofParts keyword parts location, rfl, rfl⟩

/-- The frame law of evaluation, whichever way it ends. A name keeps its binding unless a definition
that stands in the open binds it, so no name is ever lost, and without such a definition nothing
changes at all. Of a call, its arguments are all that can show afterwards. -/
theorem evaluation_frame {depth : Nat} {e : Expr} {s t : State}
    (ended : ((eval depth e).run s).state? = some t) :
    (∀ name, t.env.get? name = s.env.get? name ∨
      Builtin.ofName? name = none ∧ ∃ identity closure,
        t.env.get? name = some (.function identity closure) ∧ closure.name = name ∧
          ∃ node, e.Exposes node ∧ node.Defines closure) ∧
    (∀ name, (s.env.get? name).isSome → (t.env.get? name).isSome) ∧
    ((∀ node closure, e.Exposes node → ¬ node.Defines closure) → t.env = s.env) ∧
    (∀ closure args location u,
      ((callClosure (eval depth) closure args location).run s).state? = some u →
        ∃ mid, ((evalValues (eval depth) args).run s).state? = some mid ∧ u.env = mid.env) := by
  have grown := eval_grows depth e s t ended
  refine ⟨?_, fun name => grown.still_bound, ?_, fun closure args location u => callClosure_env⟩
  · intro name
    rcases grown.get?_eq_or name with same | ⟨identity, closure, ⟨free, exposed⟩, rfl, found⟩
    · exact Or.inl same
    · exact Or.inr ⟨free, identity, closure, found, rfl, exposed⟩
  · intro noDefinition
    apply grown.eq_of_none_allowed
    rintro closure ⟨_, node, exposed, defines⟩
    exact noDefinition node closure exposed defines

/-- `(begin (func f () ((func g () ()) (g))) (f))` fails inside the call, where `g` means something
else. -/
theorem evaluation_frame_of_failing_call :
    ∃ t, ((eval 6 (.list [.atom (.synthetic "begin"),
        .list [.atom (.synthetic "func"), .atom (.synthetic "f"), .list [] .start,
          .list [.list [.atom (.synthetic "func"), .atom (.synthetic "g"), .list [] .start,
              .list [] .start] .start,
            .list [.atom (.synthetic "g")] .start] .start] .start,
        .list [.atom (.synthetic "f")] .start] .start)).run
          ⟨Environment.empty.define "g" (.boolean true), 0, []⟩).state? = some t ∧
      (t.env.get? "g").isSome :=
  (Option.isSome_iff_exists.mp (by decide +kernel)).imp fun _ ended =>
    ⟨ended, (evaluation_frame ended).2.1 "g" rfl⟩

end SnapshotLisp
