import SnapshotLisp.Proofs.Frame
import SnapshotLisp.Proofs.SameSimulation

/-!
Invariants of a single run that speak of its books: of the log that it writes and of the identities
that it gives out. The functions in reach are known to the world, and the world keeps the books.
What has to be shown of an invariant is what each of the three kinds of record does to it; that a
whole evaluation keeps it follows, however the evaluation ends, and so does that it holds wherever
the evaluation comes to on its way.
-/
namespace SnapshotLisp

/-- One level of evaluation asks for the other expression to be evaluated in the other state: it
comes out otherwise if that alone comes out otherwise. -/
def Asks (ev : Evaluator) (e : Expr) (s : State) (e' : Expr) (s' : State) : Prop :=
  ∃ other : Evaluator, (∀ x t, x ≠ e' ∨ t ≠ s' → (other x).run t = (ev x).run t) ∧
    (evalStep other e).run s ≠ (evalStep ev e).run s

/-- On its way an evaluation comes to that of another expression, in the state that it has then. -/
inductive Visits : Nat → Expr → State → Nat → Expr → State → Prop where
  | itself (depth : Nat) (e : Expr) (s : State) : Visits depth e s depth e s
  | inside {depth below : Nat} {e e' node : Expr} {s s' t : State}
      (asks : Asks (eval depth) e s e' s') (further : Visits depth e' s' below node t) :
      Visits (depth + 1) e s below node t

/-- A world knows functions and answers for the next identity and for the log. -/
structure Invariant where
  World : Type
  Later : World → World → Prop
  knows : World → Nat → Closure → Prop
  keeps : World → Nat → List Event → Prop
  refl : ∀ w, Later w w
  trans : ∀ {w w' w''}, Later w w' → Later w' w'' → Later w w''
  knows_later : ∀ {w w' identity closure}, Later w w' → knows w identity closure →
    knows w' identity closure

namespace Invariant

variable (inv : Invariant)

def Known (w : inv.World) (v : Value) : Prop :=
  ∀ identity closure, v = .function identity closure → inv.knows w identity closure

def KnownAll (w : inv.World) (env : Environment) : Prop :=
  ∀ name v, env.get? name = some v → inv.Known w v

structure Holds (w : inv.World) (s : State) : Prop where
  bindings : inv.KnownAll w s.env
  books : inv.keeps w s.identity s.log

structure Records (event : Event) (w w' : inv.World) : Prop where
  later : inv.Later w w'
  books : ∀ {identity log}, inv.keeps w identity log → inv.keeps w' identity (event :: log)

def Defines (w : inv.World) (closure : Closure) : Prop :=
  ∃ w', inv.Later w w' ∧ ∀ {identity log}, inv.keeps w identity log →
    inv.keeps w' (identity + 1) (.defining closure.name closure.params.length :: log) ∧
      inv.knows w' identity closure

/-- What is left to show of an invariant, as long as the expressions evaluated are good ones. -/
structure Preserved (good : Expr → Prop) : Prop where
  operand : ∀ {head args location}, good (.list (head :: args) location) →
    head.identifier? ≠ some Builtin.define.name → ∀ e ∈ args, good e
  form : ∀ {w identity closure}, inv.knows w identity closure → closure.body.isSequence →
    ∀ e ∈ closure.body.items, good e
  body : ∀ {w identity closure}, inv.knows w identity closure → good closure.body.toExpr
  applying : ∀ {head args location}, good (.list (head :: args) location) →
    ∀ {name}, head.identifier? = some name → ∀ w, ∃ w',
      inv.Records (.applying name args.length location) w w' ∧
        (name = Builtin.define.name → ∀ {text params body}, args = [text, params, body] →
          ∀ closure, Closure.ofParts text params body = .ok closure → inv.Defines w' closure)
  calling : ∀ {w identity closure}, inv.knows w identity closure →
    ∃ w', inv.Records (.calling closure.name closure.params.length) w w'

variable {inv} {w w' : inv.World}

theorem known_integer (w : inv.World) (word : Word) : inv.Known w (.integer word) := nofun

theorem known_boolean (w : inv.World) (truth : Bool) : inv.Known w (.boolean truth) := nofun

theorem Known.later {v : Value} (known : inv.Known w v) (later : inv.Later w w') :
    inv.Known w' v :=
  fun identity closure same => inv.knows_later later (known identity closure same)

theorem KnownAll.define {env : Environment} (known : inv.KnownAll w env) {v : Value}
    (new : inv.Known w v) (name : String) : inv.KnownAll w (env.define name v) := by
  intro other found bound
  rw [Environment.get?_define] at bound
  split at bound
  · cases bound
    exact new
  · exact known other found bound

variable (inv)

/-- One run, coupled with itself. -/
def coupling : Coupling where
  World := inv.World
  Later := inv.Later
  value w v v' := v = v' ∧ inv.Known w v
  closure w c c' := c = c' ∧ ∃ identity, inv.knows w identity c
  env w e e' := e = e' ∧ inv.KnownAll w e
  books w s t := s.identity = t.identity ∧ s.log = t.log ∧ inv.keeps w s.identity s.log
  error := (· = ·)
  excused _ := False
  lenient := False
  refl := inv.refl
  trans := inv.trans
  integer w word := ⟨rfl, known_integer w word⟩
  boolean w truth := ⟨rfl, known_boolean w truth⟩
  kinds := by
    rintro w v v' ⟨rfl, _⟩
    exact .refl (fun _ => trivial) v
  value_later later like := ⟨like.1, like.2.later later⟩
  closure_later := by
    rintro w w' c c' later ⟨same, identity, known⟩
    exact ⟨same, identity, inv.knows_later later known⟩
  env_later later bindings :=
    ⟨bindings.1, fun name v bound => (bindings.2 name v bound).later later⟩
  books_env _ _ books := books
  define := by
    rintro w e e' name v v' ⟨rfl, known⟩ ⟨rfl, new⟩
    exact ⟨rfl, known.define new name⟩

inductive Ends {α : Type} (results : inv.World → α → Prop) (w : inv.World) :
    Outcome α → Prop where
  | done {w' : inv.World} {a : α} {s : State} (later : inv.Later w w') (result : results w' a)
      (after : inv.Holds w' s) : Ends results w (.done a s)
  | failed {w' : inv.World} {e : EvalError} {s : State} (later : inv.Later w w')
      (after : inv.Holds w' s) : Ends results w (.failed e s)
  | tooDeep : Ends results w .tooDeep

def KnownResult (w : inv.World) (found : Option Value) : Prop := ∀ v, found = some v → inv.Known w v

variable {inv}

theorem ends_of_coupled {x : Eval (Option Value)}
    (both : inv.coupling.Coupled inv.coupling.Answers w x x) {s : State} (holds : inv.Holds w s) :
    inv.Ends inv.KnownResult w (x.run s) := by
  have outcomes := both s s ⟨⟨rfl, holds.bindings⟩, rfl, rfl, holds.books⟩
  generalize x.run s = outcome at outcomes
  cases outcome with
  | done a t =>
    cases outcomes with
    | done later result after =>
      refine .done later ?_ ⟨after.bindings.2, after.books.2.2⟩
      rintro v rfl
      cases result with
      | some like => exact like.2
  | failed e t =>
    cases outcomes with
    | failed later _ after => exact .failed later ⟨after.bindings.2, after.books.2.2⟩
    | excused allowed => exact allowed.elim
  | tooDeep => exact .tooDeep

theorem Ends.state {α : Type} {results : inv.World → α → Prop} {outcome : Outcome α}
    (ends : inv.Ends results w outcome) {s : State} (left : outcome.state? = some s) :
    ∃ w', inv.Later w w' ∧ inv.Holds w' s := by
  cases ends with
  | done later result after =>
    cases left
    exact ⟨_, later, after⟩
  | failed later after =>
    cases left
    exact ⟨_, later, after⟩
  | tooDeep => cases left

theorem eq_of_holds {s t : State} (holds : inv.coupling.Holds w s t) : s = t := by
  obtain ⟨env, identity, log⟩ := s
  obtain ⟨⟨rfl, _⟩, rfl, rfl, _⟩ := holds
  rfl

theorem eq_of_answers {found found' : Option Value} (like : inv.coupling.Answers w found found') :
    found = found' := by
  cases like with
  | some like => exact congrArg some like.1
  | none => rfl

theorem eq_of_outcomes {α : Type} {results : inv.World → α → α → Prop} {left right : Outcome α}
    (same : ∀ w a b, results w a b → a = b)
    (outcomes : inv.coupling.Outcomes results w left right) : left = right := by
  cases outcomes with
  | done later result after => rw [same _ _ _ result, eq_of_holds after]
  | failed later error after => rw [show _ = _ from error, eq_of_holds after]
  | excused allowed => exact allowed.elim
  | tooDeep => rfl
  | unknown allowed => exact allowed.elim

theorem records_noted {event : Event} (records : inv.Records event w w') :
    inv.coupling.Noted event event w w' := by
  refine ⟨records.later, ?_⟩
  rintro s t ⟨identities, logs, books⟩
  exact ⟨identities, congrArg (event :: ·) logs, records.books books⟩

theorem defines_coupled {closure : Closure} (defines : inv.Defines w closure) :
    inv.coupling.Defines w closure closure := by
  obtain ⟨w', later, books⟩ := defines
  refine ⟨rfl, w', later, ?_⟩
  rintro s t ⟨identities, logs, kept⟩
  obtain ⟨after, known⟩ := books kept
  refine ⟨⟨congrArg (· + 1) identities, ?_, after⟩, by rw [identities], ?_⟩
  · exact congrArg (_ :: ·) logs
  · rintro identity _ ⟨⟩
    exact known

theorem atomValue_known {env : Environment} (known : inv.KnownAll w env) {token : Token} {v : Value}
    (found : atomValue env token = .ok v) : inv.Known w v := by
  unfold atomValue at found
  split at found
  · split at found
    · cases found
      exact known_integer w _
    · cases found
  · split at found
    · rename_i bound
      cases found
      exact known _ _ bound
    · cases found

theorem callee_known {env : Environment} (known : inv.KnownAll w env) {name : String}
    {head : Location} {closure : Closure} (found : callee env name head = .ok closure) :
    ∃ identity, inv.knows w identity closure := by
  unfold callee at found
  split at found
  · rename_i bound
    cases found
    exact ⟨_, known _ _ bound _ _ rfl⟩
  · cases found
  · cases found

namespace Preserved

variable {good : Expr → Prop}

theorem applies (kept : inv.Preserved good) {items : List Expr} {location : Location}
    (holds : good (.list items location)) :
    inv.coupling.Applies (fun e e' => e = e' ∧ good e) items location items location := by
  cases items with
  | nil => exact .empty rfl
  | cons head args =>
    cases named : head.identifier? with
    | none => exact .nameless named named rfl
    | some name =>
      refine .named named named rfl (fun _ => rfl) rfl ?_ ?_ ?_ ?_
      · intro other
        refine SameSimulation.same_list (kept.operand holds ?_)
        rw [named]
        exact fun same => other (Option.some.inj same)
      · intro w
        obtain ⟨w', records, defines⟩ := kept.applying holds named w
        refine ⟨w', records_noted records, ?_⟩
        intro definition text params body text' params' body' left right
        subst left
        cases right
        exact Comparison.checks_self
          (fun closure read => defines_coupled (defines definition rfl closure read)) fun _ _ => rfl
      · rintro _ w env _ ⟨rfl, bindings⟩
        exact Comparison.checks_self (fun _ found => ⟨rfl, callee_known bindings found⟩)
          fun _ _ => rfl
      · rintro w closure _ ⟨rfl, _⟩ count
        rfl

theorem simulates (kept : inv.Preserved good) :
    inv.coupling.Simulates (fun e e' => e = e' ∧ good e) where
  atom := by
    rintro token _ ⟨rfl, _⟩
    refine ⟨token, rfl, ?_⟩
    rintro w env _ ⟨rfl, known⟩
    exact Comparison.checks_self (fun _ found => ⟨rfl, atomValue_known known found⟩) fun _ _ => rfl
  list := by
    rintro items location _ ⟨rfl, holds⟩
    exact ⟨items, location, rfl, kept.applies holds⟩
  missing := by
    rintro items location _ ⟨rfl, _⟩
    rfl
  notInteger := by
    rintro e _ ⟨rfl, _⟩ found
    rfl
  notBoolean := by
    rintro e _ ⟨rfl, _⟩ found
    rfl
  params := by
    rintro w closure _ ⟨rfl, _⟩
    rfl
  calling := by
    rintro w closure _ ⟨rfl, identity, known⟩
    obtain ⟨w', records⟩ := kept.calling known
    exact ⟨w', records_noted records⟩

theorem bodies (kept : inv.Preserved good) {ev ev' : Evaluator}
    (both : inv.coupling.Evaluators (fun e e' => e = e' ∧ good e) ev ev') :
    inv.coupling.Bodies ev ev' := by
  refine Coupling.Simulates.bodies_of_shape both ?_ ?_ ?_
  · rintro w closure _ ⟨rfl, _⟩
    rfl
  · rintro w closure _ ⟨rfl, identity, known⟩ several
    exact SameSimulation.same_list (kept.form known several)
  · rintro w closure _ ⟨rfl, identity, known⟩
    exact ⟨rfl, kept.body known⟩

theorem eval_coupled (kept : inv.Preserved good) (depth : Nat) :
    inv.coupling.Evaluators (fun e e' => e = e' ∧ good e) (eval depth) (eval depth) :=
  kept.simulates.eval_coupled kept.bodies depth

theorem eval_ends (kept : inv.Preserved good) (depth : Nat) {e : Expr} (holds : good e) {s : State}
    (start : inv.Holds w s) : inv.Ends inv.KnownResult w ((eval depth e).run s) :=
  ends_of_coupled ((kept.eval_coupled depth).answers ⟨rfl, holds⟩) start

theorem asked (kept : inv.Preserved good) {depth : Nat} {e e' : Expr} (holds : good e)
    {s s' : State} (start : inv.Holds w s) (asks : Asks (eval depth) e s e' s') :
    good e' ∧ ∃ w', inv.Holds w' s' := by
  obtain ⟨other, agrees, differs⟩ := asks
  by_contra none
  -- Where the two evaluators differ, no evaluation that keeps the invariant gets to.
  have both : inv.coupling.Evaluators (fun e e' => e = e' ∧ good e) other (eval depth) := by
    rintro w₁ x _ ⟨rfl, fine⟩ s₁ t₁ before
    cases eq_of_holds before
    have same : (other x).run s₁ = (eval depth x).run s₁ := by
      apply agrees
      by_contra there
      obtain ⟨rfl, rfl⟩ := not_or.mp there |>.imp not_not.mp not_not.mp
      exact none ⟨fine, w₁, before.bindings.2, before.books.2.2⟩
    rw [same]
    exact kept.eval_coupled depth w₁ x x ⟨rfl, fine⟩ s₁ s₁ before
  have outcomes := kept.simulates.evalStep_coupled both (kept.bodies both) w e e ⟨rfl, holds⟩ s s
    ⟨⟨rfl, start.bindings⟩, rfl, rfl, start.books⟩
  refine differs (eq_of_outcomes ?_ outcomes)
  rintro w₁ found found' ⟨like, _⟩
  exact eq_of_answers like

theorem visited (kept : inv.Preserved good) {depth below : Nat} {e e' : Expr} {s s' : State}
    (visits : Visits depth e s below e' s') (holds : good e) (start : inv.Holds w s) :
    good e' ∧ ∃ w', inv.Holds w' s' := by
  induction visits generalizing w with
  | itself depth e s => exact ⟨holds, w, start⟩
  | inside asks further ih =>
    obtain ⟨fine, w', there⟩ := kept.asked holds start asks
    exact ih fine there

end Preserved

end Invariant

end SnapshotLisp
