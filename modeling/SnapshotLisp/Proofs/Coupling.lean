import SnapshotLisp.Proofs.Comparison

/-!
Two evaluations side by side with a world between them, which tells what the two have done so far
and only ever moves on. What corresponds in one world still does in every later one. The evaluations
may be of different depth; one that goes too deep may then stand against anything. Started twice in
one state, such a pair tells of a single run and of the record that it leaves.
-/
namespace SnapshotLisp

namespace State

def emit (s : State) (event : Event) : State := { s with log := event :: s.log }

def record (s : State) (closure : Closure) : State where
  env := s.env
  identity := s.identity + 1
  log := .defining closure.name closure.params.length :: s.log

end State

/-- What has to hold between two evaluations in each world: of values, of closures that may be
called, of bindings, and of the books, which are the states apart from their bindings. -/
structure Coupling where
  World : Type
  Later : World → World → Prop
  value : World → Value → Value → Prop
  closure : World → Closure → Closure → Prop
  env : World → Environment → Environment → Prop
  books : World → State → State → Prop
  error : EvalError → EvalError → Prop
  excused : EvalError → Prop
  lenient : Prop
  refl : ∀ w, Later w w
  trans : ∀ {w w' w''}, Later w w' → Later w' w'' → Later w w''
  integer : ∀ w word, value w (.integer word) (.integer word)
  boolean : ∀ w truth, value w (.boolean truth) (.boolean truth)
  kinds : ∀ {w v v'}, value w v v' → v.Like (fun _ _ => True) v'
  value_later : ∀ {w w' v v'}, Later w w' → value w v v' → value w' v v'
  closure_later : ∀ {w w' c c'}, Later w w' → closure w c c' → closure w' c c'
  env_later : ∀ {w w' e e'}, Later w w' → env w e e' → env w' e e'
  books_env : ∀ {w s t} e e', books w s t → books w { s with env := e } { t with env := e' }
  define : ∀ {w e e' name v v'}, env w e e' → value w v v' →
    env w (e.define name v) (e'.define name v')

namespace Coupling

variable {α β γ δ : Type} (k : Coupling)

/-- The comparison that is left when the world stands still. -/
def side (w : k.World) : Comparison := ⟨k.closure w, k.env w, k.error, k.excused⟩

structure Holds (w : k.World) (s t : State) : Prop where
  bindings : k.env w s.env t.env
  books : k.books w s t

inductive Outcomes (results : k.World → α → β → Prop) (w : k.World) :
    Outcome α → Outcome β → Prop where
  | done {w' : k.World} {a : α} {b : β} {s t : State} (later : k.Later w w')
      (result : results w' a b) (after : k.Holds w' s t) :
      Outcomes results w (.done a s) (.done b t)
  | failed {w' : k.World} {e f : EvalError} {s t : State} (later : k.Later w w')
      (error : k.error e f) (after : k.Holds w' s t) :
      Outcomes results w (.failed e s) (.failed f t)
  | excused {e : EvalError} {s : State} {other : Outcome β} (allowed : k.excused e) :
      Outcomes results w (.failed e s) other
  | tooDeep : Outcomes results w .tooDeep .tooDeep
  | unknown {other : Outcome β} (allowed : k.lenient) : Outcomes results w .tooDeep other

def Coupled (results : k.World → α → β → Prop) (w : k.World) (x : Eval α) (y : Eval β) : Prop :=
  ∀ s t, k.Holds w s t → k.Outcomes results w (x.run s) (y.run t)

/-- The events may be logged, and the world moves on to the second one by it. -/
structure Noted (event event' : Event) (w w' : k.World) : Prop where
  later : k.Later w w'
  books : ∀ s t, k.books w s t → k.books w' (s.emit event) (t.emit event')

def Defines (w : k.World) (closure closure' : Closure) : Prop :=
  closure.name = closure'.name ∧ ∃ w', k.Later w w' ∧ ∀ s t, k.books w s t →
    k.books w' (s.record closure) (t.record closure') ∧
      k.value w' (.function s.identity closure) (.function t.identity closure')

variable {k} {w w' : k.World} {results : k.World → α → β → Prop}
  {results' : k.World → γ → δ → Prop}

theorem Outcomes.later {left : Outcome α} {right : Outcome β} (later : k.Later w w')
    (outcomes : k.Outcomes results w' left right) : k.Outcomes results w left right := by
  cases outcomes with
  | done further result after => exact .done (k.trans later further) result after
  | failed further error after => exact .failed (k.trans later further) error after
  | excused allowed => exact .excused allowed
  | tooDeep => exact .tooDeep
  | unknown allowed => exact .unknown allowed

theorem coupled_pure {a : α} {b : β} (result : results w a b) :
    k.Coupled results w (pure a) (pure b) :=
  fun _ _ holds => .done (k.refl w) result holds

theorem coupled_fail {cause cause' : EvalCause} {location location' : Location}
    (error : k.error ⟨cause, location⟩ ⟨cause', location'⟩) :
    k.Coupled results w (Eval.fail cause location) (Eval.fail cause' location') :=
  fun _ _ holds => .failed (k.refl w) error holds

theorem coupled_tooDeep (lenient : k.lenient) (y : Eval β) :
    k.Coupled results w Eval.tooDeep y :=
  fun _ _ _ => .unknown lenient

theorem coupled_ofExcept {x : Except EvalError α} {y : Except EvalError β}
    (checks : (k.side w).Checks (results w) x y) :
    k.Coupled results w (Eval.ofExcept x) (Eval.ofExcept y) := by
  intro s t holds
  cases checks with
  | ok result => exact .done (k.refl w) result holds
  | error error => exact .failed (k.refl w) error holds
  | excused allowed => exact .excused allowed

theorem coupled_env : k.Coupled k.env w Eval.env Eval.env :=
  fun _ _ holds => .done (k.refl w) holds.bindings holds

theorem coupled_bind {x : Eval α} {y : Eval β} {f : α → Eval γ} {g : β → Eval δ}
    (first : k.Coupled results w x y)
    (next : ∀ w' a b, k.Later w w' → results w' a b → k.Coupled results' w' (f a) (g b)) :
    k.Coupled results' w (x >>= f) (y >>= g) := by
  intro s t holds
  have outcomes := first s t holds
  rw [Eval.run_bind, Eval.run_bind]
  generalize x.run s = left at outcomes
  generalize y.run t = right at outcomes
  cases outcomes with
  | done later result after => exact (next _ _ _ later result _ _ after).later later
  | failed later error after => exact .failed later error after
  | excused allowed => exact .excused allowed
  | tooDeep => exact .tooDeep
  | unknown allowed => exact .unknown allowed

theorem coupled_emit {event event' : Event} (noted : k.Noted event event' w w') {x : Eval α}
    {y : Eval β} (next : k.Coupled results w' x y) :
    k.Coupled results w (Eval.emit event >>= fun _ => x) (Eval.emit event' >>= fun _ => y) := by
  intro s t holds
  have emitted : k.Holds w' (s.emit event) (t.emit event') :=
    ⟨k.env_later noted.later holds.bindings, noted.books s t holds.books⟩
  exact (next _ _ emitted).later noted.later

theorem coupled_within {inner inner' : Environment} {x : Eval α} {y : Eval β}
    (copies : k.env w inner inner') (body : k.Coupled results w x y) :
    k.Coupled results w (Eval.within inner x) (Eval.within inner' y) := by
  intro s t holds
  have outcomes := body { s with env := inner } { t with env := inner' }
    ⟨copies, k.books_env inner inner' holds.books⟩
  rw [Eval.run_within, Eval.run_within]
  generalize x.run { s with env := inner } = left at outcomes
  generalize y.run { t with env := inner' } = right at outcomes
  cases outcomes with
  | done later result after =>
    exact .done later result ⟨k.env_later later holds.bindings, k.books_env _ _ after.books⟩
  | failed later error after =>
    exact .failed later error ⟨k.env_later later holds.bindings, k.books_env _ _ after.books⟩
  | excused allowed => exact .excused allowed
  | tooDeep => exact .tooDeep
  | unknown allowed => exact .unknown allowed

theorem coupled_mono {stronger : k.World → α → β → Prop} {x : Eval α} {y : Eval β}
    (weaker : ∀ w a b, stronger w a b → results w a b) (both : k.Coupled stronger w x y) :
    k.Coupled results w x y := by
  intro s t holds
  have outcomes := both s t holds
  generalize x.run s = left at outcomes
  generalize y.run t = right at outcomes
  cases outcomes with
  | done later result after => exact .done later (weaker _ _ _ result) after
  | failed later error after => exact .failed later error after
  | excused allowed => exact .excused allowed
  | tooDeep => exact .tooDeep
  | unknown allowed => exact .unknown allowed

theorem coupled_definition {closure closure' : Closure} (defines : k.Defines w closure closure') :
    k.Coupled (fun w => Option.Rel (k.value w)) w
      (do
        Eval.emit (.defining closure.name closure.params.length)
        pure (some (← Eval.define closure)))
      (do
        Eval.emit (.defining closure'.name closure'.params.length)
        pure (some (← Eval.define closure'))) := by
  intro s t holds
  obtain ⟨named, w', later, recorded⟩ := defines
  obtain ⟨books, like⟩ := recorded s t holds.books
  refine .done later (.some like) ⟨?_, k.books_env _ _ books⟩
  rw [← named]
  exact k.define (k.env_later later holds.bindings) like

end Coupling

namespace Comparison

variable (k : Comparison)

/-- A comparison as a coupling in which nothing is told of the past. -/
def coupling (lenient : Prop) (define : ∀ {env env' name v v'}, k.env env env' → k.value v v' →
    k.env (env.define name v) (env'.define name v')) : Coupling where
  World := Unit
  Later _ _ := True
  value _ := k.value
  closure _ := k.closure
  env _ := k.env
  books _ _ _ := True
  error := k.error
  excused := k.excused
  lenient := lenient
  refl _ := trivial
  trans _ _ := trivial
  integer _ word := .integer word
  boolean _ truth := .boolean truth
  kinds like := like.mono fun _ _ _ => trivial
  value_later _ like := like
  closure_later _ related := related
  env_later _ bindings := bindings
  books_env _ _ _ := trivial
  define := define

variable {k} {lenient : Prop} {define : ∀ {env env' name v v'}, k.env env env' → k.value v v' →
  k.env (env.define name v) (env'.define name v')}

theorem coupling_noted (event event' : Event) :
    (k.coupling lenient define).Noted event event' () () :=
  ⟨trivial, fun _ _ _ => trivial⟩

theorem coupling_defines {closure closure' : Closure} (named : closure.name = closure'.name)
    (related : k.closure closure closure') :
    (k.coupling lenient define).Defines () closure closure' :=
  ⟨named, (), trivial, fun _ _ _ => ⟨trivial, .function related⟩⟩

theorem coupling_parts {left right : Except EvalError Closure}
    (named : ∀ {c c'}, k.closure c c' → c.name = c'.name) (checks : k.Checks k.closure left right) :
    k.Checks ((k.coupling lenient define).Defines ()) left right :=
  checks_mono (fun _ _ related => coupling_defines (named related) related) checks

end Comparison

end SnapshotLisp
