import SnapshotLisp.Proofs.Composition
import SnapshotLisp.Proofs.Frame

/-!
Sequences inside sequences. A sequence binds where it stands, so its items may as well be written
into the one around it: the same things happen in the same order, on the same bindings, up to the
first failure. The items of the inner one are evaluated one level deeper, so the two are compared at
depths of their own. Only an empty sequence in last place says something that no items can say: that
there is no result.
-/
namespace SnapshotLisp

/-- Three runs of items in turn, those in the middle by an evaluator of their own. -/
def evalParts (outer inner : Evaluator) (before middle after : List Expr) :
    Eval (Option Value) := do
  let first ← evalSequence outer none before
  let second ← evalSequence inner first middle
  evalSequence outer second after

section

variable {before middle after : List Expr}

theorem evalSequence_eq_evalParts (ev : Evaluator) :
    evalSequence ev none (before ++ middle ++ after) = evalParts ev ev before middle after := by
  rw [evalSequence_append, evalSequence_append, bind_assoc]
  rfl

theorem evalSequence_forget (outer inner : Evaluator) (filled : middle ≠ [] ∨ after ≠ [])
    (last last' : Option Value) :
    (evalSequence inner last middle >>= fun value => evalSequence outer value after) =
      (evalSequence inner last' middle >>= fun value => evalSequence outer value after) := by
  by_cases empty : middle = []
  · have behind : after ≠ [] := filled.resolve_left (not_not_intro empty)
    subst empty
    exact evalSequence_of_nonempty outer behind last last'
  · rw [evalSequence_of_nonempty inner empty last last']

theorem evalParts_extended {outer outer' inner inner' : Evaluator}
    (around : ∀ e, (outer e).Extended (outer' e)) (inside : ∀ e, (inner e).Extended (inner' e)) :
    (evalParts outer inner before middle after).Extended
      (evalParts outer' inner' before middle after) := by
  have steps := Eval.extended_congruence
  apply steps.bind (steps.evalSequence around none before)
  intro first
  apply steps.bind (steps.evalSequence inside first middle)
  intro second
  exact steps.evalSequence around second after

end

theorem ended_of_unlogged {x y : Outcome (Option Value)} (same : x.unlogged = y.unlogged)
    (ended : x ≠ .tooDeep) : y ≠ .tooDeep := by
  rintro rfl
  cases x with
  | done | failed => cases same
  | tooDeep => exact ended rfl

theorem unlogged_eq_of_extended {x x' y y' : Eval (Option Value)} (left : x.SameButLog x')
    (deeper : x'.Extended y') (right : y.SameButLog y') {s : State} (ended : x.run s ≠ .tooDeep) :
    (y.run s).unlogged = (x.run s).unlogged := by
  have same := left s s rfl
  rw [right s s rfl, deeper s (ended_of_unlogged same ended), same]

section

variable {before middle after : List Expr} {inner nested flat : Expr}

theorem nested_sameButLog (inside : inner.Sequences middle)
    (around : nested.Sequences (before ++ inner :: after)) (filled : middle ≠ [] ∨ after ≠ [])
    (depth : Nat) :
    (eval (depth + 2) nested).SameButLog
      (evalParts (eval (depth + 1)) (eval depth) before middle after) := by
  have parts : (evalSequence (eval (depth + 1)) none (before ++ inner :: after)).SameButLog
      (evalParts (eval (depth + 1)) (eval depth) before middle after) := by
    rw [evalSequence_append]
    apply Eval.sameButLog_congruence.bind (evalSequence_sameButLog (depth + 1) none before)
    intro first
    rw [evalSequence_forget (eval (depth + 1)) (eval depth) filled first none]
    apply Eval.sameButLog_congruence.bind (inside.eval_sameButLog depth)
    intro second
    exact evalSequence_sameButLog (depth + 1) second after
  intro s t same
  rw [around.eval_sameButLog (depth + 1) s t same]
  exact parts t t rfl

theorem flat_sameButLog (written : flat.Sequences (before ++ middle ++ after)) (depth : Nat) :
    (eval (depth + 1) flat).SameButLog
      (evalParts (eval depth) (eval depth) before middle after) := by
  rw [← evalSequence_eq_evalParts]
  exact written.eval_sameButLog depth

/-- The nested sequence stands between two depths of the flat one: with its outer items as deep as
those of the deeper one and its inner items as deep as those of the other. -/
theorem nested_between (inside : inner.Sequences middle)
    (around : nested.Sequences (before ++ inner :: after))
    (written : flat.Sequences (before ++ middle ++ after)) (filled : middle ≠ [] ∨ after ≠ [])
    (depth : Nat) (s : State) :
    ((eval (depth + 1) flat).run s ≠ .tooDeep →
      ((eval (depth + 2) nested).run s).unlogged = ((eval (depth + 1) flat).run s).unlogged) ∧
    ((eval (depth + 2) nested).run s ≠ .tooDeep →
      ((eval (depth + 2) flat).run s).unlogged = ((eval (depth + 2) nested).run s).unlogged) := by
  have deeper := eval_extended_succ depth
  constructor
  · exact unlogged_eq_of_extended (flat_sameButLog written depth)
      (evalParts_extended deeper fun _ _ _ => rfl) (nested_sameButLog inside around filled depth)
  · exact unlogged_eq_of_extended (nested_sameButLog inside around filled depth)
      (evalParts_extended (fun _ _ _ => rfl) deeper) (flat_sameButLog written (depth + 1))

end

theorem done_of_bind {α β : Type} {x : Eval α} {f : α → Eval β} {s t : State} {b : β}
    (ended : (x >>= f).run s = .done b t) :
    ∃ a mid, x.run s = .done a mid ∧ (f a).run mid = .done b t := by
  rw [Eval.run_bind] at ended
  cases ran : x.run s with
  | done a mid =>
    rw [ran] at ended
    exact ⟨a, mid, rfl, ended⟩
  | failed e mid =>
    rw [ran] at ended
    cases ended
  | tooDeep =>
    rw [ran] at ended
    cases ended

theorem evalSequence_grown {depth : Nat} {last : Option Value} {items : List Expr} {s t : State}
    (ended : ((evalSequence (eval depth) last items).run s).state? = some t) :
    s.env.Grown (fun _ => True) t.env :=
  evalSequence_grows (fun e _ => (eval_grows depth e).mono fun _ _ => trivial) last s t ended

theorem evalSequence_binds {depth : Nat} {last result : Option Value} {items : List Expr}
    {s t : State} (ended : (evalSequence (eval depth) last items).run s = .done result t)
    {definition : Expr} (member : definition ∈ items) {closure : Closure}
    (defines : definition.Defines closure) :
    ∃ identity closure', t.env.get? closure.name = some (.function identity closure') := by
  obtain ⟨early, later, rfl⟩ := List.append_of_mem member
  rw [evalSequence_append] at ended
  obtain ⟨value, mid, _, rest⟩ := done_of_bind ended
  obtain ⟨found, next, made, behind⟩ := done_of_bind rest
  obtain ⟨head, name, others, location, rfl, keyword, named⟩ := defines.parts
  obtain ⟨closure', again, _, bound⟩ := eval_definition keyword made
  have same : closure.name = closure'.name := by
    obtain ⟨_, _, _, _, itself, _, named'⟩ := again.parts
    cases itself
    exact Option.some.inj (named.symm.trans named')
  have grown : next.env.Grown (fun _ => True) t.env := evalSequence_grown (by rw [behind]; rfl)
  rcases grown.get?_eq_or closure.name with kept | ⟨identity, recent, _, _, anew⟩
  · refine ⟨mid.identity, closure', ?_⟩
    rw [kept, bound, same, Environment.get?_define, if_pos rfl]
  · exact ⟨identity, recent, anew⟩

namespace Expr.Sequences

variable {front rest whole : Expr} {early late : List Expr} {depth : Nat} {s mid : State}
  {result : Option Value}

theorem behind (first : front.Sequences early) (all : whole.Sequences (early ++ late))
    (ended : (eval (depth + 1) front).run s = .done result mid) :
    ((eval (depth + 1) whole).run s).unlogged =
      ((evalSequence (eval depth) result late).run mid).unlogged := by
  have known := first.eval_sameButLog depth s s rfl
  rw [ended] at known
  rw [all.eval_sameButLog depth s s rfl, evalSequence_append, Eval.run_bind]
  rcases Outcome.unlogged_eq_cases known with ⟨_, _, mid', left, right, same⟩ |
    ⟨_, _, _, left, _⟩ | ⟨left, _⟩
  · cases left
    rw [right]
    exact evalSequence_sameButLog depth result late mid' mid same.symm
  · cases left
  · cases left

theorem done (sequence : whole.Sequences late)
    (ended : (eval depth whole).run s = .done result mid) :
    ∃ below begun, (evalSequence (eval below) none late).run begun = .done result mid := by
  cases depth with
  | zero => cases ended
  | succ below =>
    cases sequence with
    | form keyword =>
      rw [eval_builtin keyword] at ended
      obtain ⟨_, begun, _, inside⟩ := done_of_bind ended
      exact ⟨below, begun, inside⟩

theorem last_done {item : Expr} (sequence : whole.Sequences (early ++ [item]))
    (ended : (eval depth whole).run s = .done result mid) :
    ∃ below before, (eval below item).run before = .done result mid := by
  obtain ⟨below, begun, inside⟩ := sequence.done ended
  rw [evalSequence_append] at inside
  obtain ⟨_, before, _, rest⟩ := done_of_bind inside
  obtain ⟨value, after, ran, same⟩ := done_of_bind rest
  cases same
  exact ⟨below, before, ran⟩

end Expr.Sequences

theorem env_of_unlogged {x y : Outcome (Option Value)} (same : x.unlogged = y.unlogged) {t : State}
    (ended : x.state? = some t) : ∃ u, y.state? = some u ∧ u.env = t.env := by
  rcases Outcome.unlogged_eq_cases same with ⟨_, _, u, rfl, rfl, after⟩ |
    ⟨_, _, u, rfl, rfl, after⟩ | ⟨rfl, _⟩
  · cases ended
    exact ⟨u, rfl, (State.unlogged_eq_iff.mp after).1.symm⟩
  · cases ended
    exact ⟨u, rfl, (State.unlogged_eq_iff.mp after).1.symm⟩
  · cases ended

/-- A sequence inside another one may be written into it, unless it is empty and in last place. Both
end or neither does, and if they do, then with the same result or the same error at the same place,
and with the same bindings. What is bound at the end of the inner sequence, its definitions among
it, is what the items behind it find, and it is still bound when all is over. -/
theorem nested_sequence_flattens {before middle after : List Expr} {inner nested flat : Expr}
    (inside : inner.Sequences middle) (around : nested.Sequences (before ++ inner :: after))
    (written : flat.Sequences (before ++ middle ++ after)) (filled : middle ≠ [] ∨ after ≠ [])
    (s : State) :
    ((∃ depth, (eval depth nested).run s ≠ .tooDeep) ↔
      ∃ depth, (eval depth flat).run s ≠ .tooDeep) ∧
    (∀ depth depth', (eval depth nested).run s ≠ .tooDeep → (eval depth' flat).run s ≠ .tooDeep →
      ((eval depth nested).run s).unlogged = ((eval depth' flat).run s).unlogged) ∧
    ∀ front depth result mid, front.Sequences (before ++ [inner]) →
      (eval depth front).run s = .done result mid →
        (∀ definition ∈ middle, ∀ closure, definition.Defines closure →
          ∃ identity closure', mid.env.get? closure.name = some (.function identity closure')) ∧
        (∀ rest, rest.Sequences after → after ≠ [] →
          ((eval depth nested).run s).unlogged = ((eval depth rest).run mid).unlogged) ∧
        ∀ t, ((eval depth nested).run s).state? = some t →
          ∀ name, (mid.env.get? name).isSome → (t.env.get? name).isSome := by
  have between := nested_between inside around written filled
  have forward : ∀ depth, (eval depth nested).run s ≠ .tooDeep →
      ((eval (depth + 2) flat).run s).unlogged = ((eval depth nested).run s).unlogged := by
    intro depth ended
    have deeper := eval_extended (Nat.le_add_right depth 2) nested s ended
    rw [← deeper] at ended ⊢
    exact (between depth s).2 ended
  have backward : ∀ depth, (eval depth flat).run s ≠ .tooDeep →
      ((eval (depth + 2) nested).run s).unlogged = ((eval depth flat).run s).unlogged := by
    intro depth ended
    have deeper := eval_extended (Nat.le_succ depth) flat s ended
    rw [← deeper] at ended ⊢
    exact (between depth s).1 ended
  refine ⟨⟨?_, ?_⟩, ?_, ?_⟩
  · rintro ⟨depth, ended⟩
    exact ⟨depth + 2, ended_of_unlogged (forward depth ended).symm ended⟩
  · rintro ⟨depth, ended⟩
    exact ⟨depth + 2, ended_of_unlogged (backward depth ended).symm ended⟩
  · intro depth depth' ended ended'
    have same := forward depth ended
    rw [eval_unique ended' (ended_of_unlogged same.symm ended), same]
  · intro front depth result mid first ended
    rw [List.append_cons] at around
    cases depth with
    | zero => cases ended
    | succ depth =>
      have goesOn := first.behind around ended
      refine ⟨?_, ?_, ?_⟩
      · intro definition member closure defines
        obtain ⟨_, _, ran⟩ := first.last_done ended
        obtain ⟨_, _, items⟩ := inside.done ran
        exact evalSequence_binds items member defines
      · intro rest last nonempty
        rw [goesOn, evalSequence_of_nonempty _ nonempty result none]
        exact (last.eval_sameButLog depth mid mid rfl).symm
      · intro t left name bound
        obtain ⟨u, leaves, same⟩ := env_of_unlogged goesOn left
        rw [← same]
        exact (evalSequence_grown leaves).still_bound bound

theorem nested_sequence_flattens_of_failure :
    ∃ (nested flat : Expr) (e : EvalError) (t u : State),
      nested.render = "(begin (begin (func g () (+))) (g) (h))" ∧
      flat.render = "(begin (func g () (+)) (g) (h))" ∧
      (eval 4 nested).run .initial = .failed e t ∧ (eval 3 flat).run .initial = .failed e u ∧
      e.cause = .expectedFunction "h" ∧ t.env = u.env ∧ (u.env.get? "g").isSome := by
  let define : Expr := .list [.atom (.synthetic "func"), .atom (.synthetic "g"), .list [] .start,
    .list [.atom (.synthetic "+")] .start] .start
  let calls : List Expr := [.list [.atom (.synthetic "g")] .start,
    .list [.atom (.synthetic "h")] .start]
  let inner : Expr := .list [.atom (.synthetic "begin"), define] .start
  let nested : Expr := .list (.atom (.synthetic "begin") :: ([] ++ inner :: calls)) .start
  let flat : Expr := .list (.atom (.synthetic "begin") :: ([] ++ [define] ++ calls)) .start
  have same := (@nested_sequence_flattens [] [define] calls inner nested flat (.form rfl)
    (.form rfl) (.form rfl) (Or.inl (List.cons_ne_nil _ _)) .initial).2.1 4 3
  have told : (match (eval 4 nested).run .initial, (eval 3 flat).run .initial with
    | .failed e _, .failed _ u => some (e.cause, (u.env.get? "g").isSome)
    | _, _ => none) = some (.expectedFunction "h", true) := by decide +kernel
  generalize left : (eval 4 nested).run .initial = one at same told
  generalize right : (eval 3 flat).run .initial = other at same told
  cases one with
  | failed e t =>
    cases other with
    | failed e' u =>
      obtain ⟨cause, bound⟩ := Prod.mk.inj (Option.some.inj told)
      obtain ⟨rfl, after⟩ := Outcome.failed.inj (same nofun nofun)
      have env := (State.unlogged_eq_iff.mp after).1
      exact ⟨nested, flat, e, t, u, by decide +kernel, by decide +kernel, left, right, cause, env,
        bound⟩
    | done | tooDeep => cases told
  | done | tooDeep => cases told

-- In last place an empty sequence takes away the value that stood before it.
example :
    let sum : Expr := .list [.atom (.synthetic "+")] .start
    let empty : Expr := .list [.atom (.synthetic "begin")] .start
    let found (items : List Expr) : Option String :=
      match (eval 3 (.list (.atom (.synthetic "begin") :: items) .start)).run .initial with
      | .done value _ => some (Value.describe value)
      | .failed _ _ | .tooDeep => none
    found [sum] = some "integer" ∧ found [sum, empty] = some (Value.describe none) := by
  decide +kernel

end SnapshotLisp
