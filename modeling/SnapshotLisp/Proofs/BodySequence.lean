import SnapshotLisp.Proofs.Congruence
import SnapshotLisp.Proofs.Definition
import SnapshotLisp.Proofs.ExplicitBody
import SnapshotLisp.Proofs.Invariant

/-!
A body of several forms means a sequence that is written out. A program and the one with all its
sequences written out end in the same way, whatever is defined, called and passed on in them: with
the same number, the same truth, no value in both or functions that correspond, or with an error of
the same kind at the same place. The one that is written out goes deeper, by one level for each call
on the way, so the two are compared at depths of their own.
-/
namespace SnapshotLisp

/-- Errors of the same kind. Only texts that show a part of the program may differ. -/
inductive EvalCause.Alike : EvalCause → EvalCause → Prop where
  | same (cause : EvalCause) : Alike cause cause
  | expectedFunction (found found' : String) :
      Alike (.expectedFunction found) (.expectedFunction found')
  | invalidDefinition (details details' : String) :
      Alike (.invalidDefinition details) (.invalidDefinition details')

structure EvalError.Alike (e e' : EvalError) : Prop where
  cause : e.cause.Alike e'.cause
  location : e.location = e'.location

structure Closure.Alike (place : Location → Nat × Location) (c c' : Closure) : Prop where
  name : c.name = c'.name
  params : c.params = c'.params
  body : c.body.toExpr.AlikeBodies place c'.body.toExpr

def Comparison.writtenOut (place : Location → Nat × Location) : Comparison :=
  pointwise (fun _ => True) (Closure.Alike place) EvalError.Alike

section

variable {place : Location → Nat × Location}

theorem Comparison.writtenOut_define {env env' : Environment} {name : String} {v v' : Value}
    (bindings : (Comparison.writtenOut place).env env env')
    (like : (Comparison.writtenOut place).value v v') :
    (Comparison.writtenOut place).env (env.define name v) (env'.define name v') :=
  pointwise_define bindings like name

theorem EvalError.Alike.same (e : EvalError) : e.Alike e := ⟨.same _, rfl⟩

namespace Closure

theorem readAlike_of_face {e e' : Expr} (same : e.face = e'.face) :
    ReadAlike (Comparison.writtenOut place) e e' where
  named := congrArg Prod.fst same
  shown _ := ⟨.invalidDefinition _ _, congrArg Prod.snd same⟩
  refused _ := ⟨.invalidDefinition _ _, congrArg Prod.snd same⟩

theorem ofParts_alike {name name' params params' body body' : Expr} (named : name.Alike place name')
    (listed : params.Alike place params') (stored : body.AlikeBodies place body') :
    (Comparison.writtenOut place).Checks (Closure.Alike place) (ofParts name params body)
      (ofParts name' params' body') := by
  have items : ∀ g g' : Group, List.Forall₂ (fun e e' => e.face = e'.face) g.items g'.items →
      List.Forall₂ (ReadAlike (Comparison.writtenOut place)) g.items g'.items :=
    fun g g' faces => faces.imp fun _ _ => readAlike_of_face
  refine Comparison.checks_mono ?_ (ofParts_checks (readAlike_of_face named.face_eq)
    (readAlike_of_face listed.face_eq) listed.group? items (readAlike_of_face stored.face_eq)
    stored.group?)
  rintro c c' ⟨sameName, sameParams, sameBody⟩
  exact ⟨sameName, sameParams, sameBody⟩

end Closure

variable (place)

/-- Two evaluations of programs that are the same once they are written out. Neither the logs nor
the depths have to agree: where the first one goes too deep, nothing is asked of the second. -/
def Coupling.writtenOut : Coupling :=
  (Comparison.writtenOut place).coupling True Comparison.writtenOut_define

variable {place}

namespace Coupling

theorem writtenOut_applies {items items' : List Expr} {location : Location}
    (alike : (Expr.list items location).Alike place (.list items' location)) :
    (writtenOut place).Applies (Expr.Alike place) items location items' location := by
  obtain ⟨_, shape, faces⟩ := alike.list_eq
  cases shape
  have count : items.length = items'.length := by simpa using congrArg List.length faces
  cases items with
  | nil =>
    cases items' with
    | nil => exact .empty (.same _)
    | cons head' args' => cases count
  | cons head args =>
    cases items' with
    | nil => cases count
    | cons head' args' =>
      have first : head.face = head'.face := alike.head_eq
      have identifiers : head.identifier? = head'.identifier? := congrArg Prod.fst first
      have placed : head.location = head'.location := congrArg Prod.snd first
      have count : args.length = args'.length := by simpa using count
      cases named : head.identifier? with
      | none =>
        rw [named] at identifiers
        exact .nameless named identifiers.symm ⟨.expectedFunction _ _, placed⟩
      | some name =>
        rw [named] at identifiers
        refine .named named identifiers.symm count ?_ (.same _) ?_ ?_ ?_ ?_
        · intro builtin
          rw [count]
          exact .same _
        · intro other
          apply alike.operands
          rw [named]
          exact fun same => other (Option.some.inj same)
        · intro w
          refine ⟨(), Comparison.coupling_noted _ _, ?_⟩
          rintro rfl text params body text' params' body' rfl rfl
          obtain ⟨sameName, sameParams, sameBody⟩ := alike.definition named
          refine Comparison.coupling_parts (fun related => related.name) ?_
          exact Closure.ofParts_alike sameName sameParams sameBody
        · intro _ w env env' agree
          rw [placed]
          exact Comparison.pointwise_callee trivial (fun _ => .same _) (.same _) agree
        · intro w closure closure' related count
          rw [related.name, related.params]
          exact .same _

theorem writtenOut_simulates : (writtenOut place).Simulates (Expr.Alike place) where
  atom := by
    intro token e' alike
    cases alike.atom_eq
    refine ⟨token, rfl, ?_⟩
    intro w env env' agree
    exact Comparison.pointwise_atomValue rfl rfl (fun _ => trivial) (fun _ => .same _)
      (fun _ => .same _) agree
  list := by
    intro items location e' alike
    obtain ⟨items', rfl, _⟩ := alike.list_eq
    exact ⟨items', location, rfl, writtenOut_applies alike⟩
  missing alike := ⟨.same _, alike.location_eq⟩
  notInteger alike _ := ⟨.same _, alike.location_eq⟩
  notBoolean alike _ := ⟨.same _, alike.location_eq⟩
  params related := related.params
  calling _ := ⟨(), Comparison.coupling_noted _ _⟩

theorem writtenOut_emit_left {α β : Type} {results : Unit → α → β → Prop} {x : Eval α} {y : Eval β}
    (event : Event) (both : (writtenOut place).Coupled results () x y) :
    (writtenOut place).Coupled results () (Eval.emit event >>= fun _ => x) y :=
  fun s t holds => both (s.emit event) t ⟨holds.bindings, trivial⟩

theorem writtenOut_emit_right {α β : Type} {results : Unit → α → β → Prop} {x : Eval α} {y : Eval β}
    (event : Event) (both : (writtenOut place).Coupled results () x y) :
    (writtenOut place).Coupled results () x (Eval.emit event >>= fun _ => y) :=
  fun s t holds => both s (t.emit event) ⟨holds.bindings, trivial⟩

section

variable {k : Coupling} {α β : Type} {results : k.World → α → β → Prop} {w : k.World}

theorem coupled_extended (lenient : k.lenient) {x x' : Eval α} {y y' : Eval β}
    (less : x'.Extended x) (more : y.Extended y') (both : k.Coupled results w x y) :
    k.Coupled results w x' y' := by
  intro s t holds
  by_cases ended : x'.run s = .tooDeep
  · rw [ended]
    exact .unknown lenient
  · have outcomes := both s t holds
    rw [less s ended] at outcomes
    by_cases unfinished : y.run t = .tooDeep
    · rw [unfinished] at outcomes
      generalize x'.run s = left at ended outcomes
      cases outcomes with
      | excused allowed => exact .excused allowed
      | tooDeep => exact absurd rfl ended
      | unknown => exact absurd rfl ended
    · rw [more t unfinished]
      exact outcomes

theorem evaluators_extended (lenient : k.lenient) {expr : Expr → Expr → Prop}
    {less more depth depth' : Nat} (lower : less ≤ depth) (higher : depth' ≤ more)
    (both : k.Evaluators expr (eval depth) (eval depth')) :
    k.Evaluators expr (eval less) (eval more) :=
  fun w e e' same =>
    coupled_extended lenient (eval_extended lower e) (eval_extended higher e') (both w e e' same)

end

theorem evalBody_of_keyword {body : Group} {head : Expr} {forms : List Expr}
    (shape : body.items = head :: forms) (named : head.identifier? = some Builtin.sequence.name)
    (depth : Nat) :
    evalBody (eval (depth + 1)) body =
      (Eval.emit (.applying Builtin.sequence.name forms.length body.location) >>= fun _ =>
        evalSequence (eval depth) none forms) := by
  obtain ⟨items, location⟩ := body
  cases shape
  cases head with
  | list inner there => cases named
  | atom token =>
    change eval (depth + 1) (.list (.atom token :: forms) location) = _
    simp only [eval, evalStep, evalApplication, named, evalNamed, Builtin.ofName?_name]
    rfl

theorem writtenOut_bodies {depth : Nat}
    (both : (writtenOut place).Evaluators (Expr.Alike place) (eval depth) (eval (2 * depth))) :
    (writtenOut place).Bodies (eval depth) (eval (2 * depth + 1)) := by
  intro w closure closure' related
  have deeper := evaluators_extended trivial (Nat.le_refl depth) (Nat.le_succ (2 * depth)) both
  cases several : closure.body.isSequence with
  | true =>
    cases several' : closure'.body.isSequence with
    | true =>
      rw [evalBody_eq, evalBody_eq, if_pos several, if_pos several']
      have forms := Expr.alike_of_sequences related.body several several'
      exact Simulates.evalSequence_coupled deeper forms .none
    | false =>
      obtain ⟨head, forms, shape, named, same⟩ :=
        Expr.alike_of_sequence related.body several several'
      rw [evalBody_eq, if_pos several, evalBody_of_keyword shape named]
      exact writtenOut_emit_right _ (Simulates.evalSequence_coupled both same .none)
  | false =>
    cases several' : closure'.body.isSequence with
    | true =>
      obtain ⟨head, forms, shape, named, same⟩ :=
        Expr.alike_of_sequence related.body.symm several' several
      rw [evalBody_eq _ closure'.body, if_pos several']
      cases depth with
      | zero =>
        rw [evalBody_eq, several]
        exact coupled_tooDeep trivial _
      | succ depth =>
        have lower := evaluators_extended trivial (Nat.le_succ depth)
          (Nat.le_succ (2 * (depth + 1))) both
        have same := same.flip.imp fun _ _ => Eq.symm
        rw [evalBody_of_keyword shape named]
        exact writtenOut_emit_left _ (Simulates.evalSequence_coupled lower same .none)
    | false =>
      rw [evalBody_eq, evalBody_eq, several, several']
      have single := Expr.alike_of_singles related.body several several'
      exact deeper.answers single

/-- With twice the depth the second evaluation ends where the first one does. -/
theorem writtenOut_evaluators (depth : Nat) :
    (writtenOut place).Evaluators (Expr.Alike place) (eval depth) (eval (2 * depth)) := by
  induction depth with
  | zero => exact fun w e e' _ => coupled_tooDeep trivial _
  | succ depth ih =>
    have deeper := evaluators_extended trivial (Nat.le_refl depth) (Nat.le_succ (2 * depth)) ih
    exact writtenOut_simulates.evalStep_coupled deeper (writtenOut_bodies ih)

end Coupling

namespace Invariant

variable (place)

def writtenOut : Invariant where
  World := Unit
  Later _ _ := True
  knows _ _ closure :=
    Expr.opened place (Expr.explicit place closure.body.toExpr) = closure.body.toExpr
  keeps _ _ _ := True
  refl _ := trivial
  trans _ _ := trivial
  knows_later _ known := known

variable {place}

theorem single_of_writtenOut {body : Group}
    (known : Expr.opened place (Expr.explicit place body.toExpr) = body.toExpr) :
    body.isSequence = false := by
  by_contra several
  rw [Bool.not_eq_false] at several
  rw [Expr.opened_of_sequence several] at known
  have shape := (Expr.list.inj known).1
  rw [Group.isSequence, ← shape] at several
  cases several

theorem writtenOut_preserved :
    (writtenOut place).Preserved fun e => Expr.explicit place e = e where
  operand := by
    intro head args location holds other e member
    rw [Expr.explicit_of_other other] at holds
    have same := (List.cons.inj (Expr.list.inj holds).1).2
    exact List.map_inj_left.mp (same.trans (List.map_id args).symm) e member
  form := by
    intro w identity closure known several
    rw [single_of_writtenOut known] at several
    cases several
  body := by
    intro w identity closure known
    rw [← Expr.opened_of_single (single_of_writtenOut known)]
    exact known
  applying := by
    intro head args location holds name named w
    refine ⟨(), ⟨trivial, fun _ => trivial⟩, ?_⟩
    rintro rfl text params body rfl closure read
    refine ⟨(), trivial, fun _ => ⟨trivial, ?_⟩⟩
    rw [Expr.explicit_definition named] at holds
    simp only [Expr.list.injEq, List.cons.injEq, and_true] at holds
    obtain ⟨_, _, _, rfl⟩ := Closure.ofParts_ok read
    exact holds.2.2.2
  calling _ := ⟨(), trivial, fun _ => trivial⟩

end Invariant

structure Closure.WrittenOut (place : Location → Nat × Location) (c c' : Closure) : Prop where
  name : c'.name = c.name
  params : c'.params = c.params
  location : c'.body.location = c.body.location
  body : c'.body.toExpr = Expr.opened place (Expr.explicit place c.body.toExpr)

def Comparison.explicit (place : Location → Nat × Location) : Comparison :=
  pointwise (fun _ => True) (Closure.WrittenOut place) EvalError.Alike

theorem Closure.Alike.writtenOut {c c' : Closure} (alike : c.Alike place c')
    (known : Expr.opened place (Expr.explicit place c'.body.toExpr) = c'.body.toExpr) :
    c.WrittenOut place c' where
  name := alike.name.symm
  params := alike.params.symm
  location := (congrArg Prod.snd alike.body.face_eq).symm
  body := known.symm.trans alike.body.symm

theorem Value.Like.writtenOut {v v' : Value} (like : v.Like (Closure.Alike place) v')
    (known : (Invariant.writtenOut place).Known () v') :
    v.Like (Closure.WrittenOut place) v' := by
  cases like with
  | integer word => exact .integer word
  | boolean truth => exact .boolean truth
  | function related => exact .function (related.writtenOut (known _ _ rfl))

theorem writtenOut_bindings {env env' : Environment}
    (like : (Comparison.writtenOut place).env env env')
    (known : (Invariant.writtenOut place).KnownAll () env') :
    (Comparison.explicit place).env env env' := by
  intro name _
  have bound := like name trivial
  have found := known name
  generalize env.get? name = left at bound
  generalize env'.get? name = right at bound found
  cases bound with
  | some like => exact .some (like.writtenOut (found _ rfl))
  | none => exact .none

theorem explicit_of_writtenOut {left right : Outcome (Option Value)}
    (outcomes : (Coupling.writtenOut place).Outcomes (Coupling.writtenOut place).Answers ()
      left right)
    (ends : (Invariant.writtenOut place).Ends (Invariant.writtenOut place).KnownResult () right)
    (ended : left ≠ .tooDeep) :
    (Comparison.explicit place).Outcomes (Option.Rel (Comparison.explicit place).value) left
      right := by
  cases outcomes with
  | done _ result after =>
    cases ends with
    | done _ known holds =>
      refine .done ?_ (writtenOut_bindings after.bindings holds.bindings)
      cases result with
      | some like => exact .some (like.writtenOut (known _ rfl))
      | none => exact .none
  | failed _ error after =>
    cases ends with
    | failed _ holds => exact .failed error (writtenOut_bindings after.bindings holds.bindings)
  | excused allowed => exact allowed.elim
  | tooDeep => exact absurd rfl ended
  | unknown => exact absurd rfl ended

theorem alike_outcomes {e e' : Expr} (alike : e.Alike place e') (depth : Nat) :
    (Coupling.writtenOut place).Outcomes (Coupling.writtenOut place).Answers ()
      ((eval depth e).run .initial) ((eval (2 * depth) e').run .initial) := by
  have empty : (Coupling.writtenOut place).Holds () .initial .initial :=
    ⟨fun _ _ => .none, trivial⟩
  exact (Coupling.writtenOut_evaluators depth).answers alike _ _ empty

theorem alike_ended {e e' : Expr} (alike : e.Alike place e') {depth : Nat}
    (ended : (eval depth e).run .initial ≠ .tooDeep) :
    (eval (2 * depth) e').run .initial ≠ .tooDeep := by
  have outcomes := alike_outcomes alike depth
  intro tooDeep
  rw [tooDeep] at outcomes
  generalize (eval depth e).run .initial = left at ended outcomes
  cases outcomes with
  | excused allowed => exact allowed.elim
  | tooDeep => exact ended rfl
  | unknown => exact ended rfl

end

/-- A program and the same one with the sequences of all its function bodies written out. If one of
them ends where nothing is bound, so does the other; and then both have the same result, where a
function stands against the one with its body written out, or errors of one kind at one place. In
either case what they have bound corresponds name by name. -/
theorem explicit_bodies_equivalent (place : Location → Nat × Location) (e : Expr) :
    ((∃ depth, (eval depth e).run .initial ≠ .tooDeep) ↔
      ∃ depth, (eval depth (e.explicit place)).run .initial ≠ .tooDeep) ∧
    ∀ depth depth', (eval depth e).run .initial ≠ .tooDeep →
      (eval depth' (e.explicit place)).run .initial ≠ .tooDeep →
        (Comparison.explicit place).Outcomes (Option.Rel (Comparison.explicit place).value)
          ((eval depth e).run .initial) ((eval depth' (e.explicit place)).run .initial) := by
  have alike : e.Alike place (e.explicit place) := (Expr.explicit_explicit e).symm
  refine ⟨⟨?_, ?_⟩, ?_⟩
  · rintro ⟨depth, ended⟩
    exact ⟨2 * depth, alike_ended alike ended⟩
  · rintro ⟨depth, ended⟩
    exact ⟨2 * depth, alike_ended alike.symm ended⟩
  · intro depth depth' ended ended'
    rw [eval_unique ended' (alike_ended alike ended)]
    have empty : (Invariant.writtenOut place).Holds () .initial := ⟨nofun, trivial⟩
    have ends := Invariant.writtenOut_preserved.eval_ends (2 * depth) (Expr.explicit_explicit e)
      empty
    exact explicit_of_writtenOut (alike_outcomes alike depth) ends ended

/-- A function whose body has two forms, the second one a definition of another such function. -/
theorem explicit_bodies_equivalent_of_inner :
    ∃ tokens program, lex "(func f () ((+ 1) (func g () ((+ 2) (+ 3))))) (f)" = .ok tokens ∧
      parseProgram tokens = .ok program ∧
      (program.toExpr.explicit fun location => (0, location)).render =
        "(begin (func f () (begin (+ 1) (func g () (begin (+ 2) (+ 3))))) (f))" ∧
      ((eval 6 program.toExpr).run .initial).state?.isSome ∧
      (Comparison.explicit fun location => (0, location)).Outcomes
        (Option.Rel (Comparison.explicit fun location => (0, location)).value)
        ((eval 6 program.toExpr).run .initial)
        ((eval 6 (program.toExpr.explicit fun location => (0, location))).run .initial) := by
  have told : ((lex "(func f () ((+ 1) (func g () ((+ 2) (+ 3))))) (f)").toOption.bind fun tokens =>
      (parseProgram tokens).toOption.map fun program =>
        ((program.toExpr.explicit fun location => (0, location)).render,
          ((eval 6 program.toExpr).run .initial).state?.isSome,
          ((eval 6 (program.toExpr.explicit fun location => (0, location))).run
            .initial).state?.isSome)) =
      some ("(begin (func f () (begin (+ 1) (func g () (begin (+ 2) (+ 3))))) (f))", true,
        true) := by
    decide +kernel
  obtain ⟨tokens, lexed, told⟩ := Option.bind_eq_some_iff.mp told
  obtain ⟨program, parsed, told⟩ := Option.map_eq_some_iff.mp told
  simp only [Prod.mk.injEq] at told
  obtain ⟨shown, ended, ended'⟩ := told
  have notTooDeep : ∀ {outcome : Outcome (Option Value)}, outcome.state?.isSome →
      outcome ≠ .tooDeep := by
    rintro _ left rfl
    cases left
  exact ⟨tokens, program, ok_of_toOption lexed, ok_of_toOption parsed, shown, ended,
    (explicit_bodies_equivalent _ _).2 6 6 (notTooDeep ended) (notTooDeep ended')⟩

end SnapshotLisp
