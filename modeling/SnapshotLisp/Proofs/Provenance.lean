import SnapshotLisp.Session
import SnapshotLisp.Proofs.Frame
import SnapshotLisp.Proofs.SameSimulation

/-!
Where the functions of a session come from. Whatever is called, passed on, returned or bound again
on the way, a function always is what some definition in one of the programs says. The session's own
bindings are narrower still: there is nothing but functions in them, each under its own name, and a
name that is bound stays bound, also when a program fails half way.
-/
namespace SnapshotLisp

namespace Expr

/-- The node stands in the expression, however deep and also inside of definitions. -/
inductive Contains : Expr → Expr → Prop where
  | itself (e : Expr) : Contains e e
  | inside {items : List Expr} {location : Location} {item node : Expr} (member : item ∈ items)
      (below : Contains item node) : Contains (.list items location) node

theorem Contains.item {e item : Expr} {items : List Expr} {location : Location}
    (contains : e.Contains (.list items location)) (member : item ∈ items) : e.Contains item := by
  generalize node : Expr.list items location = list at contains
  induction contains with
  | itself e =>
    subst node
    exact .inside member (.itself item)
  | inside outer below ih => exact .inside outer (ih node)

theorem Exposes.contains {e node : Expr} (exposed : e.Exposes node) : e.Contains node := by
  induction exposed with
  | itself e => exact .itself e
  | inside notDefinition member below ih => exact .inside member ih

theorem Defines.body_contained {e node : Expr} {closure : Closure} (defines : node.Defines closure)
    (contains : e.Contains node) : e.Contains closure.body.toExpr := by
  cases defines with
  | form keyword named parameters => exact contains.item (by simp)

end Expr

/-- One of the programs defines the function, under a name that can be defined. -/
structure Closure.WrittenIn (closure : Closure) (programs : List Group) : Prop where
  free : Builtin.ofName? closure.name = none
  source : ∃ program ∈ programs, ∃ node, program.toExpr.Contains node ∧ node.Defines closure

theorem Closure.WrittenIn.mono {closure : Closure} {programs more : List Group}
    (written : closure.WrittenIn programs) (subset : programs ⊆ more) : closure.WrittenIn more := by
  obtain ⟨free, program, member, found⟩ := written
  exact ⟨free, program, subset member, found⟩

def Comparison.writtenIn (programs : List Group) : Comparison :=
  pointwise (fun _ => True) (fun c d => c = d ∧ c.WrittenIn programs) (· = ·)

theorem written_simulation (programs : List Group) :
    SameSimulation (Comparison.writtenIn programs)
      (fun e => ∃ program ∈ programs, program.toExpr.Contains e) where
  closure_eq := fun related => related.1
  atom := fun _ _ _ agree =>
    Comparison.pointwise_atomValue rfl rfl (fun _ => trivial) (fun _ => rfl) (fun _ => rfl) agree
  found := fun _ _ _ _ _ _ agree =>
    Comparison.pointwise_callee trivial (fun _ => rfl) rfl agree
  operand := by
    intro head args location within _ e member
    obtain ⟨program, evaluated, contains⟩ := within
    exact ⟨program, evaluated, contains.item (List.mem_cons_of_mem head member)⟩
  accepted := by
    intro head name params body location within keyword closure read
    obtain ⟨program, evaluated, contains⟩ := within
    have free := (Closure.ofParts_ok read).2.1
    exact ⟨rfl, free, program, evaluated, _, contains,
      Expr.defines_of_ofParts keyword read location⟩
  refused := fun _ _ _ _ => rfl
  form := by
    intro closure related _ e member
    obtain ⟨_, _, program, evaluated, node, contains, defines⟩ := related
    exact ⟨program, evaluated, (defines.body_contained contains).item member⟩
  body := by
    intro closure related
    obtain ⟨_, _, program, evaluated, node, contains, defines⟩ := related
    exact ⟨program, evaluated, defines.body_contained contains⟩
  define := fun agree like => Comparison.pointwise_define agree like _
  blamed := fun _ _ => rfl
  mismatch := fun _ _ _ _ => rfl

def Environment.DefinedBy (env : Environment) (programs : List Group) : Prop :=
  ∀ name v, env.get? name = some v →
    ∃ identity closure, v = .function identity closure ∧ closure.name = name ∧
      closure.WrittenIn programs

namespace Environment

variable {env after : Environment} {programs : List Group} {program : Group}

theorem DefinedBy.mono {more : List Group} (defined : env.DefinedBy programs)
    (subset : programs ⊆ more) : env.DefinedBy more := by
  intro name v bound
  obtain ⟨identity, closure, same, named, written⟩ := defined name v bound
  exact ⟨identity, closure, same, named, written.mono subset⟩

theorem DefinedBy.related (defined : env.DefinedBy programs) :
    (Comparison.writtenIn programs).env env env := by
  intro name _
  cases bound : env.get? name with
  | none => exact .none
  | some v =>
    obtain ⟨identity, closure, same, _, written⟩ := defined name v bound
    subst same
    exact .some (.function ⟨rfl, written⟩)

theorem DefinedBy.grown (defined : env.DefinedBy programs)
    (grown : env.Grown program.toExpr.Introduces after) :
    after.DefinedBy (programs ++ [program]) := by
  intro name v bound
  rcases grown.get?_eq_or name with same | ⟨identity, closure, introduced, named, found⟩
  · rw [same] at bound
    exact defined.mono (List.subset_append_left programs [program]) name v bound
  · rw [found] at bound
    cases bound
    obtain ⟨free, node, exposed, defines⟩ := introduced
    exact ⟨identity, closure, rfl, named, free, program, by simp, node, exposed.contains, defines⟩

end Environment

namespace Session

/-- Whole programs evaluated one after the other, each with the reply that it got. Programs may
fail, but each of them has come to an end. -/
inductive Evaluates (first : Session) : List (Group × Reply) → Session → Prop where
  | nothing : Evaluates first [] first
  | program {past : List (Group × Reply)} {s t : Session} {depth : Nat} {input : Input}
      {tokens : List Token} {program : Group} {reply : Reply} (before : Evaluates first past s)
      (read : input.read = .ok tokens) (parsed : parseProgram tokens = .ok program)
      (stepped : s.step depth (.evaluate input .program) = .ok (reply, t)) :
      Evaluates first (past ++ [(program, reply)]) t

theorem step_program_cases {s t : Session} {depth : Nat} {input : Input} {tokens : List Token}
    {program : Group} {reply : Reply} (read : input.read = .ok tokens)
    (parsed : parseProgram tokens = .ok program)
    (stepped : s.step depth (.evaluate input .program) = .ok (reply, t)) :
    t.name = s.name ∧ ∃ after, t.env = after.env ∧
      ((∃ result, (eval depth program.toExpr).run ⟨s.env, s.identity, []⟩ = .done result after ∧
        reply = .value result) ∨
      ∃ e, (eval depth program.toExpr).run ⟨s.env, s.identity, []⟩ = .failed e after ∧
        reply = .error (.eval e)) := by
  simp only [step, read, plan, parsed, evaluate] at stepped
  split at stepped
  · rename_i result after ended
    cases stepped
    exact ⟨rfl, after, rfl, Or.inl ⟨result, ended, rfl⟩⟩
  · rename_i e after ended
    cases stepped
    exact ⟨rfl, after, rfl, Or.inr ⟨e, ended, rfl⟩⟩
  · cases stepped

section

variable {first s t : Session} {past more : List (Group × Reply)} {depth : Nat} {input : Input}
  {tokens : List Token} {program : Group} {reply : Reply}

theorem step_program_grown (read : input.read = .ok tokens)
    (parsed : parseProgram tokens = .ok program)
    (stepped : s.step depth (.evaluate input .program) = .ok (reply, t)) :
    s.env.Grown program.toExpr.Introduces t.env := by
  obtain ⟨_, after, same, ended⟩ := step_program_cases read parsed stepped
  rw [same]
  apply eval_grows depth program.toExpr ⟨s.env, s.identity, []⟩ after
  rcases ended with ⟨result, ran, _⟩ | ⟨e, ran, _⟩
  · rw [ran]
    rfl
  · rw [ran]
    rfl

theorem step_program_returned {programs : List Group} (defined : s.env.DefinedBy programs)
    (read : input.read = .ok tokens) (parsed : parseProgram tokens = .ok program)
    (stepped : s.step depth (.evaluate input .program) = .ok (reply, t)) {identity : Nat}
    {closure : Closure} (returned : reply = .value (some (.function identity closure))) :
    closure.WrittenIn (programs ++ [program]) := by
  obtain ⟨_, after, _, ended⟩ := step_program_cases read parsed stepped
  rcases ended with ⟨result, ran, same⟩ | ⟨e, _, same⟩
  · rw [returned] at same
    cases same
    have start := (defined.mono (List.subset_append_left programs [program])).related
    have both := (written_simulation (programs ++ [program])).eval_matches depth
      ⟨program, by simp, .itself _⟩
    -- The same state on both sides, so what is related is one evaluation and itself.
    have outcomes := both ⟨s.env, s.identity, []⟩ ⟨s.env, s.identity, []⟩ start
    rw [ran] at outcomes
    cases outcomes with
    | done related _ =>
      cases related with
      | some like =>
        cases like with
        | function written => exact written.2
  · rw [returned] at same
    cases same

structure Traced (past : List (Group × Reply)) (s : Session) : Prop where
  bindings : s.env.DefinedBy (past.map Prod.fst)
  returned : ∀ before program identity closure after,
    past = before ++ (program, .value (some (.function identity closure))) :: after →
      closure.WrittenIn (before.map Prod.fst ++ [program])

theorem traced_start : Traced [] start where
  bindings := by
    intro name v bound
    cases bound
  returned := by
    intro before program identity closure after split
    simp at split

theorem Traced.next (traced : Traced past s) (read : input.read = .ok tokens)
    (parsed : parseProgram tokens = .ok program)
    (stepped : s.step depth (.evaluate input .program) = .ok (reply, t)) :
    Traced (past ++ [(program, reply)]) t where
  bindings := by
    rw [List.map_append]
    exact traced.bindings.grown (step_program_grown read parsed stepped)
  returned := by
    intro before program' identity closure after split
    rcases List.eq_nil_or_concat after with none | ⟨others, last, some⟩
    · subst none
      obtain ⟨same, one⟩ := List.append_inj' split rfl
      cases one
      subst same
      exact step_program_returned traced.bindings read parsed stepped rfl
    · subst some
      rw [List.concat_eq_append, ← List.cons_append, ← List.append_assoc] at split
      exact traced.returned _ _ _ _ _ (List.append_inj' split rfl).1

theorem Evaluates.traced (evaluated : start.Evaluates past s) : Traced past s := by
  induction evaluated with
  | nothing => exact traced_start
  | program before read parsed stepped ih => exact ih.next read parsed stepped

theorem Evaluates.trans (early : first.Evaluates past s) (late : s.Evaluates more t) :
    first.Evaluates (past ++ more) t := by
  induction late with
  | nothing =>
    rw [List.append_nil]
    exact early
  | program before read parsed stepped ih =>
    rw [← List.append_assoc]
    exact .program ih read parsed stepped

theorem Evaluates.name_eq (evaluated : s.Evaluates more t) : t.name = s.name := by
  induction evaluated with
  | nothing => rfl
  | program before read parsed stepped ih =>
    have kept := (step_program_cases read parsed stepped).1
    exact kept.trans ih

theorem Evaluates.still_bound (evaluated : s.Evaluates more t) {name : String}
    (bound : (s.env.get? name).isSome) : (t.env.get? name).isSome := by
  induction evaluated with
  | nothing => exact bound
  | program before read parsed stepped ih =>
    exact (step_program_grown read parsed stepped).still_bound ih

end

end Session

theorem function_of_describe {result : Option Value} (kind : Value.describe result = "function") :
    ∃ identity closure, result = some (.function identity closure) := by
  cases result with
  | none => simp [Value.describe] at kind
  | some v =>
    cases v with
    | integer word => simp [Value.describe, Value.typeName] at kind
    | boolean truth => simp [Value.describe, Value.typeName] at kind
    | function identity closure => exact ⟨identity, closure, rfl⟩

theorem exists_program (source : String)
    (parses : ((lex source).toOption.bind fun tokens => (parseProgram tokens).toOption).isSome) :
    ∃ tokens program, (Input.text source).read = .ok tokens ∧
      parseProgram tokens = .ok program := by
  cases lexed : lex source with
  | error e =>
    rw [lexed] at parses
    cases parses
  | ok tokens =>
    rw [lexed] at parses
    cases parsed : parseProgram tokens with
    | error e =>
      simp [Except.toOption, parsed] at parses
    | ok program => exact ⟨tokens, program, lexed, parsed⟩

/-- The functions of a session come from its programs. After any of them, whether they failed or
not, the bindings are functions under their own names, each written in a program evaluated so far; no
name that was bound before is lost; and a function that a program returned is written in that program
or in one before it, wherever it was made. -/
theorem session_functions_written {past more : List (Group × Reply)} {s t : Session}
    (early : Session.start.Evaluates past s) (late : s.Evaluates more t) :
    t.environment? "globals" = some t.env ∧
    (∀ name v, t.env.get? name = some v →
      ∃ identity closure, v = .function identity closure ∧ closure.name = name ∧
        closure.WrittenIn ((past ++ more).map Prod.fst)) ∧
    (∀ name, (s.env.get? name).isSome → (t.env.get? name).isSome) ∧
    ∀ before program identity closure after,
      past ++ more = before ++ (program, .value (some (.function identity closure))) :: after →
        closure.WrittenIn (before.map Prod.fst ++ [program]) := by
  have whole := early.trans late
  have current : t.environment? "globals" = some t.env := if_pos whole.name_eq.symm
  exact ⟨current, whole.traced.bindings, fun name => late.still_bound, whole.traced.returned⟩

/-- The first program fails behind its definition. The second one calls the function that was
defined there, which defines and returns another: that one is not bound afterwards. -/
theorem session_functions_written_of_inner :
    ∃ (definition call : Group) (e : Error) (identity : Nat) (closure : Closure) (s : Session),
      Session.start.Evaluates
        [(definition, .error e), (call, .value (some (.function identity closure)))] s ∧
      (Value.function identity closure).render = "<func inner>" ∧ s.env.get? "inner" = none ∧
      (s.env.get? "make").isSome ∧ closure.WrittenIn [definition, call] := by
  obtain ⟨tokens, definition, read, parsed⟩ :=
    exists_program "(func make () ((func inner (x) (+ x 1)))) (oops)" (by decide +kernel)
  obtain ⟨tokens', call, read', parsed'⟩ := exists_program "(make)" (by decide +kernel)
  have told : (match Session.start.step 9
        (.evaluate (.text "(func make () ((func inner (x) (+ x 1)))) (oops)") .program) with
      | .ok (.error _, s) =>
        match s.step 9 (.evaluate (.text "(make)") .program) with
        | .ok (.value result, t) =>
          Value.describe result == "function" && result.map Value.render == some "<func inner>" &&
            (t.env.get? "inner").isNone && (t.env.get? "make").isSome
        | _ => false
      | _ => false) = true := by decide +kernel
  split at told
  · rename_i e s stepped
    split at told
    · rename_i result t stepped'
      simp only [Bool.and_eq_true, beq_iff_eq, Option.isNone_iff_eq_none] at told
      obtain ⟨⟨⟨kind, shown⟩, unbound⟩, bound⟩ := told
      obtain ⟨identity, closure, rfl⟩ := function_of_describe kind
      have early := Session.Evaluates.program .nothing read parsed stepped
      have late : s.Evaluates _ t := .program .nothing read' parsed' stepped'
      obtain ⟨_, _, _, returned⟩ := session_functions_written early late
      have written := returned [(definition, .error e)] call identity closure [] rfl
      exact ⟨definition, call, e, identity, closure, t, early.trans late, Option.some.inj shown,
        unbound, bound, written⟩
    · cases told
  · cases told

end SnapshotLisp
