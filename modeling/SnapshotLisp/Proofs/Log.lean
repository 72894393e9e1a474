import SnapshotLisp.Proofs.Composition
import SnapshotLisp.Proofs.Invariant
import SnapshotLisp.Proofs.Lexing
import SnapshotLisp.Proofs.Provenance

/-!
The log of a run tells the truth about its program. What is said to be applied is a list of the
program; what is said to be defined was applied just before and is a definition of the program; and
what is said to be called has been defined, under that name and with that many parameters, however
the function got to where it is called.
-/
namespace SnapshotLisp

namespace Event

inductive Worded : Event → String → String → Prop where
  | lexed (tokens : Nat) : Worded (.lexed tokens) "INFO" s!"lexed {tokens} tokens"
  | parsed (forms tokens : Nat) :
      Worded (.parsed forms tokens) "DEBUG" s!"parsed {forms} top-level forms from {tokens} tokens"
  | applying (name : String) (count : Nat) (location : Location) :
      Worded (.applying name count location) "TRACE"
        s!"applying `{name}` to {count} args at line {location.line}, column {location.column}"
  | defining (name : String) (count : Nat) :
      Worded (.defining name count) "DEBUG" s!"defining function '{name}' with {count} parameters"
  | calling (name : String) (count : Nat) :
      Worded (.calling name count) "DEBUG" s!"calling '{name}' with {count} args"
  | finished : Worded .finished "INFO" "evaluation finished"

theorem worded (event : Event) :
    ∃ level message, event.Worded level message ∧ event.render = level ++ " " ++ message := by
  cases event with
  | lexed tokens => exact ⟨_, _, .lexed tokens, rfl⟩
  | parsed forms tokens => exact ⟨_, _, .parsed forms tokens, rfl⟩
  | applying name count location =>
    refine ⟨_, _, .applying name count location, congrArg ("TRACE" ++ " " ++ ·) ?_⟩
    have place : " args at " ++ "line " = " args at line " := by decide
    -- The words before the line's number stand partly in the record and partly in the location.
    change "applying `" ++ name ++ "` to " ++ toString count ++ " args at " ++
        ("line " ++ toString location.line ++ ", column " ++ toString location.column) =
      "applying `" ++ name ++ "` to " ++ toString count ++ " args at line " ++
        toString location.line ++ ", column " ++ toString location.column
    rw [← place]
    simp only [String.append_assoc]
  | defining name count => exact ⟨_, _, .defining name count, rfl⟩
  | calling name count => exact ⟨_, _, .calling name count, rfl⟩
  | finished => exact ⟨_, _, .finished, rfl⟩

end Event

/-- What the records of an evaluation tell of the program is true. They stand oldest first. -/
structure Truthful (program : Expr) (log : List Event) : Prop where
  applying : ∀ {name count location}, .applying name count location ∈ log →
    ∃ head args, program.Contains (.list (head :: args) location) ∧
      head.identifier? = some name ∧ args.length = count
  defining : ∀ {before name count after}, log = before ++ .defining name count :: after →
    ∃ earlier location node closure, before = earlier ++ [.applying "func" 3 location] ∧
      program.Contains node ∧ node.location = location ∧ node.Defines closure ∧
        closure.name = name ∧ closure.params.length = count
  calling : ∀ {before name count after}, log = before ++ .calling name count :: after →
    .defining name count ∈ before
  kinds : ∀ event ∈ log, (∃ name count location, event = .applying name count location) ∨
    (∃ name count, event = .defining name count) ∨ ∃ name count, event = .calling name count

/-- The log as it is written, newest first: what a record says is true at the moment it is added. -/
inductive Written (program : Expr) : List Event → Prop where
  | nothing : Written program []
  | applying {log : List Event} {name : String} {head : Expr} {args : List Expr}
      {location : Location} (before : Written program log)
      (node : program.Contains (.list (head :: args) location))
      (named : head.identifier? = some name) :
      Written program (.applying name args.length location :: log)
  | defining {log : List Event} {node : Expr} {closure : Closure}
      (before : Written program (.applying Builtin.define.name 3 node.location :: log))
      (contained : program.Contains node) (defines : node.Defines closure) :
      Written program (.defining closure.name closure.params.length ::
        .applying Builtin.define.name 3 node.location :: log)
  | calling {log : List Event} {name : String} {count : Nat} (before : Written program log)
      (defined : .defining name count ∈ log) : Written program (.calling name count :: log)

namespace Written

variable {program : Expr} {log newer : List Event} {event : Event}

theorem behind (written : Written program (event :: log)) : Written program log := by
  cases written with
  | applying before node named => exact before
  | defining before contained defines => exact before
  | calling before defined => exact before

theorem older (written : Written program (newer ++ log)) : Written program log := by
  induction newer with
  | nil => exact written
  | cons event newer ih => exact ih written.behind

theorem of_mem (written : Written program log) (member : event ∈ log) :
    ∃ older, Written program (event :: older) := by
  obtain ⟨newer, older, rfl⟩ := List.append_of_mem member
  exact ⟨older, written.older⟩

theorem upTo (written : Written program log) {before after : List Event}
    (split : log.reverse = before ++ event :: after) :
    Written program (event :: before.reverse) := by
  rw [List.reverse_eq_iff, List.reverse_append, List.reverse_cons, List.append_assoc] at split
  subst split
  exact written.older

theorem truthful (written : Written program log) : Truthful program log.reverse where
  applying := by
    intro name count location member
    obtain ⟨older, written⟩ := written.of_mem (List.mem_reverse.mp member)
    cases written with
    | applying before node named => exact ⟨_, _, node, named, rfl⟩
  defining := by
    intro before name count after split
    have there := written.upTo split
    generalize since : before.reverse = older at there
    cases there with
    | @defining log node closure _ contained defines =>
      rw [List.reverse_eq_iff, List.reverse_cons] at since
      exact ⟨log.reverse, node.location, node, closure, since, contained, rfl, defines, rfl, rfl⟩
  calling := by
    intro before name count after split
    cases written.upTo split with
    | calling _ defined => exact List.mem_reverse.mp defined
  kinds := by
    intro event member
    obtain ⟨older, written⟩ := written.of_mem (List.mem_reverse.mp member)
    cases written with
    | applying before node named => exact Or.inl ⟨_, _, _, rfl⟩
    | defining before contained defines => exact Or.inr (Or.inl ⟨_, _, rfl⟩)
    | calling before defined => exact Or.inr (Or.inr ⟨_, _, rfl⟩)

end Written

namespace Invariant

def logging (program : Expr) (begun : List Event) : Invariant where
  World := List Event
  Later w w' := w <:+ w'
  knows w _ closure :=
    .defining closure.name closure.params.length ∈ w ∧ program.Contains closure.body.toExpr
  keeps w _ log := log = w ++ begun ∧ Written program w
  refl := List.suffix_refl
  trans := List.IsSuffix.trans
  knows_later later known := ⟨later.subset known.1, known.2⟩

variable {program : Expr} {begun : List Event}

theorem logging_records {event : Event} {w : List Event}
    (admitted : Written program w → Written program (event :: w)) :
    (logging program begun).Records event w (event :: w) where
  later := List.suffix_cons event w
  books := by
    rintro identity log ⟨rfl, written⟩
    exact ⟨rfl, admitted written⟩

theorem logging_preserved : (logging program begun).Preserved program.Contains where
  operand holds _ e member := holds.item (List.mem_cons_of_mem _ member)
  form known _ e member := known.2.item member
  body known := known.2
  applying := by
    intro head args location holds name named w
    refine ⟨_, logging_records fun written => .applying written holds named, ?_⟩
    rintro rfl text params body rfl closure read
    refine ⟨_, List.suffix_cons (.defining closure.name closure.params.length) _, ?_⟩
    rintro identity log ⟨rfl, written⟩
    have defines := Expr.defines_of_ofParts named read location
    exact ⟨⟨rfl, .defining written holds defines⟩, List.mem_cons_self,
      defines.body_contained holds⟩
  calling known := ⟨_, logging_records fun written => .calling written known.1⟩

end Invariant

theorem sequence_of_parsed {tokens : List Token} {program : Group}
    (parsed : parseProgram tokens = .ok program) : ∃ forms, program = .sequence forms := by
  obtain ⟨groups, _, rfl⟩ := ok_of_map parsed
  exact ⟨groups.map Group.toExpr, rfl⟩

section

variable {depth : Nat} {forms : List Expr} {begun : List Event}

theorem program_log {s : State}
    (ended : ((eval depth (Group.sequence forms).toExpr).run
      { State.initial with log := begun }).state? = some s) :
    ∃ records, Truthful (Group.sequence forms).toExpr
        (.applying "begin" forms.length ⟨1, 1⟩ :: records) ∧
      s.log.reverse = begun.reverse ++ .applying "begin" forms.length ⟨1, 1⟩ :: records := by
  cases depth with
  | zero => cases ended
  | succ depth =>
    have first : Written (Group.sequence forms).toExpr [.applying "begin" forms.length ⟨1, 1⟩] :=
      .applying .nothing (.itself _) rfl
    have start : (Invariant.logging (Group.sequence forms).toExpr begun).Holds
        [.applying "begin" forms.length ⟨1, 1⟩]
        ⟨.empty, 0, .applying "begin" forms.length ⟨1, 1⟩ :: begun⟩ :=
      ⟨nofun, rfl, first⟩
    have contained : ∀ e ∈ forms, (Group.sequence forms).toExpr.Contains e :=
      fun e member => .inside (List.mem_cons_of_mem _ member) (.itself e)
    have ends := Invariant.ends_of_coupled (Coupling.Simulates.evalSequence_coupled
      (Invariant.logging_preserved.eval_coupled depth) (SameSimulation.same_list contained) .none)
      start
    obtain ⟨written, ⟨newer, rfl⟩, after⟩ := ends.state ended
    obtain ⟨log, all⟩ := after.books
    refine ⟨newer.reverse, ?_, ?_⟩
    · simpa using all.truthful
    · simp [log]

theorem runProgram_log {tokens : List Token}
    (ended : (runProgram depth tokens (.sequence forms)).verdict ≠ .tooDeep) :
    ∃ records ending, (runProgram depth tokens (.sequence forms)).log = .lexed tokens.length ::
        .parsed forms.length tokens.length :: .applying "begin" forms.length ⟨1, 1⟩ ::
          (records ++ ending) ∧
      Truthful (Group.sequence forms).toExpr (.applying "begin" forms.length ⟨1, 1⟩ :: records) ∧
      ((∃ result, (runProgram depth tokens (.sequence forms)).verdict = .value result) ∧
        ending = [.finished] ∨
      (∃ e, (runProgram depth tokens (.sequence forms)).verdict = .error e) ∧ ending = []) := by
  have count : (Group.sequence forms).items.length - 1 = forms.length := rfl
  cases ran : (eval depth (Group.sequence forms).toExpr).run { State.initial with
      log := [.parsed forms.length tokens.length, .lexed tokens.length] } with
  | done result s =>
    obtain ⟨records, truthful, log⟩ := program_log (congrArg Outcome.state? ran)
    simp only [runProgram, count, ran]
    exact ⟨records, [.finished], by simp [log], truthful, Or.inl ⟨⟨result, rfl⟩, rfl⟩⟩
  | failed e s =>
    obtain ⟨records, truthful, log⟩ := program_log (congrArg Outcome.state? ran)
    simp only [runProgram, count, ran]
    exact ⟨records, [], by simp [log], truthful, Or.inr ⟨⟨.eval e, rfl⟩, rfl⟩⟩
  | tooDeep =>
    simp only [runProgram, count, ran] at ended
    exact absurd rfl ended

end

/-- The log of a run that comes to an end. It tells how many tokens there are, and nothing more
where they are no program. Otherwise it tells how many forms were read and that they are evaluated
one after the other; what it then says of applications, definitions and calls is true of the
program; and only where there is a result it says that the evaluation has finished. -/
theorem run_log_truthful {depth : Nat} {source : String} (ended : run depth source ≠ .tooDeep) :
    ∃ tokens, lex source = .ok tokens ∧
      (∀ event ∈ (runLogged depth source).log, ∃ level message,
        event.Worded level message ∧ event.render = level ++ " " ++ message) ∧
      ((∃ e, parseProgram tokens = .error e ∧
        (runLogged depth source).log = [.lexed tokens.length]) ∨
      ∃ forms records ending, parseProgram tokens = .ok (.sequence forms) ∧
        (runLogged depth source).log = .lexed tokens.length ::
          .parsed forms.length tokens.length :: .applying "begin" forms.length ⟨1, 1⟩ ::
            (records ++ ending) ∧
        Truthful (Group.sequence forms).toExpr (.applying "begin" forms.length ⟨1, 1⟩ :: records) ∧
        ((∃ result, run depth source = .value result) ∧ ending = [.finished] ∨
          (∃ e, run depth source = .error e) ∧ ending = [])) := by
  obtain ⟨all, _, lexed⟩ := lex_total source
  refine ⟨_, lexed, fun event _ => event.worded, ?_⟩
  generalize all.filter (fun t => t.kind != .blank) = tokens at lexed
  cases parsed : parseProgram tokens with
  | error e =>
    refine Or.inl ⟨e, rfl, ?_⟩
    simp only [runLogged, lexed, parsed]
  | ok program =>
    obtain ⟨forms, rfl⟩ := sequence_of_parsed parsed
    have logged : runLogged depth source = runProgram depth tokens (.sequence forms) := by
      simp only [runLogged, lexed, parsed]
    rw [run, logged] at ended ⊢
    obtain ⟨records, ending, log, truthful, verdict⟩ := runProgram_log ended
    exact Or.inr ⟨forms, records, ending, rfl, log, truthful, verdict⟩

theorem run_log_truthful_of_argument :
    ∃ forms records, (runLogged 6 "(func f (x) (x)) (func g () (+)) (f g)").log =
        .lexed 23 :: .parsed 3 23 :: .applying "begin" 3 ⟨1, 1⟩ :: (records ++ [.finished]) ∧
      [.applying "x" 0 ⟨1, 13⟩, .calling "g" 0] <:+: records ∧
      Truthful (Group.sequence forms).toExpr (.applying "begin" 3 ⟨1, 1⟩ :: records) := by
  have told : (runLogged 6 "(func f (x) (x)) (func g () (+)) (f g)").log =
      [.lexed 23, .parsed 3 23, .applying "begin" 3 ⟨1, 1⟩, .applying "func" 3 ⟨1, 1⟩,
        .defining "f" 1, .applying "func" 3 ⟨1, 18⟩, .defining "g" 0, .applying "f" 1 ⟨1, 34⟩,
        .calling "f" 1, .applying "x" 0 ⟨1, 13⟩, .calling "g" 0, .applying "+" 0 ⟨1, 29⟩,
        .finished] := by decide +kernel
  have ended : run 6 "(func f (x) (x)) (func g () (+)) (f g)" ≠ .tooDeep := by
    intro tooDeep
    have other : (match run 6 "(func f (x) (x)) (func g () (+)) (f g)" with
      | .tooDeep => true
      | _ => false) = false := by decide +kernel
    rw [tooDeep] at other
    cases other
  obtain ⟨tokens, _, _, ⟨_, _, log⟩ | ⟨forms, records, ending, _, log, truthful, verdict⟩⟩ :=
    run_log_truthful ended
  · simp [told] at log
  · rw [told] at log
    simp only [List.cons.injEq, Event.parsed.injEq, Event.applying.injEq] at log
    obtain ⟨_, ⟨count, _⟩, _, log⟩ := log
    rw [← count] at truthful
    rcases verdict with ⟨_, rfl⟩ | ⟨_, rfl⟩
    · refine ⟨forms, records, by rw [told, ← log], ?_, truthful⟩
      have same := congrArg List.dropLast log
      rw [List.dropLast_concat] at same
      subst same
      exact ⟨[_, _, _, _, _, _], [_], rfl⟩
    · rw [List.append_nil] at log
      subst log
      rcases truthful.kinds .finished (by simp) with ⟨_, _, _, same⟩ | ⟨_, _, same⟩ | ⟨_, _, same⟩
      · cases same
      · cases same
      · cases same

end SnapshotLisp
