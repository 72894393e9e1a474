import SnapshotLisp.Proofs.Invariant
import SnapshotLisp.Proofs.Provenance

/-!
The identity of functions over a whole session. Every definition that is evaluated makes a function
of its own, in whatever environment and however deep inside of a call, and also where the step fails
later on. The functions made so far stand in one list, in the order of the records of their
definitions, and every function in reach is one of them.
-/
namespace SnapshotLisp

namespace Event

def isDefinition : Event → Bool
  | .defining _ _ => true
  | _ => false

inductive Announces : Event → Value → Prop where
  | function (identity : Nat) (closure : Closure) :
      Announces (.defining closure.name closure.params.length) (.function identity closure)

end Event

def Closure.announcement (closure : Closure) : Event :=
  .defining closure.name closure.params.length

namespace Environment

/-- The copy has the bindings given, the later ones before the earlier, and for all other names
those of the environment that was copied. -/
def Copies (env : Environment) (bound : List (String × Value)) (copy : Environment) : Prop :=
  ∀ name, copy.get? name = (bound.reverse.lookup name).or (env.get? name)

theorem copies_define (env : Environment) (name : String) (value : Value) :
    env.Copies [(name, value)] (env.define name value) := by
  intro other
  rw [get?_define]
  by_cases same : other = name
  · simp [same]
  · have skipped : (other == name) = false := by simp [same]
    simp [List.lookup_cons, same, skipped]

theorem copies_append {env copy copy' : Environment} {bound bound' : List (String × Value)}
    (first : env.Copies bound copy) (second : copy.Copies bound' copy') :
    env.Copies (bound ++ bound') copy' := by
  intro name
  rw [second name, first name, List.reverse_append, List.lookup_append, Option.or_assoc]

theorem copies_snapshot (env : Environment) (params : List String) (values : List Value) :
    env.Copies (params.zip values) (env.snapshot params values) := by
  unfold snapshot
  induction params.zip values generalizing env with
  | nil => exact fun _ => rfl
  | cons first later ih => exact copies_append (copies_define env first.1 first.2) (ih _)

end Environment

def definitions (log : List Event) : List Event := log.filter Event.isDefinition

/-- The functions that the definitions have made, one each and in their order. No two of them are
the same. -/
structure Made (log : List Event) (functions : List Value) : Prop where
  announced : List.Forall₂ Event.Announces (definitions log) functions
  apart : ∀ (n m : Nat) (v w : Value), functions[n]? = some v → functions[m]? = some w →
    (v.same w ↔ n = m)

def numbered (closures : List Closure) : List Value := closures.mapIdx Value.function

section

variable {closures more : List Closure} {log log' : List Event}

theorem definitions_append : definitions (log ++ log') = definitions log ++ definitions log' :=
  List.filter_append ..

theorem getElem?_numbered (n : Nat) :
    (numbered closures)[n]? = closures[n]?.map (Value.function n) :=
  List.getElem?_mapIdx

theorem mem_numbered_iff {v : Value} :
    v ∈ numbered closures ↔
      ∃ identity closure, closures[identity]? = some closure ∧ .function identity closure = v := by
  simp only [List.mem_iff_getElem?, getElem?_numbered, Option.map_eq_some_iff]

theorem made_numbered (told : definitions log = closures.map Closure.announcement) :
    Made log (numbered closures) where
  announced := by
    rw [told, numbered, List.forall₂_iff_get]
    refine ⟨by simp, fun n _ _ => ?_⟩
    simp only [List.get_eq_getElem, List.getElem_map, List.getElem_mapIdx]
    exact .function n _
  apart := by
    intro n m v w first second
    simp only [getElem?_numbered, Option.map_eq_some_iff] at first second
    obtain ⟨c, _, rfl⟩ := first
    obtain ⟨d, _, rfl⟩ := second
    simp [Value.same]

theorem numbered_append (closures more : List Closure) :
    ∃ later, numbered (closures ++ more) = numbered closures ++ later := by
  rw [numbered, List.mapIdx_append]
  exact ⟨_, rfl⟩

end

/-- A function is the one that was made under its number. -/
def Recorded (closures : List Closure) (v : Value) : Prop :=
  ∀ identity closure, v = .function identity closure → closures[identity]? = some closure

def RecordedAll (closures : List Closure) (env : Environment) : Prop :=
  ∀ name v, env.get? name = some v → Recorded closures v

theorem Recorded.append {closures : List Closure} {v : Value} (recorded : Recorded closures v)
    (more : List Closure) : Recorded (closures ++ more) v := by
  intro identity closure same
  have found := recorded identity closure same
  rw [List.getElem?_append_left (List.getElem?_eq_some_iff.mp found).1]
  exact found

theorem RecordedAll.append {closures : List Closure} {env : Environment}
    (recorded : RecordedAll closures env) (more : List Closure) :
    RecordedAll (closures ++ more) env :=
  fun name v bound => (recorded name v bound).append more

theorem recordedAll_empty (closures : List Closure) : RecordedAll closures .empty := by
  intro name v bound
  cases bound

theorem RecordedAll.copies {closures : List Closure} {env copy : Environment}
    {bound : List (String × Value)} (recorded : RecordedAll closures env)
    (copies : env.Copies bound copy) (new : ∀ name v, (name, v) ∈ bound → Recorded closures v) :
    RecordedAll closures copy := by
  intro name v found
  rw [copies name, Option.or_eq_some_iff] at found
  rcases found with passed | ⟨_, found⟩
  · obtain ⟨before, after, split, _⟩ := List.lookup_eq_some_iff.mp passed
    have member : (name, v) ∈ bound := by
      rw [← List.mem_reverse, split]
      simp
    exact new name v member
  · exact recorded name v found

namespace Invariant

/-- The world is what has been made since, of closures, behind what was made in the past. -/
def identities (past : List Closure) : Invariant where
  World := List Closure
  Later w w' := w <+: w'
  knows w identity closure := (past ++ w)[identity]? = some closure
  keeps w identity log :=
    identity = (past ++ w).length ∧ definitions log.reverse = w.map Closure.announcement
  refl := List.prefix_refl
  trans := List.IsPrefix.trans
  knows_later := by
    rintro w _ identity closure ⟨more, rfl⟩ known
    rw [← List.append_assoc, List.getElem?_append_left (List.getElem?_eq_some_iff.mp known).1]
    exact known

variable {past : List Closure}

theorem known_identities {w : List Closure} {v : Value} :
    (identities past).Known w v ↔ Recorded (past ++ w) v :=
  Iff.rfl

theorem identities_records {event : Event} (other : event.isDefinition = false) (w : List Closure) :
    (identities past).Records event w w where
  later := List.prefix_refl w
  books := by
    rintro identity log ⟨count, told⟩
    refine ⟨count, ?_⟩
    rw [List.reverse_cons, definitions_append, told]
    simp [definitions, other]

theorem identities_defines (w : List Closure) (closure : Closure) :
    (identities past).Defines w closure := by
  refine ⟨w ++ [closure], List.prefix_append w [closure], ?_⟩
  rintro identity log ⟨rfl, told⟩
  refine ⟨⟨by simp [Nat.add_assoc], ?_⟩, by simp [identities]⟩
  rw [List.reverse_cons, definitions_append, told]
  simp [definitions, Event.isDefinition, Closure.announcement]

theorem identities_preserved (past : List Closure) :
    (identities past).Preserved fun _ => True where
  operand _ _ _ _ := trivial
  form _ _ _ _ := trivial
  body _ := trivial
  applying _ _ _ w := ⟨w, identities_records rfl w, fun _ _ _ _ _ closure _ =>
    identities_defines w closure⟩
  calling _ := ⟨_, identities_records rfl _⟩

end Invariant

namespace Session

/-- Bound in an environment of the session, or the last value. -/
def Holds (s : Session) (v : Value) : Prop :=
  (∃ environment env name, s.environment? environment = some env ∧ env.get? name = some v) ∨
    s.last = some v

/-- What an evaluation step logs, oldest first. The other steps log nothing. -/
def records (s : Session) (depth : Nat) : Step → List Event
  | .evaluate input task =>
    match input.read with
    | .error _ => []
    | .ok tokens =>
      match s.plan depth tokens task with
      | .error _ => []
      | .ok x =>
        match (x.run ⟨s.env, s.identity, []⟩).state? with
        | some t => t.log.reverse
        | none => []
  | _ => []

/-- Steps of all kinds one after the other, and what they log. Steps may fail, but none of them is
refused. -/
inductive Runs (first : Session) : List Event → Session → Prop where
  | nothing : Runs first [] first
  | step {log : List Event} {s t : Session} {depth : Nat} {step : Step} {reply : Reply}
      (before : Runs first log s) (stepped : s.step depth step = .ok (reply, t)) :
      Runs first (log ++ s.records depth step) t

inductive Plans (s : Session) (depth : Nat) : Eval (Option Value) → Prop where
  | expression (level : Nat) (e : Expr) : Plans s depth (eval level e)
  | call {name : String} {identity : Nat} {closure : Closure}
      (bound : s.env.get? name = some (.function identity closure)) (args : List Expr)
      (location : Location) : Plans s depth (callClosure (eval depth) closure args location)
  | builtin (builtin : Builtin) (args : List Expr) (location : Location) :
      Plans s depth (callBuiltin (eval depth) builtin args location)
  | typed (expected : Expected) (e : Expr) : Plans s depth (typed depth e expected)

theorem plans_of_plan {s : Session} {depth : Nat} {tokens : List Token} {task : Task}
    {x : Eval (Option Value)} (planned : s.plan depth tokens task = .ok x) : s.Plans depth x := by
  cases task with
  | program =>
    simp only [plan] at planned
    split at planned
    · cases planned
      exact .expression depth _
    · cases planned
  | form index =>
    obtain ⟨g, _, planned⟩ := ok_of_bind planned
    cases planned
    exact .expression depth _
  -- To look up an atom or to apply a list is one level of its evaluation.
  | atom index =>
    simp only [plan] at planned
    split at planned
    · cases planned
      exact .expression (depth + 1) (.atom _)
    · cases planned
  | application index location =>
    obtain ⟨g, _, planned⟩ := ok_of_bind planned
    cases planned
    exact .expression (depth + 1) (.list g.items location)
  | call name index location =>
    obtain ⟨g, _, planned⟩ := ok_of_bind planned
    split at planned
    · rename_i bound
      cases planned
      exact .call bound g.items location
    · cases planned
  | builtin builtin index location =>
    obtain ⟨g, _, planned⟩ := ok_of_bind planned
    cases planned
    exact .builtin builtin g.items location
  | typed expected index =>
    obtain ⟨g, _, planned⟩ := ok_of_bind planned
    split at planned
    · cases planned
    · cases planned
      exact .typed expected _

section

variable {inv : Invariant} {w : inv.World} {depth : Nat}

theorem call_coupled (kept : inv.Preserved fun _ => True) {identity : Nat} {closure : Closure}
    (known : inv.knows w identity closure) (args : List Expr) (location : Location) :
    inv.coupling.Coupled inv.coupling.Answers w (callClosure (eval depth) closure args location)
      (callClosure (eval depth) closure args location) := by
  have below := kept.eval_coupled depth
  have same := SameSimulation.same_list fun e (_ : e ∈ args) => trivial
  exact kept.simulates.callClosure_coupled below (kept.bodies below) ⟨rfl, identity, known⟩ same
    fun _ => rfl

theorem builtin_coupled (kept : inv.Preserved fun _ => True)
    (defines : ∀ w closure, inv.Defines w closure) (builtin : Builtin) (args : List Expr)
    (location : Location) :
    inv.coupling.Coupled inv.coupling.Answers w (callBuiltin (eval depth) builtin args location)
      (callBuiltin (eval depth) builtin args location) := by
  have same := SameSimulation.same_list fun e (_ : e ∈ args) => trivial
  refine kept.simulates.callBuiltin_coupled (kept.eval_coupled depth) rfl rfl rfl (fun _ => same) ?_
  intro _ name params body name' params' body' left right
  rw [left] at right
  cases right
  exact Comparison.checks_self (fun closure _ => Invariant.defines_coupled (defines w closure))
    fun _ _ => rfl

theorem typed_coupled (kept : inv.Preserved fun _ => True) (expected : Expected) (e : Expr) :
    inv.coupling.Coupled inv.coupling.Answers w (typed depth e expected)
      (typed depth e expected) := by
  have below := kept.eval_coupled depth
  have same : e = e ∧ True := ⟨rfl, trivial⟩
  cases expected with
  | integer =>
    apply Coupling.coupled_bind (kept.simulates.evalInteger_coupled below same)
    rintro w' word _ _ rfl
    exact Coupling.coupled_pure (.some (inv.coupling.integer w' word))
  | boolean =>
    apply Coupling.coupled_bind (kept.simulates.evalBoolean_coupled below same)
    rintro w' truth _ _ rfl
    exact Coupling.coupled_pure (.some (inv.coupling.boolean w' truth))
  | value =>
    apply Coupling.coupled_bind (kept.simulates.evalValue_coupled below same)
    intro w' v v' _ like
    exact Coupling.coupled_pure (.some like)

theorem plan_coupled (kept : inv.Preserved fun _ => True)
    (defines : ∀ w closure, inv.Defines w closure) {s : Session} {tokens : List Token} {task : Task}
    {x : Eval (Option Value)} (planned : s.plan depth tokens task = .ok x)
    (known : inv.KnownAll w s.env) : inv.coupling.Coupled inv.coupling.Answers w x x := by
  cases plans_of_plan planned with
  | expression level e => exact (kept.eval_coupled level).answers ⟨rfl, trivial⟩
  | call bound args location =>
    exact call_coupled kept (known _ _ bound _ _ rfl) args location
  | builtin builtin args location => exact builtin_coupled kept defines builtin args location
  | typed expected e => exact typed_coupled kept expected e

end

/-- Every function in the session is one of those that were made, and they are counted right. -/
structure Accounted (closures : List Closure) (s : Session) : Prop where
  count : s.identity = closures.length
  current : RecordedAll closures s.env
  others : ∀ other ∈ s.others, RecordedAll closures other.2
  last : ∀ v, s.last = some v → Recorded closures v

section

variable {closures more : List Closure} {s t : Session} {reply : Reply}

theorem Accounted.env_recorded (accounted : Accounted closures s) {name : String}
    {env : Environment} (found : s.environment? name = some env) : RecordedAll closures env := by
  unfold environment? at found
  split at found
  · cases found
    exact accounted.current
  · obtain ⟨before, after, split, _⟩ := List.lookup_eq_some_iff.mp found
    exact accounted.others (name, env) (by simp [split])

theorem Accounted.recorded (accounted : Accounted closures s) {v : Value} (held : s.Holds v) :
    Recorded closures v := by
  rcases held with ⟨environment, env, name, found, bound⟩ | last
  · exact accounted.env_recorded found name v bound
  · exact accounted.last v last

theorem Accounted.operand (accounted : Accounted closures s) {operand : Operand} {v : Value}
    (read : s.operand operand = .ok v) : Recorded closures v := by
  rcases operand with word | truth | name | _
  · cases read
    exact nofun
  · cases read
    exact nofun
  · simp only [Session.operand] at read
    split at read
    · rename_i bound
      cases read
      exact accounted.current name v bound
    · cases read
  · simp only [Session.operand] at read
    split at read
    · rename_i last
      cases read
      exact accounted.last v last
    · cases read

theorem Accounted.operands (accounted : Accounted closures s) {operands : List Operand}
    {values : List Value} (read : operands.mapM s.operand = .ok values) :
    ∀ v ∈ values, Recorded closures v := by
  induction operands generalizing values with
  | nil =>
    cases read
    exact nofun
  | cons operand later ih =>
    rw [List.mapM_cons] at read
    obtain ⟨v, first, read⟩ := ok_of_bind read
    obtain ⟨others, rest, read⟩ := ok_of_bind read
    cases read
    intro w member
    rcases List.mem_cons.mp member with rfl | member
    · exact accounted.operand first
    · exact ih rest w member

theorem Accounted.switch (accounted : Accounted closures s) {env : Environment}
    (recorded : RecordedAll closures env) (name : String) :
    Accounted closures (s.switch name env) where
  count := accounted.count
  current := recorded
  others := by
    intro other member
    rcases List.mem_cons.mp (List.mem_filter.mp member).1 with rfl | member
    · exact accounted.current
    · exact accounted.others other member
  last := accounted.last

theorem Accounted.holds (accounted : Accounted closures s) :
    (Invariant.identities closures).Holds [] ⟨s.env, s.identity, []⟩ where
  bindings := by
    intro name v bound
    rw [Invariant.known_identities, List.append_nil]
    exact accounted.current name v bound
  books := ⟨by rw [List.append_nil]; exact accounted.count, rfl⟩

theorem Accounted.visited (accounted : Accounted closures s) {depth below : Nat} {e node : Expr}
    {after : State} (visits : Visits depth e ⟨s.env, s.identity, []⟩ below node after) :
    ∃ more, after.identity = (closures ++ more).length ∧
      definitions after.log.reverse = more.map Closure.announcement ∧
        RecordedAll (closures ++ more) after.env := by
  obtain ⟨_, more, there⟩ :=
    (Invariant.identities_preserved closures).visited visits trivial accounted.holds
  exact ⟨more, there.books.1, there.books.2, there.bindings⟩

theorem Accounted.evaluate (accounted : Accounted closures s) {x : Eval (Option Value)}
    (coupled : (Invariant.identities closures).coupling.Coupled
      (Invariant.identities closures).coupling.Answers [] x x)
    (evaluated : Session.evaluate s x = .ok (reply, t)) :
    ∃ after more, (x.run ⟨s.env, s.identity, []⟩).state? = some after ∧
      definitions after.log.reverse = more.map Closure.announcement ∧
        Accounted (closures ++ more) t := by
  have ends := Invariant.ends_of_coupled coupled accounted.holds
  unfold Session.evaluate at evaluated
  generalize x.run ⟨s.env, s.identity, []⟩ = outcome at ends evaluated
  cases ends with
  | @done more result after later known holds =>
    cases evaluated
    obtain ⟨count, told⟩ := holds.books
    refine ⟨after, more, rfl, told, count, holds.bindings, ?_, known⟩
    exact fun other member => (accounted.others other member).append more
  | @failed more e after later holds =>
    cases evaluated
    obtain ⟨count, told⟩ := holds.books
    refine ⟨after, more, rfl, told, count, holds.bindings, ?_, ?_⟩
    · exact fun other member => (accounted.others other member).append more
    · exact fun v last => (accounted.last v last).append more
  | tooDeep => cases evaluated

theorem Accounted.quiet (accounted : Accounted closures s) :
    ∃ more, definitions [] = more.map Closure.announcement ∧ Accounted (closures ++ more) s := by
  refine ⟨[], rfl, ?_⟩
  rw [List.append_nil]
  exact accounted

theorem Accounted.step_evaluate (accounted : Accounted closures s) {depth : Nat} {input : Input}
    {task : Task} (stepped : s.step depth (.evaluate input task) = .ok (reply, t)) :
    ∃ more, definitions (s.records depth (.evaluate input task)) = more.map Closure.announcement ∧
      Accounted (closures ++ more) t := by
  simp only [Session.step] at stepped
  split at stepped
  · rename_i e unread
    cases stepped
    simp only [records, unread]
    exact accounted.quiet
  · rename_i tokens read
    split at stepped
    · rename_i x planned
      have kept := Invariant.identities_preserved closures
      have coupled :=
        plan_coupled kept Invariant.identities_defines planned accounted.holds.bindings
      obtain ⟨after, more, ended, told, next⟩ := accounted.evaluate coupled stepped
      exact ⟨more, by simp only [records, read, planned, ended, told], next⟩
    · rename_i e halted
      cases stepped
      simp only [records, read, halted]
      exact accounted.quiet
    · cases stepped

theorem Accounted.step_define (accounted : Accounted closures s) {depth : Nat} {name : String}
    {operand : Operand} (stepped : s.step depth (.define name operand) = .ok (reply, t)) :
    Accounted closures t := by
  obtain ⟨v, read, stepped⟩ := ok_of_bind stepped
  cases stepped
  refine ⟨accounted.count, ?_, accounted.others, accounted.last⟩
  refine accounted.current.copies (Environment.copies_define s.env name v) ?_
  intro _ _ member
  cases List.mem_singleton.mp member
  exact accounted.operand read

theorem Accounted.step_snapshot (accounted : Accounted closures s) {depth : Nat} {target : String}
    {params : List String} {args : List Operand}
    (stepped : s.step depth (.snapshot target params args) = .ok (reply, t)) :
    Accounted closures t := by
  obtain ⟨values, read, stepped⟩ := ok_of_bind stepped
  cases stepped
  refine accounted.switch (accounted.current.copies (s.env.copies_snapshot params values) ?_) target
  intro _ v member
  exact accounted.operands read v (List.of_mem_zip member).2

theorem Accounted.step_use (accounted : Accounted closures s) {depth : Nat} {environment : String}
    (stepped : s.step depth (.use environment) = .ok (reply, t)) : Accounted closures t := by
  simp only [Session.step] at stepped
  split at stepped
  · rename_i env found
    cases stepped
    exact accounted.switch (accounted.env_recorded found) environment
  · cases stepped

theorem eq_of_step_same {depth : Nat} {a b : Operand}
    (stepped : s.step depth (.same a b) = .ok (reply, t)) : t = s := by
  obtain ⟨v, _, stepped⟩ := ok_of_bind stepped
  obtain ⟨w, _, stepped⟩ := ok_of_bind stepped
  cases stepped
  rfl

theorem eq_of_step_sameEnvironment {depth : Nat} {a b : String}
    (stepped : s.step depth (.sameEnvironment a b) = .ok (reply, t)) : t = s := by
  simp only [Session.step] at stepped
  split at stepped
  · cases stepped
    rfl
  · cases stepped
  · cases stepped

theorem Accounted.step (accounted : Accounted closures s) {depth : Nat} {step : Step}
    (stepped : s.step depth step = .ok (reply, t)) :
    ∃ more, definitions (s.records depth step) = more.map Closure.announcement ∧
      Accounted (closures ++ more) t := by
  cases step with
  | evaluate input task => exact accounted.step_evaluate stepped
  | define name operand => exact (accounted.step_define stepped).quiet
  | get name =>
    cases stepped
    exact accounted.quiet
  | snapshot target params args => exact (accounted.step_snapshot stepped).quiet
  | new target =>
    cases stepped
    exact (accounted.switch (recordedAll_empty closures) target).quiet
  | use environment => exact (accounted.step_use stepped).quiet
  | same a b =>
    cases eq_of_step_same stepped
    exact accounted.quiet
  | sameEnvironment a b =>
    cases eq_of_step_sameEnvironment stepped
    exact accounted.quiet

theorem accounted_start : Accounted [] start where
  count := rfl
  current := recordedAll_empty []
  others := nofun
  last := nofun

theorem Accounted.runs (accounted : Accounted closures s) {log : List Event}
    (ran : s.Runs log t) :
    ∃ more, definitions log = more.map Closure.announcement ∧ Accounted (closures ++ more) t := by
  induction ran with
  | nothing => exact accounted.quiet
  | step before stepped ih =>
    obtain ⟨more, told, between⟩ := ih
    obtain ⟨further, added, after⟩ := between.step stepped
    refine ⟨more ++ further, ?_, ?_⟩
    · rw [definitions_append, told, added, List.map_append]
    · rw [← List.append_assoc]
      exact after

end

end Session

namespace Value

theorem same_refl (v : Value) : v.same v := by
  cases v <;> simp [same]

theorem same_symm {v w : Value} (equal : v.same w) : w.same v := by
  cases v <;> cases w <;> simp_all [same]

theorem same_trans {u v w : Value} (first : u.same v) (second : v.same w) : u.same w := by
  cases u <;> cases v <;> cases w <;> simp_all [same]

theorem typeName_eq_of_same {v w : Value} (equal : v.same w) : v.typeName = w.typeName := by
  cases v <;> cases w <;> simp_all [same, typeName]

end Value

section

variable {closures : List Closure} {identity identity' : Nat} {closure closure' : Closure}

theorem eq_of_same (found : closures[identity]? = some closure)
    (found' : closures[identity']? = some closure')
    (equal : (Value.function identity closure).same (.function identity' closure')) :
    identity = identity' ∧ closure = closure' := by
  have numbers : identity = identity' := by simpa [Value.same] using equal
  subst numbers
  rw [found] at found'
  exact ⟨rfl, Option.some.inj found'⟩

theorem same_iff_numbered (found : closures[identity]? = some closure)
    (found' : closures[identity']? = some closure') :
    (Value.function identity closure).same (.function identity' closure') ↔
      ∃ n : Nat, (numbered closures)[n]? = some (.function identity closure) ∧
        (numbered closures)[n]? = some (.function identity' closure') := by
  constructor
  · intro equal
    obtain ⟨rfl, rfl⟩ := eq_of_same found found' equal
    have listed : (numbered closures)[identity]? = some (.function identity closure) := by
      rw [getElem?_numbered, found]
      rfl
    exact ⟨identity, listed, listed⟩
  · rintro ⟨n, first, second⟩
    rw [first] at second
    cases second
    exact Value.same_refl _

theorem not_same_of_numbered {v : Value} (member : v ∈ numbered closures)
    (later : closures.length ≤ identity) (closure : Closure) :
    v.same (.function identity closure) = false := by
  obtain ⟨identity', closure', found, rfl⟩ := mem_numbered_iff.mp member
  have before := (List.getElem?_eq_some_iff.mp found).1
  simp only [Value.same, beq_eq_false_iff_ne]
  omega

end

theorem callClosure_copies {ev : Evaluator} {closure : Closure} {args : List Expr}
    {location : Location} {s t : State} {result : Option Value}
    (called : (callClosure ev closure args location).run s = .done result t) :
    ∃ values mid inner last, (evalValues ev args).run s = .done values mid ∧
      mid.env.Copies (closure.params.zip values) inner.env ∧
        (evalBody ev closure.body).run inner = .done result last := by
  unfold callClosure at called
  rw [Eval.run_bind] at called
  cases ran : (evalValues ev args).run s with
  | done values mid =>
    rw [ran] at called
    dsimp only at called
    split at called
    · change (Eval.within (mid.env.snapshot closure.params values) (evalBody ev closure.body)).run
        (mid.emit (.calling closure.name values.length)) = .done result t at called
      rw [Eval.run_within] at called
      split at called
      · rename_i found last ended
        cases called
        exact ⟨values, mid, _, last, rfl, mid.env.copies_snapshot closure.params values, ended⟩
      · cases called
      · cases called
    · cases called
  | failed e mid =>
    rw [ran] at called
    cases called
  | tooDeep =>
    rw [ran] at called
    cases called

/-- What is known of a session that has logged this and made these functions. -/
structure Session.Identified (s : Session) (log : List Event) (made : List Value) : Prop where
  listed : Made log made
  held : ∀ identity closure, s.Holds (.function identity closure) →
    .function identity closure ∈ made
  equal : ∀ identity closure identity' closure', s.Holds (.function identity closure) →
    s.Holds (.function identity' closure') →
      ((Value.function identity closure).same (.function identity' closure') ↔
        ∃ n : Nat, made[n]? = some (.function identity closure) ∧
          made[n]? = some (.function identity' closure')) ∧
      ((Value.function identity closure).same (.function identity' closure') → closure = closure')
  fresh : ∀ depth e below head args location t result t',
    Visits depth e ⟨s.env, s.identity, []⟩ below (.list (head :: args) location) t →
      head.identifier? = some "func" →
        (eval below (.list (head :: args) location)).run t = .done result t' →
          ∃ recent identity closure, result = some (.function identity closure) ∧
            (Expr.list (head :: args) location).Defines closure ∧
            Made (log ++ t.log.reverse) (made ++ recent) ∧
            (∀ name identity' closure', t.env.get? name = some (.function identity' closure') →
              .function identity' closure' ∈ made ++ recent) ∧
            ∀ v ∈ made ++ recent, v.same (.function identity closure) = false

namespace Session

theorem Accounted.identified {closures : List Closure} {s : Session} {log : List Event}
    (accounted : Accounted closures s)
    (told : definitions log = closures.map Closure.announcement) :
    s.Identified log (numbered closures) where
  listed := made_numbered told
  held := by
    intro identity closure held
    exact mem_numbered_iff.mpr ⟨_, _, accounted.recorded held identity closure rfl, rfl⟩
  equal := by
    intro identity closure identity' closure' held held'
    have found := accounted.recorded held identity closure rfl
    have found' := accounted.recorded held' identity' closure' rfl
    exact ⟨same_iff_numbered found found', fun equal => (eq_of_same found found' equal).2⟩
  fresh := by
    intro depth e below head args location t result t' visits keyword ended
    obtain ⟨closure, defines, rfl, _⟩ := eval_definition keyword ended
    obtain ⟨more, count, since, there⟩ := accounted.visited visits
    obtain ⟨recent, same⟩ := numbered_append closures more
    refine ⟨recent, t.identity, closure, rfl, defines, ?_, ?_, ?_⟩
    · rw [← same]
      apply made_numbered
      rw [definitions_append, told, since, List.map_append]
    · intro name identity' closure' bound
      rw [← same]
      exact mem_numbered_iff.mpr ⟨_, _, there name _ bound identity' closure' rfl, rfl⟩
    · intro v member
      rw [← same] at member
      exact not_same_of_numbered member (Nat.le_of_eq count.symm) closure

end Session

/-- The identity of functions over any session. The functions made so far stand in one list, told
apart by their places in it, and those of later steps come behind. Functions in reach are the same
exactly where they were made by the same definition; a definition that is evaluated anywhere on the
way makes one that is not the same as any before. To bind a value, to copy it, to pass it on and to
return it leaves it as it is. What it is for values to be the same is an equivalence that keeps
their types apart. -/
theorem function_identity_sound {early late : List Event} {s t : Session}
    (before : Session.start.Runs early s) (after : s.Runs late t) :
    (∃ old new, s.Identified early old ∧ t.Identified (early ++ late) (old ++ new)) ∧
    (∀ depth name operand reply u, t.step depth (.define name operand) = .ok (reply, u) →
      ∃ v, t.operand operand = .ok v ∧ t.env.Copies [(name, v)] u.env) ∧
    (∀ depth target params operands reply u,
      t.step depth (.snapshot target params operands) = .ok (reply, u) →
        ∃ values, operands.mapM t.operand = .ok values ∧ u.environment? target = some u.env ∧
          t.env.Copies (params.zip values) u.env) ∧
    (∀ ev closure args location a b result,
      (callClosure ev closure args location).run a = .done result b →
        ∃ values mid inner last, (evalValues ev args).run a = .done values mid ∧
          mid.env.Copies (closure.params.zip values) inner.env ∧
            (evalBody ev closure.body).run inner = .done result last) ∧
    (∀ v : Value, v.same v) ∧ (∀ v w : Value, v.same w → w.same v) ∧
    (∀ u v w : Value, u.same v → v.same w → u.same w) ∧
    ∀ v w : Value, v.same w → v.typeName = w.typeName := by
  obtain ⟨closures, told, accounted⟩ := Session.accounted_start.runs before
  obtain ⟨more, added, next⟩ := accounted.runs after
  rw [List.nil_append] at accounted next
  obtain ⟨new, same⟩ := numbered_append closures more
  refine ⟨⟨numbered closures, new, accounted.identified told, ?_⟩, ?_, ?_,
    fun _ _ _ _ _ _ _ => callClosure_copies, Value.same_refl, fun _ _ => Value.same_symm,
    fun _ _ _ => Value.same_trans, fun _ _ => Value.typeName_eq_of_same⟩
  · rw [← same]
    apply next.identified
    rw [definitions_append, told, added, List.map_append]
  · intro depth name operand reply u stepped
    obtain ⟨v, read, stepped⟩ := ok_of_bind stepped
    cases stepped
    exact ⟨v, read, t.env.copies_define name v⟩
  · intro depth target params operands reply u stepped
    obtain ⟨values, read, stepped⟩ := ok_of_bind stepped
    cases stepped
    exact ⟨values, read, if_pos rfl, t.env.copies_snapshot params values⟩

/-- Two definitions with the same text, the second one in a copy of the environment of the first and
in a program that fails behind it, so that the last value stays the first function. -/
theorem function_identity_sound_of_copy :
    ∃ (early late : List Event) (s t : Session) (globals : Environment) (identity identity' : Nat)
      (c d : Closure) (made : List Value), Session.start.Runs early s ∧ s.Runs late t ∧
      t.environment? "globals" = some globals ∧ globals.get? "f" = some (.function identity c) ∧
      t.name = "copy" ∧ t.env.get? "f" = some (.function identity' d) ∧
      (Value.function identity c).same (.function identity' d) = false ∧
      t.last.map (Value.same (.function identity c)) = some true ∧
      t.Identified (early ++ late) made ∧
      .function identity c ∈ made ∧ .function identity' d ∈ made := by
  have told : ((Session.start.step 5 (.evaluate (.text "(func f () (+))") .program)).toOption.bind
      fun r => (r.2.step 5 (.snapshot "copy" [] [])).toOption.bind
      fun s => (s.2.step 5 (.evaluate (.text "(func f () (+)) (oops)") .program)).toOption.bind
      fun t => (t.2.environment? "globals").bind fun globals => (globals.get? "f").bind
      fun v => (t.2.env.get? "f").map
      fun w => (t.2.name, Value.describe (some v), Value.describe (some w), v.same w,
        t.2.last.map v.same)) =
      some ("copy", "function", "function", false, some true) := by decide +kernel
  obtain ⟨⟨first, r⟩, stepped, told⟩ := Option.bind_eq_some_iff.mp told
  obtain ⟨⟨second, s⟩, stepped', told⟩ := Option.bind_eq_some_iff.mp told
  obtain ⟨⟨third, t⟩, stepped'', told⟩ := Option.bind_eq_some_iff.mp told
  obtain ⟨globals, found, told⟩ := Option.bind_eq_some_iff.mp told
  obtain ⟨v, bound, told⟩ := Option.bind_eq_some_iff.mp told
  obtain ⟨w, bound', told⟩ := Option.map_eq_some_iff.mp told
  simp only [Prod.mk.injEq] at told
  obtain ⟨current, kind, kind', other, last⟩ := told
  obtain ⟨identity, c, ⟨⟩⟩ := function_of_describe kind
  obtain ⟨identity', d, ⟨⟩⟩ := function_of_describe kind'
  have early : Session.start.Runs _ s :=
    .step (.step .nothing (ok_of_toOption stepped)) (ok_of_toOption stepped')
  have late : s.Runs _ t := .step .nothing (ok_of_toOption stepped'')
  obtain ⟨⟨old, new, _, identified⟩, _⟩ := function_identity_sound early late
  refine ⟨_, _, s, t, globals, identity, identity', c, d, _, early, late, found, bound, current,
    bound', other, last, identified, ?_, ?_⟩
  · exact identified.held identity c (Or.inl ⟨_, _, _, found, bound⟩)
  · exact identified.held identity' d (Or.inl ⟨_, _, _, if_pos rfl, bound'⟩)

end SnapshotLisp
