import SnapshotLisp.Proofs.Calling
import SnapshotLisp.Proofs.Identity
import Mathlib.Data.Set.Card

/-!
Environments as finite maps. Whatever environments are made, bound in and copied, and in whatever
order, each of them holds for a name what its own history bound to that name last. What can be seen
of an environment is what it holds: its size counts the names that are bound, and it is the same as
another one exactly where the two hold the same for every name.
-/
namespace SnapshotLisp

namespace Environment

theorem get?_eq_some_iff {env : Environment} {name : String} {value : Value} :
    env.get? name = some value ↔ (name, value) ∈ env.bindings := by
  constructor
  · intro found
    obtain ⟨before, after, split, _⟩ := List.lookup_eq_some_iff.mp found
    simp [split]
  · intro member
    obtain ⟨before, after, split⟩ := List.append_of_mem member
    refine List.lookup_eq_some_iff.mpr ⟨before, after, split, ?_⟩
    -- Another binding of the name in front would be a second one.
    have distinct := env.distinct
    rw [split, List.map_append, List.map_cons, List.nodup_append] at distinct
    intro binding early
    have other := distinct.2.2 binding.1 (List.mem_map_of_mem early) name List.mem_cons_self
    simpa using other.symm

theorem mem_names_iff {env : Environment} {name : String} :
    name ∈ env.bindings.map Prod.fst ↔ env.get? name ≠ none := by
  rw [Option.ne_none_iff_exists', List.mem_map]
  constructor
  · rintro ⟨⟨_, value⟩, member, rfl⟩
    exact ⟨value, get?_eq_some_iff.mpr member⟩
  · rintro ⟨value, found⟩
    exact ⟨(name, value), get?_eq_some_iff.mp found, rfl⟩

theorem encard_bound_names (env : Environment) :
    {name | env.get? name ≠ none}.encard = env.size := by
  have names :
      {name | env.get? name ≠ none} = ((env.bindings.map Prod.fst).toFinset : Set String) := by
    ext name
    rw [Set.mem_ofPred_eq, ← mem_names_iff, Finset.mem_coe, List.mem_toFinset]
  rw [names, Set.encard_coe_eq_coe_finsetCard, List.toFinset_card_of_nodup env.distinct,
    List.length_map, size]

theorem isEmpty_iff_size (env : Environment) : env.isEmpty ↔ env.size = 0 := by
  rw [isEmpty, size, List.isEmpty_iff, List.length_eq_zero_iff]

theorem eq_none_iff_of_rel {α β : Type} {r : α → β → Prop} {x : Option α} {y : Option β}
    (related : Option.Rel r x y) : x = none ↔ y = none := by
  cases related with
  | some _ => simp
  | none => simp

def HoldAlike (a b : Environment) (name : String) : Prop :=
  Option.Rel (fun v w => v.same w) (a.get? name) (b.get? name)

theorem size_eq_of_alike {a b : Environment} (alike : ∀ name, a.HoldAlike b name) :
    a.size = b.size := by
  have names : {name | a.get? name ≠ none} = {name | b.get? name ≠ none} := by
    ext name
    exact not_congr (eq_none_iff_of_rel (alike name))
  have counts := congrArg Set.encard names
  rw [encard_bound_names, encard_bound_names] at counts
  exact_mod_cast counts

theorem same_iff_found {a b : Environment} :
    a.same b ↔ a.size = b.size ∧ ∀ name value, a.get? name = some value →
      ∃ other, b.get? name = some other ∧ value.same other := by
  simp only [same, Bool.and_eq_true, beq_iff_eq, List.all_eq_true, Prod.forall,
    ← get?_eq_some_iff]
  apply and_congr_right
  intro _
  apply forall₂_congr
  intro name value
  apply imp_congr_right
  intro _
  cases b.get? name <;> simp

theorem names_subset_of_found {a b : Environment}
    (found : ∀ name value, a.get? name = some value →
      ∃ other, b.get? name = some other ∧ value.same other) :
    a.bindings.map Prod.fst ⊆ b.bindings.map Prod.fst := by
  intro name member
  obtain ⟨value, bound⟩ := Option.ne_none_iff_exists'.mp (mem_names_iff.mp member)
  obtain ⟨other, bound, _⟩ := found name value bound
  exact mem_names_iff.mpr (by simp [bound])

theorem same_iff {a b : Environment} : a.same b ↔ ∀ name, a.HoldAlike b name := by
  rw [same_iff_found]
  constructor
  · rintro ⟨sizes, found⟩ name
    -- As many names on both sides, and all of the first on the second: so there are no others.
    have names : (a.bindings.map Prod.fst).Perm (b.bindings.map Prod.fst) := by
      apply (a.distinct.subperm (names_subset_of_found found)).perm_of_length_le
      rw [List.length_map, List.length_map]
      exact Nat.le_of_eq sizes.symm
    unfold HoldAlike
    cases bound : a.get? name with
    | some value =>
      obtain ⟨other, bound', same⟩ := found name value bound
      rw [bound']
      exact .some same
    | none =>
      have free : b.get? name = none := by
        by_contra bound'
        exact mem_names_iff.mp (names.mem_iff.mpr (mem_names_iff.mpr bound')) bound
      rw [free]
      exact .none
  · intro alike
    refine ⟨size_eq_of_alike alike, ?_⟩
    intro name value bound
    have here := alike name
    rw [HoldAlike, bound] at here
    generalize b.get? name = other at here
    cases here with
    | some same => exact ⟨_, rfl, same⟩

theorem snapshot_eq_take (env : Environment) (params : List String) (args : List Value) :
    let count := min params.length args.length
    env.snapshot params args = env.snapshot (params.take count) (args.take count) := by
  intro count
  rw [snapshot, snapshot, List.zip_eq_zip_take_min]

theorem get?_snapshot_of_surplus {name : String} {params : List String} {args : List Value}
    (other : name ∉ params.take (min params.length args.length)) (env : Environment) :
    (env.snapshot params args).get? name = env.get? name := by
  rw [snapshot_eq_take]
  exact get?_snapshot_of_not_mem other env _

theorem get?_snapshot_of_last_index {name : String} {value : Value} {params : List String}
    {args : List Value} {index : Nat} (param : params[index]? = some name)
    (arg : args[index]? = some value)
    (last : ∀ later, index < later → later < min params.length args.length →
      params[later]? ≠ some name) (env : Environment) :
    (env.snapshot params args).get? name = some value := by
  induction params generalizing args index env with
  | nil => simp at param
  | cons first params ih =>
    cases args with
    | nil => simp at arg
    | cons given args =>
      simp only [List.length_cons, Nat.add_min_add_right] at last
      cases index with
      | zero =>
        cases param
        cases arg
        have gone : name ∉ params.take (min params.length args.length) := by
          intro member
          obtain ⟨later, inside, found⟩ := List.mem_take_iff_getElem.mp member
          refine last (later + 1) (by omega) (by omega) ?_
          exact List.getElem?_eq_some_iff.mpr ⟨by simp only [List.length_cons]; omega, found⟩
        have rest := get?_snapshot_of_surplus gone (env.define name value)
        rw [get?_define, if_pos rfl] at rest
        exact rest
      | succ index =>
        refine ih param arg ?_ (env.define first given)
        intro later behind inside
        exact last (later + 1) (by omega) (by omega)

/-- Something that environments can be kept as: begun empty, bound in, and copied for a call. -/
structure Keeping (α : Type) where
  new : α
  define : α → String → Value → α
  snapshot : α → List String → List Value → α

inductive Action where
  | new (place : Nat)
  | define (place : Nat) (name : String) (value : Value)
  | snapshot (source target : Nat) (params : List String) (args : List Value)

namespace Keeping

variable {α β : Type}

/-- The copy goes to its target and the source stays where it is. A place that nothing was put in
gives nothing to bind in or to copy. -/
def act (kept : Keeping α) (places : Nat → Option α) : Action → Nat → Option α
  | .new place => Function.update places place (some kept.new)
  | .define place name value =>
    Function.update places place ((places place).map fun it => kept.define it name value)
  | .snapshot source target params args =>
    Function.update places target ((places source).map fun it => kept.snapshot it params args)

def run (kept : Keeping α) (actions : List Action) : Nat → Option α :=
  actions.foldl kept.act fun _ => none

def environments : Keeping Environment := ⟨.empty, .define, .snapshot⟩

/-- All that was ever bound, the latest at the end. A copy takes over what was bound before it was
made and adds the parameters in their order, as far as there are arguments for them. -/
def histories : Keeping (List (String × Value)) where
  new := []
  define history name value := history ++ [(name, value)]
  snapshot history params args := history ++ params.zip args

structure Agrees (r : α → β → Prop) (one : Keeping α) (other : Keeping β) : Prop where
  new : r one.new other.new
  define : ∀ {a b}, r a b → ∀ name value, r (one.define a name value) (other.define b name value)
  snapshot : ∀ {a b}, r a b → ∀ params args,
    r (one.snapshot a params args) (other.snapshot b params args)

variable {r : α → β → Prop} {one : Keeping α} {other : Keeping β}

theorem rel_map {x : Option α} {y : Option β} (related : Option.Rel r x y) {f : α → α} {g : β → β}
    (both : ∀ {a b}, r a b → r (f a) (g b)) : Option.Rel r (x.map f) (y.map g) := by
  cases related with
  | some here => exact .some (both here)
  | none => exact .none

theorem rel_update {places : Nat → Option α} {places' : Nat → Option β}
    (related : ∀ place, Option.Rel r (places place) (places' place)) {x : Option α} {y : Option β}
    (here : Option.Rel r x y) (target place : Nat) :
    Option.Rel r (Function.update places target x place)
      (Function.update places' target y place) := by
  rw [Function.update_apply, Function.update_apply]
  split
  · exact here
  · exact related place

theorem Agrees.act (agrees : Agrees r one other) {places : Nat → Option α}
    {places' : Nat → Option β} (related : ∀ place, Option.Rel r (places place) (places' place))
    (action : Action) (place : Nat) :
    Option.Rel r (one.act places action place) (other.act places' action place) := by
  cases action with
  | new target => exact rel_update related (.some agrees.new) target place
  | define target name value =>
    apply rel_update related
    exact rel_map (related target) fun here => agrees.define here name value
  | snapshot source target params args =>
    apply rel_update related
    exact rel_map (related source) fun here => agrees.snapshot here params args

theorem Agrees.run (agrees : Agrees r one other) (actions : List Action) (place : Nat) :
    Option.Rel r (one.run actions place) (other.run actions place) := by
  unfold Keeping.run
  induction actions using List.reverseRecOn generalizing place with
  | nil => exact .none
  | append_singleton actions action ih =>
    rw [List.foldl_append, List.foldl_append]
    exact agrees.act ih action place

theorem environments_agree : Agrees (fun env history => empty.Copies history env)
    environments histories where
  new := fun _ => rfl
  define := fun here name value => copies_append here (copies_define _ name value)
  snapshot := fun here params args => copies_append here (copies_snapshot _ params args)

end Keeping

/-- The history binds the name to the value, and behind that it does not bind the name again. -/
def Latest (history : List (String × Value)) (name : String) (value : Value) : Prop :=
  ∃ early late, history = early ++ (name, value) :: late ∧
    ∀ binding ∈ late, name ≠ binding.1

theorem get?_eq_some_iff_latest {env : Environment} {history : List (String × Value)}
    (copies : empty.Copies history env) {name : String} {value : Value} :
    env.get? name = some value ↔ Latest history name value := by
  rw [copies name, get?_empty, Option.or_none, List.lookup_eq_some_iff]
  constructor
  · rintro ⟨late, early, split, free⟩
    refine ⟨early.reverse, late.reverse, ?_, ?_⟩
    · rw [← List.reverse_reverse history, split]
      simp
    · simpa using free
  · rintro ⟨early, late, rfl, free⟩
    refine ⟨late.reverse, early.reverse, by simp, ?_⟩
    simpa using free

/-- Environments are finite maps, however they were made. Each one holds what its history bound
last, no more names than that, and it is told apart from others by nothing else. A copy leaves all
other places as they are. In it a name has the argument of the last parameter of that name that has
an argument, and any other name has the value it had. -/
theorem environments_are_finite_maps (actions : List Action) :
    let kept := Keeping.environments.run actions
    let noted := Keeping.histories.run actions
    (∀ place, kept place = none ↔ noted place = none) ∧
    (∀ place env history, kept place = some env → noted place = some history →
      (∀ name value, env.get? name = some value ↔ Latest history name value) ∧
      {name | env.get? name ≠ none}.encard = env.size ∧
      (env.isEmpty ↔ env.size = 0)) ∧
    (∀ env env' : Environment, env.same env' ↔ ∀ name, env.HoldAlike env' name) ∧
    ∀ source target env params args, kept source = some env →
      let count := min params.length args.length
      let after := Keeping.environments.act kept (.snapshot source target params args)
      (∀ place, place ≠ target → after place = kept place) ∧
      ∃ copy, after target = some copy ∧
        (∀ name, name ∉ params.take count → copy.get? name = env.get? name) ∧
        ∀ index name value, params[index]? = some name → args[index]? = some value →
          (∀ later, index < later → later < count → params[later]? ≠ some name) →
            copy.get? name = some value := by
  intro kept noted
  have related := Keeping.environments_agree.run actions
  refine ⟨?_, ?_, ?_, ?_⟩
  · intro place
    exact eq_none_iff_of_rel (related place)
  · intro place env history here there
    have copies : Option.Rel _ (kept place) (noted place) := related place
    rw [here, there, Option.rel_some_some] at copies
    exact ⟨fun _ _ => get?_eq_some_iff_latest copies, encard_bound_names env, isEmpty_iff_size env⟩
  · intro env env'
    exact same_iff
  · intro source target env params args here count after
    refine ⟨?_, env.snapshot params args, ?_, ?_, ?_⟩
    · intro place other
      exact Function.update_of_ne other _ _
    · change Function.update kept target ((kept source).map _) target = _
      rw [Function.update_self, here]
      rfl
    · intro name other
      exact get?_snapshot_of_surplus other env
    · intro index name value param arg last
      exact get?_snapshot_of_last_index param arg last env

-- Two bindings made in either order, and one of them made twice.
example :
    ((empty.define "x" (.integer 1)).snapshot ["y", "x", "y"] [.integer 2]).same
      (((empty.define "y" (.integer 3)).define "x" (.integer 1)).define "y" (.integer 2)) := by
  decide

end Environment

end SnapshotLisp
