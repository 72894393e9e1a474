import SnapshotLisp.Value

/-!
Environments: finite maps from names to values. A name is bound at most once, and binding it again
replaces the value. The order of the list is not observable; whoever shows bindings sorts them.
-/
namespace SnapshotLisp

structure Environment where
  bindings : List (String × Value)
  distinct : (bindings.map Prod.fst).Nodup

namespace Environment

def empty : Environment := ⟨[], List.nodup_nil⟩

def get? (env : Environment) (name : String) : Option Value := env.bindings.lookup name

theorem erase_names_sublist (name : String) (bindings : List (String × Value)) :
    ((bindings.filter fun b => b.1 != name).map Prod.fst).Sublist (bindings.map Prod.fst) :=
  List.filter_sublist.map Prod.fst

theorem name_not_mem_erase (name : String) (bindings : List (String × Value)) :
    name ∉ (bindings.filter fun b => b.1 != name).map Prod.fst := by
  simp

def define (env : Environment) (name : String) (value : Value) : Environment where
  bindings := (name, value) :: env.bindings.filter fun b => b.1 != name
  distinct := by
    rw [List.map_cons, List.nodup_cons]
    exact ⟨name_not_mem_erase name env.bindings,
      env.distinct.sublist (erase_names_sublist name env.bindings)⟩

/-- A copy with each parameter bound to the argument in its place, from left to right. Whatever is
left over on either side binds nothing. -/
def snapshot (env : Environment) (params : List String) (args : List Value) : Environment :=
  (params.zip args).foldl (fun copy b => copy.define b.1 b.2) env

def size (env : Environment) : Nat := env.bindings.length

def isEmpty (env : Environment) : Bool := env.bindings.isEmpty

def sorted (env : Environment) : List (String × Value) :=
  env.bindings.mergeSort fun a b => !decide (b.1 < a.1)

def same (a b : Environment) : Bool :=
  a.size == b.size &&
    a.bindings.all fun (name, value) =>
      match b.get? name with
      | none => false
      | some other => value.same other

theorem lookup_filter_ne {name other : String} (bindings : List (String × Value))
    (different : other ≠ name) :
    (bindings.filter fun b => b.1 != name).lookup other = bindings.lookup other := by
  have skipped : (other == name) = false := by simp [different]
  induction bindings with
  | nil => rfl
  | cons b later ih =>
    obtain ⟨key, value⟩ := b
    by_cases replaced : key = name
    · simp [List.lookup_cons, replaced, skipped, ih]
    · simp [List.lookup_cons, replaced, ih]

@[simp] theorem get?_empty (name : String) : empty.get? name = none := rfl

theorem get?_define (env : Environment) (name : String) (value : Value) (other : String) :
    (env.define name value).get? other = if other = name then some value else env.get? other := by
  unfold get? define
  by_cases same : other = name
  · simp [same]
  · have skipped : (other == name) = false := by simp [same]
    simp [List.lookup_cons, same, skipped, lookup_filter_ne env.bindings same]

end Environment

end SnapshotLisp
