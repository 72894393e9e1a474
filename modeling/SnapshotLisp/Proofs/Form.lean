import SnapshotLisp.Form

/-!
The reading of forms. The operands of a built-in form are its arguments, all of them and in their
order, except in a definition, which has none. A closure is read from the three arguments of a
definition exactly as they are written there.
-/
namespace SnapshotLisp

theorem ok_of_bind {ε α β : Type} {x : Except ε α} {f : α → Except ε β} {b : β}
    (h : x >>= f = .ok b) : ∃ a, x = .ok a ∧ f a = .ok b := by
  cases x with
  | error e => cases h
  | ok a => exact ⟨a, rfl, h⟩

theorem ok_of_toOption {ε α : Type} {x : Except ε α} {a : α} (h : x.toOption = some a) :
    x = .ok a := by
  cases x with
  | error e => cases h
  | ok b =>
    cases h
    rfl

theorem error_of_bind {ε α β : Type} {x : Except ε α} {f : α → Except ε β} {e : ε}
    (h : x >>= f = .error e) : x = .error e ∨ ∃ a, x = .ok a ∧ f a = .error e := by
  cases x with
  | error e =>
    cases h
    exact Or.inl rfl
  | ok a => exact Or.inr ⟨a, rfl, h⟩

def Form.operands : Form → List Expr
  | .conditional condition consequence alternative => [condition, consequence, alternative]
  | .less left right => [left, right]
  | .sum operands => operands
  | .difference first later => first :: later
  | .sequence items => items
  | .definition _ _ _ => []

theorem Builtin.form?_cases {builtin : Builtin} {args : List Expr} {form : Form}
    (h : builtin.form? args = some form) :
    builtin ≠ .define ∧ form.operands = args ∨
      ∃ name params body, builtin = .define ∧ args = [name, params, body] ∧
        form = .definition name params body := by
  unfold form? at h
  split at h <;> cases h
  · exact Or.inl ⟨nofun, rfl⟩
  · exact Or.inl ⟨nofun, rfl⟩
  · exact Or.inl ⟨nofun, rfl⟩
  · exact Or.inl ⟨nofun, rfl⟩
  · exact Or.inl ⟨nofun, rfl⟩
  · exact Or.inr ⟨_, _, _, rfl, rfl, rfl⟩

namespace Closure

theorem readName_ok {e : Expr} {name : String} (h : readName e = .ok name) :
    e.identifier? = some name ∧ Builtin.ofName? name = none := by
  unfold readName at h
  split at h
  · simp at h
  · rename_i found same
    split at h
    · simp at h
    · rename_i free
      simp only [Except.ok.injEq] at h
      subst h
      exact ⟨same, free⟩

theorem readParam_ok {e : Expr} {name : String} (h : readParam e = .ok name) :
    e.identifier? = some name := by
  unfold readParam at h
  split at h
  · simp at h
  · simp_all

theorem mapM_readParam_ok {items : List Expr} {names : List String}
    (h : items.mapM readParam = .ok names) : items.map Expr.identifier? = names.map some := by
  induction items generalizing names with
  | nil =>
    cases h
    rfl
  | cons item later ih =>
    rw [List.mapM_cons] at h
    obtain ⟨name, first, h⟩ := ok_of_bind h
    obtain ⟨others, rest, h⟩ := ok_of_bind h
    cases h
    rw [List.map_cons, List.map_cons, readParam_ok first, ih rest]

theorem readParams_ok {e : Expr} {names : List String} (h : readParams e = .ok names) :
    ∃ items place, e = .list items place ∧ items.map Expr.identifier? = names.map some := by
  cases e with
  | atom token => simp [readParams, Expr.group?] at h
  | list items place => exact ⟨items, place, rfl, mapM_readParam_ok h⟩

theorem readBody_ok {e : Expr} {body : Group} (h : readBody e = .ok body) : e = body.toExpr := by
  cases e with
  | atom token => simp [readBody, Expr.group?] at h
  | list items place =>
    cases h
    rfl

theorem ofParts_ok {name params body : Expr} {closure : Closure}
    (h : ofParts name params body = .ok closure) :
    name.identifier? = some closure.name ∧ Builtin.ofName? closure.name = none ∧
      (∃ items place, params = .list items place ∧
        items.map Expr.identifier? = closure.params.map some) ∧
      body = closure.body.toExpr := by
  obtain ⟨text, named, h⟩ := ok_of_bind h
  obtain ⟨texts, listed, h⟩ := ok_of_bind h
  obtain ⟨group, stored, h⟩ := ok_of_bind h
  cases h
  obtain ⟨identified, free⟩ := readName_ok named
  exact ⟨identified, free, readParams_ok listed, readBody_ok stored⟩

end Closure

namespace Expr

/-- The node has the form `(func name (params ...) body)` and these are the parts of the closure. -/
inductive Defines : Expr → Closure → Prop where
  | form {head name : Expr} {params : List Expr} {closure : Closure} {place location : Location}
      (keyword : head.identifier? = some Builtin.define.name)
      (named : name.identifier? = some closure.name)
      (parameters : params.map identifier? = closure.params.map some) :
      Defines (.list [head, name, .list params place, closure.body.toExpr] location) closure

theorem Defines.parts {e : Expr} {closure : Closure} (defines : e.Defines closure) :
    ∃ head name later location, e = .list (head :: name :: later) location ∧
      head.identifier? = some Builtin.define.name ∧ name.identifier? = some closure.name := by
  cases defines with
  | form keyword named parameters => exact ⟨_, _, _, _, rfl, keyword, named⟩

theorem defines_of_ofParts {head name params body : Expr} {closure : Closure}
    (keyword : head.identifier? = some Builtin.define.name)
    (h : Closure.ofParts name params body = .ok closure) (location : Location) :
    (Expr.list [head, name, params, body] location).Defines closure := by
  obtain ⟨named, _, ⟨items, place, rfl, parameters⟩, rfl⟩ := Closure.ofParts_ok h
  exact .form keyword named parameters

end Expr

end SnapshotLisp
