import SnapshotLisp.Proofs.Lockstep

/-!
Function bodies with their sequences written out. A body that starts with a list is a sequence of
forms without saying so; the rewriting puts the keyword of a sequence in front of it, in every
definition of a tree. Two trees that are the same once they are rewritten look the same to whoever
reads names, places and definitions from them.
-/
namespace SnapshotLisp

namespace Expr

variable (place : Location → Nat × Location)

/-- The keyword that goes in front of a body. It may be placed anywhere. -/
def sequenceKeyword (location : Location) : Token :=
  ⟨.identifier, "begin", (place location).1, (place location).2⟩

/-- A list that starts with a list gets the keyword in front. -/
def opened : Expr → Expr
  | .list (.list items inner :: later) location =>
    .list (.atom (sequenceKeyword place location) :: .list items inner :: later) location
  | e => e

/-- In the items of a definition the body is opened. -/
def withBodyOpened : List Expr → List Expr
  | [head, name, params, body] =>
    if head.identifier? = some "func" then [head, name, params, opened place body]
    else [head, name, params, body]
  | items => items

mutual

/-- The tree with the sequences of all its definitions written out. -/
def explicit : Expr → Expr
  | .atom token => .atom token
  | .list items location => .list (withBodyOpened place (explicitAll items)) location

def explicitAll : List Expr → List Expr
  | [] => []
  | item :: later => explicit item :: explicitAll later

end

variable {place}

theorem explicitAll_eq_map (items : List Expr) :
    explicitAll place items = items.map (explicit place) := by
  induction items with
  | nil => rfl
  | cons item later ih => rw [explicitAll, ih, List.map_cons]

theorem explicit_list (items : List Expr) (location : Location) :
    explicit place (.list items location) =
      .list (withBodyOpened place (items.map (explicit place))) location := by
  rw [explicit, explicitAll_eq_map]

/-- What a reader sees of an expression without looking into it. -/
def face (e : Expr) : Option String × Location := (e.identifier?, e.location)

theorem face_opened (e : Expr) : (opened place e).face = e.face := by
  rcases e with token | ⟨_ | ⟨token | ⟨items, inner⟩, later⟩, location⟩ <;> rfl

theorem isSome_group?_opened (e : Expr) : (opened place e).group?.isSome = e.group?.isSome := by
  rcases e with token | ⟨_ | ⟨token | ⟨items, inner⟩, later⟩, location⟩ <;> rfl

theorem face_withBodyOpened (items : List Expr) :
    (withBodyOpened place items).map face = items.map face := by
  unfold withBodyOpened
  split
  · split
    · simp [face_opened]
    · rfl
  · rfl

theorem face_explicit (e : Expr) : (explicit place e).face = e.face := by
  cases e with
  | atom token => rfl
  | list items location => rfl

theorem isSome_group?_explicit (e : Expr) :
    (explicit place e).group?.isSome = e.group?.isSome := by
  cases e with
  | atom token => rfl
  | list items location => rfl

theorem identifier?_explicit (place : Location → Nat × Location) (e : Expr) :
    (explicit place e).identifier? = e.identifier? :=
  congrArg Prod.fst (face_explicit e)

theorem face_map_explicit (items : List Expr) :
    (items.map (explicit place)).map face = items.map face := by
  rw [List.map_map]
  exact List.map_congr_left fun e _ => face_explicit e

theorem withBodyOpened_of_other {head : Expr} (other : head.identifier? ≠ some "func")
    (args : List Expr) : withBodyOpened place (head :: args) = head :: args := by
  unfold withBodyOpened
  split
  · rename_i shape
    cases shape
    rw [if_neg other]
  · rfl

theorem withBodyOpened_cons (head : Expr) (args : List Expr) :
    ∃ args', withBodyOpened place (head :: args) = head :: args' := by
  unfold withBodyOpened
  split
  · rename_i shape
    cases shape
    split
    · exact ⟨_, rfl⟩
    · exact ⟨_, rfl⟩
  · exact ⟨_, rfl⟩

section

variable {head head' : Expr} {items items' args args' : List Expr} {location location' : Location}

theorem explicit_of_other (other : head.identifier? ≠ some "func") :
    explicit place (.list (head :: args) location) =
      .list (explicit place head :: args.map (explicit place)) location := by
  rw [← identifier?_explicit place] at other
  rw [explicit_list, List.map_cons, withBodyOpened_of_other other]

theorem explicit_definition (keyword : head.identifier? = some "func") (name params body : Expr) :
    explicit place (.list [head, name, params, body] location) =
      .list [explicit place head, explicit place name, explicit place params,
        opened place (explicit place body)] location := by
  rw [← identifier?_explicit place] at keyword
  rw [explicit_list]
  simp only [List.map_cons, List.map_nil, withBodyOpened, if_pos keyword]

end

theorem opened_opened (e : Expr) : opened place (opened place e) = opened place e := by
  rcases e with token | ⟨_ | ⟨token | ⟨items, inner⟩, later⟩, location⟩ <;> rfl

theorem withBodyOpened_twice (items : List Expr) :
    withBodyOpened place (withBodyOpened place items) = withBodyOpened place items := by
  rcases items with _ | ⟨head, _ | ⟨name, _ | ⟨params, _ | ⟨body, _ | ⟨fifth, later⟩⟩⟩⟩⟩ <;> try rfl
  by_cases keyword : head.identifier? = some "func"
  · simp [withBodyOpened, keyword, opened_opened]
  · simp [withBodyOpened, keyword]

theorem explicit_opened {e : Expr} (fixed : explicit place e = e) :
    explicit place (opened place e) = opened place e := by
  rcases e with token | ⟨_ | ⟨token | ⟨items, inner⟩, later⟩, location⟩
  · exact fixed
  · exact fixed
  · exact fixed
  · have nested : (Expr.list items inner).identifier? ≠ some "func" := nofun
    have keyword : (Expr.atom (sequenceKeyword place location)).identifier? ≠ some "func" := by
      simp [identifier?, sequenceKeyword]
    rw [explicit_of_other nested] at fixed
    rw [opened, explicit_of_other keyword, List.map_cons, (Expr.list.inj fixed).1]
    rfl

theorem map_explicit_withBodyOpened {items : List Expr}
    (fixed : items.map (explicit place) = items) :
    (withBodyOpened place items).map (explicit place) = withBodyOpened place items := by
  unfold withBodyOpened
  split
  · simp only [List.map_cons, List.map_nil, List.cons.injEq, and_true] at fixed
    obtain ⟨head, name, params, body⟩ := fixed
    split
    · simp only [List.map_cons, List.map_nil, head, name, params, explicit_opened body]
    · simp only [List.map_cons, List.map_nil, head, name, params, body]
  · exact fixed

mutual

theorem explicit_explicit : ∀ e : Expr, explicit place (explicit place e) = explicit place e
  | .atom token => rfl
  | .list items location => by
    rw [explicit_list, explicit_list, map_explicit_withBodyOpened (map_explicit_explicit items),
      withBodyOpened_twice]

theorem map_explicit_explicit : ∀ items : List Expr,
    (items.map (explicit place)).map (explicit place) = items.map (explicit place)
  | [] => rfl
  | item :: later => by
    rw [List.map_cons, List.map_cons, explicit_explicit item, map_explicit_explicit later]

end

variable (place)

def Alike (e e' : Expr) : Prop := explicit place e = explicit place e'

def AlikeBodies (e e' : Expr) : Prop :=
  opened place (explicit place e) = opened place (explicit place e')

variable {place}

namespace Alike

variable {e e' head head' : Expr} {items args args' : List Expr} {location location' : Location}

theorem face_eq (alike : e.Alike place e') : e.face = e'.face := by
  rw [← face_explicit e, ← face_explicit e']
  exact congrArg face alike

theorem location_eq (alike : e.Alike place e') : e.location = e'.location :=
  congrArg Prod.snd alike.face_eq

theorem atom_eq {token : Token} (alike : (Expr.atom token).Alike place e') : e' = .atom token := by
  cases e' with
  | atom token' => exact alike.symm
  | list items location => cases alike

theorem list_eq (alike : (Expr.list items location).Alike place e') :
    ∃ items', e' = .list items' location ∧ items.map face = items'.map face := by
  cases e' with
  | atom token => cases alike
  | list items' location' =>
    unfold Alike at alike
    rw [explicit_list, explicit_list] at alike
    obtain ⟨inside, rfl⟩ := Expr.list.inj alike
    refine ⟨items', rfl, ?_⟩
    have faces := congrArg (List.map face) inside
    simpa only [face_withBodyOpened, face_map_explicit] using faces

theorem group? (alike : e.Alike place e') :
    Option.Rel (fun g g' => List.Forall₂ (fun e e' => e.face = e'.face) g.items g'.items) e.group?
      e'.group? := by
  cases e with
  | atom token =>
    cases alike.atom_eq
    exact .none
  | list items location =>
    obtain ⟨items', rfl, faces⟩ := alike.list_eq
    rw [← List.forall₂_eq_eq_eq, List.forall₂_map_left_iff, List.forall₂_map_right_iff] at faces
    exact .some faces

theorem forall₂_of_map (same : args.map (explicit place) = args'.map (explicit place)) :
    List.Forall₂ (Alike place) args args' := by
  rw [← List.forall₂_eq_eq_eq, List.forall₂_map_left_iff, List.forall₂_map_right_iff] at same
  exact same

theorem head_eq (alike : (Expr.list (head :: args) location).Alike place
      (.list (head' :: args') location')) : head.face = head'.face := by
  obtain ⟨_, shape, faces⟩ := alike.list_eq
  cases shape
  exact (List.cons.inj faces).1

theorem operands (alike : (Expr.list (head :: args) location).Alike place
      (.list (head' :: args') location')) (other : head.identifier? ≠ some "func") :
    List.Forall₂ (Alike place) args args' := by
  have named : head.identifier? = head'.identifier? := congrArg Prod.fst alike.head_eq
  have other' := named ▸ other
  unfold Alike at alike
  rw [explicit_of_other other, explicit_of_other other'] at alike
  exact forall₂_of_map (List.cons.inj (Expr.list.inj alike).1).2

theorem definition {name name' params params' body body' : Expr}
    (alike : (Expr.list [head, name, params, body] location).Alike place
      (.list [head', name', params', body'] location'))
    (keyword : head.identifier? = some "func") :
    name.Alike place name' ∧ params.Alike place params' ∧ body.AlikeBodies place body' := by
  have named : head.identifier? = head'.identifier? := congrArg Prod.fst alike.head_eq
  have keyword' := named ▸ keyword
  unfold Alike at alike
  rw [explicit_definition keyword, explicit_definition keyword'] at alike
  simp only [Expr.list.injEq, List.cons.injEq, and_true] at alike
  exact alike.1.2

end Alike

theorem AlikeBodies.face_eq {e e' : Expr} (alike : e.AlikeBodies place e') :
    e.face = e'.face := by
  have faces := congrArg face alike
  rw [face_opened, face_opened, face_explicit, face_explicit] at faces
  exact faces

theorem AlikeBodies.group? {e e' : Expr} (alike : e.AlikeBodies place e') :
    Option.Rel (fun g g' => g.toExpr.AlikeBodies place g'.toExpr) e.group? e'.group? := by
  have lists := congrArg (fun e => e.group?.isSome) alike
  simp only [isSome_group?_opened, isSome_group?_explicit] at lists
  cases e with
  | atom token =>
    cases e' with
    | atom token' => exact .none
    | list items' location' => cases lists
  | list items location =>
    cases e' with
    | atom token' => cases lists
    | list items' location' => exact .some alike

section

variable {g g' : Group}

theorem opened_of_sequence (several : g.isSequence) :
    opened place (explicit place g.toExpr) =
      .list (.atom (sequenceKeyword place g.location) :: g.items.map (explicit place))
        g.location := by
  obtain ⟨items, location⟩ := g
  rcases items with _ | ⟨_ | ⟨inner, there⟩, later⟩
  · cases several
  · cases several
  · rw [Group.toExpr, explicit_of_other (by simp [identifier?])]
    rfl

theorem opened_of_single (single : g.isSequence = false) :
    opened place (explicit place g.toExpr) = explicit place g.toExpr := by
  obtain ⟨items, location⟩ := g
  rcases items with _ | ⟨token | ⟨inner, there⟩, later⟩
  · rfl
  · rw [Group.toExpr, explicit_list, List.map_cons]
    obtain ⟨args, shape⟩ :=
      withBodyOpened_cons (explicit place (.atom token)) (later.map (explicit place))
    rw [shape]
    rfl
  · cases single

/-- A sequence that is not written out corresponds to one that is: what stands there is an
application of the keyword to the same forms. -/
theorem alike_of_sequence (alike : g.toExpr.AlikeBodies place g'.toExpr) (several : g.isSequence)
    (single : g'.isSequence = false) :
    ∃ head forms, g'.items = head :: forms ∧ head.identifier? = some Builtin.sequence.name ∧
      List.Forall₂ (Alike place) g.items forms := by
  unfold AlikeBodies at alike
  rw [opened_of_sequence several, opened_of_single single] at alike
  have shape : (Expr.list (.atom (sequenceKeyword place g.location) :: g.items) g.location).Alike
      place g'.toExpr := by
    rw [Alike, ← alike, explicit_of_other (by simp [identifier?, sequenceKeyword])]
    rfl
  obtain ⟨items, same, faces⟩ := shape.list_eq
  cases items with
  | nil => cases faces
  | cons head forms =>
    rw [same] at shape
    have named : some "begin" = head.identifier? := congrArg Prod.fst shape.head_eq
    exact ⟨head, forms, (Expr.list.inj same).1, named.symm,
      shape.operands (by simp [identifier?, sequenceKeyword])⟩

theorem alike_of_sequences (alike : g.toExpr.AlikeBodies place g'.toExpr) (several : g.isSequence)
    (several' : g'.isSequence) : List.Forall₂ (Alike place) g.items g'.items := by
  unfold AlikeBodies at alike
  rw [opened_of_sequence several, opened_of_sequence several'] at alike
  exact Alike.forall₂_of_map (List.cons.inj (Expr.list.inj alike).1).2

theorem alike_of_singles (alike : g.toExpr.AlikeBodies place g'.toExpr)
    (single : g.isSequence = false) (single' : g'.isSequence = false) :
    g.toExpr.Alike place g'.toExpr := by
  unfold AlikeBodies at alike
  rw [opened_of_single single, opened_of_single single'] at alike
  exact alike

end

end Expr

end SnapshotLisp
