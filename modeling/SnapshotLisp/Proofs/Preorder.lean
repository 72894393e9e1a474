import SnapshotLisp.Token.Lexer
import SnapshotLisp.Proofs.Flattening
import SnapshotLisp.Proofs.Form

/-!
Lists inside lists. The lists of a tree come in its preorder as their opening parentheses come in
the tokens. So reading may begin at any opening parenthesis of a program, and what is read there is
the list that stands at the place of that parenthesis in the tree of the whole.
-/
namespace SnapshotLisp

def openings (tokens : List Token) : Nat := tokens.countP fun t => t.kind == .openParen

def OpensAt (tokens : List Token) (index : Nat) : Prop :=
  ∃ t, tokens[index]? = some t ∧ t.kind = .openParen

@[simp] theorem openings_append (xs ys : List Token) :
    openings (xs ++ ys) = openings xs + openings ys :=
  List.countP_append

theorem openings_cons_of_open {t : Token} (opens : t.kind = .openParen) (rest : List Token) :
    openings (t :: rest) = openings rest + 1 :=
  List.countP_cons_of_pos (by simp [opens])

theorem openings_cons_of_other {t : Token} (closed : t.kind ≠ .openParen) (rest : List Token) :
    openings (t :: rest) = openings rest :=
  List.countP_cons_of_neg (by simp [closed])

namespace Expr

/-- The lists of a tree in preorder: itself, if it is one, and then those of its items. -/
def lists (e : Expr) : List Group := (e.nodes 0).filterMap fun node => node.2.group?

mutual

theorem lists_nodes (depth : Nat) : (e : Expr) →
    (e.nodes depth).filterMap (fun node => node.2.group?) = e.lists
  | .atom token => by simp [lists, nodes, group?]
  | .list items location => by
    have below := (lists_nodesOf (depth + 1) items).trans (lists_nodesOf 1 items).symm
    rw [lists, nodes, nodes]
    exact congrArg (Group.mk items location :: ·) below

theorem lists_nodesOf (depth : Nat) : (items : List Expr) →
    (nodesOf depth items).filterMap (fun node => node.2.group?) = items.flatMap lists
  | [] => by simp [nodesOf]
  | item :: later => by
    simp [nodesOf, lists_nodes depth item, lists_nodesOf depth later]

end

theorem lists_atom (t : Token) : (Expr.atom t).lists = [] := rfl

theorem lists_list (items : List Expr) (location : Location) :
    (Expr.list items location).lists = ⟨items, location⟩ :: items.flatMap lists := by
  rw [lists, nodes]
  exact congrArg (Group.mk items location :: ·) (lists_nodesOf 1 items)

end Expr

/-- The opening parentheses among the tokens are those of the groups, in their order: behind each of
them the tokens begin with those of its group. -/
structure Opened (tokens : List Token) (groups : List Group) : Prop where
  count : openings tokens = groups.length
  begins : ∀ before t after, tokens = before ++ t :: after → t.kind = .openParen →
    ∃ g middle rest, groups[openings before]? = some g ∧ g.toExpr.Plain ∧
      t :: after = middle ++ rest ∧ List.Forall₂ Token.Fits middle g.toExpr.flatten

namespace Opened

variable {tokens tokens' : List Token} {groups groups' : List Group} {t : Token}

theorem nil : Opened [] [] where
  count := rfl
  begins := by
    intro before t after whole
    simp at whole

theorem none (closed : t.kind ≠ .openParen) : Opened [t] [] where
  count := openings_cons_of_other closed []
  begins := by
    intro before u after whole opens
    rcases List.append_eq_cons_iff.mp whole.symm with ⟨_, same⟩ | ⟨more, _, split⟩
    · cases same
      exact absurd opens closed
    · simp at split

theorem append (first : Opened tokens groups) (second : Opened tokens' groups') :
    Opened (tokens ++ tokens') (groups ++ groups') where
  count := by rw [openings_append, first.count, second.count, List.length_append]
  begins := by
    intro before t after whole opens
    -- The parenthesis stands in the first part or in the second.
    have parts : (∃ more, tokens = before ++ t :: more ∧ after = more ++ tokens') ∨
        ∃ more, before = tokens ++ more ∧ tokens' = more ++ t :: after := by
      rcases List.append_eq_append_iff.mp whole with ⟨more, same, split⟩ | ⟨more, same, split⟩
      · exact Or.inr ⟨more, same, split⟩
      · rcases List.append_eq_cons_iff.mp split.symm with ⟨rfl, behind⟩ | ⟨more', rfl, inside⟩
        · exact Or.inr ⟨[], by simpa using same.symm, behind⟩
        · exact Or.inl ⟨more', same, inside⟩
    rcases parts with ⟨more, split, rfl⟩ | ⟨more, rfl, split⟩
    · obtain ⟨g, middle, rest, found, plain, cut, fits⟩ := first.begins before t more split opens
      refine ⟨g, middle, rest ++ tokens', ?_, plain, ?_, fits⟩
      · have bound := (List.getElem?_eq_some_iff.mp found).1
        rw [List.getElem?_append_left bound, found]
      · rw [← List.cons_append, cut, List.append_assoc]
    · obtain ⟨g, middle, rest, found, plain, cut, fits⟩ := second.begins more t after split opens
      refine ⟨g, middle, rest, ?_, plain, cut, fits⟩
      rw [openings_append, first.count, List.getElem?_append_right (Nat.le_add_right _ _),
        Nat.add_sub_cancel_left, found]

theorem enclosed {g : Group} (plain : g.toExpr.Plain) (opens : t.kind = .openParen)
    (fits : List.Forall₂ Token.Fits (t :: tokens) g.toExpr.flatten)
    (inside : Opened tokens groups) : Opened (t :: tokens) (g :: groups) where
  count := by rw [openings_cons_of_open opens, inside.count, List.length_cons]
  begins := by
    intro before u after whole begun
    rcases List.append_eq_cons_iff.mp whole.symm with ⟨rfl, same⟩ | ⟨more, rfl, split⟩
    · rw [same]
      exact ⟨g, t :: tokens, [], rfl, plain, (List.append_nil _).symm, fits⟩
    · obtain ⟨g', middle, rest, found, plain', cut, fits'⟩ := inside.begins more u after split begun
      refine ⟨g', middle, rest, ?_, plain', cut, fits'⟩
      rw [openings_cons_of_open opens, List.getElem?_cons_succ, found]

end Opened

theorem opened_items {items : List Expr} {tokens : List Token}
    (fits : List.Forall₂ Token.Fits tokens (Expr.flattenItems items))
    (below : ∀ item ∈ items, ∀ {tokens}, List.Forall₂ Token.Fits tokens item.flatten →
      Opened tokens item.lists) : Opened tokens (items.flatMap Expr.lists) := by
  induction items generalizing tokens with
  | nil =>
    rw [Expr.flattenItems, List.forall₂_nil_right_iff] at fits
    rw [fits]
    exact .nil
  | cons item later ih =>
    rw [Expr.flattenItems] at fits
    obtain ⟨first, others, rfl, fit, fitting⟩ := fits_append fits
    rw [List.flatMap_cons]
    exact (below item List.mem_cons_self fit).append
      (ih fitting fun e member => below e (List.mem_cons_of_mem item member))

theorem Expr.Plain.opened {e : Expr} (plain : e.Plain) {tokens : List Token}
    (fits : List.Forall₂ Token.Fits tokens e.flatten) : Opened tokens e.lists := by
  -- The induction is on the tree: a list opens where its tokens begin, and the lists inside it
  -- where the tokens of its items say.
  induction plain generalizing tokens with
  | @atom t plain =>
    rw [flatten] at fits
    obtain ⟨u, _, first, none, rfl⟩ := List.forall₂_cons_right_iff.mp fits
    rw [List.forall₂_nil_right_iff] at none
    subst none
    rw [first.eq_of_plain plain]
    apply Opened.none
    intro opens
    rw [opens] at plain
    cases plain
  | @list items location below ih =>
    have whole := fits
    obtain ⟨t, inside, u, rfl, opens, _, closes, middle⟩ := fits_list fits
    have items := opened_items middle fun item member _ => ih item member
    have last : Opened [u] [] := .none (by simp [closes])
    rw [lists_list]
    refine .enclosed (.list below) opens whole ?_
    rw [← List.append_nil (List.flatMap _ _)]
    exact items.append last

section

variable {tokens : List Token} {index : Nat}

theorem openings_take_lt (opens : OpensAt tokens index) {later : Nat} (behind : index < later) :
    openings (tokens.take index) < openings (tokens.take later) := by
  obtain ⟨t, found, kind⟩ := opens
  have one : openings (tokens.take (index + 1)) = openings (tokens.take index) + 1 := by
    rw [List.take_add_one, found, openings_append]
    exact congrArg (openings (tokens.take index) + ·) (openings_cons_of_open kind [])
  have more : openings (tokens.take (index + 1)) ≤ openings (tokens.take later) :=
    (List.take_sublist_take_left behind).countP_le
  omega

theorem exists_opening {k : Nat} (fewer : k < openings tokens) :
    ∃ index, OpensAt tokens index ∧ openings (tokens.take index) = k := by
  induction tokens generalizing k with
  | nil => cases fewer
  | cons t later ih =>
    by_cases opens : t.kind = .openParen
    · cases k with
      | zero => exact ⟨0, ⟨t, rfl, opens⟩, rfl⟩
      | succ k =>
        rw [openings_cons_of_open opens] at fewer
        obtain ⟨index, found, counted⟩ := ih (Nat.lt_of_succ_lt_succ fewer)
        refine ⟨index + 1, found, ?_⟩
        rw [List.take_succ_cons, openings_cons_of_open opens, counted]
    · rw [openings_cons_of_other opens] at fewer
      obtain ⟨index, found, counted⟩ := ih fewer
      refine ⟨index + 1, found, ?_⟩
      rw [List.take_succ_cons, openings_cons_of_other opens, counted]

theorem existsUnique_opening {k : Nat} (fewer : k < openings tokens) :
    ∃! index, OpensAt tokens index ∧ openings (tokens.take index) = k := by
  obtain ⟨index, opens, counted⟩ := exists_opening fewer
  refine ⟨index, ⟨opens, counted⟩, ?_⟩
  rintro other ⟨opens', counted'⟩
  rcases Nat.lt_trichotomy other index with before | same | behind
  · have := openings_take_lt opens' before
    omega
  · exact same
  · have := openings_take_lt opens behind
    omega

end

theorem programOf_opened {tokens : List Token} {groups : List Group}
    (read : parseGroups tokens = .ok groups) :
    Opened tokens (programOf groups).toExpr.lists.tail := by
  have wrapped : (programOf groups).toExpr.lists.tail =
      (groups.map Group.toExpr).flatMap Expr.lists := by
    rw [Group.toExpr, programOf, Expr.lists_list, List.tail_cons, List.flatMap_cons,
      Expr.lists_atom, List.nil_append]
  rw [wrapped]
  refine opened_items (parseGroups_flatten read) fun item member tokens fits => ?_
  obtain ⟨g, inside, rfl⟩ := List.mem_map.mp member
  exact (parseGroups_placed read g inside).plain.opened fits

/-- Reading from an opening parenthesis of a program gives the list of the program's tree that has
as many lists before it in preorder, the whole program apart, as there are opening parentheses
before that one. The lists and the opening parentheses are equally many, and each list is reached
from exactly one of them. -/
theorem inner_parse_finds_list {tokens : List Token} {program : Group}
    (parsed : parseProgram tokens = .ok program) :
    (∀ index, OpensAt tokens index → ∃ g next, parse tokens index = .ok (g, next) ∧
      program.toExpr.lists.tail[openings (tokens.take index)]? = some g) ∧
    program.toExpr.lists.tail.length = openings tokens ∧
    ∀ k < openings tokens, ∃! index, OpensAt tokens index ∧ openings (tokens.take index) = k := by
  obtain ⟨groups, read, rfl⟩ := ok_of_map parsed
  have opened := programOf_opened read
  refine ⟨?_, opened.count.symm, fun k => existsUnique_opening⟩
  rintro index ⟨t, found, opens⟩
  have bound := (List.getElem?_eq_some_iff.mp found).1
  have split : tokens = tokens.take index ++ t :: tokens.drop (index + 1) := by
    rw [← drop_of_getElem? found, List.take_append_drop]
  obtain ⟨g, middle, rest, listed, plain, cut, fits⟩ := opened.begins _ t _ split opens
  have whole : tokens.take index ++ middle ++ rest = tokens := by
    rw [List.append_assoc, ← cut, ← split]
  have place : (tokens.take index).length = index := by
    rw [List.length_take]
    omega
  have parsedThere := parse_of_fits plain fits (tokens.take index) rest
  rw [whole, place] at parsedThere
  exact ⟨g, _, parsedThere, listed⟩

/-- The parenthesis in front of `c` has two others before it, one of them closed already. -/
theorem inner_parse_finds_list_of_third :
    ∃ tokens program g next, lex "(a (b) (c (d)))(e)" = .ok tokens ∧
      parseProgram tokens = .ok program ∧ parse tokens 5 = .ok (g, next) ∧
      program.toExpr.lists.tail[2]? = some g ∧ g.toExpr.render = "(c (d))" := by
  have told : ((lex "(a (b) (c (d)))(e)").toOption.bind fun tokens =>
      (parseProgram tokens).toOption.map fun program =>
        (tokens[5]?.map Token.kind, openings (tokens.take 5),
          program.toExpr.lists.tail[2]?.map fun g => g.toExpr.render)) =
      some (some .openParen, 2, some "(c (d))") := by decide +kernel
  obtain ⟨tokens, lexed, told⟩ := Option.bind_eq_some_iff.mp told
  obtain ⟨program, parsed, told⟩ := Option.map_eq_some_iff.mp told
  simp only [Prod.mk.injEq] at told
  obtain ⟨opens, before, shown⟩ := told
  obtain ⟨t, found, kind⟩ := Option.map_eq_some_iff.mp opens
  have accepted := ok_of_toOption parsed
  obtain ⟨g, next, read, listed⟩ := (inner_parse_finds_list accepted).1 5 ⟨t, found, kind⟩
  rw [before] at listed
  rw [listed, Option.map_some, Option.some.injEq] at shown
  exact ⟨tokens, program, g, next, ok_of_toOption lexed, accepted, read, listed, shown⟩

end SnapshotLisp
