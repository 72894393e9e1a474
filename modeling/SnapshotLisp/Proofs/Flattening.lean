import SnapshotLisp.Proofs.Parentheses
import Mathlib.Data.List.Forall2

/-!
Trees written back as tokens. Parsing loses the texts and positions of parentheses and the locations
of closing ones; everything else of the tokens it has read can be found in the tree, in its order.
The other way round, a tree is read from its tokens wherever they stand, whatever is around them.
-/
namespace SnapshotLisp

namespace Token

def opening (location : Location) : Token := ⟨.openParen, "(", 0, location⟩

def closing : Token := ⟨.closeParen, ")", 0, .nowhere⟩

/-- The first token is kept in a tree as the second: an atom as it is, an opening parenthesis by its
location, a closing one only as what it is. -/
inductive Fits : Token → Token → Prop where
  | atom {t : Token} (plain : t.kind.isSyntax = false) : Fits t t
  | opens {t u : Token} (read : t.kind = .openParen) (kept : u.kind = .openParen)
      (place : t.location = u.location) : Fits t u
  | closes {t u : Token} (read : t.kind = .closeParen) (kept : u.kind = .closeParen) : Fits t u

namespace Fits

variable {t u : Token}

theorem refl (t : Token) : t.Fits t := by
  rcases t.kind.paren_or_plain with opens | closes | plain
  · exact .opens opens opens rfl
  · exact .closes closes closes
  · exact .atom plain

theorem kind_eq (fits : t.Fits u) : t.kind = u.kind := by
  cases fits with
  | atom plain => rfl
  | opens read kept place => rw [read, kept]
  | closes read kept => rw [read, kept]

theorem location_eq (fits : t.Fits u) (kept : u.kind = .openParen) : t.location = u.location := by
  cases fits with
  | atom plain => rfl
  | opens read kept place => exact place
  | closes read closes => rw [closes] at kept; cases kept

theorem eq_of_plain (fits : t.Fits u) (plain : u.kind.isSyntax = false) : t = u := by
  cases fits with
  | atom _ => rfl
  | opens read kept place => rw [kept] at plain; cases plain
  | closes read kept => rw [kept] at plain; cases plain

end Fits

end Token

theorem fits_append {tokens first second : List Token}
    (fits : List.Forall₂ Token.Fits tokens (first ++ second)) :
    ∃ before after, tokens = before ++ after ∧ List.Forall₂ Token.Fits before first ∧
      List.Forall₂ Token.Fits after second :=
  ⟨tokens.take first.length, tokens.drop first.length, (List.take_append_drop _ _).symm,
    List.forall₂_take_append tokens first second fits,
    List.forall₂_drop_append tokens first second fits⟩

theorem fits_filter {tokens kept : List Token} (fits : List.Forall₂ Token.Fits tokens kept) :
    tokens.filter (fun t => !t.kind.isSyntax) = kept.filter fun t => !t.kind.isSyntax := by
  induction fits with
  | nil => rfl
  | @cons t u tokens kept first later ih =>
    cases plain : u.kind.isSyntax with
    | false => rw [first.eq_of_plain plain, List.filter_cons, List.filter_cons, ih]
    | true => simp [first.kind_eq, plain, ih]

namespace Expr

mutual

/-- The tokens of a tree, with parentheses around the items of each list. -/
def flatten : Expr → List Token
  | .atom token => [token]
  | .list items location => .opening location :: (flattenItems items ++ [.closing])

def flattenItems : List Expr → List Token
  | [] => []
  | item :: later => flatten item ++ flattenItems later

end

theorem flattenItems_append (xs ys : List Expr) :
    flattenItems (xs ++ ys) = flattenItems xs ++ flattenItems ys := by
  induction xs with
  | nil => rw [flattenItems, List.nil_append, List.nil_append]
  | cons x xs ih => rw [List.cons_append, flattenItems, flattenItems, ih, List.append_assoc]

/-- No atom holds a parenthesis. -/
inductive Plain : Expr → Prop where
  | atom {t : Token} (plain : t.kind.isSyntax = false) : Plain (.atom t)
  | list {items : List Expr} {location : Location} (below : ∀ item ∈ items, Plain item) :
      Plain (.list items location)

theorem Placed.plain {tokens : List Token} {e : Expr} (placed : e.Placed tokens) : e.Plain := by
  induction placed with
  | atom member plain => exact .atom plain
  | list member opens below ih => exact .list ih

theorem leavesOf_eq_filter {items : List Expr}
    (below : ∀ item ∈ items, item.leaves = item.flatten.filter fun t => !t.kind.isSyntax) :
    leavesOf items = (flattenItems items).filter fun t => !t.kind.isSyntax := by
  induction items with
  | nil => rw [leavesOf, flattenItems, List.filter_nil]
  | cons item later ih =>
    rw [leavesOf, flattenItems, List.filter_append, below item List.mem_cons_self,
      ih fun e member => below e (List.mem_cons_of_mem item member)]

theorem Plain.leaves_eq_filter {e : Expr} (plain : e.Plain) :
    e.leaves = e.flatten.filter fun t => !t.kind.isSyntax := by
  induction plain with
  | atom plain => simp [leaves, flatten, plain]
  | list below ih =>
    rw [leaves, flatten, leavesOf_eq_filter ih]
    simp [Token.opening, Token.closing, TokenKind.isSyntax]

end Expr

def Group.begun (g : Group) : List Token :=
  .opening g.location :: Expr.flattenItems g.items.reverse

theorem Group.begun_push (g : Group) (e : Expr) : (g.push e).begun = g.begun ++ e.flatten := by
  simp [begun, push, Expr.flattenItems_append, Expr.flattenItems]

theorem Group.flatten_close (g : Group) : g.close.toExpr.flatten = g.begun ++ [.closing] := by
  simp [begun, close, toExpr, Expr.flatten]

/-- What has been read since the outermost open group began. -/
def pending (inner : Group) : List Group → List Token
  | [] => inner.begun
  | next :: further => pending next further ++ inner.begun

theorem pending_push (inner : Group) (outer : List Group) (e : Expr) :
    pending (inner.push e) outer = pending inner outer ++ e.flatten := by
  cases outer with
  | nil => rw [pending, pending, Group.begun_push]
  | cons next further => rw [pending, pending, Group.begun_push, List.append_assoc]

theorem readGroup_flatten {tokens rest : List Token} {inner g : Group} {outer : List Group}
    (read : readGroup inner outer tokens = some (g, rest)) :
    ∃ consumed added, tokens = consumed ++ rest ∧
      g.toExpr.flatten = pending inner outer ++ added ∧ List.Forall₂ Token.Fits consumed added := by
  induction tokens generalizing inner outer with
  | nil => simp [readGroup] at read
  | cons t later ih =>
    rcases t.kind.paren_or_plain with opens | closes | plain
    · rw [readGroup_open _ _ _ opens] at read
      obtain ⟨consumed, added, whole, flat, fits⟩ := ih read
      refine ⟨t :: consumed, .opening t.location :: added, by rw [whole, List.cons_append], ?_,
        .cons (.opens opens rfl rfl) fits⟩
      rw [flat, pending, Group.begun]
      simp [Expr.flattenItems]
    · cases outer with
      | nil =>
        rw [readGroup_close_last _ _ closes] at read
        cases read
        exact ⟨[t], [.closing], rfl, Group.flatten_close inner, .cons (.closes closes rfl) .nil⟩
      | cons next further =>
        rw [readGroup_close _ _ _ closes] at read
        obtain ⟨consumed, added, whole, flat, fits⟩ := ih read
        refine ⟨t :: consumed, .closing :: added, by rw [whole, List.cons_append], ?_,
          .cons (.closes closes rfl) fits⟩
        rw [flat, pending_push, Group.flatten_close, pending]
        simp
    · rw [readGroup_atom _ _ _ plain] at read
      obtain ⟨consumed, added, whole, flat, fits⟩ := ih read
      refine ⟨t :: consumed, t :: added, by rw [whole, List.cons_append], ?_,
        .cons (.atom plain) fits⟩
      rw [flat, pending_push, Expr.flatten]
      simp

theorem foldl_push (g : Group) (items : List Expr) :
    items.foldl Group.push g = ⟨items.reverse ++ g.items, g.location⟩ := by
  induction items generalizing g with
  | nil => rfl
  | cons item later ih =>
    rw [List.foldl_cons, ih]
    simp [Group.push]

theorem readGroup_items {items : List Expr} {tokens : List Token}
    (fits : List.Forall₂ Token.Fits tokens (Expr.flattenItems items))
    (below : ∀ item ∈ items, ∀ {tokens}, List.Forall₂ Token.Fits tokens item.flatten →
      ∀ inner outer rest,
        readGroup inner outer (tokens ++ rest) = readGroup (inner.push item) outer rest)
    (inner : Group) (outer : List Group) (rest : List Token) :
    readGroup inner outer (tokens ++ rest) =
      readGroup (items.foldl Group.push inner) outer rest := by
  induction items generalizing tokens inner with
  | nil =>
    rw [Expr.flattenItems, List.forall₂_nil_right_iff] at fits
    rw [fits]
    rfl
  | cons item later ih =>
    rw [Expr.flattenItems] at fits
    obtain ⟨first, others, whole, fit, fitting⟩ := fits_append fits
    rw [whole, List.append_assoc, below item List.mem_cons_self fit, List.foldl_cons]
    exact ih fitting (fun e member => below e (List.mem_cons_of_mem item member)) _

theorem fits_list {items : List Expr} {location : Location} {tokens : List Token}
    (fits : List.Forall₂ Token.Fits tokens (Expr.list items location).flatten) :
    ∃ t inside u, tokens = t :: (inside ++ [u]) ∧ t.kind = .openParen ∧ t.location = location ∧
      u.kind = .closeParen ∧ List.Forall₂ Token.Fits inside (Expr.flattenItems items) := by
  rw [Expr.flatten] at fits
  obtain ⟨t, _, first, later, rfl⟩ := List.forall₂_cons_right_iff.mp fits
  obtain ⟨inside, _, rfl, middle, ends⟩ := fits_append later
  obtain ⟨u, _, last, none, rfl⟩ := List.forall₂_cons_right_iff.mp ends
  rw [List.forall₂_nil_right_iff] at none
  subst none
  exact ⟨t, inside, u, rfl, first.kind_eq, first.location_eq rfl, last.kind_eq, middle⟩

theorem readGroup_of_fits {e : Expr} (plain : e.Plain) {tokens : List Token}
    (fits : List.Forall₂ Token.Fits tokens e.flatten) (inner : Group) (outer : List Group)
    (rest : List Token) :
    readGroup inner outer (tokens ++ rest) = readGroup (inner.push e) outer rest := by
  induction plain generalizing tokens inner outer rest with
  | @atom t plain =>
    rw [Expr.flatten] at fits
    obtain ⟨u, _, first, none, rfl⟩ := List.forall₂_cons_right_iff.mp fits
    rw [List.forall₂_nil_right_iff] at none
    rw [none, first.eq_of_plain plain]
    exact readGroup_atom inner outer rest plain
  | @list items location below ih =>
    obtain ⟨t, inside, u, rfl, opens, place, closes, middle⟩ := fits_list fits
    rw [List.cons_append, readGroup_open _ _ _ opens, List.append_assoc,
      readGroup_items middle (fun item member _ => ih item member), List.singleton_append,
      readGroup_close _ _ _ closes, foldl_push, place]
    simp [Group.close, Group.toExpr]

theorem parseGroup_of_fits {g : Group} (plain : g.toExpr.Plain) {t : Token} {tokens : List Token}
    (fits : List.Forall₂ Token.Fits (t :: tokens) g.toExpr.flatten) (rest : List Token) :
    parseGroup t (tokens ++ rest) = .ok (g, rest) := by
  obtain ⟨items, location⟩ := g
  obtain ⟨_, inside, u, whole, opens, place, closes, middle⟩ := fits_list fits
  cases whole
  cases plain with
  | list below =>
    have read : readGroup ⟨[], t.location⟩ [] ((inside ++ [u]) ++ rest) =
        some (⟨items, location⟩, rest) := by
      rw [List.append_assoc, readGroup_items middle fun item member _ => readGroup_of_fits
        (below item member), List.singleton_append, readGroup_close_last _ _ closes, foldl_push, place]
      simp [Group.close]
    rw [parseGroup, if_pos opens, read]

theorem parseGroup_flatten {t : Token} {rest later : List Token} {g : Group}
    (read : parseGroup t rest = .ok (g, later)) :
    ∃ consumed, rest = consumed ++ later ∧
      List.Forall₂ Token.Fits (t :: consumed) g.toExpr.flatten := by
  unfold parseGroup at read
  split at read
  · rename_i opens
    split at read
    · rename_i found
      cases read
      obtain ⟨consumed, added, whole, flat, fits⟩ := readGroup_flatten found
      refine ⟨consumed, whole, ?_⟩
      rw [flat]
      exact .cons (.opens opens rfl rfl) fits
    · cases read
  · cases read

theorem parseGroups_flatten {tokens : List Token} {groups : List Group}
    (read : parseGroups tokens = .ok groups) :
    List.Forall₂ Token.Fits tokens (Expr.flattenItems (groups.map Group.toExpr)) := by
  fun_induction parseGroups tokens generalizing groups with
  | case1 =>
    cases read
    exact .nil
  | case2 t rest e failed => cases read
  | case3 t rest g later first ih =>
    obtain ⟨consumed, whole, fits⟩ := parseGroup_flatten first
    obtain ⟨behind, others, rfl⟩ := ok_of_map read
    rw [whole, List.map_cons, Expr.flattenItems, ← List.cons_append]
    exact List.rel_append fits (ih others)

section

variable {tokens : List Token} {index next : Nat} {g : Group}

theorem parse_ok (read : parse tokens index = .ok (g, next)) :
    ∃ t later, tokens[index]? = some t ∧
      parseGroup t (tokens.drop (index + 1)) = .ok (g, later) ∧
      next = tokens.length - later.length := by
  cases found : tokens[index]? with
  | none =>
    rw [parse_past_end found] at read
    cases read
  | some t =>
    rw [parse_found found] at read
    obtain ⟨⟨group, later⟩, outcome, same⟩ := ok_of_map read
    cases same
    exact ⟨t, later, rfl, outcome, rfl⟩

theorem parse_flatten (read : parse tokens index = .ok (g, next)) :
    next ≤ tokens.length ∧
      List.Forall₂ Token.Fits (segment tokens index next) g.toExpr.flatten := by
  obtain ⟨t, later, found, first, rfl⟩ := parse_ok read
  obtain ⟨consumed, whole, fits⟩ := parseGroup_flatten first
  refine ⟨Nat.sub_le _ _, ?_⟩
  have dropped := drop_of_getElem? found
  have bound := (List.getElem?_eq_some_iff.mp found).1
  have length := congrArg List.length whole
  rw [List.length_drop, List.length_append] at length
  have counted : tokens.length - later.length = index + 1 + consumed.length := by omega
  rw [counted, segment_succ dropped, whole, List.take_left]
  exact fits

theorem parse_plain (read : parse tokens index = .ok (g, next)) : g.toExpr.Plain := by
  obtain ⟨t, later, _, first, _⟩ := parse_ok read
  have placed : g.toExpr.Placed (t :: tokens.drop (index + 1)) := (parseGroup_placed first).1
  exact placed.plain

theorem parse_of_fits (plain : g.toExpr.Plain) {middle : List Token}
    (fits : List.Forall₂ Token.Fits middle g.toExpr.flatten) (before after : List Token) :
    parse (before ++ middle ++ after) before.length = .ok (g, before.length + middle.length) := by
  obtain ⟨t, inside, u, rfl, _⟩ := fits_list fits
  have found : (before ++ t :: (inside ++ [u]) ++ after)[before.length]? = some t := by simp
  have dropped : (before ++ t :: (inside ++ [u]) ++ after).drop (before.length + 1) =
      inside ++ [u] ++ after := by simp
  rw [parse_found found, dropped, parseGroup_of_fits plain fits]
  simp only [Except.map, List.length_append, List.length_cons, List.length_nil, Except.ok.injEq,
    Prod.mk.injEq, true_and]
  omega

end

/-- Parsing and flattening are inverse to each other: the tokens that a group was read from are those
of the group, and a group is read from its tokens wherever they stand. The groups of a program are
all there is in its tokens. -/
theorem parse_inverts_flatten :
    (∀ tokens index g next, parse tokens index = .ok (g, next) →
      next ≤ tokens.length ∧
      List.Forall₂ Token.Fits (segment tokens index next) g.toExpr.flatten ∧
      g.toExpr.leaves = (segment tokens index next).filter (fun t => !t.kind.isSyntax) ∧
      g.toExpr.Plain) ∧
    (∀ (g : Group) (before after : List Token), g.toExpr.Plain →
      parse (before ++ g.toExpr.flatten ++ after) before.length =
        .ok (g, before.length + g.toExpr.flatten.length)) ∧
    ∀ tokens program, parseProgram tokens = .ok program →
      program.location = ⟨1, 1⟩ ∧ ∃ forms, program.items = .atom (.synthetic "begin") :: forms ∧
        List.Forall₂ Token.Fits tokens (Expr.flattenItems forms) := by
  refine ⟨?_, ?_, ?_⟩
  · intro tokens index g next read
    obtain ⟨bound, fits⟩ := parse_flatten read
    have plain := parse_plain read
    exact ⟨bound, fits, by rw [plain.leaves_eq_filter, fits_filter fits], plain⟩
  · intro g before after plain
    exact parse_of_fits plain (List.forall₂_same.mpr fun t _ => .refl t) before after
  · intro tokens program parsed
    obtain ⟨groups, read, rfl⟩ := ok_of_map parsed
    exact ⟨rfl, _, rfl, parseGroups_flatten read⟩

end SnapshotLisp
