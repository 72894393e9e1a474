import SnapshotLisp.Expr.Parser
import Mathlib.Data.List.Forall2

/-!
Tokens and trees that differ only in where they stand. How the places correspond is left open: `places`
may ask that both are places of the same token in two texts, or nothing at all. Token lists that are
alike are read alike, as trees that are alike or with the same complaint about corresponding tokens.
-/
namespace SnapshotLisp

variable {places weaker : Location → Location → Prop}

structure Token.Like (places : Location → Location → Prop) (t t' : Token) : Prop where
  kind : t.kind = t'.kind
  text : t.text = t'.text
  place : places t.location t'.location

structure Located.Like {κ : Type} (places : Location → Location → Prop) (e e' : Located κ) :
    Prop where
  cause : e.cause = e'.cause
  place : places e.location e'.location

namespace Expr

/-- The lists of items are compared by position, so that the induction reaches every item. -/
inductive Like (places : Location → Location → Prop) : Expr → Expr → Prop where
  | atom {t t' : Token} (same : t.Like places t') : Like places (.atom t) (.atom t')
  | list {items items' : List Expr} {location location' : Location}
      (place : places location location') (count : items.length = items'.length)
      (below : ∀ pair ∈ items.zip items', Like places pair.1 pair.2) :
      Like places (.list items location) (.list items' location')

variable {e e' : Expr} {items items' : List Expr} {location location' : Location}

theorem Like.of_items (place : places location location')
    (same : List.Forall₂ (Like places) items items') :
    Like places (.list items location) (.list items' location') := by
  obtain ⟨count, below⟩ := List.forall₂_iff_zip.mp same
  exact .list place count fun pair member => below member

theorem Like.inside (like : Like places (.list items location) (.list items' location')) :
    List.Forall₂ (Like places) items items' := by
  cases like with
  | list place count below =>
    exact List.forall₂_iff_zip.mpr ⟨count, fun member => below _ member⟩

theorem Like.place (like : e.Like places e') : places e.location e'.location := by
  cases like with
  | atom same => exact same.place
  | list place count below => exact place

theorem Like.mono (weak : ∀ l l', places l l' → weaker l l') (like : e.Like places e') :
    e.Like weaker e' := by
  induction like with
  | atom same => exact .atom ⟨same.kind, same.text, weak _ _ same.place⟩
  | list place count below ih => exact .list (weak _ _ place) count ih

theorem Like.identifier?_eq (like : e.Like places e') : e.identifier? = e'.identifier? := by
  cases like with
  | atom same => rw [identifier?, identifier?, same.kind, same.text]
  | list place count below => rfl

theorem renderItems_cons_cons (first second : Expr) (later : List Expr) :
    renderItems (first :: second :: later) =
      first.render ++ " " ++ renderItems (second :: later) := by
  rw [renderItems]
  nofun

theorem renderItems_eq (same : List.Forall₂ (fun e e' => e.render = e'.render) items items') :
    renderItems items = renderItems items' := by
  induction same with
  | nil => rfl
  | cons first later ih =>
    cases later with
    | nil => rw [renderItems, renderItems, first]
    | cons second others => rw [renderItems_cons_cons, renderItems_cons_cons, first, ih]

theorem Like.render_eq (like : e.Like places e') : e.render = e'.render := by
  induction like with
  | atom same => rw [render, render, same.text]
  | list place count below ih =>
    have same := List.forall₂_iff_zip.mpr ⟨count, fun member => ih _ member⟩
    rw [render, render, renderItems_eq same]

end Expr

/-- Of a group that is still open the items are compared in the same order on both sides. -/
structure Group.Like (places : Location → Location → Prop) (g g' : Group) : Prop where
  items : List.Forall₂ (Expr.Like places) g.items g'.items
  place : places g.location g'.location

namespace Group

variable {g g' : Group}

theorem Like.toExpr (like : g.Like places g') : g.toExpr.Like places g'.toExpr :=
  .of_items like.place like.items

theorem Like.push (like : g.Like places g') {e e' : Expr} (same : e.Like places e') :
    (g.push e).Like places (g'.push e') :=
  ⟨.cons same like.items, like.place⟩

theorem Like.close (like : g.Like places g') : g.close.Like places g'.close :=
  ⟨List.rel_reverse like.items, like.place⟩

theorem Like.mono (weak : ∀ l l', places l l' → weaker l l') (like : g.Like places g') :
    g.Like weaker g' :=
  ⟨like.items.imp fun _ _ same => same.mono weak, weak _ _ like.place⟩

end Group

theorem readGroup_like {tokens tokens' : List Token}
    (same : List.Forall₂ (Token.Like places) tokens tokens') {inner inner' : Group}
    (inside : inner.Like places inner') {outer outer' : List Group}
    (around : List.Forall₂ (Group.Like places) outer outer') :
    Option.Rel (fun read read' => read.1.Like places read'.1 ∧
        List.Forall₂ (Token.Like places) read.2 read'.2)
      (readGroup inner outer tokens) (readGroup inner' outer' tokens') := by
  induction same generalizing inner inner' outer outer' with
  | nil => exact .none
  | @cons t t' rest rest' first later ih =>
    rcases t.kind.paren_or_plain with opens | closes | plain
    · have opens' : t'.kind = .openParen := first.kind ▸ opens
      rw [readGroup_open _ _ _ opens, readGroup_open _ _ _ opens']
      exact ih ⟨.nil, first.place⟩ (.cons inside around)
    · have closes' : t'.kind = .closeParen := first.kind ▸ closes
      cases around with
      | nil =>
        rw [readGroup_close_last _ _ closes, readGroup_close_last _ _ closes']
        exact .some ⟨inside.close, later⟩
      | cons next further =>
        rw [readGroup_close _ _ _ closes, readGroup_close _ _ _ closes']
        exact ih (next.push inside.close.toExpr) further
    · have plain' : t'.kind.isSyntax = false := first.kind ▸ plain
      rw [readGroup_atom _ _ _ plain, readGroup_atom _ _ _ plain']
      exact ih (inside.push (.atom first)) around

inductive Parsed {α β : Type} (places : Location → Location → Prop) (results : α → β → Prop) :
    Except ParseError α → Except ParseError β → Prop where
  | ok {a : α} {b : β} (result : results a b) : Parsed places results (.ok a) (.ok b)
  | error {e e' : ParseError} (same : e.Like places e') : Parsed places results (.error e) (.error e')

theorem lastLocation_like {tokens tokens' : List Token}
    (same : List.Forall₂ (Token.Like places) tokens tokens') (nonempty : tokens ≠ []) :
    places (lastLocation tokens) (lastLocation tokens') := by
  induction same with
  | nil => exact absurd rfl nonempty
  | @cons t t' rest rest' first later ih =>
    cases later with
    | nil => exact first.place
    | cons second others => exact ih (List.cons_ne_nil _ _)

section

variable {t t' : Token} {rest rest' tokens tokens' : List Token}

theorem parseGroup_like (first : t.Like places t')
    (later : List.Forall₂ (Token.Like places) rest rest') :
    Parsed places (fun read read' => read.1.Like places read'.1 ∧
        List.Forall₂ (Token.Like places) read.2 read'.2)
      (parseGroup t rest) (parseGroup t' rest') := by
  unfold parseGroup
  by_cases opens : t.kind = .openParen
  · have opens' : t'.kind = .openParen := first.kind ▸ opens
    rw [if_pos opens, if_pos opens']
    have begun : Group.Like places ⟨[], t.location⟩ ⟨[], t'.location⟩ := ⟨.nil, first.place⟩
    have both := readGroup_like later begun .nil
    generalize readGroup ⟨[], t.location⟩ [] rest = left at both
    generalize readGroup ⟨[], t'.location⟩ [] rest' = right at both
    cases both with
    | some read => exact .ok read
    | none => exact .error ⟨rfl, lastLocation_like (.cons first later) (List.cons_ne_nil _ _)⟩
  · have closed : t'.kind ≠ .openParen := first.kind ▸ opens
    rw [if_neg opens, if_neg closed]
    exact .error ⟨by rw [first.text], first.place⟩

theorem parseGroups_like (same : List.Forall₂ (Token.Like places) tokens tokens') :
    Parsed places (List.Forall₂ (Group.Like places)) (parseGroups tokens) (parseGroups tokens') := by
  fun_induction parseGroups tokens generalizing tokens' with
  | case1 =>
    rw [List.forall₂_nil_left_iff] at same
    rw [same, parseGroups]
    exact .ok .nil
  | case2 t rest e failed =>
    obtain ⟨t', rest', first, later, rfl⟩ := List.forall₂_cons_left_iff.mp same
    have both := parseGroup_like first later
    rw [failed] at both
    generalize outcome : parseGroup t' rest' = right at both
    cases both with
    | error same => rw [parseGroups_of_error outcome]; exact .error same
  | case3 t rest g behind read ih =>
    obtain ⟨t', rest', first, later, rfl⟩ := List.forall₂_cons_left_iff.mp same
    have both := parseGroup_like first later
    rw [read] at both
    generalize outcome : parseGroup t' rest' = right at both
    cases both with
    | ok result =>
      obtain ⟨group, others⟩ := result
      rw [parseGroups_of_ok outcome]
      have rest := ih others
      generalize parseGroups behind = left at rest
      generalize parseGroups _ = right at rest
      cases rest with
      | ok groups => exact .ok (.cons group groups)
      | error same => exact .error same

end

end SnapshotLisp
