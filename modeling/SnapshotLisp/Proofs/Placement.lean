import SnapshotLisp.Expr.Parser
import SnapshotLisp.Proofs.Lines

/-!
Trees that stand in a token list: every atom holds one of the tokens, and every list is at one of
the opening parentheses. The parser builds no others, and where it fails it blames a token.
-/
namespace SnapshotLisp

inductive Expr.Placed (tokens : List Token) : Expr → Prop where
  | atom {t : Token} (member : t ∈ tokens) (plain : t.kind.isSyntax = false) :
      Placed tokens (.atom t)
  | list {items : List Expr} {paren : Token} (member : paren ∈ tokens)
      (opens : paren.kind = .openParen) (below : ∀ item ∈ items, Placed tokens item) :
      Placed tokens (.list items paren.location)

namespace Expr

variable {tokens : List Token}

theorem Placed.mono {more : List Token} (subset : tokens ⊆ more) {e : Expr}
    (placed : e.Placed tokens) : e.Placed more := by
  induction placed with
  | atom member plain => exact .atom (subset member) plain
  | list member opens below ih => exact .list (subset member) opens ih

theorem Placed.item {items : List Expr} {location : Location}
    (placed : (Expr.list items location).Placed tokens) {item : Expr} (member : item ∈ items) :
    item.Placed tokens := by
  cases placed with
  | list _ _ below => exact below item member

theorem Placed.paren {items : List Expr} {location : Location}
    (placed : (Expr.list items location).Placed tokens) :
    ∃ t ∈ tokens, t.kind = .openParen ∧ t.location = location := by
  cases placed with
  | list member opens below => exact ⟨_, member, opens, rfl⟩

theorem Placed.location {e : Expr} (placed : e.Placed tokens) :
    ∃ t ∈ tokens, t.location = e.location := by
  cases placed with
  | atom member plain => exact ⟨_, member, rfl⟩
  | list member opens below => exact ⟨_, member, rfl⟩

theorem Placed.identifier {e : Expr} (placed : e.Placed tokens) {name : String}
    (named : e.identifier? = some name) : ∃ t ∈ tokens, t.text = name := by
  cases placed with
  | @atom t member plain =>
    simp only [identifier?, Option.ite_none_right_eq_some, Option.some.injEq] at named
    exact ⟨t, member, named.2⟩
  | list member opens below => simp [identifier?] at named

theorem oneLine_renderItems {items : List Expr} (below : ∀ item ∈ items, OneLine item.render) :
    OneLine (renderItems items) := by
  induction items with
  | nil => rw [renderItems]; decide
  | cons item later ih =>
    have first := below item List.mem_cons_self
    have rest := ih fun e member => below e (List.mem_cons_of_mem item member)
    cases later with
    | nil => rw [renderItems]; exact first
    | cons second others =>
      rw [renderItems, oneLine_append, oneLine_append]
      · exact ⟨⟨first, by decide⟩, rest⟩
      · nofun

theorem Placed.oneLine_render (texts : ∀ t ∈ tokens, OneLine t.text) {e : Expr}
    (placed : e.Placed tokens) : OneLine e.render := by
  induction placed with
  | atom member plain =>
    rw [render]
    exact texts _ member
  | list member opens below ih =>
    rw [render, oneLine_append, oneLine_append]
    exact ⟨⟨by decide, oneLine_renderItems ih⟩, by decide⟩

end Expr

namespace Group

variable {tokens : List Token}

/-- A group that is still open may have its items in any order. -/
def Placed (tokens : List Token) (g : Group) : Prop := g.toExpr.Placed tokens

theorem placed_empty {t : Token} (member : t ∈ tokens) (opens : t.kind = .openParen) :
    Group.Placed tokens ⟨[], t.location⟩ :=
  .list member opens (by simp)

theorem Placed.push {g : Group} (placed : g.Placed tokens) {item : Expr}
    (below : item.Placed tokens) : (g.push item).Placed tokens := by
  obtain ⟨items, location⟩ := g
  cases placed with
  | list member opens others =>
    refine .list member opens fun e inside => ?_
    rcases List.mem_cons.mp inside with same | inside
    · subst same
      exact below
    · exact others e inside

theorem Placed.close {g : Group} (placed : g.Placed tokens) : g.close.Placed tokens := by
  obtain ⟨items, location⟩ := g
  cases placed with
  | list member opens below =>
    exact .list member opens fun e inside => below e (List.mem_reverse.mp inside)

end Group

theorem readGroup_placed {all tokens rest : List Token} {inner g : Group} {outer : List Group}
    (read : readGroup inner outer tokens = some (g, rest)) (subset : tokens ⊆ all)
    (placed : inner.Placed all) (others : ∀ o ∈ outer, o.Placed all) :
    g.Placed all ∧ rest ⊆ tokens := by
  induction tokens generalizing inner outer with
  | nil => simp [readGroup] at read
  | cons t later ih =>
    have member : t ∈ all := subset List.mem_cons_self
    have behind : later ⊆ all := fun x inside => subset (List.mem_cons_of_mem t inside)
    have widen : g.Placed all ∧ rest ⊆ later → g.Placed all ∧ rest ⊆ t :: later :=
      fun done => ⟨done.1, fun x inside => List.mem_cons_of_mem t (done.2 inside)⟩
    unfold readGroup at read
    split at read
    · rename_i opens
      refine widen (ih read behind (Group.placed_empty member opens) ?_)
      intro o inside
      rcases List.mem_cons.mp inside with same | inside
      · subst same
        exact placed
      · exact others o inside
    · split at read
      · cases read
        exact ⟨placed.close, fun x inside => List.mem_cons_of_mem t inside⟩
      · rename_i next further
        -- The inner group is complete and becomes an item of the one around it.
        refine widen (ih read behind ?_ fun o inside => others o (List.mem_cons_of_mem next inside))
        exact (others next List.mem_cons_self).push placed.close
    all_goals
      rename_i kind
      refine widen (ih read behind (placed.push (.atom member ?_)) others)
      rw [kind]
      rfl

theorem lastLocation_of_nonempty {tokens : List Token} (nonempty : tokens ≠ []) :
    ∃ last, tokens.getLast? = some last ∧ lastLocation tokens = last.location := by
  refine ⟨tokens.getLast nonempty, List.getLast?_eq_some_getLast nonempty, ?_⟩
  rw [lastLocation, List.getLast?_eq_some_getLast nonempty]

theorem parseGroup_placed {t : Token} {tokens rest : List Token} {g : Group}
    (read : parseGroup t tokens = .ok (g, rest)) :
    g.Placed (t :: tokens) ∧ rest ⊆ tokens := by
  unfold parseGroup at read
  split at read
  · rename_i opens
    split at read
    · rename_i found
      cases read
      exact readGroup_placed found (fun x inside => List.mem_cons_of_mem t inside)
        (Group.placed_empty List.mem_cons_self opens) (by simp)
    · cases read
  · cases read

theorem parseGroup_error {t : Token} {tokens : List Token} {e : ParseError}
    (failed : parseGroup t tokens = .error e) :
    ∃ x ∈ t :: tokens, e.location = x.location ∧
      (e.cause = .expectedOpenParen x.text ∨ e.cause = .expectedClosingParen) := by
  unfold parseGroup at failed
  split at failed
  · split at failed
    · cases failed
    · cases failed
      obtain ⟨last, ends, place⟩ := lastLocation_of_nonempty (List.cons_ne_nil t tokens)
      exact ⟨last, List.mem_of_getLast? ends, place, Or.inr rfl⟩
  · cases failed
    exact ⟨t, List.mem_cons_self, rfl, Or.inl rfl⟩

theorem ok_of_map {ε α β : Type} {f : α → β} {x : Except ε α} {b : β} (mapped : x.map f = .ok b) :
    ∃ a, x = .ok a ∧ f a = b := by
  cases x with
  | error e => cases mapped
  | ok a =>
    cases mapped
    exact ⟨a, rfl, rfl⟩

theorem parseGroups_placed {tokens : List Token} {groups : List Group}
    (read : parseGroups tokens = .ok groups) : ∀ g ∈ groups, g.Placed tokens := by
  fun_induction parseGroups tokens generalizing groups with
  | case1 =>
    cases read
    simp
  | case2 t rest e failed => cases read
  | case3 t rest g later first ih =>
    obtain ⟨placed, subset⟩ := parseGroup_placed first
    obtain ⟨behind, others, rfl⟩ := ok_of_map read
    intro x member
    rcases List.mem_cons.mp member with same | member
    · subst same
      exact placed
    · exact (ih others x member).mono fun y inside => List.mem_cons_of_mem t (subset inside)

theorem parseGroups_error {tokens : List Token} {e : ParseError}
    (failed : parseGroups tokens = .error e) :
    ∃ x ∈ tokens, e.location = x.location ∧
      (e.cause = .expectedOpenParen x.text ∨ e.cause = .expectedClosingParen) := by
  fun_induction parseGroups tokens with
  | case1 => cases failed
  | case2 t rest e' first =>
    cases failed
    exact parseGroup_error first
  | case3 t rest g later first ih =>
    cases others : parseGroups later with
    | error e' =>
      rw [others] at failed
      cases failed
      obtain ⟨x, member, blamed⟩ := ih others
      have inside : x ∈ rest := (parseGroup_placed first).2 member
      exact ⟨x, List.mem_cons_of_mem t inside, blamed⟩
    | ok groups =>
      rw [others] at failed
      cases failed

end SnapshotLisp
