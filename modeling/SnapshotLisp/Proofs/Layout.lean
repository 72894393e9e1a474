import SnapshotLisp.Proofs.Definition
import SnapshotLisp.Proofs.Diagnostics
import SnapshotLisp.Proofs.Likeness

/-!
The layout of a text has no say in what the text does. Two texts with the same tokens, however they
are spread over lines and columns, run alike: locations are passed on from the tokens to the trees,
to the functions and to the errors, and nothing is ever decided by them.
-/
namespace SnapshotLisp

structure Closure.Like (places : Location → Location → Prop) (c c' : Closure) : Prop where
  name : c.name = c'.name
  params : c.params = c'.params
  body : c.body.Like places c'.body

def Comparison.relocated (places : Location → Location → Prop) : Comparison :=
  pointwise (fun _ => True) (Closure.Like places) (Located.Like places)

section

variable {places : Location → Location → Prop}

theorem Expr.Like.group? {e e' : Expr} (like : e.Like places e') :
    Option.Rel (Group.Like places) e.group? e'.group? := by
  cases like with
  | atom same => exact .none
  | list place count below => exact .some ⟨(Expr.Like.list place count below).inside, place⟩

namespace Closure

theorem readAlike_of_like {e e' : Expr} (like : e.Like places e') :
    ReadAlike (Comparison.relocated places) e e' where
  named := like.identifier?_eq
  shown expected := ⟨by rw [invalid, invalid, like.render_eq], like.place⟩
  refused _ := ⟨rfl, like.place⟩

theorem ofParts_like {name name' params params' body body' : Expr} (named : name.Like places name')
    (listed : params.Like places params') (stored : body.Like places body') :
    (Comparison.relocated places).Checks (Closure.Like places) (ofParts name params body)
      (ofParts name' params' body') := by
  have items : ∀ g g' : Group, g.Like places g' →
      List.Forall₂ (ReadAlike (Comparison.relocated places)) g.items g'.items :=
    fun g g' like => like.items.imp fun _ _ => readAlike_of_like
  refine Comparison.checks_mono ?_ (ofParts_checks (readAlike_of_like named)
    (readAlike_of_like listed) listed.group? items (readAlike_of_like stored) stored.group?)
  rintro c c' ⟨sameName, sameParams, sameBody⟩
  exact ⟨sameName, sameParams, sameBody⟩

end Closure

theorem relocated_define {env env' : Environment} {name : String} {v v' : Value}
    (agree : (Comparison.relocated places).env env env')
    (like : (Comparison.relocated places).value v v') :
    (Comparison.relocated places).env (env.define name v) (env'.define name v') :=
  Comparison.pointwise_define agree like name

theorem relocated_applies {items items' : List Expr} {location location' : Location}
    (place : places location location') (same : List.Forall₂ (Expr.Like places) items items') :
    ((Comparison.relocated places).coupling False relocated_define).Applies (Expr.Like places) items
      location items' location' := by
  cases same with
  | nil => exact .empty ⟨rfl, place⟩
  | @cons head head' args args' first later =>
    have identifiers := first.identifier?_eq
    have count := later.length_eq
    cases named : head.identifier? with
    | none =>
      rw [named] at identifiers
      exact .nameless named identifiers.symm ⟨by rw [first.render_eq], first.place⟩
    | some name =>
      rw [named] at identifiers
      refine .named named identifiers.symm count (fun _ => ⟨by rw [count], place⟩) ⟨rfl, place⟩
        (fun _ => later) ?_ ?_ ?_
      · intro w
        refine ⟨(), Comparison.coupling_noted _ _, ?_⟩
        intro _ text params body text' params' body' left right
        subst left
        subst right
        simp only [List.forall₂_cons, List.forall₂_nil_left_iff] at later
        obtain ⟨sameName, sameParams, sameBody, _⟩ := later
        refine Comparison.coupling_parts (fun related => related.name) ?_
        exact Closure.ofParts_like sameName sameParams sameBody
      · intro _ w env env' agree
        exact Comparison.pointwise_callee trivial (fun _ => ⟨rfl, first.place⟩)
          ⟨rfl, first.place⟩ agree
      · intro w closure closure' related count
        exact ⟨by rw [related.name, related.params], place⟩

theorem relocated_simulates (places : Location → Location → Prop) :
    ((Comparison.relocated places).coupling False relocated_define).Simulates
      (Expr.Like places) where
  atom := by
    intro token e' like
    cases like with
    | @atom _ token' same =>
      refine ⟨token', rfl, ?_⟩
      intro w env env' agree
      exact Comparison.pointwise_atomValue same.kind same.text (fun _ => trivial)
        (fun _ => ⟨rfl, same.place⟩) (fun _ => ⟨rfl, same.place⟩) agree
  list := by
    intro items location e' like
    cases like with
    | list place count below =>
      exact ⟨_, _, rfl, relocated_applies place (Expr.Like.list place count below).inside⟩
  missing like := ⟨rfl, like.place⟩
  notInteger like _ := ⟨rfl, like.place⟩
  notBoolean like _ := ⟨rfl, like.place⟩
  params related := related.params
  calling _ := ⟨(), Comparison.coupling_noted _ _⟩

theorem relocated_simulation (places : Location → Location → Prop) :
    Simulation (Comparison.relocated places) (Expr.Like places) where
  define := relocated_define
  simulates := relocated_simulates places
  sequence := by
    intro closure closure' related
    have same := related.body.items
    unfold Group.isSequence
    generalize closure.body.items = left at same
    generalize closure'.body.items = right at same
    cases same with
    | nil => rfl
    | cons first later => cases first <;> rfl
  forms related _ := related.body.items
  body related := related.body.toExpr

theorem relocated_fresh {s s' : State} (fresh : s.env = .empty) (fresh' : s'.env = .empty) :
    (Comparison.relocated places).env s.env s'.env := by
  intro name _
  rw [fresh, fresh', Environment.get?_empty]
  exact .none

theorem program_outcomes {groups groups' : List Group}
    (same : List.Forall₂ (Group.Like places) groups groups') {s s' : State} (fresh : s.env = .empty)
    (fresh' : s'.env = .empty) (depth : Nat) :
    (Comparison.relocated places).Outcomes (Option.Rel (Comparison.relocated places).value)
      ((eval depth (programOf groups).toExpr).run s)
      ((eval depth (programOf groups').toExpr).run s') := by
  have items : List.Forall₂ (Expr.Like places) (groups.map Group.toExpr)
      (groups'.map Group.toExpr) := by
    rw [List.forall₂_map_left_iff, List.forall₂_map_right_iff]
    exact same.imp fun _ _ like => like.toExpr
  exact (relocated_simulation places).program_matches items depth s s' (relocated_fresh fresh fresh')

end

/-- The verdicts on two texts correspond: the same word, truth or absence of a value, functions that
differ only in where their bodies stand, or the same complaint at corresponding places. -/
inductive Verdict.Like (places : Location → Location → Prop) : Verdict → Verdict → Prop where
  | value {result result' : Option Value}
      (same : Option.Rel (Value.Like (Closure.Like fun _ _ => True)) result result') :
      Like places (.value result) (.value result')
  | parse {e e' : ParseError} (same : e.Like places e') :
      Like places (.error (.parse e)) (.error (.parse e'))
  | eval {e e' : EvalError} (same : e.Like places e') :
      Like places (.error (.eval e)) (.error (.eval e'))
  | tooDeep : Like places .tooDeep .tooDeep

section

variable {places : Location → Location → Prop}

theorem Verdict.Like.message_eq {v v' : Verdict} (like : v.Like places v') {e e' : Error}
    (left : v = .error e) (right : v' = .error e') : e.message = e'.message := by
  cases like with
  | value => cases left
  | parse same =>
    cases left
    cases right
    rw [Error.message, Error.message, same.cause]
  | eval same =>
    cases left
    cases right
    rw [Error.message, Error.message, same.cause]
  | tooDeep => cases left

theorem verdict_like {left right : Outcome (Option Value)}
    (outcomes : (Comparison.relocated places).Outcomes
      (Option.Rel (Comparison.relocated places).value) left right) :
    left.verdict.Like places right.verdict := by
  have forget : ∀ c c', Closure.Like places c c' → Closure.Like (fun _ _ => True) c c' :=
    fun _ _ like => ⟨like.name, like.params, like.body.mono fun _ _ _ => trivial⟩
  cases outcomes with
  | done result bindings =>
    apply Verdict.Like.value
    cases result with
    | some like => exact .some (like.mono forget)
    | none => exact .none
  | failed error bindings => exact .eval error
  | excused allowed => exact allowed.elim
  | tooDeep => exact .tooDeep

theorem run_like {source source' : String} {tokens tokens' : List Token}
    (lexed : lex source = .ok tokens) (lexed' : lex source' = .ok tokens')
    (same : List.Forall₂ (Token.Like places) tokens tokens') (depth : Nat) :
    (run depth source).Like places (run depth source') := by
  have both := parseGroups_like same
  generalize read : parseGroups tokens = left at both
  generalize read' : parseGroups tokens' = right at both
  cases both with
  | error same =>
    rw [run_of_unread lexed read, run_of_unread lexed' read']
    exact .parse same
  | ok groups =>
    obtain ⟨s, fresh, ran⟩ := run_of_groups lexed read
    obtain ⟨s', fresh', ran'⟩ := run_of_groups lexed' read'
    rw [ran, ran']
    exact verdict_like (program_outcomes groups fresh fresh' depth)

end

/-- The places are those of the tokens of one number in both lists. -/
def SamePlace (tokens tokens' : List Token) (place place' : Location) : Prop :=
  ∃ (number : Nat) (t t' : Token), tokens[number]? = some t ∧ tokens'[number]? = some t' ∧
    place = t.location ∧ place' = t'.location

theorem like_of_same_words {tokens tokens' : List Token}
    (same : List.Forall₂ (fun t t' => t.kind = t'.kind ∧ t.text = t'.text) tokens tokens') :
    List.Forall₂ (Token.Like (SamePlace tokens tokens')) tokens tokens' := by
  rw [List.forall₂_iff_get] at same ⊢
  obtain ⟨count, words⟩ := same
  refine ⟨count, ?_⟩
  intro number bound bound'
  obtain ⟨kind, text⟩ := words number bound bound'
  exact ⟨kind, text, number, _, _, List.getElem?_eq_getElem bound,
    List.getElem?_eq_getElem bound', rfl, rfl⟩

/-- Layout independence. Texts that are cut into the same words run alike, to any depth. Where they
fail it is at the same stage, with the same message, and at tokens of the same number. -/
theorem run_layout_independent {source source' : String} {tokens tokens' : List Token}
    (lexed : lex source = .ok tokens) (lexed' : lex source' = .ok tokens')
    (same : List.Forall₂ (fun t t' => t.kind = t'.kind ∧ t.text = t'.text) tokens tokens')
    (depth : Nat) :
    (run depth source).Like (SamePlace tokens tokens') (run depth source') ∧
      ∀ e e', run depth source = .error e → run depth source' = .error e' →
        e.message = e'.message := by
  have like := run_like lexed lexed' (like_of_same_words same) depth
  exact ⟨like, fun e e' left right => like.message_eq left right⟩

theorem run_layout_independent_of_unbound :
    ∃ source source' tokens tokens', source = "(+ 1\n   x)" ∧ source' = "( +\t1 x )" ∧
      lex source = .ok tokens ∧ lex source' = .ok tokens' ∧
      (run 4 source).Like (SamePlace tokens tokens') (run 4 source') ∧
      SamePlace tokens tokens' ⟨2, 4⟩ ⟨1, 7⟩ := by
  refine ⟨_, _, [⟨.openParen, "(", 0, ⟨1, 1⟩⟩, ⟨.identifier, "+", 1, ⟨1, 2⟩⟩,
      ⟨.integer, "1", 3, ⟨1, 4⟩⟩, ⟨.identifier, "x", 8, ⟨2, 4⟩⟩, ⟨.closeParen, ")", 9, ⟨2, 5⟩⟩],
    [⟨.openParen, "(", 0, ⟨1, 1⟩⟩, ⟨.identifier, "+", 2, ⟨1, 3⟩⟩,
      ⟨.integer, "1", 4, ⟨1, 5⟩⟩, ⟨.identifier, "x", 6, ⟨1, 7⟩⟩, ⟨.closeParen, ")", 8, ⟨1, 9⟩⟩],
    rfl, rfl, by decide +kernel, by decide +kernel, ?_, ?_⟩
  · exact (run_layout_independent (by decide +kernel) (by decide +kernel) (by simp) 4).1
  · exact ⟨3, _, _, rfl, rfl, rfl, rfl⟩

end SnapshotLisp
