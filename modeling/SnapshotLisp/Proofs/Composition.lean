import SnapshotLisp.Proofs.Congruence
import SnapshotLisp.Proofs.Parentheses

/-!
Programs one behind the other. Tokens that are a program stay one in front of any others, and what
is read of the others does not change, so a text may be cut between two groups. Evaluated together
the two programs do what they do in turn, the second one in what the first one left.
-/
namespace SnapshotLisp

section

variable {tokens rest : List Token} {g : Group}

theorem readGroup_append {inner : Group} {outer : List Group}
    (read : readGroup inner outer tokens = some (g, rest)) (more : List Token) :
    readGroup inner outer (tokens ++ more) = some (g, rest ++ more) := by
  induction tokens generalizing inner outer with
  | nil => simp [readGroup] at read
  | cons t later ih =>
    rw [List.cons_append]
    rcases t.kind.paren_or_plain with opens | closes | plain
    · rw [readGroup_open _ _ _ opens] at read ⊢
      exact ih read
    · cases outer with
      | nil =>
        rw [readGroup_close_last _ _ closes] at read ⊢
        cases read
        rfl
      | cons next further =>
        rw [readGroup_close _ _ _ closes] at read ⊢
        exact ih read
    · rw [readGroup_atom _ _ _ plain] at read ⊢
      exact ih read

theorem parseGroup_append {t : Token} (read : parseGroup t tokens = .ok (g, rest))
    (more : List Token) : parseGroup t (tokens ++ more) = .ok (g, rest ++ more) := by
  have opens := (parseGroup_ok read).1
  rw [parseGroup, if_pos opens] at read ⊢
  cases found : readGroup ⟨[], t.location⟩ [] tokens with
  | none =>
    rw [found] at read
    cases read
  | some pair =>
    rw [found] at read
    cases read
    rw [readGroup_append found]

theorem parseGroups_append {groups : List Group} (read : parseGroups tokens = .ok groups)
    (more : List Token) :
    parseGroups (tokens ++ more) = (parseGroups more).map (groups ++ ·) := by
  fun_induction parseGroups tokens generalizing groups with
  | case1 =>
    cases read
    rw [List.nil_append]
    cases parseGroups more <;> rfl
  | case2 t rest e failed => cases read
  | case3 t rest g later first ih =>
    obtain ⟨behind, others, rfl⟩ := ok_of_map read
    rw [List.cons_append, parseGroups_of_ok (parseGroup_append first more), ih others]
    cases parseGroups more <;> rfl

/-- A stray token is found before what follows is looked at. A group that is not closed may be
closed by what follows, so of it this cannot be said. -/
theorem parseGroups_stray_append {found : String} {location : Location}
    (failed : parseGroups tokens = .error ⟨.expectedOpenParen found, location⟩)
    (more : List Token) :
    parseGroups (tokens ++ more) = .error ⟨.expectedOpenParen found, location⟩ := by
  fun_induction parseGroups tokens with
  | case1 => cases failed
  | case2 t rest e first =>
    cases failed
    have stray : t.kind ≠ .openParen := by
      intro opens
      cases (parseGroup_unclosed first opens).1
    rw [parseGroup, if_neg stray] at first
    apply parseGroups_of_error
    rw [parseGroup, if_neg stray, first]
  | case3 t rest g later first ih =>
    rw [List.cons_append, parseGroups_of_ok (parseGroup_append first more)]
    cases others : parseGroups later with
    | ok groups =>
      rw [others] at failed
      cases failed
    | error e =>
      rw [others] at failed
      cases failed
      rw [ih others]
      rfl

end

def Group.sequence (forms : List Expr) : Group := ⟨.atom (.synthetic "begin") :: forms, ⟨1, 1⟩⟩

theorem parseProgram_eq_ok_iff {tokens : List Token} {forms : List Expr} :
    parseProgram tokens = .ok (.sequence forms) ↔
      ∃ groups, parseGroups tokens = .ok groups ∧ forms = groups.map Group.toExpr := by
  constructor
  · intro parsed
    obtain ⟨groups, read, same⟩ := ok_of_map parsed
    cases same
    exact ⟨groups, read, rfl⟩
  · rintro ⟨groups, read, rfl⟩
    rw [parseProgram, read]
    rfl

theorem parseProgram_eq_error_iff {tokens : List Token} {e : ParseError} :
    parseProgram tokens = .error e ↔ parseGroups tokens = .error e := by
  unfold parseProgram
  cases parseGroups tokens <;> simp [Except.map]

theorem evalSequence_append (ev : Evaluator) (last : Option Value) (items items' : List Expr) :
    evalSequence ev last (items ++ items') =
      evalSequence ev last items >>= fun value => evalSequence ev value items' := by
  induction items generalizing last with
  | nil => rfl
  | cons item later ih =>
    simp only [List.cons_append, evalSequence, bind_assoc]
    exact congrArg (ev item >>= ·) (funext ih)

theorem evalSequence_of_nonempty (ev : Evaluator) {items : List Expr} (nonempty : items ≠ [])
    (last last' : Option Value) : evalSequence ev last items = evalSequence ev last' items := by
  cases items with
  | nil => exact absurd rfl nonempty
  | cons item later => rfl

theorem evalSequence_sameButLog (depth : Nat) (last : Option Value) (items : List Expr) :
    (evalSequence (eval depth) last items).SameButLog (evalSequence (eval depth) last items) :=
  Eval.sameButLog_congruence.evalSequence (eval_sameButLog depth) last items

inductive Expr.Sequences : Expr → List Expr → Prop where
  | form {head : Expr} {items : List Expr} {location : Location}
      (keyword : head.identifier? = some Builtin.sequence.name) :
      Sequences (.list (head :: items) location) items

theorem Expr.Sequences.eval_sameButLog {e : Expr} {items : List Expr} (sequence : e.Sequences items)
    (depth : Nat) :
    (eval (depth + 1) e).SameButLog (evalSequence (eval depth) none items) := by
  cases sequence with
  | form keyword =>
    rw [eval_builtin keyword]
    exact Eval.sameButLog_congruence.bind (Eval.sameButLog_emit _) fun _ =>
      evalSequence_sameButLog depth none items

theorem eval_sequence_sameButLog (depth : Nat) (forms : List Expr) :
    (eval (depth + 1) (Group.sequence forms).toExpr).SameButLog
      (evalSequence (eval depth) none forms) :=
  Expr.Sequences.eval_sameButLog (.form rfl) depth

/-- Two programs in turn, the second one in what the first one left. A failure of the first is the
end of both. An empty program has no result, so the first one's stays. -/
def evalInTurn (depth : Nat) (forms forms' : List Expr) (s : State) : Outcome (Option Value) :=
  match (eval depth (Group.sequence forms).toExpr).run s with
  | .failed e mid => .failed e mid
  | .tooDeep => .tooDeep
  | .done result mid =>
    match (eval depth (Group.sequence forms').toExpr).run mid with
    | .failed e t => .failed e t
    | .tooDeep => .tooDeep
    | .done result' t => .done (if forms' = [] then result else result') t

theorem eval_sequence_append (depth : Nat) (forms forms' : List Expr) (s : State) :
    ((eval depth (Group.sequence (forms ++ forms')).toExpr).run s).unlogged =
      (evalInTurn depth forms forms' s).unlogged := by
  cases depth with
  | zero => rfl
  | succ depth =>
    rw [eval_sequence_sameButLog depth (forms ++ forms') s s rfl, evalSequence_append,
      Eval.run_bind, evalInTurn]
    rcases Outcome.unlogged_eq_cases (eval_sequence_sameButLog depth forms s s rfl) with
      ⟨result, mid, mid', left, right, same⟩ | ⟨e, mid, mid', left, right, same⟩ | ⟨left, right⟩
    · rw [left, right]
      dsimp only
      by_cases empty : forms' = []
      · subst empty
        exact congrArg (Outcome.done result) same.symm
      · rw [evalSequence_of_nonempty _ empty result none]
        rcases Outcome.unlogged_eq_cases (eval_sequence_sameButLog depth forms' mid mid' same) with
          ⟨last, t, t', one, other, after⟩ | ⟨e, t, t', one, other, after⟩ | ⟨one, other⟩
        · rw [one, other]
          simp [Outcome.unlogged, empty, after]
        · rw [one, other]
          exact congrArg (Outcome.failed e) after.symm
        · rw [one, other]
    · rw [left, right]
      exact congrArg (Outcome.failed e) same.symm
    · rw [left, right]

/-- Programs compose. Two of them in one text are read as their forms in one program; a complaint
about the second is made of the whole, at the same place, and so is one about a stray token of the
first. Evaluated as one program they come to what they come to in turn, in the bindings and with the
identities that the first has left, whether it has failed or not. -/
theorem programs_compose (tokens tokens' : List Token) :
    (∀ program, parseProgram tokens = .ok program → ∃ forms, program = .sequence forms) ∧
    (∀ forms forms', parseProgram tokens = .ok (.sequence forms) →
      parseProgram tokens' = .ok (.sequence forms') →
        parseProgram (tokens ++ tokens') = .ok (.sequence (forms ++ forms'))) ∧
    (∀ program e, parseProgram tokens = .ok program → parseProgram tokens' = .error e →
      parseProgram (tokens ++ tokens') = .error e) ∧
    (∀ found location, parseProgram tokens = .error ⟨.expectedOpenParen found, location⟩ →
      parseProgram (tokens ++ tokens') = .error ⟨.expectedOpenParen found, location⟩) ∧
    ∀ depth forms forms' s,
      ((eval depth (Group.sequence (forms ++ forms')).toExpr).run s).unlogged =
        (evalInTurn depth forms forms' s).unlogged := by
  refine ⟨?_, ?_, ?_, ?_, eval_sequence_append⟩
  · intro program parsed
    obtain ⟨groups, _, same⟩ := ok_of_map parsed
    exact ⟨groups.map Group.toExpr, same.symm⟩
  · intro forms forms' parsed parsed'
    obtain ⟨groups, read, rfl⟩ := parseProgram_eq_ok_iff.mp parsed
    obtain ⟨groups', read', rfl⟩ := parseProgram_eq_ok_iff.mp parsed'
    refine parseProgram_eq_ok_iff.mpr ⟨groups ++ groups', ?_, List.map_append.symm⟩
    rw [parseGroups_append read, read']
    rfl
  · intro program e parsed failed
    obtain ⟨groups, read, _⟩ := ok_of_map parsed
    rw [parseProgram_eq_error_iff] at failed ⊢
    rw [parseGroups_append read, failed]
    rfl
  · intro found location failed
    rw [parseProgram_eq_error_iff] at failed ⊢
    exact parseGroups_stray_append failed tokens'

end SnapshotLisp
