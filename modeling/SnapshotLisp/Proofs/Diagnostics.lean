import SnapshotLisp.Run
import SnapshotLisp.Proofs.SameSimulation
import SnapshotLisp.Proofs.Lexing
import SnapshotLisp.Proofs.Placement

/-!
Errors and their reports. Every error of a run stands at a token of the text, so its report can quote
the line of that token and put the caret below its first character. Evaluation keeps locations in
functions and uses them much later; the invariant is that they are all places of parentheses and
atoms that were read from the text.
-/
namespace SnapshotLisp

/-- The token is what the cause complains of, as far as the cause tells. -/
def EvalCause.Accuses : EvalCause → Token → Prop
  | .numericFormat text, t => t.kind = .integer ∧ t.text = text
  | .unknownVariable name, t => t.kind = .identifier ∧ t.text = name
  | .builtinArity _ _, t | .argumentCountMismatch _ _ _, t | .overflow, t | .missingValue, t =>
    t.kind = .openParen
  | .expectedBoolean _, _ | .expectedInteger _, _ | .expectedFunction _, _
  | .invalidDefinition _, _ => True

def ParseCause.Accuses : ParseCause → Token → Prop
  | .expectedOpenParen found, t => t.text = found
  | .expectedClosingParen, _ => True
  | .incompleteParse _, _ => False

def Error.Accuses : Error → Token → Prop
  | .lex _, _ => False
  | .parse e, t => e.cause.Accuses t
  | .eval e, t => e.cause.Accuses t

def EvalCause.quoted : EvalCause → String
  | .expectedBoolean text | .expectedInteger text | .expectedFunction text | .unknownVariable text
  | .argumentCountMismatch text _ _ | .numericFormat text | .invalidDefinition text => text
  | .builtinArity _ _ | .missingValue | .overflow => ""

theorem oneLine_toString_nat (n : Nat) : OneLine (toString n) := by
  simp only [OneLine, Nat.toString_eq_repr, Nat.toList_repr]
  intro newline
  exact absurd (Nat.isDigit_of_mem_toDigits (by decide) (by decide) newline) (by decide)

theorem Arity.oneLine_describe (arity : Arity) : OneLine arity.describe := by
  cases arity with
  | exactly count => exact (oneLine_append _ _).mpr ⟨by decide, oneLine_toString_nat count⟩
  | atLeast count => exact (oneLine_append _ _).mpr ⟨by decide, oneLine_toString_nat count⟩

theorem Builtin.oneLine_name (builtin : Builtin) : OneLine builtin.name := by
  cases builtin <;> decide

theorem EvalCause.oneLine_message {cause : EvalCause} (fits : OneLine cause.quoted) :
    OneLine cause.message := by
  cases cause with
  | unknownVariable name =>
    unfold message
    simp only [oneLine_append]
    exact ⟨⟨by decide, fits⟩, by decide⟩
  | argumentCountMismatch name expected found =>
    unfold message
    simp only [oneLine_append]
    exact ⟨⟨⟨⟨⟨by decide, oneLine_toString_nat expected⟩, by decide⟩, fits⟩, by decide⟩,
      oneLine_toString_nat found⟩
  | builtinArity builtin found =>
    unfold message
    simp only [oneLine_append]
    exact ⟨⟨⟨⟨⟨by decide, builtin.oneLine_name⟩, by decide⟩, builtin.arity.oneLine_describe⟩,
      by decide⟩, oneLine_toString_nat found⟩
  | missingValue | overflow => decide
  | expectedBoolean | expectedInteger | expectedFunction | numericFormat | invalidDefinition =>
    unfold message
    exact (oneLine_append _ _).mpr ⟨by decide, fits⟩

theorem Value.oneLine_typeName (v : Value) : OneLine v.typeName := by
  cases v <;> rw [typeName] <;> decide

theorem Value.oneLine_describe (found : Option Value) : OneLine (describe found) := by
  cases found with
  | none => decide
  | some v => exact v.oneLine_typeName

/-- The error stands at a token of the list that its cause may accuse, and its message is one
line. -/
structure Grounded (tokens : List Token) (e : EvalError) : Prop where
  token : ∃ t ∈ tokens, e.location = t.location ∧ e.cause.Accuses t
  oneLine : OneLine e.cause.message

section

variable {tokens : List Token}

theorem grounded_at {e : Expr} (placed : e.Placed tokens) {cause : EvalCause}
    (general : ∀ t, cause.Accuses t) (fits : OneLine cause.quoted) :
    Grounded tokens ⟨cause, e.location⟩ := by
  obtain ⟨t, member, place⟩ := placed.location
  exact ⟨⟨t, member, place.symm, general t⟩, EvalCause.oneLine_message fits⟩

theorem grounded_at_paren {items : List Expr} {location : Location}
    (placed : (Expr.list items location).Placed tokens) {cause : EvalCause}
    (opening : ∀ t : Token, t.kind = .openParen → cause.Accuses t) (fits : OneLine cause.quoted) :
    Grounded tokens ⟨cause, location⟩ := by
  obtain ⟨t, member, opens, place⟩ := placed.paren
  exact ⟨⟨t, member, place.symm, opening t opens⟩, EvalCause.oneLine_message fits⟩

variable (texts : ∀ t ∈ tokens, OneLine t.text)
include texts

theorem grounded_blamed {e : Expr} (placed : e.Placed tokens) {error : EvalError}
    (blamed : e.Blamed error) : Grounded tokens error := by
  cases blamed with
  | empty location => exact grounded_at placed (fun _ => trivial) (by decide)
  | nameless named =>
    have head := placed.item List.mem_cons_self
    exact grounded_at head (fun _ => trivial) (head.oneLine_render texts)
  | arity items location builtin count =>
    exact grounded_at_paren placed (fun _ opens => opens) (by rw [EvalCause.quoted]; decide)
  | overflow items location => exact grounded_at_paren placed (fun _ opens => opens) (by decide)
  | missing items location => exact grounded_at_paren placed (fun _ opens => opens) (by decide)
  | notInteger e found => exact grounded_at placed (fun _ => trivial) (Value.oneLine_describe found)
  | notBoolean e found => exact grounded_at placed (fun _ => trivial) (Value.oneLine_describe found)

namespace Closure

theorem unexpected_grounded {e : Expr} (placed : e.Placed tokens) {expected : String}
    (fits : OneLine expected) : Grounded tokens (invalid (expected ++ e.render) e) := by
  refine grounded_at placed (fun _ => trivial) ?_
  exact (oneLine_append _ _).mpr ⟨fits, placed.oneLine_render texts⟩

theorem readName_grounded {e : Expr} (placed : e.Placed tokens) {error : EvalError}
    (refused : readName e = .error error) : Grounded tokens error := by
  unfold readName at refused
  split at refused
  · cases refused
    exact unexpected_grounded texts placed (by decide)
  · rename_i name named
    split at refused
    · cases refused
      obtain ⟨t, member, text⟩ := placed.identifier named
      subst text
      refine grounded_at placed (fun _ => trivial) ?_
      simp only [EvalCause.quoted, oneLine_append]
      exact ⟨⟨by decide, texts t member⟩, by decide⟩
    · cases refused

theorem readParam_grounded {e : Expr} (placed : e.Placed tokens) {error : EvalError}
    (refused : readParam e = .error error) : Grounded tokens error := by
  unfold readParam at refused
  split at refused
  · cases refused
    exact unexpected_grounded texts placed (by decide)
  · cases refused

theorem mapM_readParam_grounded {items : List Expr} (placed : ∀ e ∈ items, e.Placed tokens)
    {error : EvalError} (refused : items.mapM readParam = .error error) : Grounded tokens error := by
  induction items with
  | nil => cases refused
  | cons item later ih =>
    rw [List.mapM_cons] at refused
    rcases error_of_bind refused with first | ⟨name, _, refused⟩
    · exact readParam_grounded texts (placed item List.mem_cons_self) first
    · rcases error_of_bind refused with rest | ⟨names, _, refused⟩
      · exact ih (fun e member => placed e (List.mem_cons_of_mem item member)) rest
      · cases refused

theorem readParams_grounded {e : Expr} (placed : e.Placed tokens) {error : EvalError}
    (refused : readParams e = .error error) : Grounded tokens error := by
  cases e with
  | atom token =>
    cases refused
    exact unexpected_grounded texts placed (by decide)
  | list items place => exact mapM_readParam_grounded texts (fun _ => placed.item) refused

theorem readBody_grounded {e : Expr} (placed : e.Placed tokens) {error : EvalError}
    (refused : readBody e = .error error) : Grounded tokens error := by
  cases e with
  | atom token =>
    cases refused
    exact unexpected_grounded texts placed (by decide)
  | list items place => cases refused

theorem ofParts_grounded {name params body : Expr} (named : name.Placed tokens)
    (listed : params.Placed tokens) (stored : body.Placed tokens) {error : EvalError}
    (refused : ofParts name params body = .error error) : Grounded tokens error := by
  rcases error_of_bind refused with first | ⟨text, _, refused⟩
  · exact readName_grounded texts named first
  · rcases error_of_bind refused with second | ⟨params, _, refused⟩
    · exact readParams_grounded texts listed second
    · rcases error_of_bind refused with third | ⟨group, _, refused⟩
      · exact readBody_grounded texts stored third
      · cases refused

end Closure

end

section

variable {source : String} {tokens : List Token}

/-- The invariant of a run: every function in reach has a body from the text. -/
def Comparison.grounded (tokens : List Token) : Comparison :=
  pointwise (fun _ => True) (fun c d => c = d ∧ c.body.Placed tokens ∧ OneLine c.name)
    (fun e f => e = f ∧ Grounded tokens e)

theorem grounded_simulation (lexed : lex source = .ok tokens) :
    SameSimulation (Comparison.grounded tokens) (Expr.Placed tokens) where
  closure_eq := fun related => related.1
  atom := by
    intro token placed env env' agree
    cases placed with
    | atom member plain =>
      have fits : OneLine token.text := token_oneLine lexed member
      refine Comparison.pointwise_atomValue rfl rfl (fun _ => trivial) ?_ ?_ agree
      · intro integer
        exact ⟨rfl, ⟨token, member, rfl, integer, rfl⟩, EvalCause.oneLine_message fits⟩
      · intro other
        -- Parentheses do not become atoms, and blanks do not become tokens.
        have identifier : token.kind = .identifier := by
          have solid := (token_stretch lexed member).1
          cases kind : token.kind <;> simp_all [TokenKind.isSyntax]
        exact ⟨rfl, ⟨token, member, rfl, identifier, rfl⟩, EvalCause.oneLine_message fits⟩
  found := by
    intro head args location placed name named free env env' agree
    have first : head.Placed tokens := placed.item List.mem_cons_self
    have fits : OneLine name := by
      obtain ⟨t, member, text⟩ := first.identifier named
      subst text
      exact token_oneLine lexed member
    refine Comparison.pointwise_callee trivial ?_ ?_ agree
    · intro v
      refine ⟨rfl, grounded_at first (fun _ => trivial) ?_⟩
      simp only [EvalCause.quoted, oneLine_append]
      exact ⟨⟨⟨fits, by decide⟩, v.oneLine_typeName⟩, by decide⟩
    · exact ⟨rfl, grounded_at first (fun _ => trivial) fits⟩
  operand := fun placed _ e member => placed.item (List.mem_cons_of_mem _ member)
  accepted := by
    intro head name params body location placed _ closure read
    obtain ⟨named, _, _, same⟩ := Closure.ofParts_ok read
    subst same
    obtain ⟨t, member, text⟩ := (placed.item (by simp)).identifier named
    refine ⟨rfl, placed.item (by simp), ?_⟩
    rw [← text]
    exact token_oneLine lexed member
  refused := by
    intro head name params body location placed _ e failed
    have texts : ∀ t ∈ tokens, OneLine t.text := fun t member => token_oneLine lexed member
    have parts : ∀ e ∈ [name, params, body], e.Placed tokens :=
      fun e member => placed.item (List.mem_cons_of_mem head member)
    exact ⟨rfl, Closure.ofParts_grounded texts (parts name (by simp)) (parts params (by simp))
      (parts body (by simp)) failed⟩
  form := fun related _ e member => related.2.1.item member
  body := fun related => related.2.1
  define := fun agree like => Comparison.pointwise_define agree like _
  blamed := fun placed blamed =>
    ⟨rfl, grounded_blamed (fun _ member => token_oneLine lexed member) placed blamed⟩
  mismatch := fun placed _ related count =>
    ⟨rfl, grounded_at_paren placed (fun _ opens => opens) related.2.2⟩

theorem program_error_grounded (lexed : lex source = .ok tokens) {groups : List Group}
    (parsed : parseGroups tokens = .ok groups) {depth : Nat} {s s' : State} {e : EvalError}
    (fresh : s.env = .empty)
    (failed : (eval depth (programOf groups).toExpr).run s = .failed e s') : Grounded tokens e := by
  have sim := grounded_simulation lexed
  have placed : ∀ g ∈ groups.map Group.toExpr, g.Placed tokens := by
    intro g member
    obtain ⟨group, inside, same⟩ := List.mem_map.mp member
    subst same
    exact parseGroups_placed parsed group inside
  have unbound : (Comparison.grounded tokens).env s.env s.env := by
    intro name _
    rw [fresh, Environment.get?_empty]
    exact .none
  have both := sim.simulation.program_matches (SameSimulation.same_list placed) depth
  -- The same state on both sides, so what is related is one run and itself.
  have outcomes := both s s unbound
  rw [failed] at outcomes
  obtain ⟨_, _, _, related, _⟩ := outcomes.of_failed id
  exact related.2

end

theorem ParseCause.oneLine_message {cause : ParseCause} {t : Token} (fits : OneLine t.text)
    (accused : cause = .expectedOpenParen t.text ∨ cause = .expectedClosingParen) :
    OneLine cause.message := by
  rcases accused with same | same
  · subst same
    unfold message
    simp only [oneLine_append]
    exact ⟨⟨by decide, fits⟩, by decide⟩
  · subst same
    decide

theorem run_error_cases {depth : Nat} {source : String} {e : Error}
    (failed : run depth source = .error e) :
    ∃ tokens, lex source = .ok tokens ∧
      ((∃ error, e = .parse error ∧ parseGroups tokens = .error error) ∨
        ∃ error groups s s', e = .eval error ∧ parseGroups tokens = .ok groups ∧
          s.env = .empty ∧ (eval depth (programOf groups).toExpr).run s = .failed error s') := by
  obtain ⟨all, _, lexed⟩ := lex_total source
  generalize all.filter (fun t => t.kind != .blank) = tokens at lexed
  refine ⟨tokens, lexed, ?_⟩
  cases parsed : parseGroups tokens with
  | error error =>
    rw [run_of_unread lexed parsed] at failed
    cases failed
    exact Or.inl ⟨error, rfl, rfl⟩
  | ok groups =>
    obtain ⟨s, fresh, ran⟩ := run_of_groups lexed parsed
    rw [ran] at failed
    cases ended : (eval depth (programOf groups).toExpr).run s with
    | done result s' =>
      rw [ended] at failed
      cases failed
    | failed error s' =>
      rw [ended] at failed
      cases failed
      exact Or.inr ⟨error, groups, s, s', rfl, rfl, fresh, ended⟩
    | tooDeep =>
      rw [ended] at failed
      cases failed

theorem run_error_grounded {depth : Nat} {source : String} {e : Error}
    (failed : run depth source = .error e) :
    ∃ tokens t, lex source = .ok tokens ∧ t ∈ tokens ∧ e.location = t.location ∧ e.Accuses t ∧
      OneLine e.message := by
  obtain ⟨tokens, lexed, unread | evaluated⟩ := run_error_cases failed
  · obtain ⟨error, same, parsed⟩ := unread
    subst same
    obtain ⟨t, member, place, accused⟩ := parseGroups_error parsed
    refine ⟨tokens, t, lexed, member, place, ?_,
      ParseCause.oneLine_message (token_oneLine lexed member) accused⟩
    rcases accused with cause | cause
    · simp [Error.Accuses, cause, ParseCause.Accuses]
    · simp [Error.Accuses, cause, ParseCause.Accuses]
  · obtain ⟨error, groups, s, s', same, parsed, fresh, ended⟩ := evaluated
    subst same
    obtain ⟨⟨t, member, place, accused⟩, fits⟩ :=
      program_error_grounded lexed parsed fresh ended
    exact ⟨tokens, t, lexed, member, place, accused, fits⟩

theorem Location.oneLine_render (l : Location) : OneLine l.render := by
  unfold render
  simp only [oneLine_append]
  exact ⟨⟨⟨by decide, oneLine_toString_nat l.line⟩, by decide⟩, oneLine_toString_nat l.column⟩

def Error.heading (e : Error) (file : String) : String :=
  s!"{e.message} [at {e.location.render} in file {file}]"

def Error.caret (e : Error) : String :=
  String.ofList (List.replicate (e.location.column - 1) ' ') ++ "^ near here"

theorem Error.oneLine_heading {e : Error} (message : OneLine e.message) {file : String}
    (named : OneLine file) : OneLine (e.heading file) := by
  unfold heading
  simp only [oneLine_append]
  exact ⟨⟨⟨⟨⟨message, by decide⟩, e.location.oneLine_render⟩, by decide⟩, named⟩, by decide⟩

theorem Error.oneLine_caret (e : Error) : OneLine e.caret := by
  unfold caret
  rw [oneLine_append]
  refine ⟨?_, by decide⟩
  rw [OneLine, String.toList_ofList]
  intro newline
  exact absurd (List.eq_of_mem_replicate newline) (by decide)

theorem Error.report_eq {e : Error} {source line : String}
    (found : sourceLine source e.location.line = some line) (file : String) :
    e.report source file = e.heading file ++ "\n" ++ line ++ "\n" ++ e.caret ++ "\n" := by
  have closing : toString "]\n" = toString "]" ++ "\n" := rfl
  have pointing : "^ near here\n" = "^ near here" ++ "\n" := rfl
  unfold report excerpt heading caret
  rw [found, closing, pointing]
  simp only [String.append_assoc]

theorem token_first_in_line {source line : String} {tokens : List Token} {t : Token}
    (lexed : lex source = .ok tokens) (member : t ∈ tokens) {column : Nat}
    (starts : t.text.toList <+: line.toList.drop column) :
    ∃ c, t.text.toList.head? = some c ∧ line.toList[column]? = some c := by
  obtain ⟨rest, whole⟩ := starts
  cases text : t.text.toList with
  | nil => exact absurd text (token_nonempty lexed member)
  | cons c later =>
    refine ⟨c, rfl, ?_⟩
    rw [text] at whole
    rw [← List.head?_drop, ← whole]
    rfl

/-- An error of a run is at a token of the text, one of the kind that its cause speaks of, and its
report is three lines: the heading, the line with the token, and the caret below the first character
of the token. The place of the program's wrapper is no exception; an error is there only if a token
is. -/
theorem run_error_points_at_token {depth : Nat} {source : String} {e : Error}
    (failed : run depth source = .error e) :
    ∃ tokens t line, lex source = .ok tokens ∧ t ∈ tokens ∧ e.location = t.location ∧
      e.Accuses t ∧ 1 ≤ e.location.column ∧ sourceLine source e.location.line = some line ∧
      (∃ c, t.text.toList.head? = some c ∧ line.toList[e.location.column - 1]? = some c) ∧
      ∀ file, OneLine file →
        e.report source file = e.heading file ++ "\n" ++ line ++ "\n" ++ e.caret ++ "\n" ∧
          OneLine (e.heading file) ∧ OneLine line ∧ OneLine e.caret := by
  obtain ⟨tokens, t, lexed, member, place, accused, message⟩ := run_error_grounded failed
  obtain ⟨column, line, found, starts⟩ := token_in_line lexed member
  rw [← place] at column found starts
  refine ⟨tokens, t, line, lexed, member, place, accused, column, found,
    token_first_in_line lexed member starts, ?_⟩
  intro file named
  exact ⟨Error.report_eq found file, Error.oneLine_heading message named, oneLine_sourceLine found,
    e.oneLine_caret⟩

/-- The body of a function fails on a later line than it is written on. -/
theorem run_error_points_into_body :
    ∃ source e, source = "(func f (x) (+ x y))\r\n(f 1)" ∧
      e = Error.eval ⟨.unknownVariable "y", ⟨1, 18⟩⟩ ∧ run 9 source = .error e ∧
      ∃ (t : Token) (line : String), e.location = t.location ∧ t.kind = .identifier ∧
        t.text = "y" ∧ sourceLine source 1 = some line ∧ line.toList[17]? = some 'y' ∧
        e.report source "a.lisp" =
          e.heading "a.lisp" ++ "\n" ++ line ++ "\n" ++ e.caret ++ "\n" := by
  have told : (match run 9 "(func f (x) (+ x y))\r\n(f 1)" with
      | .error e => some e
      | _ => none) = some (.eval ⟨.unknownVariable "y", ⟨1, 18⟩⟩) := by decide +kernel
  have failed : run 9 "(func f (x) (+ x y))\r\n(f 1)" =
      .error (.eval ⟨.unknownVariable "y", ⟨1, 18⟩⟩) := by
    split at told
    · rename_i e ended
      cases told
      exact ended
    · cases told
  refine ⟨_, _, rfl, rfl, failed, ?_⟩
  obtain ⟨_, t, line, _, _, place, ⟨kind, text⟩, _, found, ⟨c, first, shown⟩, report⟩ :=
    run_error_points_at_token failed
  refine ⟨t, line, place, kind, text, found, ?_, (report "a.lisp" (by decide)).1⟩
  rw [text] at first
  exact shown.trans first.symm

end SnapshotLisp
