import SnapshotLisp.CommandLine
import SnapshotLisp.Proofs.Congruence

/-!
The command line and the library. Both take a text through the same stages, but each in its own way:
the command line shows tokens and tree between the stages and keeps no log, the library logs and
shows nothing. What a run comes to is the same on both ways, and what is shown on the way has no say
in it.
-/
namespace SnapshotLisp

theorem Outcome.verdict_eq_of_unlogged {left right : Outcome (Option Value)}
    (same : left.unlogged = right.unlogged) : left.verdict = right.verdict := by
  rcases Outcome.unlogged_eq_cases same with
    ⟨result, s, t, rfl, rfl, _⟩ | ⟨e, s, t, rfl, rfl, _⟩ | ⟨rfl, rfl⟩
  · rfl
  · rfl
  · rfl

theorem run_of_program {source : String} {tokens : List Token} {program : Group}
    (lexed : lex source = .ok tokens) (parsed : parseProgram tokens = .ok program) (depth : Nat) :
    run depth source = ((eval depth program.toExpr).run .initial).verdict := by
  have begun : ∀ log, ((eval depth program.toExpr).run { State.initial with log := log }).verdict =
      ((eval depth program.toExpr).run .initial).verdict :=
    fun log => Outcome.verdict_eq_of_unlogged (eval_sameButLog depth _ _ _ rfl)
  rw [← begun [.parsed (program.items.length - 1) tokens.length, .lexed tokens.length]]
  simp only [run, runLogged, lexed, parsed, runProgram]
  generalize (eval depth program.toExpr).run _ = outcome
  cases outcome <;> rfl

namespace CommandLine

inductive Options.Reads (texts : String → Option String) (options : Options) :
    String → String → Prop where
  | inPlace (given : options.inPlace = true) : Reads texts options options.contents "<eval>"
  | file {source : String} (named : options.inPlace = false)
      (found : texts options.contents = some source) : Reads texts options source options.contents

/-- What the flags have shown before there is a result: the tokens, a line each, and then the tree
if there is one. -/
def Options.shown (options : Options) (tokens : List Token) : String :=
  (if options.showTokens then String.join (tokens.map fun t => t.render ++ "\n") else "") ++
    if options.showTree then
      match parseProgram tokens with
      | .ok program => program.toExpr.render ++ "\n"
      | .error _ => ""
    else ""

def Options.output (options : Options) (tokens : List Token) (source file : String) :
    Verdict → Output
  | .value (some value) => ⟨0, options.shown tokens ++ (value.render ++ "\n"), ""⟩
  | .value none => ⟨0, options.shown tokens ++ "nil\n", ""⟩
  | .error e => ⟨1, options.shown tokens, e.report source file⟩
  | .tooDeep => ⟨1, options.shown tokens, "Evaluation goes too deep\n"⟩

section

variable {depth : Nat} {texts : String → Option String} {options : Options} {source file : String}
  {tokens : List Token}

theorem unlines_render : unlines (tokens.map Token.render) =
    String.join (tokens.map fun t => t.render ++ "\n") := by
  rw [unlines, List.map_map]
  rfl

theorem execute_eq_output (lexed : lex source = .ok tokens) :
    execute depth options source file = options.output tokens source file (run depth source) := by
  cases parsed : parseProgram tokens with
  | error e =>
    simp [execute, run, runLogged, lexed, parsed, unlines_render, Options.output, Options.shown]
  | ok program =>
    rw [run_of_program lexed parsed]
    simp only [execute, lexed, parsed, unlines_render]
    cases (eval depth program.toExpr).run .initial with
    | done result s =>
      cases result with
      | some value => simp only [Outcome.verdict, Options.output, Options.shown, parsed, resultLine]
      | none => simp only [Outcome.verdict, Options.output, Options.shown, parsed, resultLine]
    | failed e s => simp only [Outcome.verdict, Options.output, Options.shown, parsed]
    | tooDeep => simp only [Outcome.verdict, Options.output, Options.shown, parsed]

theorem answer_eq_output (reads : options.Reads texts source file)
    (lexed : lex source = .ok tokens) :
    answer depth texts (.run options) = options.output tokens source file (run depth source) := by
  rw [← execute_eq_output lexed]
  cases reads with
  | inPlace given => simp only [answer, given, if_true]
  | file named found => simp [answer, named, found]

theorem Options.Reads.other (reads : options.Reads texts source file) {other : Options}
    (contents : other.contents = options.contents) (inPlace : other.inPlace = options.inPlace) :
    other.Reads texts source file := by
  cases reads with
  | inPlace given =>
    rw [← contents]
    exact .inPlace (inPlace.trans given)
  | file named found =>
    rw [← contents] at found ⊢
    exact .file (inPlace.trans named) found

end

/-- The command line agrees with the library wherever a run ends. It exits with zero for a value and
with one for an error; it shows the tokens and the tree that were asked for, and then the value, or
that there is none, on a line of its own; and it reports just the error that the run gives. Another
command line that differs in the flags for showing things differs in nothing else. -/
theorem command_line_agrees {depth : Nat} {texts : String → Option String} {args : List String}
    {options : Options} {source file : String} (asked : request args = .run options)
    (reads : options.Reads texts source file) (ended : run depth source ≠ .tooDeep) :
    ∃ tokens, lex source = .ok tokens ∧
      ((∃ value, run depth source = .value (some value) ∧
        answer depth texts (request args) =
          ⟨0, options.shown tokens ++ (value.render ++ "\n"), ""⟩) ∨
      (run depth source = .value none ∧
        answer depth texts (request args) = ⟨0, options.shown tokens ++ "nil\n", ""⟩) ∨
      ∃ e, run depth source = .error e ∧
        answer depth texts (request args) = ⟨1, options.shown tokens, e.report source file⟩) ∧
      ∀ args' other, request args' = .run other → other.contents = options.contents →
        other.inPlace = options.inPlace → ∃ valueLine,
          (answer depth texts (request args')).exit = (answer depth texts (request args)).exit ∧
          (answer depth texts (request args')).stderr = (answer depth texts (request args)).stderr ∧
          (answer depth texts (request args)).stdout = options.shown tokens ++ valueLine ∧
          (answer depth texts (request args')).stdout = other.shown tokens ++ valueLine := by
  obtain ⟨all, _, lexed⟩ := lex_total source
  have given : answer depth texts (.run options) = _ := answer_eq_output reads lexed
  refine ⟨_, lexed, ?_, ?_⟩
  · rw [asked, given]
    cases ran : run depth source with
    | value result =>
      cases result with
      | some value => exact Or.inl ⟨value, rfl, rfl⟩
      | none => exact Or.inr (Or.inl ⟨rfl, rfl⟩)
    | error e => exact Or.inr (Or.inr ⟨e, rfl, rfl⟩)
    | tooDeep => exact absurd ran ended
  · intro args' other asked' contents inPlace
    rw [asked, asked', given, answer_eq_output (reads.other contents inPlace) lexed]
    cases ran : run depth source with
    | value result =>
      cases result with
      | some value => exact ⟨value.render ++ "\n", rfl, rfl, rfl, rfl⟩
      | none => exact ⟨"nil\n", rfl, rfl, rfl, rfl⟩
    | error e => exact ⟨"", rfl, rfl, String.append_empty.symm, String.append_empty.symm⟩
    | tooDeep => exact absurd ran ended

theorem command_line_agrees_of_failing_file :
    ∃ (source : String) (options : Options) (tokens : List Token) (e : Error),
      source = "(+ 1 x)" ∧ e = .eval ⟨.unknownVariable "x", ⟨1, 6⟩⟩ ∧
      request ["-ta", "sum.lisp"] = .run options ∧ options.showTokens ∧ options.showTree ∧
      options.Reads (fun _ => some source) source "sum.lisp" ∧ run 4 source = .error e ∧
      lex source = .ok tokens ∧
      answer 4 (fun _ => some source) (request ["-ta", "sum.lisp"]) =
        ⟨1, options.shown tokens, e.report source "sum.lisp"⟩ := by
  have told : (match run 4 "(+ 1 x)" with
      | .error e => some e
      | _ => none) = some (.eval ⟨.unknownVariable "x", ⟨1, 6⟩⟩) := by decide +kernel
  split at told
  · rename_i e failed
    cases told
    have asked : request ["-ta", "sum.lisp"] = .run ⟨"sum.lisp", false, true, true⟩ := by decide
    have reads : Options.Reads (fun _ => some "(+ 1 x)") ⟨"sum.lisp", false, true, true⟩ "(+ 1 x)"
        "sum.lisp" := .file rfl rfl
    obtain ⟨tokens, lexed, ⟨_, ran, _⟩ | ⟨ran, _⟩ | ⟨_, ran, answered⟩, _⟩ :=
      command_line_agrees asked reads (by rw [failed]; nofun)
    · rw [failed] at ran
      cases ran
    · rw [failed] at ran
      cases ran
    · rw [failed] at ran
      cases ran
      exact ⟨_, _, tokens, _, rfl, rfl, asked, rfl, rfl, reads, failed, lexed, answered⟩
  · cases told

end CommandLine

end SnapshotLisp
