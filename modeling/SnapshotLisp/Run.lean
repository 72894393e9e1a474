import SnapshotLisp.Token.Lexer
import SnapshotLisp.Expr.Parser
import SnapshotLisp.Evaluator

/-!
Whole programs: a text is cut into tokens, the tokens make a tree, and the tree is evaluated where
nothing is bound yet. The first stage that fails ends the run. The log tells what was done up to
there; a run that went too deep keeps no log of its evaluation.
-/
namespace SnapshotLisp

inductive Verdict where
  | value (result : Option Value)
  | error (error : Error)
  | tooDeep

/-- The log of a run stands oldest first. -/
structure Run where
  log : List Event
  verdict : Verdict

/-- How deep an evaluation goes where nobody says otherwise. A stack of eight megabytes holds it. -/
def evaluationDepth : Nat := 50000

def State.initial : State := ⟨.empty, 0, []⟩

def runProgram (depth : Nat) (tokens : List Token) (program : Group) : Run :=
  -- The first item of a program is the name of the sequence, the others are its forms.
  let begun := [.parsed (program.items.length - 1) tokens.length, .lexed tokens.length]
  match (eval depth program.toExpr).run { State.initial with log := begun } with
  | .done result s => ⟨(.finished :: s.log).reverse, .value result⟩
  | .failed e s => ⟨s.log.reverse, .error (.eval e)⟩
  | .tooDeep => ⟨begun.reverse, .tooDeep⟩

def runLogged (depth : Nat) (source : String) : Run :=
  match lex source with
  | .error e => ⟨[], .error (.lex e)⟩
  | .ok tokens =>
    match parseProgram tokens with
    | .error e => ⟨[.lexed tokens.length], .error (.parse e)⟩
    | .ok program => runProgram depth tokens program

def run (depth : Nat) (source : String) : Verdict := (runLogged depth source).verdict

def Outcome.verdict : Outcome (Option Value) → Verdict
  | .done result _ => .value result
  | .failed e _ => .error (.eval e)
  | .tooDeep => .tooDeep

section

variable {source : String} {tokens : List Token}

theorem run_of_unread (lexed : lex source = .ok tokens) {e : ParseError}
    (failed : parseGroups tokens = .error e) (depth : Nat) :
    run depth source = .error (.parse e) := by
  simp only [run, runLogged, lexed, parseProgram, failed, Except.map]

theorem run_of_groups (lexed : lex source = .ok tokens) {groups : List Group}
    (read : parseGroups tokens = .ok groups) :
    ∃ s : State, s.env = .empty ∧ ∀ depth,
      run depth source = ((eval depth (programOf groups).toExpr).run s).verdict := by
  refine ⟨{ State.initial with
    log := [.parsed ((programOf groups).items.length - 1) tokens.length,
      .lexed tokens.length] }, rfl, ?_⟩
  intro depth
  simp only [run, runLogged, lexed, parseProgram, read, Except.map, runProgram]
  generalize (eval depth (programOf groups).toExpr).run _ = outcome
  cases outcome <;> rfl

end

end SnapshotLisp
