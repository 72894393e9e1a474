import SnapshotLisp.Token.Lexer
import SnapshotLisp.Expr.Parser
import SnapshotLisp.Evaluator
import SnapshotLisp.Run

/-!
The command line, without the reading and writing itself. Arguments count from left to right: help
and version are answered as soon as they are met, and so is the first mistake. The wording of the
answer to a mistake is no promise.
-/
namespace SnapshotLisp.CommandLine

/-- Program text is given in place, or read from the file that the contents name. -/
structure Options where
  contents : String
  inPlace : Bool
  showTokens : Bool
  showTree : Bool
  deriving DecidableEq, Repr

inductive Request where
  | help
  | version
  | misuse
  | run (options : Options)
  deriving DecidableEq, Repr

inductive Flag where
  | inPlace
  | tokens
  | tree
  | help
  | version
  deriving DecidableEq, Repr

namespace Flag

def ofLetter? : Char → Option Flag
  | 'e' => some .inPlace
  | 't' => some .tokens
  | 'a' => some .tree
  | 'h' => some .help
  | 'V' => some .version
  | _ => none

def ofWord? : String → Option Flag
  | "eval" => some .inPlace
  | "tokens" => some .tokens
  | "ast" => some .tree
  | "help" => some .help
  | "version" => some .version
  | _ => none

end Flag

structure Draft where
  contents : Option String
  inPlace : Bool
  showTokens : Bool
  showTree : Bool

namespace Draft

def blank : Draft := ⟨none, false, false, false⟩

def flag (d : Draft) : Flag → Except Request Draft
  | .help => .error .help
  | .version => .error .version
  | .inPlace => if d.inPlace then .error .misuse else .ok { d with inPlace := true }
  | .tokens => if d.showTokens then .error .misuse else .ok { d with showTokens := true }
  | .tree => if d.showTree then .error .misuse else .ok { d with showTree := true }

def flag? (d : Draft) : Option Flag → Except Request Draft
  | some f => d.flag f
  | none => .error .misuse

def positional (d : Draft) (text : String) : Except Request Draft :=
  match d.contents with
  | some _ => .error .misuse
  | none => .ok { d with contents := some text }

/-- A lone hyphen is no flag. Letters behind one hyphen are flags of their own. -/
def argument (d : Draft) (text : String) : Except Request Draft :=
  match text.toList with
  | '-' :: '-' :: word => d.flag? (Flag.ofWord? (String.ofList word))
  | '-' :: letter :: later => (letter :: later).foldlM (fun d c => d.flag? (Flag.ofLetter? c)) d
  | _ => d.positional text

/-- Behind a lone double hyphen everything is positional. -/
def arguments (d : Draft) : List String → Except Request Draft
  | [] => .ok d
  | text :: later =>
    if text = "--" then later.foldlM positional d
    else do (← d.argument text).arguments later

def request (d : Draft) : Request :=
  match d.contents with
  | none => .misuse
  | some contents => .run ⟨contents, d.inPlace, d.showTokens, d.showTree⟩

end Draft

def request (args : List String) : Request :=
  match Draft.blank.arguments args with
  | .ok draft => draft.request
  | .error early => early

structure Output where
  exit : Nat
  stdout : String
  stderr : String
  deriving DecidableEq, Repr

def versionText : String := "lispwalk 0.1.0\n"

def usageText : String := "Usage: lispwalk [OPTIONS] <CONTENTS>\n"

def helpText : String :=
  "A tree-walking interpreter for a small parenthesized expression language\n\n" ++ usageText ++
  "\nArguments:\n" ++
  "  <CONTENTS>  Path of the source file, or the program itself with `--eval`\n" ++
  "\nOptions:\n" ++
  "  -e, --eval     Treat CONTENTS as program text instead of a file path\n" ++
  "  -t, --tokens   Print every token before evaluating\n" ++
  "  -a, --ast      Print the parsed program before evaluating\n" ++
  "  -h, --help     Print help\n" ++
  "  -V, --version  Print version\n"

def unlines (texts : List String) : String := String.join (texts.map (· ++ "\n"))

def resultLine : Option Value → String
  | none => "nil\n"
  | some value => value.render ++ "\n"

/-- What was shown before an error stays shown. -/
def execute (depth : Nat) (options : Options) (source file : String) : Output :=
  match lex source with
  | .error e => ⟨1, "", (Error.lex e).report source file⟩
  | .ok tokens =>
    let tokenLines := if options.showTokens then unlines (tokens.map Token.render) else ""
    match parseProgram tokens with
    | .error e => ⟨1, tokenLines, (Error.parse e).report source file⟩
    | .ok program =>
      let shown := tokenLines ++ if options.showTree then program.toExpr.render ++ "\n" else ""
      match (eval depth program.toExpr).run .initial with
      | .done result _ => ⟨0, shown ++ resultLine result, ""⟩
      | .failed e _ => ⟨1, shown, (Error.eval e).report source file⟩
      | .tooDeep => ⟨1, shown, "Evaluation goes too deep\n"⟩

def Request.file? : Request → Option String
  | .run options => if options.inPlace then none else some options.contents
  | _ => none

/-- The texts are those of the files that exist and can be read. -/
def answer (depth : Nat) (texts : String → Option String) : Request → Output
  | .help => ⟨0, helpText, ""⟩
  | .version => ⟨0, versionText, ""⟩
  | .misuse => ⟨2, "", usageText⟩
  | .run options =>
    if options.inPlace then execute depth options options.contents "<eval>"
    else
      match texts options.contents with
      | some source => execute depth options source options.contents
      | none =>
        ⟨1, "", s!"Failed to read the input file '{options.contents}'. " ++
          "Perhaps this file does not exist?\n"⟩

end SnapshotLisp.CommandLine
