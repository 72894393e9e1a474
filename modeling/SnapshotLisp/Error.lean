import SnapshotLisp.Location
import SnapshotLisp.Builtin
import SnapshotLisp.Text.Lines

/-!
What can go wrong, at each of the three stages a program passes, and how it is told to a reader.
An error is a cause and the location it points at; the wording of every cause stands in `message`.
-/
namespace SnapshotLisp

/-- Every character starts some token, so no text has this cause. It is there for a token rule that
would leave a character out. -/
inductive LexCause where
  | unrecognized (text : String)
  deriving DecidableEq, Repr

/-- A program is read to its last token, so nothing is left over for the third cause to name. -/
inductive ParseCause where
  | expectedOpenParen (found : String)
  | expectedClosingParen
  | incompleteParse (token : String)
  deriving DecidableEq, Repr

inductive EvalCause where
  | expectedBoolean (found : String)
  | expectedInteger (found : String)
  | expectedFunction (name : String)
  | unknownVariable (name : String)
  | argumentCountMismatch (name : String) (expected found : Nat)
  | builtinArity (builtin : Builtin) (found : Nat)
  | numericFormat (text : String)
  | invalidDefinition (details : String)
  | missingValue
  | overflow
  deriving DecidableEq, Repr

structure Located (κ : Type) where
  cause : κ
  location : Location
  deriving DecidableEq, Repr

abbrev LexError := Located LexCause
abbrev ParseError := Located ParseCause
abbrev EvalError := Located EvalCause

inductive Error where
  | lex (error : LexError)
  | parse (error : ParseError)
  | eval (error : EvalError)
  deriving DecidableEq, Repr

def LexCause.message : LexCause → String
  | .unrecognized text => s!"Could not lex '{text}'"

def ParseCause.message : ParseCause → String
  | .expectedOpenParen found => s!"Expected open parenthesis, got '{found}'"
  | .expectedClosingParen => "Expected closing parenthesis"
  | .incompleteParse token => s!"Incomplete parse, unexpected '{token}'"

def EvalCause.message : EvalCause → String
  | .expectedBoolean found => s!"Expected boolean, got {found}"
  | .expectedInteger found => s!"Expected integer, got {found}"
  | .expectedFunction name => s!"Expected function, got {name}"
  | .unknownVariable name => s!"Unknown variable '{name}'"
  | .argumentCountMismatch name expected found =>
    s!"Expected {expected} args to `{name}`, got {found}"
  | .builtinArity builtin found =>
    s!"`{builtin.name}` takes {builtin.arity.describe} args, got {found}"
  | .numericFormat text => s!"Expected an integer, got: {text}"
  | .invalidDefinition details => s!"Invalid function definition: {details}"
  | .missingValue => "Expected a value, got nothing"
  | .overflow => "Integer overflow while trying to compute result"

namespace Error

def location : Error → Location
  | .lex e => e.location
  | .parse e => e.location
  | .eval e => e.location

def message : Error → String
  | .lex e => e.cause.message
  | .parse e => e.cause.message
  | .eval e => e.cause.message

/-- The line quoted under the message, with a caret below the column. There is none where the
location is outside the text. -/
def excerpt (location : Location) (source : String) : String :=
  match sourceLine source location.line with
  | none => ""
  | some line =>
    line ++ "\n" ++ String.ofList (List.replicate (location.column - 1) ' ') ++ "^ near here\n"

def report (e : Error) (source file : String) : String :=
  s!"{e.message} [at {e.location.render} in file {file}]\n" ++ excerpt e.location source

end Error

end SnapshotLisp
