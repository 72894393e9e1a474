import SnapshotLisp.Location

/-!
Tokens of program text. A token's kind decides what it means; its text is not checked against the
kind, so that token lists may also be given by hand.
-/
namespace SnapshotLisp

inductive TokenKind where
  | openParen
  | closeParen
  | integer
  | identifier
  | blank
  deriving DecidableEq, Repr

namespace TokenKind

def all : List TokenKind := [.openParen, .closeParen, .integer, .identifier, .blank]

def isSyntax : TokenKind → Bool
  | .openParen | .closeParen => true
  | .integer | .identifier | .blank => false

def label : TokenKind → String
  | .openParen | .closeParen => "syntax"
  | .integer => "integer"
  | .identifier => "identifier"
  | .blank => "whitespace"

theorem mem_all (kind : TokenKind) : kind ∈ all := by
  cases kind <;> decide

theorem paren_or_plain (kind : TokenKind) :
    kind = .openParen ∨ kind = .closeParen ∨ kind.isSyntax = false := by
  cases kind <;> simp [isSyntax]

end TokenKind

/-- The position counts UTF-8 bytes before the token, the location lines and characters. -/
structure Token where
  kind : TokenKind
  text : String
  position : Nat
  location : Location
  deriving DecidableEq, Repr

namespace Token

def synthetic (text : String) : Token := ⟨.identifier, text, 0, .start⟩

def render (t : Token) : String :=
  s!"{t.location.line}:{t.location.column} {t.kind.label} {t.text}"

end Token

end SnapshotLisp
