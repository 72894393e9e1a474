import SnapshotLisp.Token
import SnapshotLisp.Error
import SnapshotLisp.Text.Blank

/-!
Cutting a text into tokens. The first character of a lexeme decides its kind, and the lexeme runs as
far as the kind lets it. An opening parenthesis does not end an identifier and a digit continues
one, so `foo(bar` and `a12` are single identifiers while `12a` is an integer and an identifier.
-/
namespace SnapshotLisp

namespace TokenKind

def starts : TokenKind → Char → Bool
  | .openParen, c => c == '('
  | .closeParen, c => c == ')'
  | .integer, c => c.isDigit
  | .identifier, c => !isBlank c && c != '(' && c != ')' && !c.isDigit
  | .blank, c => isBlank c

def continues : TokenKind → Char → Bool
  | .openParen, _ => false
  | .closeParen, _ => false
  | .integer, c => c.isDigit
  | .identifier, c => !isBlank c && c != ')'
  | .blank, c => isBlank c

def ofChar? (c : Char) : Option TokenKind := all.find? fun kind => kind.starts c

theorem ofChar?_isSome (c : Char) : (ofChar? c).isSome := by
  rw [ofChar?, List.find?_isSome]
  by_cases blank : isBlank c
  · exact ⟨.blank, mem_all _, blank⟩
  by_cases opens : c = '('
  · exact ⟨.openParen, mem_all _, by simp [starts, opens]⟩
  by_cases closes : c = ')'
  · exact ⟨.closeParen, mem_all _, by simp [starts, closes]⟩
  by_cases digit : c.isDigit
  · exact ⟨.integer, mem_all _, digit⟩
  exact ⟨.identifier, mem_all _, by simp [starts, blank, opens, closes, digit]⟩

end TokenKind

/-- A place between two characters, in bytes and as a location. -/
structure Cursor where
  position : Nat
  location : Location
  deriving DecidableEq, Repr

namespace Cursor

def start : Cursor := ⟨0, .start⟩

def after (cursor : Cursor) (c : Char) : Cursor :=
  ⟨cursor.position + c.utf8Size, cursor.location.after c⟩

def afterAll (cursor : Cursor) (cs : List Char) : Cursor := cs.foldl after cursor

end Cursor

theorem length_dropWhile_le (p : Char → Bool) (cs : List Char) :
    (cs.dropWhile p).length ≤ cs.length :=
  (List.dropWhile_sublist p).length_le

/-- All lexemes of a text that starts at the cursor, blanks included: their texts joined are the
text again. -/
def lexemes (cursor : Cursor) : List Char → Except LexError (List Token)
  | [] => .ok []
  | c :: cs =>
    match TokenKind.ofChar? c with
    | none => .error ⟨.unrecognized (String.singleton c), cursor.location⟩
    | some kind =>
      let text := c :: cs.takeWhile kind.continues
      match lexemes (cursor.afterAll text) (cs.dropWhile kind.continues) with
      | .error e => .error e
      | .ok later =>
        .ok (⟨kind, String.ofList text, cursor.position, cursor.location⟩ :: later)
termination_by cs => cs.length
decreasing_by
  have := length_dropWhile_le kind.continues cs
  simp only [List.length_cons]
  omega

def lex (source : String) : Except LexError (List Token) :=
  (lexemes .start source.toList).map fun all => all.filter fun t => t.kind != .blank

end SnapshotLisp
