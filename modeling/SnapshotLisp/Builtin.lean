/-!
The built-in forms: their names and how many arguments each accepts. What a form does with its
arguments is `Form` and the evaluator's matter. A name listed here can never be defined as a
function.
-/
namespace SnapshotLisp

inductive Arity where
  | exactly (count : Nat)
  | atLeast (count : Nat)
  deriving DecidableEq, Repr

namespace Arity

def accepts : Arity → Nat → Bool
  | .exactly count, n => n == count
  | .atLeast count, n => count ≤ n

def describe : Arity → String
  | .exactly count => s!"exactly {count}"
  | .atLeast count => s!"at least {count}"

end Arity

inductive Builtin where
  | conditional
  | less
  | add
  | subtract
  | sequence
  | define
  deriving DecidableEq, Repr

namespace Builtin

def all : List Builtin := [.conditional, .less, .add, .subtract, .sequence, .define]

def name : Builtin → String
  | .conditional => "if"
  | .less => "<"
  | .add => "+"
  | .subtract => "-"
  | .sequence => "begin"
  | .define => "func"

def arity : Builtin → Arity
  | .conditional => .exactly 3
  | .less => .exactly 2
  | .add => .atLeast 0
  | .subtract => .atLeast 1
  | .sequence => .atLeast 0
  | .define => .exactly 3

def ofName? (name : String) : Option Builtin := all.find? fun b => b.name == name

theorem name_injective {a b : Builtin} (h : a.name = b.name) : a = b := by
  revert h
  cases a <;> cases b <;> decide

@[simp] theorem ofName?_name (b : Builtin) : ofName? b.name = some b := by
  cases b <;> decide

theorem ofName?_eq_some_iff {name : String} {b : Builtin} :
    ofName? name = some b ↔ b.name = name := by
  constructor
  · intro h
    simpa using List.find?_some h
  · intro h
    subst h
    exact ofName?_name b

end Builtin

end SnapshotLisp
