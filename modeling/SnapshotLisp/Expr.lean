import SnapshotLisp.Token

/-!
Program trees. An expression is an atom, which holds one token, or a list of expressions with the
location of its opening parenthesis. A group is a list standing on its own: what the parser returns
and what a function keeps as its body.
-/
namespace SnapshotLisp

inductive Expr where
  | atom (token : Token)
  | list (items : List Expr) (location : Location)
  deriving Repr

structure Group where
  items : List Expr
  location : Location
  deriving Repr

def Group.toExpr (g : Group) : Expr := .list g.items g.location

namespace Expr

def location : Expr → Location
  | .atom token => token.location
  | .list _ location => location

def identifier? : Expr → Option String
  | .atom token => if token.kind = .identifier then some token.text else none
  | .list _ _ => none

def group? : Expr → Option Group
  | .atom _ => none
  | .list items location => some ⟨items, location⟩

mutual

def render : Expr → String
  | .atom token => token.text
  | .list items _ => "(" ++ renderItems items ++ ")"

def renderItems : List Expr → String
  | [] => ""
  | [item] => render item
  | item :: later => render item ++ " " ++ renderItems later

end

mutual

def leaves : Expr → List Token
  | .atom token => [token]
  | .list items _ => leavesOf items

def leavesOf : List Expr → List Token
  | [] => []
  | item :: later => leaves item ++ leavesOf later

end

mutual

/-- Every node with its depth below the root, a list before its items. -/
def nodes (depth : Nat) : Expr → List (Nat × Expr)
  | .atom token => [(depth, .atom token)]
  | .list items location => (depth, .list items location) :: nodesOf (depth + 1) items

def nodesOf (depth : Nat) : List Expr → List (Nat × Expr)
  | [] => []
  | item :: later => nodes depth item ++ nodesOf depth later

end

end Expr

end SnapshotLisp
