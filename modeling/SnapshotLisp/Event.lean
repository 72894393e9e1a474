import SnapshotLisp.Location

/-!
What a run has to say about itself while it goes on. Each record is kept as a fact; its wording and
its level are added when it is shown.
-/
namespace SnapshotLisp

inductive Event where
  | lexed (tokens : Nat)
  | parsed (forms tokens : Nat)
  | applying (name : String) (arguments : Nat) (location : Location)
  | defining (name : String) (params : Nat)
  | calling (name : String) (arguments : Nat)
  | finished
  deriving DecidableEq, Repr

namespace Event

def level : Event → String
  | .lexed _ | .finished => "INFO"
  | .parsed _ _ | .defining _ _ | .calling _ _ => "DEBUG"
  | .applying _ _ _ => "TRACE"

def message : Event → String
  | .lexed tokens => s!"lexed {tokens} tokens"
  | .parsed forms tokens => s!"parsed {forms} top-level forms from {tokens} tokens"
  | .applying name arguments location =>
    s!"applying `{name}` to {arguments} args at {location.render}"
  | .defining name params => s!"defining function '{name}' with {params} parameters"
  | .calling name arguments => s!"calling '{name}' with {arguments} args"
  | .finished => "evaluation finished"

def render (e : Event) : String := e.level ++ " " ++ e.message

end Event

end SnapshotLisp
