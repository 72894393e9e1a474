import SnapshotLisp.Builtin
import SnapshotLisp.CommandLine
import SnapshotLisp.Environment
import SnapshotLisp.Error
import SnapshotLisp.Evaluation
import SnapshotLisp.Evaluator
import SnapshotLisp.Event
import SnapshotLisp.Expr
import SnapshotLisp.Expr.Parser
import SnapshotLisp.Form
import SnapshotLisp.Location
import SnapshotLisp.Main
import SnapshotLisp.Proofs.Arithmetic
import SnapshotLisp.Proofs.BodySequence
import SnapshotLisp.Proofs.Calling
import SnapshotLisp.Proofs.CommandLine
import SnapshotLisp.Proofs.Composition
import SnapshotLisp.Proofs.Congruence
import SnapshotLisp.Proofs.Counting
import SnapshotLisp.Proofs.Diagnostics
import SnapshotLisp.Proofs.ExplicitBody
import SnapshotLisp.Proofs.FiniteMap
import SnapshotLisp.Proofs.Flattening
import SnapshotLisp.Proofs.Form
import SnapshotLisp.Proofs.Frame
import SnapshotLisp.Proofs.Identity
import SnapshotLisp.Proofs.InTurn
import SnapshotLisp.Proofs.Indexing
import SnapshotLisp.Proofs.Invariant
import SnapshotLisp.Proofs.Layout
import SnapshotLisp.Proofs.Lexing
import SnapshotLisp.Proofs.Likeness
import SnapshotLisp.Proofs.Log
import SnapshotLisp.Proofs.Monotonicity
import SnapshotLisp.Proofs.NestedSequence
import SnapshotLisp.Proofs.Noninterference
import SnapshotLisp.Proofs.Numerals
import SnapshotLisp.Proofs.Parentheses
import SnapshotLisp.Proofs.Placement
import SnapshotLisp.Proofs.Preorder
import SnapshotLisp.Proofs.Printing
import SnapshotLisp.Proofs.Provenance
import SnapshotLisp.Proofs.Slicing
import SnapshotLisp.Proofs.Spacing
import SnapshotLisp.Proofs.Termination
import SnapshotLisp.Proofs.Tokenization
import SnapshotLisp.Run
import SnapshotLisp.Session
import SnapshotLisp.Text.Blank
import SnapshotLisp.Text.Lines
import SnapshotLisp.Token
import SnapshotLisp.Token.Lexer
import SnapshotLisp.Value
import SnapshotLisp.Word
