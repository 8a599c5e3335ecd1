import Scriptlet.Access
import Scriptlet.Builtin
import Scriptlet.CommandLine.Console
import Scriptlet.CommandLine.Options
import Scriptlet.CommandLine.Run
import Scriptlet.CommandLine.TypedLine
import Scriptlet.Diagnostic
import Scriptlet.Environment
import Scriptlet.Eval
import Scriptlet.Event
import Scriptlet.Failure
import Scriptlet.Heap
import Scriptlet.Host
import Scriptlet.Host.Directory
import Scriptlet.Machine
import Scriptlet.Main
import Scriptlet.Number.Binary64
import Scriptlet.Number.Decimal
import Scriptlet.Number.Integer
import Scriptlet.Number.Shortest
import Scriptlet.Operator
import Scriptlet.OrderedMap
import Scriptlet.Position
import Scriptlet.Proofs.Environment.Chains
import Scriptlet.Proofs.Environment.Operations
import Scriptlet.Proofs.Eval.Bindings
import Scriptlet.Proofs.Eval.Bounds
import Scriptlet.Proofs.Eval.Calculus
import Scriptlet.Proofs.Eval.Containers
import Scriptlet.Proofs.Eval.Declarations
import Scriptlet.Proofs.Eval.Evaluation
import Scriptlet.Proofs.Eval.Finishing
import Scriptlet.Proofs.Eval.Frames
import Scriptlet.Proofs.Eval.Held
import Scriptlet.Proofs.Eval.Insertions
import Scriptlet.Proofs.Eval.Judgement
import Scriptlet.Proofs.Eval.Jumps
import Scriptlet.Proofs.Eval.Limits
import Scriptlet.Proofs.Eval.Locations
import Scriptlet.Proofs.Eval.Outcomes
import Scriptlet.Proofs.Eval.Parts
import Scriptlet.Proofs.Eval.Results
import Scriptlet.Proofs.Eval.Rooted
import Scriptlet.Proofs.Eval.Routines
import Scriptlet.Proofs.Eval.Runs
import Scriptlet.Proofs.Eval.Scopes
import Scriptlet.Proofs.Eval.Variations
import Scriptlet.Proofs.Eval.Writers
import Scriptlet.Proofs.Layout.Evaluation
import Scriptlet.Proofs.Layout.Machines
import Scriptlet.Proofs.Layout.Move
import Scriptlet.Proofs.Layout.Parser
import Scriptlet.Proofs.Layout.Sources
import Scriptlet.Proofs.Layout.Values
import Scriptlet.Proofs.Number.Arithmetic
import Scriptlet.Proofs.Number.Literals
import Scriptlet.Proofs.Number.Whole
import Scriptlet.Proofs.Relabel.Code
import Scriptlet.Proofs.Relabel.Evaluation
import Scriptlet.Proofs.Relabel.Machines
import Scriptlet.Proofs.Relabel.Programs
import Scriptlet.Proofs.Relabel.Twins
import Scriptlet.Proofs.Relabel.Values
import Scriptlet.Proofs.Session.Constants
import Scriptlet.Proofs.Session.Equality
import Scriptlet.Proofs.Session.Numbering
import Scriptlet.Proofs.Session.ReadBack
import Scriptlet.Proofs.Session.Reset
import Scriptlet.Proofs.Session.Scopes
import Scriptlet.Proofs.Session.Scripts
import Scriptlet.Proofs.Syntax.Completeness
import Scriptlet.Proofs.Syntax.Concatenation
import Scriptlet.Proofs.Syntax.Grammar
import Scriptlet.Proofs.Syntax.Literals
import Scriptlet.Proofs.Syntax.Lookahead
import Scriptlet.Proofs.Syntax.Mistakes
import Scriptlet.Proofs.Syntax.Outline
import Scriptlet.Proofs.Syntax.Places
import Scriptlet.Proofs.Syntax.Printing
import Scriptlet.Proofs.Syntax.Programs
import Scriptlet.Proofs.Syntax.Progress
import Scriptlet.Proofs.Syntax.RoundTrip
import Scriptlet.Proofs.Syntax.Seams
import Scriptlet.Proofs.Syntax.Segments
import Scriptlet.Proofs.Syntax.Soundness
import Scriptlet.Proofs.Syntax.Steps
import Scriptlet.Proofs.Syntax.Termination
import Scriptlet.Proofs.Syntax.WellFormed
import Scriptlet.Proofs.Text.Encoding
import Scriptlet.Proofs.Timeline.Aborts
import Scriptlet.Proofs.Timeline.Builtins
import Scriptlet.Proofs.Timeline.Courses
import Scriptlet.Proofs.Timeline.Depth
import Scriptlet.Proofs.Timeline.Episodes
import Scriptlet.Proofs.Timeline.Interrupts
import Scriptlet.Proofs.Timeline.Plans
import Scriptlet.Proofs.Timeline.Quiet
import Scriptlet.Proofs.Timeline.Tracing
import Scriptlet.Proofs.Token.Concatenation
import Scriptlet.Proofs.Token.Gaps
import Scriptlet.Proofs.Token.Pieces
import Scriptlet.Proofs.Token.Rendering
import Scriptlet.Proofs.Token.Slices
import Scriptlet.Proofs.Token.Spellings
import Scriptlet.Proofs.Value.Alike
import Scriptlet.Proofs.Value.Comparison
import Scriptlet.Proofs.Value.Containers
import Scriptlet.Proofs.Value.Contents
import Scriptlet.Proofs.Value.Copies
import Scriptlet.Proofs.Value.Equality
import Scriptlet.Proofs.Value.Insertions
import Scriptlet.Proofs.Value.Order
import Scriptlet.Proofs.Value.Printed
import Scriptlet.Proofs.Value.Unfolding
import Scriptlet.Session
import Scriptlet.Store
import Scriptlet.Syntax
import Scriptlet.Syntax.Error
import Scriptlet.Syntax.Parse
import Scriptlet.Syntax.Parser.Basic
import Scriptlet.Syntax.Parser.Expression
import Scriptlet.Syntax.Parser.Rule
import Scriptlet.Syntax.Parser.Statement
import Scriptlet.Text.Blank
import Scriptlet.Text.Cluster
import Scriptlet.Text.Conjunct
import Scriptlet.Text.Extending
import Scriptlet.Text.Json
import Scriptlet.Text.Letter
import Scriptlet.Text.Numeral
import Scriptlet.Text.Pictograph
import Scriptlet.Text.Printable
import Scriptlet.Text.Quoted
import Scriptlet.Text.Ranges
import Scriptlet.Text.SpacingMark
import Scriptlet.Text.Syllable
import Scriptlet.Token
import Scriptlet.Token.Scan
import Scriptlet.Value
import Scriptlet.Value.Equal
import Scriptlet.Value.Render
