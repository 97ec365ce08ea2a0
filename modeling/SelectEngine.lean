import SelectEngine.Backend.Recorded
import SelectEngine.Function.Builtin
import SelectEngine.Memory.Backend
import SelectEngine.Proofs.Correspondence.Binding
import SelectEngine.Proofs.Correspondence.Evaluation
import SelectEngine.Proofs.Grammar.FirstFault
import SelectEngine.Proofs.Memory.Fetch
import SelectEngine.Proofs.Printing.RoundTrip
import SelectEngine.Proofs.Typing.Expression
import SelectEngine.Query
import SelectEngine.Tree.Outline
import SelectEngine.Proofs.Protocol.Watch
import SelectEngine.Proofs.Protocol.Session
import SelectEngine.Proofs.Protocol.Cursor
import SelectEngine.Proofs.Cursor.Move
import SelectEngine.Proofs.Cursor.Lifecycle
import SelectEngine.Proofs.Cursor.Fresh
import SelectEngine.Proofs.Ordinary.Basic
import SelectEngine.Proofs.Ordinary.Operation
import SelectEngine.Proofs.Ordinary.Expression
import SelectEngine.Proofs.Grammar.Leaves
import SelectEngine.Proofs.Tree.Held
import SelectEngine.Proofs.Ordinary.Scope
import SelectEngine.Proofs.Ordinary.Binding
import SelectEngine.Proofs.Ordinary.Query
import SelectEngine.Token.Reader
import SelectEngine.Proofs.Token.Passes
import SelectEngine.Proofs.Token.Lexeme
import SelectEngine.Proofs.Token.Gap
import SelectEngine.Proofs.Token.Reads
import SelectEngine.Proofs.Token.Written
import SelectEngine.Proofs.Token.Tiling
import SelectEngine.Proofs.Grammar.Graft
import SelectEngine.Proofs.Grammar.Order
import SelectEngine.Proofs.Grammar.Params
import SelectEngine.Proofs.Grammar.Literal
import SelectEngine.Proofs.Tree.Leaves
import SelectEngine.Proofs.Tree.Read
import SelectEngine.Proofs.Tree.Literal
import SelectEngine.Proofs.Plan.Params
import SelectEngine.Proofs.Plan.Meaning
import SelectEngine.Proofs.Plan.Agreement
import SelectEngine.Proofs.Plan.Graft
import SelectEngine.Proofs.Token.Replaced
import SelectEngine.Proofs.Value.Written
import SelectEngine.Proofs.Memory.Literal
import SelectEngine.Proofs.Typing.Runtime
import SelectEngine.Proofs.Typing.Described
import SelectEngine.Proofs.Memory.Descriptor
import SelectEngine.Proofs.Cursor.Strict
import SelectEngine.Proofs.Tree.Covered
import SelectEngine.Proofs.Plan.Ordinals
import SelectEngine.Proofs.Alike.Names
import SelectEngine.Proofs.Alike.Binding
import SelectEngine.Proofs.Alike.Query
import SelectEngine.Proofs.Grammar.Asking
import SelectEngine.Proofs.Memory.Partition
import SelectEngine.Proofs.Tree.Parents
import SelectEngine.Proofs.Tree.LaidOut
import SelectEngine.Proofs.Grammar.Context
import SelectEngine.Proofs.Tree.Wrapped
import SelectEngine.Proofs.Protocol.Keeping
import SelectEngine.Proofs.Protocol.Query
import SelectEngine.Proofs.Plan.Gives
import SelectEngine.Proofs.Plan.Qualified
import SelectEngine.Proofs.Cursor.OffRow
import SelectEngine.Proofs.Plan.Depth
import SelectEngine.Proofs.Plan.Integers
import SelectEngine.Proofs.Value.Numeral
import SelectEngine.Proofs.Value.Integer
import SelectEngine.Proofs.Double.Order
import SelectEngine.Proofs.Value.Order
import SelectEngine.Proofs.Plan.Aliases
import SelectEngine.Proofs.Plan.Denotes
import SelectEngine.Proofs.Plan.Listing
import SelectEngine.Proofs.Memory.Sourced
import SelectEngine.Proofs.Memory.Names
import SelectEngine.Proofs.Memory.Fields
import SelectEngine.Proofs.Token.Lines
import SelectEngine.Proofs.Tree.Hull
import SelectEngine.Proofs.Function.Declared
import SelectEngine.Proofs.Plan.Mirrors
import SelectEngine.Proofs.Plan.Calls
import SelectEngine.Proofs.Plan.Called
import SelectEngine.Proofs.Cursor.Scan
import SelectEngine.Proofs.Memory.Watched
import SelectEngine.Proofs.Memory.Odometer
import SelectEngine.Proofs.Memory.Work
import SelectEngine.Proofs.Value.Comparison
import SelectEngine.Proofs.Value.Promotion
import SelectEngine.Proofs.Loop
import SelectEngine.Proofs.Token.Loops
import SelectEngine.Proofs.Grammar.Dispatch
import SelectEngine.Proofs.Grammar.Finite
import SelectEngine.Proofs.Successor
import SelectEngine.Proofs.Cursor.Search
import SelectEngine.Proofs.Memory.Search
import SelectEngine.Proofs.Tree.Trace
import SelectEngine.Proofs.Tree.Visited
import SelectEngine.Proofs.Tree.Outlined
import SelectEngine.Proofs.Tree.Height
