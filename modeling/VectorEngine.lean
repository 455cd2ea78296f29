import VectorEngine.Block
import VectorEngine.Buffer
import VectorEngine.Command
import VectorEngine.Element
import VectorEngine.Error
import VectorEngine.Expression.Arithmetic
import VectorEngine.Expression.Evaluate
import VectorEngine.Expression.Function
import VectorEngine.Expression.Lexer
import VectorEngine.Expression.Operator
import VectorEngine.Expression.Parser
import VectorEngine.Expression.Token
import VectorEngine.Expression.Tree
import VectorEngine.Index
import VectorEngine.Interpolation
import VectorEngine.NameTable
import VectorEngine.Number.Decimal
import VectorEngine.Number.Exact
import VectorEngine.Number.FloatText
import VectorEngine.Number.Shortest
import VectorEngine.Series
import VectorEngine.Session
import VectorEngine.Signal.Spectrum
import VectorEngine.Signal.Transform
import VectorEngine.Signal.Window
import VectorEngine.Sorting
import VectorEngine.Statistics
import VectorEngine.Store.Basic
import VectorEngine.Store.Client
import VectorEngine.Store.Combine
import VectorEngine.Store.Delivery
import VectorEngine.Store.Task
import VectorEngine.Strided
import VectorEngine.Text.Blank
import VectorEngine.Text.Letter
import VectorEngine.Text.Quoted
import VectorEngine.Proofs.Expression.Grammar
import VectorEngine.Proofs.NameTable
import VectorEngine.Proofs.Store.Lookup
import VectorEngine.Proofs.Store.Coherence
import VectorEngine.Proofs.Store.Creation
import VectorEngine.Proofs.Store.Change
import VectorEngine.Proofs.Store.Operations
import VectorEngine.Proofs.Store.Start
import VectorEngine.Proofs.Store.Links
import VectorEngine.Proofs.Session.Coherence
import VectorEngine.Proofs.Session.Destruction
import VectorEngine.Proofs.Session.Failure
import VectorEngine.Proofs.Session.Persistence
import VectorEngine.Proofs.Session.FanOut
import VectorEngine.Proofs.Session.Farewell
import VectorEngine.Proofs.Session.IdlePass
import VectorEngine.Proofs.Session.Reentrancy
import VectorEngine.Proofs.Expression.Parsing
import VectorEngine.Proofs.Session.Registrations
import VectorEngine.Proofs.Session.StaleIds
import VectorEngine.Proofs.Session.Serving
import VectorEngine.Proofs.Session.Confinement
import VectorEngine.Proofs.Session.Effects
import VectorEngine.Proofs.Expression.CallSyntax
import VectorEngine.Proofs.Expression.HostCalls
import VectorEngine.Proofs.Expression.Elementwise
import VectorEngine.Proofs.Sorting
import VectorEngine.Proofs.Block.RoundTrip
import VectorEngine.Proofs.Block.Precision
import VectorEngine.Proofs.Buffer
import VectorEngine.Proofs.Extrema
import VectorEngine.Proofs.Session.Extrema
import VectorEngine.Proofs.Signal.Inversion
import VectorEngine.Proofs.Index
import VectorEngine.Proofs.Expression.Printing
import VectorEngine.Proofs.Session.MergeSplit
import VectorEngine.Proofs.Session.Sort
import VectorEngine.Proofs.Session.JointWrites
import VectorEngine.Proofs.Access
import VectorEngine.Proofs.Removal
import VectorEngine.Proofs.Expression.Rotation
import VectorEngine.Proofs.Signal.Completion
import VectorEngine.Proofs.Signal.Folding
import VectorEngine.Proofs.Quartiles
import VectorEngine.Proofs.Statistics
import VectorEngine.Proofs.SortedValues
import VectorEngine.Proofs.Normalization
import VectorEngine.Proofs.Interpolation
import VectorEngine.Proofs.Sequence
import VectorEngine.Proofs.Session.GeneratedNames
import VectorEngine.Proofs.Positions
import VectorEngine.Proofs.Session.Splicing
import VectorEngine.Proofs.Strided
import VectorEngine.Proofs.Expression.Random
