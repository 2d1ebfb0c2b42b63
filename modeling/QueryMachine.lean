import QueryMachine.Exchange.Report
import QueryMachine.Exchange.Settings
import QueryMachine.Exchange.Template
import QueryMachine.Log.Journal
import QueryMachine.Main
import QueryMachine.Proofs.Token.Layout
import QueryMachine.Proofs.Token.Lossless
import QueryMachine.Proofs.Template.Grammar
import QueryMachine.Proofs.Template.Faults
import QueryMachine.Proofs.Token.Shape
import QueryMachine.Proofs.Token.RoundTrip
import QueryMachine.Proofs.Token.Positions
import QueryMachine.Proofs.Token.WellFormed
import QueryMachine.Proofs.Token.Locality
import QueryMachine.Proofs.Region.Walk
import QueryMachine.Proofs.Template.Derivation
import QueryMachine.Proofs.Region.Agreement
import QueryMachine.Proofs.Region.Boundaries
import QueryMachine.Proofs.Region.Tree
import QueryMachine.Proofs.Region.Lines
import QueryMachine.Proofs.Region.Violations
import QueryMachine.Proofs.Region.Weaving
import QueryMachine.Proofs.Render.Resolved
import QueryMachine.Proofs.Render.Pushes
import QueryMachine.Proofs.Render.Trace
import QueryMachine.Proofs.Dialect.History
import QueryMachine.Proofs.Dialect.Commands
import QueryMachine.Proofs.Render.Program
import QueryMachine.Proofs.Render.Numerals
import QueryMachine.Proofs.Compile.Diagnostics
import QueryMachine.Proofs.Render.Sequence
import QueryMachine.Proofs.Render.Calls
import QueryMachine.Proofs.Render.Independence
import QueryMachine.Proofs.Compile.Stages
import QueryMachine.Proofs.Compile.Policies
import QueryMachine.Proofs.Region.Counts
import QueryMachine.Proofs.Region.Pulls
import QueryMachine.Proofs.Compile.Counts
import QueryMachine.Proofs.Template.Erasure
import QueryMachine.Proofs.Render.Frame
import QueryMachine.Proofs.Compile.Frame
import QueryMachine.Proofs.Listing
import QueryMachine.Proofs.Token.Numerals
import QueryMachine.Proofs.Compile.Literals
import QueryMachine.Proofs.Compile.Events
import QueryMachine.Proofs.Dialect.Memory
import QueryMachine.Proofs.Dialect.Steps
import QueryMachine.Proofs.Token.Recognition
import QueryMachine.Proofs.Token.Comments
import QueryMachine.Proofs.Token.Metrics
import QueryMachine.Proofs.Dialect.Registry
import QueryMachine.Proofs.Log.Buffer
