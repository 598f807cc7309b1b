import Sema.Analysis
import Sema.Binary64
import Sema.Catalog
import Sema.Check.Expect
import Sema.Check.Expr
import Sema.Check.Session
import Sema.Check.Stmt
import Sema.Check.Traced
import Sema.Diagnostic
import Sema.Entity
import Sema.Event
import Sema.Json.SpanForm
import Sema.Json.TypeForm
import Sema.Json.Value
import Sema.Project.Config
import Sema.Project.FileSystem
import Sema.Project.Path
import Sema.Project.Search
import Sema.Proofs.Acceptance
import Sema.Proofs.Annotation
import Sema.Proofs.Arrangement
import Sema.Proofs.Ascent
import Sema.Proofs.Assignability
import Sema.Proofs.Balance
import Sema.Proofs.Blame
import Sema.Proofs.Control
import Sema.Proofs.Elaboration
import Sema.Proofs.Equivariance
import Sema.Proofs.Exchange
import Sema.Proofs.Extension
import Sema.Proofs.Fault
import Sema.Proofs.Forms
import Sema.Proofs.Frame
import Sema.Proofs.Head
import Sema.Proofs.History
import Sema.Proofs.Labels
import Sema.Proofs.Layout
import Sema.Proofs.Links
import Sema.Proofs.Loading
import Sema.Proofs.Lockstep
import Sema.Proofs.Mirror
import Sema.Proofs.Moves
import Sema.Proofs.Nearest
import Sema.Proofs.Nesting
import Sema.Proofs.Occurrence
import Sema.Proofs.Opening
import Sema.Proofs.Operands
import Sema.Proofs.Operation
import Sema.Proofs.Place
import Sema.Proofs.Points
import Sema.Proofs.Progress
import Sema.Proofs.Quotation
import Sema.Proofs.Refinement
import Sema.Proofs.Refusal
import Sema.Proofs.Relabel
import Sema.Proofs.Relevance
import Sema.Proofs.Renaming
import Sema.Proofs.Replacement
import Sema.Proofs.Replay
import Sema.Proofs.Resolution
import Sema.Proofs.RoundTrip
import Sema.Proofs.Rules
import Sema.Proofs.Run
import Sema.Proofs.Shape
import Sema.Proofs.Sight
import Sema.Proofs.Simulation
import Sema.Proofs.Sites
import Sema.Proofs.Spelling
import Sema.Proofs.Stack
import Sema.Proofs.Storage
import Sema.Proofs.Subtyping
import Sema.Proofs.Surviving
import Sema.Proofs.Targets
import Sema.Proofs.Trace
import Sema.Proofs.Transform
import Sema.Proofs.TypeNames
import Sema.Proofs.Uniform
import Sema.Proofs.Validation
import Sema.Proofs.Visibility
import Sema.Proofs.Watch
import Sema.Proofs.Wording
import Sema.Resolved.Agree
import Sema.Resolved.Basic
import Sema.Scope
import Sema.Scope.Arena
import Sema.Span
import Sema.Syntax.Agree
import Sema.Syntax.Basic
import Sema.Syntax.Node
import Sema.Syntax.Operator
import Sema.Toml.Blank
import Sema.Toml.Document
import Sema.Toml.Grammar
import Sema.Toml.Item
import Sema.Toml.Moment
import Sema.Toml.Number
import Sema.Toml.Quote
import Sema.Toml.Text
import Sema.Ty.Assign
import Sema.Ty.Basic
