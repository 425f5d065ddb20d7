import TripleLoom.Algebra.Names
import TripleLoom.Document.Files
import TripleLoom.Function.Library
import TripleLoom.Loom
import TripleLoom.Plan.Outline
import TripleLoom.Service.Scripted
import TripleLoom.Proofs.Batches.History
import TripleLoom.Proofs.Batches.Rounds
import TripleLoom.Proofs.Batches.Closing
import TripleLoom.Proofs.Scope.History
import TripleLoom.Proofs.Run.Change
import TripleLoom.Proofs.Run.Step
import TripleLoom.Proofs.Run.Calls
import TripleLoom.Proofs.Run.Once
import TripleLoom.Proofs.Run.Inner
import TripleLoom.Proofs.Run.Protocol
import TripleLoom.Proofs.Expression.Pure
import TripleLoom.Proofs.Query.Lifting
import TripleLoom.Proofs.Pipeline.Minting
import TripleLoom.Proofs.Pipeline.Gathering
import TripleLoom.Proofs.Pipeline.Parts
import TripleLoom.Proofs.Pipeline.Accounts
import TripleLoom.Proofs.Pipeline.Handover
import TripleLoom.Proofs.Pipeline.Refinement
import TripleLoom.Proofs.Scope.Sharing
import TripleLoom.Proofs.Iterator.Chronicle
import TripleLoom.Proofs.Iterator.Account
import TripleLoom.Proofs.Iterator.Branches
import TripleLoom.Proofs.Iterator.HandsOn
import TripleLoom.Proofs.Expression.Closure
import TripleLoom.Proofs.Sequence.Coverage
import TripleLoom.Proofs.Sequence.Inline
import TripleLoom.Proofs.Solution.FiniteMap
import TripleLoom.Proofs.Run.Within
import TripleLoom.Proofs.Run.Footprint
import TripleLoom.Proofs.Run.Keeping
import TripleLoom.Proofs.Run.Evolution
import TripleLoom.Proofs.Run.Turns
import TripleLoom.Proofs.Run.Acts
import TripleLoom.Proofs.Run.Coverage
import TripleLoom.Proofs.Generation.Instances
import TripleLoom.Proofs.Generation.Making
import TripleLoom.Proofs.Generation.Executions
import TripleLoom.Proofs.Generation.Progress
import TripleLoom.Proofs.Generation.ListNodes
import TripleLoom.Proofs.Generation.Placeholders
import TripleLoom.Proofs.Generation.ListNumbers
import TripleLoom.Proofs.Generation.Lists
import TripleLoom.Proofs.Generation.Isolation
import TripleLoom.Proofs.Generation.Batchwise
import TripleLoom.Proofs.Run.Skipping
import TripleLoom.Proofs.Run.Reentry
import TripleLoom.Proofs.Run.Sinks
import TripleLoom.Proofs.Text.Recital
import TripleLoom.Proofs.Text.Parts
import TripleLoom.Proofs.Text.Batchwise
import TripleLoom.Proofs.Termination.Dispatch
import TripleLoom.Proofs.Termination.Effort
import TripleLoom.Proofs.Termination.Bound
import TripleLoom.Proofs.Renaming.Expressions
import TripleLoom.Proofs.Renaming.States
import TripleLoom.Proofs.Renaming.Clauses
import TripleLoom.Proofs.Renaming.Outputs
import TripleLoom.Proofs.Renaming.Tasks
import TripleLoom.Proofs.Renaming.Calls
import TripleLoom.Proofs.Query.Freshness
import TripleLoom.Proofs.Plan.Numbering
import TripleLoom.Proofs.Lifecycle.History
import TripleLoom.Proofs.Lifecycle.Closing
import TripleLoom.Proofs.Query.Omission
import TripleLoom.Proofs.Query.Reuse
import TripleLoom.Proofs.Query.SharedNodes
import TripleLoom.Proofs.Plan.Faults
import TripleLoom.Proofs.Plan.Layout
import TripleLoom.Proofs.Query.Projection
import TripleLoom.Proofs.Algebra.Interpretation
import TripleLoom.Proofs.Query.TrailingValues
import TripleLoom.Proofs.Run.Chain
import TripleLoom.Proofs.Iterator.EngineCalls
import TripleLoom.Proofs.Run.Overriding
import TripleLoom.Proofs.Loom.InitialValues
import TripleLoom.Proofs.Run.Failing
import TripleLoom.Proofs.Expression.Script
import TripleLoom.Proofs.Run.Labels
import TripleLoom.Proofs.Generation.Carrying
import TripleLoom.Proofs.Generation.Sheltering
import TripleLoom.Proofs.Generation.Inheritance
import TripleLoom.Proofs.Expression.Comparison
import TripleLoom.Proofs.Text.Execution
import TripleLoom.Proofs.Expression.Rounding
import TripleLoom.Proofs.Value.Canonical
import TripleLoom.Proofs.Value.Truth
import TripleLoom.Proofs.Expression.Datatype
import TripleLoom.Proofs.Expression.Casting
import TripleLoom.Proofs.Expression.Membership
import TripleLoom.Proofs.Expression.Substrings
import TripleLoom.Proofs.Expression.Strings
import TripleLoom.Proofs.Expression.Searching
import TripleLoom.Proofs.Expression.UriEncoding
import TripleLoom.Proofs.Function.Counting
import TripleLoom.Proofs.Function.Splitting
import TripleLoom.Proofs.Sink.Writing
import TripleLoom.Proofs.Iri.Characters
import TripleLoom.Proofs.Lifecycle.Forks
import TripleLoom.Proofs.Sink.Decoding
