import LinearProgram.Bound
import LinearProgram.Callback
import LinearProgram.Cancel.Forest
import LinearProgram.Choice
import LinearProgram.Datum
import LinearProgram.Decimal.Scientific
import LinearProgram.Decimal.Shortest
import LinearProgram.Double
import LinearProgram.Engine.Basic
import LinearProgram.Engine.Glpk
import LinearProgram.Engine.LpSolve
import LinearProgram.Engine.Selection
import LinearProgram.Fault
import LinearProgram.Handle.Block
import LinearProgram.Handle.Registry
import LinearProgram.Log
import LinearProgram.Matrix.Compressed
import LinearProgram.Matrix.Entries
import LinearProgram.Matrix.Vector
import LinearProgram.Model.Arrays
import LinearProgram.Model.Constraints
import LinearProgram.Model.Life
import LinearProgram.Model.Result
import LinearProgram.Model.Solve
import LinearProgram.Model.Variables
import LinearProgram.Native.Glpk
import LinearProgram.Native.Library
import LinearProgram.Native.LpSolve
import LinearProgram.Native.Run
import LinearProgram.Native.Script
import LinearProgram.Native.Store
import LinearProgram.Outcome
import LinearProgram.Parameters
import LinearProgram.Position
import LinearProgram.Text.Printable
import LinearProgram.Text.Quoted
import LinearProgram.Text.Utf8
import LinearProgram.World
import LinearProgram.Proofs.Action
import LinearProgram.Proofs.Ahead
import LinearProgram.Proofs.Alike
import LinearProgram.Proofs.Appending
import LinearProgram.Proofs.Arrays
import LinearProgram.Proofs.Arrays.Building
import LinearProgram.Proofs.Arrays.Matrix
import LinearProgram.Proofs.Batch
import LinearProgram.Proofs.Blocks
import LinearProgram.Proofs.Bound
import LinearProgram.Proofs.Callback
import LinearProgram.Proofs.Calls
import LinearProgram.Proofs.Cancel.Children
import LinearProgram.Proofs.Cancel.Deadline
import LinearProgram.Proofs.Cancel.Forest
import LinearProgram.Proofs.Cancel.Subtree
import LinearProgram.Proofs.Cancel.Timeline
import LinearProgram.Proofs.Clone
import LinearProgram.Proofs.Coalescing
import LinearProgram.Proofs.Compressed
import LinearProgram.Proofs.Construction
import LinearProgram.Proofs.Datum
import LinearProgram.Proofs.Denotation
import LinearProgram.Proofs.Double
import LinearProgram.Proofs.Dropped
import LinearProgram.Proofs.Engine.Columns
import LinearProgram.Proofs.Engine.Contents
import LinearProgram.Proofs.Engine.Effects
import LinearProgram.Proofs.Engine.Solving
import LinearProgram.Proofs.Engine.Starting
import LinearProgram.Proofs.Evolution
import LinearProgram.Proofs.Handle
import LinearProgram.Proofs.Handle.Journal
import LinearProgram.Proofs.Handle.Nesting
import LinearProgram.Proofs.Handle.Record
import LinearProgram.Proofs.Handle.Slots
import LinearProgram.Proofs.Library
import LinearProgram.Proofs.Lifetime
import LinearProgram.Proofs.Loading
import LinearProgram.Proofs.Meaning
import LinearProgram.Proofs.Mention
import LinearProgram.Proofs.Model.Attributes
import LinearProgram.Proofs.Model.Building
import LinearProgram.Proofs.Model.Life
import LinearProgram.Proofs.Model.Solving
import LinearProgram.Proofs.Naming
import LinearProgram.Proofs.Ownership
import LinearProgram.Proofs.Parameters
import LinearProgram.Proofs.Performed
import LinearProgram.Proofs.Program
import LinearProgram.Proofs.Provenance
import LinearProgram.Proofs.Reading
import LinearProgram.Proofs.Refusal
import LinearProgram.Proofs.Rejection
import LinearProgram.Proofs.Representation
import LinearProgram.Proofs.Results
import LinearProgram.Proofs.Run
import LinearProgram.Proofs.Selection
import LinearProgram.Proofs.Session
import LinearProgram.Proofs.Shape
import LinearProgram.Proofs.Shortage
import LinearProgram.Proofs.Solve.AtRest
import LinearProgram.Proofs.Solve.Course
import LinearProgram.Proofs.Solve.Dispatch
import LinearProgram.Proofs.Solve.Hookless
import LinearProgram.Proofs.Solve.Hooks
import LinearProgram.Proofs.Solve.Interrupted
import LinearProgram.Proofs.Solve.Released
import LinearProgram.Proofs.Solve.Reported
import LinearProgram.Proofs.Stored
import LinearProgram.Proofs.Table
import LinearProgram.Proofs.Text.Utf8
import LinearProgram.Proofs.Triplets
import LinearProgram.Proofs.Twins
import LinearProgram.Proofs.Twins.Engine
import LinearProgram.Proofs.Twins.Life
import LinearProgram.Proofs.Twins.Model
import LinearProgram.Proofs.Twins.Session
import LinearProgram.Proofs.Validity
import LinearProgram.Proofs.VariableName
