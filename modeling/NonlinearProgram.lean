import NonlinearProgram.Scalar.Binary64
import NonlinearProgram.Text.Lines
import NonlinearProgram.Json.Parser
import NonlinearProgram.Json.Printer
import NonlinearProgram.Bounds.Elementwise
import NonlinearProgram.Bounds.Split
import NonlinearProgram.Options.Description
import NonlinearProgram.Vector
import NonlinearProgram.Matrix.Description
import NonlinearProgram.Matrix.Report
import NonlinearProgram.Transformation.Accessor
import NonlinearProgram.Stats.Timeline
import NonlinearProgram.Stats.Description
import NonlinearProgram.Log.Description
import NonlinearProgram.Log.Report
import NonlinearProgram.Problem.Quadratic
import NonlinearProgram.Problem.Description
import NonlinearProgram.Problem.Transcript
import NonlinearProgram.Formulation.Core
import NonlinearProgram.Formulation.Finalization
import NonlinearProgram.Formulation.Evaluation
import NonlinearProgram.Formulation.Derivative
import NonlinearProgram.Formulation.StartingPoint
import NonlinearProgram.Formulation.Allocation
import NonlinearProgram.Formulation.Report
import NonlinearProgram.Formulation.Accessor
import NonlinearProgram.Proofs.Program
import NonlinearProgram.Proofs.Scalar
import NonlinearProgram.Proofs.Rounding
import NonlinearProgram.Proofs.Binary64
import NonlinearProgram.Proofs.Faithful
import NonlinearProgram.Proofs.Selection
import NonlinearProgram.Proofs.Store
import NonlinearProgram.Proofs.Transformation
import NonlinearProgram.Proofs.Layout
import NonlinearProgram.Proofs.Split
import NonlinearProgram.Proofs.Bounds
import NonlinearProgram.Proofs.Problem
import NonlinearProgram.Proofs.Formulation.Query
import NonlinearProgram.Proofs.Formulation.Treatment
import NonlinearProgram.Proofs.Formulation.Build
import NonlinearProgram.Proofs.Formulation.Finalization
import NonlinearProgram.Proofs.Formulation.Evaluation
import NonlinearProgram.Proofs.Formulation.Delivery
import NonlinearProgram.Proofs.Formulation.Feasibility
import NonlinearProgram.Proofs.Formulation.Report
import NonlinearProgram.Proofs.Formulation.Lagrangian
import NonlinearProgram.Proofs.Formulation.History
import NonlinearProgram.Proofs.Formulation.Progress
import NonlinearProgram.Proofs.Formulation.Ranks
import NonlinearProgram.Proofs.Formulation.Tally
import NonlinearProgram.Proofs.Formulation.Lockstep
import NonlinearProgram.Proofs.Box
import NonlinearProgram.Proofs.Formulation.Boxes
import NonlinearProgram.Proofs.Formulation.Rejection
import NonlinearProgram.Proofs.Formulation.Contract
import NonlinearProgram.Proofs.Formulation.Requests
import NonlinearProgram.Proofs.Partition
import NonlinearProgram.Proofs.Formulation.Indicators
import NonlinearProgram.Proofs.Formulation.Constraints
import NonlinearProgram.Proofs.Composition
import NonlinearProgram.Proofs.Workbench
import NonlinearProgram.Proofs.Formulation.Agreement
import NonlinearProgram.Proofs.Formulation.Ownership
import NonlinearProgram.Proofs.Formulation.Sparing
import NonlinearProgram.Proofs.Callback
import NonlinearProgram.Proofs.Formulation.Effects
import NonlinearProgram.Proofs.Formulation.Lifecycle
import NonlinearProgram.Proofs.Mirror
import NonlinearProgram.Proofs.Formulation.Repetition
import NonlinearProgram.Proofs.InnerProduct
import NonlinearProgram.Proofs.Registry
import NonlinearProgram.Proofs.Derivatives
import NonlinearProgram.Proofs.Multipliers
import NonlinearProgram.Proofs.Fusion
import NonlinearProgram.Proofs.Matrix
import NonlinearProgram.Proofs.Formulation.BlockShapes
import NonlinearProgram.Proofs.Tensor
import NonlinearProgram.Proofs.Formulation.Twins
import NonlinearProgram.Proofs.Formulation.Unison
import NonlinearProgram.Proofs.Formulation.Independence
import NonlinearProgram.Proofs.Formulation.StartingPoint
import NonlinearProgram.Proofs.Rows
import NonlinearProgram.Proofs.Formulation.Jacobians
import NonlinearProgram.Proofs.Stats
import NonlinearProgram.Proofs.Formulation.Exchange
import NonlinearProgram.Proofs.Formulation.Consultation
import NonlinearProgram.Proofs.Formulation.Outcome
import NonlinearProgram.Proofs.Formulation.Counters
import NonlinearProgram.Proofs.Formulation.Retention
import NonlinearProgram.Proofs.RowOrder
import NonlinearProgram.Proofs.QuadraticForm
import NonlinearProgram.Proofs.Symmetry
import NonlinearProgram.Proofs.Relaxation
import NonlinearProgram.Proofs.Memory
import NonlinearProgram.Proofs.BlankMatrix
import NonlinearProgram.Proofs.Formulation.FreshMatrices
import NonlinearProgram.Proofs.Messages
import NonlinearProgram.Proofs.RowStack
import NonlinearProgram.Proofs.Timeline
