import NonlinearProgram.Bounds.Split
import NonlinearProgram.Communicator
import NonlinearProgram.Problem.Callback
import NonlinearProgram.RawValue

-- A problem answers queries about its sizes, bounds and starting point, evaluates its functions at
-- the points it is given, and listens to reports of a solver. Every answer carries a value of any
-- kind, which tells whether the problem could do what it was asked; instead of an answer a problem
-- can raise a fault.

namespace NonlinearProgram

inductive Occasion where
  | sizes
  | distribution
  | variableBounds
  | constraintBounds
  | blockSizes
  | startingPoint
  | objective
  | gradient
  | values
  | jacobian
  | hessian
  | solution
  | iterate
deriving DecidableEq, Repr

def Occasion.text : Occasion → String
  | .sizes => "get_prob_sizes"
  | .distribution => "get_vecdistrib_info"
  | .variableBounds => "get_vars_info"
  | .constraintBounds => "get_cons_info"
  | .blockSizes => "get_sparse_dense_blocks_info"
  | .startingPoint => "get_starting_point"
  | .objective => "eval_f"
  | .gradient => "eval_grad_f"
  | .values => "eval_cons"
  | .jacobian => "eval_Jac_cons"
  | .hessian => "eval_Hess_Lagr"
  | .solution => "solution_callback"
  | .iterate => "iterate_callback"

-- The entries of a list overwritten from its front; what is beyond its end is dropped.
def overlay {β : Type} (given current : List β) : List β :=
  given.take current.length ++ current.drop given.length

structure Declared (α : Type) where
  lower : List α
  upper : List α
  types : List Nonlinearity

structure BlockSizes (α : Type) where
  sparse : RawValue α
  dense : RawValue α
  equalityCount : RawValue α
  inequalityCount : RawValue α
  hessianCount : RawValue α
  couplingCount : RawValue α := .integer 0

inductive Query (α : Type) where
  | sizes
  | distribution (n : Int) (boundaries : List Int)
  | variableBounds (n : Int) (declared : Declared α)
  | constraintBounds (m : Nat) (declared : Declared α)
  | blockSizes
  | startingPoint (n : Int) (point : List α)

structure DistributionReply (α : Type) where
  boundaries : List Int := []
  answer : RawValue α

-- Bounds to write over those in the query, and types to take the place of those there.
structure BoundsReply (α : Type) where
  lower : List α := []
  upper : List α := []
  types : Option (List Nonlinearity) := none
  answer : RawValue α

structure StartReply (α : Type) where
  point : List α := []
  answer : RawValue α

def BoundsReply.onto {α : Type} (r : BoundsReply α) (d : Declared α) : Declared α where
  lower := overlay r.lower d.lower
  upper := overlay r.upper d.upper
  types := r.types.getD d.types

-- Where an evaluation takes place: `n` variables in total, of which the entries are at hand.
structure Point (α : Type) where
  n : Int
  entries : Tensor α
  -- What the solver says to the question whether no evaluation has seen this point yet.
  isNew : RawValue α

def Point.size {α : Type} (x : Point α) : Nat := x.entries.size

-- The number of coordinates, which lie along the first axis; a point without an axis has none.
def Point.length? {α : Type} (x : Point α) : Option Nat := x.entries.shape.head?

structure BlockContents (α : Type) where
  sparse : RawValue α
  dense : Nat
  triplets : List (Triplet α)
  rows : Rows α

-- What a problem is asked to evaluate, with the contents of the arrays it is to fill. Constraints
-- are chosen by their `indices` among all `m`.
inductive Evaluation (α : Type) where
  | objective (point : Point α)
  | gradient (point : Point α) (output : List α)
  | constraints (point : Point α) (m : Nat) (indices : List Nat) (output : Tensor α)
  | denseJacobian (point : Point α) (m : Nat) (indices : List Nat) (rows : Rows α)
  | blockJacobian (point : Point α) (m : Nat) (indices : List Nat) (blocks : BlockContents α)
  | hessian (point : Point α) (m : Nat) (factor : α) (multipliers : List α)
      (newMultipliers : RawValue α) (blocks : BlockContents α)

inductive SolveStatus where
  | success
  | acceptableLevel
  | infeasible
  | maxIter
  | maxTime
  | stepTooSmall
  | userStopped
  | numericalError
  | unknown
deriving DecidableEq, Repr

namespace SolveStatus

def all : List SolveStatus := [
  .success, .acceptableLevel, .infeasible, .maxIter, .maxTime, .stepTooSmall, .userStopped,
  .numericalError, .unknown]

def text : SolveStatus → String
  | .success => "success"
  | .acceptableLevel => "acceptable_level"
  | .infeasible => "infeasible"
  | .maxIter => "max_iter"
  | .maxTime => "max_cpu_time"
  | .stepTooSmall => "step_too_small"
  | .userStopped => "user_stopped"
  | .numericalError => "numerical_error"
  | .unknown => "unknown"

def ofText? (s : String) : Option SolveStatus := all.find? (·.text == s)

end SolveStatus

structure Iterate (α : Type) where
  n : Int
  point : Tensor α
  lowerMultipliers : Tensor α
  upperMultipliers : Tensor α
  m : Nat
  constraints : List α
  multipliers : List α
  objective : α

structure Progress (α : Type) where
  iteration : RawValue α
  primalInfeasibility : α
  dualInfeasibility : α
  barrier : α
  dualStep : α
  primalStep : α
  lineSearchTrials : RawValue α

inductive Call (α : Type) where
  | query (q : Query α)
  | evaluation (e : Evaluation α)
  | solution (status : SolveStatus) (i : Iterate α)
  | iterate (progress : Progress α) (i : Iterate α)
  | reduction (r : Reduction α)

def Call.reduction? {α : Type} : Call α → Option (Reduction α)
  | .reduction r => some r
  | _ => none

structure Problem (α : Type) where
  name : String
  offersDense : Bool
  offersBlocks : Bool
  sizes : Except Fault (RawValue α)
  distribution : Int → List Int → Except Fault (DistributionReply α)
  variableBounds : Int → Declared α → Except Fault (BoundsReply α)
  constraintBounds : Nat → Declared α → Except Fault (BoundsReply α)
  blockSizes : Except Fault (BlockSizes α)
  startingPoint : Int → List α → Except Fault (StartReply α)
  evaluate : Evaluation α → Callback α (RawValue α)
  solution : SolveStatus → Iterate α → Except Fault Unit
  iterate : Progress α → Iterate α → Except Fault (RawValue α)

end NonlinearProgram
