import NonlinearProgram.Formulation.Derivative
import NonlinearProgram.Matrix.RowStack

namespace NonlinearProgram

open FormulationM

namespace Formulation

variable {α : Type} [Scalar α]

def newVector (layout : Layout) : FormulationM α (DistributedVector α) := do
  onStore (DistributedVector.zeros layout (some (← getFormulation).communicator))

def newPrimal : FormulationM α (DistributedVector α) := do newVector (← getCore).layout

def newGroupDual (group : ConstraintGroup) : FormulationM α (DistributedVector α) := do
  newVector (Layout.ofSize ((← getCore).indices group).length)

def newDual : FormulationM α (DistributedVector α) := do
  newVector (Layout.ofSize (← getCore).constraintCount)

def newJacobian (group : ConstraintGroup) : FormulationM α (AnyMatrix α) := do
  match (← getFormulation).kind with
  | .dense =>
    let c ← getCore
    let rows := (c.indices group).length
    return .dense (← ofExcept .matrix (DenseMatrix.create rows c.size (some c.layout) (-1)))
  | .mixed =>
    let b ← blockSizes
    let rows := ((← getCore).indices group).length
    let count := match group with
      | .equalities => b.equalityCount
      | .inequalities => b.inequalityCount
    return .mixed (← ofExcept .matrix (MixedMatrix.create (.integer rows) b.sparse b.dense count))

def newHessian : FormulationM α (AnyMatrix α) := do
  if (← getFormulation).kind = .dense then throw .otherKind
  let b ← blockSizes
  return .sym (← ofExcept .matrix (SymBlockMatrix.create b.sparse b.dense b.hessianCount))

-- Rows over the internal variables; a positive capacity reserves room for more.
def newRows (rows capacity : RawValue α) : FormulationM α (RowStack α) := do
  if (← getFormulation).kind = .mixed then throw .otherKind
  let c ← getCore
  ofExcept .matrix (RowStack.create rows (.integer c.size) (some c.layout) capacity)

def addMatrix (a : AnyMatrix α) : FormulationM α (Argument α) :=
  modifyGet fun s => (.matrix s.matrices.length, { s with matrices := s.matrices ++ [a] })

end Formulation
end NonlinearProgram
