import NonlinearProgram.Problem.Basic
import NonlinearProgram.RawValue.Fields

namespace NonlinearProgram

open RawValue

variable {α : Type} [Scalar α]

def ofTypes (ts : List Nonlinearity) : RawValue α := ofTexts (ts.map Nonlinearity.text)

def BlockSizes.toValue (b : BlockSizes α) : RawValue α :=
  .list [b.sparse, b.dense, b.equalityCount, b.inequalityCount, b.hessianCount, b.couplingCount]

def Declared.toValues (d : Declared α) : List (RawValue α) :=
  [ofScalars d.lower, ofScalars d.upper, ofTypes d.types]

def BlockContents.toValues (b : BlockContents α) : List (RawValue α) := [
  b.sparse, .integer b.dense, .integer b.triplets.length,
  ofIntegers (b.triplets.map Triplet.row), ofIntegers (b.triplets.map Triplet.column),
  ofScalars (b.triplets.map Triplet.value), ofRows b.rows]

def Point.toValues (x : Point α) (chosen : List (RawValue α)) : List (RawValue α) :=
  .integer x.n :: chosen ++ [ofTensor x.entries, x.isNew]

def Evaluation.toValues : Evaluation α → Occasion × List (RawValue α)
  | .objective x => (.objective, x.toValues [])
  | .gradient x output => (.gradient, x.toValues [] ++ [ofScalars output])
  | .constraints x m indices output =>
    (.values, x.toValues [.integer m, ofNats indices] ++ [ofTensor output])
  | .denseJacobian x m indices rows =>
    (.jacobian, x.toValues [.integer m, ofNats indices] ++ [ofRows rows])
  | .blockJacobian x m indices blocks =>
    (.jacobian, x.toValues [.integer m, ofNats indices] ++ blocks.toValues)
  | .hessian x m factor multipliers isNew blocks =>
    (.hessian, x.toValues [.integer m] ++
      [.real factor, ofScalars multipliers, isNew] ++ blocks.toValues ++
      [ofIntegers [0, 0, 0, 0]])

def Query.toValues : Query α → Occasion × List (RawValue α)
  | .sizes => (.sizes, [])
  | .distribution n boundaries => (.distribution, [.integer n, ofIntegers boundaries])
  | .variableBounds n d => (.variableBounds, .integer n :: d.toValues)
  | .constraintBounds m d => (.constraintBounds, .integer m :: d.toValues)
  | .blockSizes => (.blockSizes, [])
  | .startingPoint n point => (.startingPoint, [.integer n, ofScalars point])

def Iterate.toValues (i : Iterate α) : List (RawValue α) := [
  .integer i.n, ofTensor i.point, ofTensor i.lowerMultipliers, ofTensor i.upperMultipliers,
  .integer i.m, ofScalars i.constraints, ofScalars i.multipliers]

def Progress.toValues (p : Progress α) : List (RawValue α) := [
  .real p.primalInfeasibility, .real p.dualInfeasibility, .real p.barrier, .real p.dualStep,
  .real p.primalStep, p.lineSearchTrials]

def Reduction.toValue (r : Reduction α) : RawValue α :=
  .list [.text "allreduce", ofQuantity r.value]

def Call.toValue : Call α → RawValue α
  | .query q => let (o, args) := q.toValues; .list (.text o.text :: args)
  | .evaluation e => let (o, args) := e.toValues; .list (.text o.text :: args)
  | .solution status i =>
    .list ([.text Occasion.solution.text, .text status.text] ++ i.toValues ++ [.real i.objective])
  | .iterate progress i =>
    .list ([.text Occasion.iterate.text, progress.iteration, .real i.objective] ++
      i.toValues ++ progress.toValues)
  | .reduction r => r.toValue

end NonlinearProgram
