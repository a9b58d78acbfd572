import NonlinearProgram.Fault.Conversion
import NonlinearProgram.Problem.Basic
import NonlinearProgram.RawValue.Comparison

-- The objective is `constant + Σ linear_j x_j + ½ Σ curvature_j x_j²`, and every constraint has the
-- same form. Coefficients that are not given are zero, and one that is given but is no scalar
-- raises a fault when it is used. How a problem behaves when it is called can be scripted: it may
-- raise faults before or after its work, spoil arrays that it should leave alone, stop writing too
-- early and answer anything.

namespace NonlinearProgram

-- A number, or the fault that its use raises.
abbrev Coefficient (α : Type) := Except Fault α

structure Behaviour (α : Type) where
  -- Raised before anything else.
  early : Option Fault := none
  -- Raised when all work is done.
  late : Option Fault := none
  pointChanges : List (Except Fault (RawValue α × Coefficient α)) := []
  changesIndices : Bool := false
  limit : Option (RawValue α) := none
  answer : Option (Except Fault (RawValue α)) := none
  coupling : RawValue α := .integer 0

structure HessianPlace (α : Type) where
  row : RawValue α
  column : RawValue α
  objective : Coefficient α

-- A list of items of which some may raise a fault, unless there is no list.
abbrev Given (β : Type) := Except Fault (List (Except Fault β))

abbrev GivenRows (α : Type) := Given (List (Coefficient α))

structure Quadratic (α : Type) where
  sizes : Except Fault (RawValue α)
  distribution : Option (Given Int) := none
  lower : Given α := .ok []
  upper : Given α := .ok []
  types : Option (Except Fault (List Nonlinearity)) := none
  constraintLower : Given α := .ok []
  constraintUpper : Given α := .ok []
  constraintTypes : Option (Except Fault (List Nonlinearity)) := none
  blockSizes : Except Fault (BlockSizes α)
  startingPoint : Option (Given α) := none
  constant : Coefficient α
  linear : Given α := .ok []
  curvature : Given α := .ok []
  constraintConstants : Given α := .ok []
  constraintLinear : GivenRows α := .ok []
  constraintCurvature : GivenRows α := .ok []
  pattern : Nat → Except Fault (List (RawValue α)) := fun _ => .ok []
  hessian : Given (HessianPlace α) := .ok []
  denseHessian : GivenRows α := .ok []
  behaviour : Occasion → Behaviour α := fun _ => {}

def Point.length {α : Type} (x : Point α) : Callback α Nat :=
  x.length?.elim (Callback.raise .noLength) Callback.done

namespace Behaviour

variable {α : Type} [Scalar α]

def writes (b : Behaviour α) (k : Nat) : Except Fault Bool :=
  match b.limit with
  | none => .ok true
  | some limit => ((RawValue.integer k).isLess limit).mapError fun _ => .noNumber

def whenWriting (b : Behaviour α) (k : Nat) (work : Callback α Unit) : Callback α Unit := do
  if ← Callback.ofExcept (b.writes k) then work

def guarded {β : Type} (b : Behaviour α) (work : Except Fault β) : Except Fault β := do
  if let some fault := b.early then .error fault
  let x ← work
  b.late.elim (.ok x) .error

def answerOr (b : Behaviour α) (usual : RawValue α) : Except Fault (RawValue α) :=
  b.answer.getD (.ok usual)

def reply {β ρ : Type} (b : Behaviour α) (usual : RawValue α) (work : Except Fault β)
    (make : β → RawValue α → ρ) : Except Fault ρ := do
  return make (← b.guarded work) (← b.answerOr usual)

-- The reply to a query that a problem without data of its own passes over: it declines, unless it
-- raises a fault before anything else.
def replyWith {β ρ : Type} (b : Behaviour α) (data : Option (Except Fault (List β)))
    (make : List β → RawValue α → ρ) : Except Fault ρ :=
  match data with
  | some work => b.reply (.flag true) work make
  | none => b.early.elim (.ok (make [] (.flag false))) .error

-- Overwrites one coordinate of the point, or all that an index picks. An index not below the number
-- of entries changes nothing, and any other that the point does not have is a fault.
def changeEntry (point : Point α) (i : RawValue α) (x : Coefficient α) : Callback α Unit := do
  let length := point.length?.getD 0
  if ← Callback.ofExcept ((i.isBelow point.size).mapError fun _ => .noNumber) then
    let x ← Callback.ofExcept x
    match i.picks length with
    | .ok places => for k in places do Callback.put .point k x
    | .error _ => Callback.put .point length x

def changePoint (b : Behaviour α) (point : Point α) : Callback α Unit := do
  for change in b.pointChanges do
    let (i, x) ← Callback.ofExcept change
    changeEntry point i x

def evaluation (b : Behaviour α) (point : Point α) (indices : List Nat)
    (work : Callback α (RawValue α)) : Callback α (RawValue α) := do
  if let some fault := b.early then Callback.raise fault
  b.changePoint point
  if b.changesIndices && !indices.isEmpty then Callback.raise .readOnly
  let usual ← work
  if let some fault := b.late then Callback.raise fault
  Callback.ofExcept (b.answerOr usual)

end Behaviour

namespace Quadratic

variable {α : Type} [Scalar α]

-- The coefficient at a position of any kind. Outside the list there are zeros, and a number with a
-- fraction is no position in it.
def coefficientAt (xs : Given α) (i : RawValue α) : Coefficient α := do
  let xs ← xs
  let isOutside ← ((return (← i.isBelow 0) || !(← i.isBelow xs.length)) :
    Except ValueFault Bool).mapError fun _ => .noNumber
  if isOutside then return 0
  match i.index with
  | .ok k => xs[k.toNat]?.getD (.ok 0)
  | .error _ => throw .noNumber

def coefficient (xs : Given α) (i : Nat) : Coefficient α := do (← xs)[i]?.getD (.ok 0)

def row (rows : GivenRows α) (i : Nat) : Except Fault (List (Coefficient α)) := do
  (← rows)[i]?.getD (.ok [])

def value (constant : Coefficient α) (linear curvature : Given α) (point : Point α) :
    Callback α α := do
  let constant ← Callback.ofExcept constant
  (List.range (← point.length)).foldlM (fun s j => do
    let g ← Callback.ofExcept (coefficient linear j)
    let x ← Callback.entry .point j
    let q ← Callback.ofExcept (coefficient curvature j)
    return s + g * x + Scalar.half * q * x * x) constant

variable (q : Quadratic α)

def constraintValue (i : Nat) (point : Point α) : Callback α α :=
  value (coefficient q.constraintConstants i) (row q.constraintLinear i)
    (row q.constraintCurvature i) point

-- The coordinate of a point at a position of any kind. Coordinates that the point does not have
-- count as zeros.
def coordinate (point : Point α) (j : RawValue α) : Callback α α := do
  let isOutside ← Callback.ofExcept <|
    ((return (← j.isBelow 0) || !(← j.isBelow point.size)) : Except ValueFault Bool).mapError
      fun _ => .noNumber
  if isOutside then return 0
  match j.index with
  | .ok k => Callback.entry .point k.toNat
  | .error _ => Callback.raise .noIndex

def constraintSlope (i : Nat) (j : RawValue α) (point : Point α) : Callback α α := do
  let x ← coordinate point j
  let g ← Callback.ofExcept (coefficientAt (row q.constraintLinear i) j)
  let c ← Callback.ofExcept (coefficientAt (row q.constraintCurvature i) j)
  return g + c * x

def objectiveSlope (j : Nat) : Callback α α := do
  let g ← Callback.ofExcept (coefficient q.linear j)
  let c ← Callback.ofExcept (coefficient q.curvature j)
  return g + c * (← Callback.entry .point j)

def fillGradient (b : Behaviour α) (point : Point α) : Callback α Unit := do
  for j in List.range (← point.length) do
    b.whenWriting j do Callback.put .output j (← q.objectiveSlope j)

def fillValues (b : Behaviour α) (indices : List Nat) (point : Point α) : Callback α Unit := do
  for (i, k) in indices.zipIdx do
    let s ← q.constraintValue i point
    b.whenWriting k do Callback.put .output k s

-- Dense rows of derivatives, where the columns begin at the variable `first`.
def fillRows (b : Behaviour α) (indices : List Nat) (point : Point α) (first : RawValue α)
    (columns : Nat) : Callback α Unit := do
  for (i, k) in indices.zipIdx do
    for j in List.range columns do
      b.whenWriting (k * columns + j) do
        Callback.putDense k j (← q.constraintSlope i (first.plusNat j) point)

def tripletIndex (i : RawValue α) : Except Fault Int := i.toInteger.mapError (.ofInteger i)

def fillTriplets (b : Behaviour α) (indices : List Nat) (point : Point α) (count : Nat) :
    Callback α Unit := do
  let _ ← indices.zipIdx.foldlM (fun start (i, k) => do
    let columns ← Callback.ofExcept (q.pattern i)
    for (j, offset) in columns.zipIdx do
      let position := start + offset
      if position < count then
        b.whenWriting position do
          Callback.putTriplet position (.ok k) (tripletIndex j) (← q.constraintSlope i j point)
    return start + columns.length) 0

def curvatureAt (factor : α) (multipliers : Nat) (i j : RawValue α) (w : Coefficient α) :
    Callback α α := do
  let s := factor * (← Callback.ofExcept w)
  if i.isSame j then
    (List.range multipliers).foldlM (fun s c => do
      let y ← Callback.entry .multipliers c
      return s + y * (← Callback.ofExcept (coefficientAt (row q.constraintCurvature c) i))) s
  else return s

def fillHessian (b : Behaviour α) (factor : α) (multipliers : Nat) (blocks : BlockContents α) :
    Callback α Unit := do
  for (place, position) in (← Callback.ofExcept q.hessian).zipIdx do
    let place ← Callback.ofExcept place
    if position < blocks.triplets.length then
      b.whenWriting position do
        let x ← q.curvatureAt factor multipliers place.row place.column place.objective
        Callback.putTriplet position (tripletIndex place.row) (tripletIndex place.column) x
  for i in List.range blocks.dense do
    for j in List.range blocks.dense do
      b.whenWriting (i * blocks.dense + j) do
        Callback.putDense i j (← q.curvatureAt factor multipliers (blocks.sparse.plusNat i)
          (blocks.sparse.plusNat j) (coefficient (row q.denseHessian i) j))
  Callback.putCoupling b.coupling

def evaluate : Evaluation α → Callback α (RawValue α)
  | .objective point =>
    (q.behaviour .objective).evaluation point [] do
      return .real (← value q.constant q.linear q.curvature point)
  | .gradient point _ =>
    let b := q.behaviour .gradient
    b.evaluation point [] do
      q.fillGradient b point
      return .flag true
  | .constraints point _ indices _ =>
    let b := q.behaviour .values
    b.evaluation point indices do
      q.fillValues b indices point
      return .flag true
  | .denseJacobian point _ indices rows =>
    let b := q.behaviour .jacobian
    b.evaluation point indices do
      q.fillRows b indices point (.integer 0) ((rows.map List.length).headD 0)
      return .flag true
  | .blockJacobian point _ indices blocks =>
    let b := q.behaviour .jacobian
    b.evaluation point indices do
      q.fillTriplets b indices point blocks.triplets.length
      q.fillRows b indices point blocks.sparse blocks.dense
      return .flag true
  | .hessian point _ factor multipliers _ blocks =>
    let b := q.behaviour .hessian
    b.evaluation point [] do
      q.fillHessian b factor multipliers.length blocks
      return .flag true

def leading {β : Type} (room : Nat) (given : Given β) : Except Fault (List β) := do
  return (← (← given).mapM id).take room

-- The first indices of the ranks' slices, as many as there is room for. Every one that is written
-- has to fit into 64 bits, whatever the answer is then.
def distribute (room : Nat) : Except Fault (DistributionReply α) :=
  let written := q.distribution.map fun boundaries => do
    (← leading room boundaries).mapM fun k => if isInt64 k then .ok k else .error .outsideInt64
  (q.behaviour .distribution).replyWith written DistributionReply.mk

-- Bounds and types, as far as there is room for them. A bound without room has to be a number all
-- the same.
def declare (occasion : Occasion) (lower upper : Given α)
    (types : Option (Except Fault (List Nonlinearity))) (d : Declared α) :
    Except Fault (BoundsReply α) :=
  let work := do
    let lower ← leading d.lower.length lower
    let upper ← leading d.upper.length upper
    return (lower, upper, ← types.mapM id)
  (q.behaviour occasion).reply (.flag true) work fun (lower, upper, types) answer =>
    ⟨lower, upper, types, answer⟩

def toProblem (name : String) (offersDense offersBlocks : Bool) : Problem α where
  name := name
  offersDense := offersDense
  offersBlocks := offersBlocks
  sizes := (q.behaviour .sizes).early.elim q.sizes .error
  distribution := fun _ boundaries => q.distribute boundaries.length
  variableBounds := fun _ => q.declare .variableBounds q.lower q.upper q.types
  constraintBounds := fun _ =>
    q.declare .constraintBounds q.constraintLower q.constraintUpper q.constraintTypes
  blockSizes := (q.behaviour .blockSizes).early.elim q.blockSizes .error
  startingPoint := fun _ point =>
    (q.behaviour .startingPoint).replyWith
      (q.startingPoint.map (leading point.length)) StartReply.mk
  evaluate := q.evaluate
  solution := fun _ _ => (q.behaviour .solution).reply .null (.ok ()) fun _ _ => ()
  iterate := fun _ _ => (q.behaviour .iterate).reply (.flag true) (.ok ()) fun _ answer => answer

end Quadratic
end NonlinearProgram
