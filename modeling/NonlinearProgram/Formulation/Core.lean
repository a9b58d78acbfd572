import NonlinearProgram.Bounds.Basic
import NonlinearProgram.Formulation.Basic
import NonlinearProgram.Layout.Description

-- The problem is asked for its sizes, the distribution of its variables, its bounds and its types,
-- in this order, and the first answer that makes no sense ends the work. Fixed variables are then
-- treated as the options ask, the bounds are classified, and the constraints are split. Counts of
-- bounds are summed over the ranks, which every rank has to enter.

namespace NonlinearProgram

namespace FormulationM

variable {α β : Type}

def reject (m : Malformed α) : FormulationM α β := throw (.malformed m)

def ask (q : Query α) (answer : Except Fault β) : FormulationM α β := do
  record (.query q)
  ofExcept .ofQuery answer

def arrayLength (n : Int) : FormulationM α Nat :=
  match allocationFault? Tensor.scalarWidth [n] with
  | some fault => throw (.numeric fault)
  | none => return n.toNat

end FormulationM

open FormulationM

namespace Core

variable {α : Type} [Scalar α]

def pairOf (given : RawValue α) : FormulationM α (Int × Int) := do
  match given.elements? with
  | none => reject (.sizes given)
  | some items =>
    match (items.take 3).mapM RawValue.toInteger with
    | .ok [n, m] => return (n, m)
    | .error .integerRange => throw (.numeric .integerRange)
    | .ok _ | .error _ => reject (.sizes given)

def askSizes (p : Problem α) : FormulationM α (Int × Int) := do
  let (n, m) ← pairOf (← ask .sizes p.sizes)
  if n < 0 ∨ m < 0 then reject (.negativeSizes n m)
  return (n, m)

-- The slices of the ranks; a problem that declines leaves all variables to every rank.
def askLayout (p : Problem α) (n : Int) (c : Communicator α) : FormulationM α Layout := do
  let count ← ofExcept .numeric do (← c.size.plus (.integer 1)).exactInteger
  let blank := List.replicate (← arrayLength count) 0
  let reply ← ask (.distribution n blank) (p.distribution n blank)
  let boundaries := overlay reply.boundaries blank
  if boundaries.any (!isInt64 ·) then throw (.numeric .integerRange)
  if !reply.answer.isTrue then ofExcept .layout (Layout.serial n)
  else
    let layout ← ofExcept (fun
      | .value fault => .numeric fault
      | e => .malformed (.boundaries boundaries e)) (Layout.seenFrom c.rank boundaries)
    if layout.globalSize ≠ n then reject (.coverage layout.globalSize n)
    let total ← sumOverRanks c layout.localSize
    if total ≠ n then reject (.localSizes total n)
    return layout

def undeclared (n : Nat) : Declared α where
  lower := List.replicate n Scalar.negInfinity
  upper := List.replicate n Scalar.infinity
  types := List.replicate n .nonlinear

def askBounds (q : Declared α → Query α) (answer : Declared α → Except Fault (BoundsReply α))
    (refused : Malformed α) (mistyped : Nat → Nat → Malformed α) (count : Nat) :
    FormulationM α (Declared α) := do
  let blank := undeclared count
  let reply ← ask (q blank) (answer blank)
  if !reply.answer.isTrue then reject refused
  let declared := reply.onto blank
  if declared.types.length ≠ count then reject (mistyped declared.types.length count)
  return declared

def askVariables (p : Problem α) (n : Int) : Nat → FormulationM α (Declared α) :=
  askBounds (.variableBounds n) (p.variableBounds n) .variablesRefused .variableTypes

def askConstraints (p : Problem α) (m : Nat) : FormulationM α (Declared α) :=
  askBounds (.constraintBounds m) (p.constraintBounds m) .constraintsRefused .constraintTypes m

-- Every pair of bounds describes an interval, where tiny crossings may be allowed. A report names
-- how many pairs do not, and the first of them.
def checkBounds (o : Options α) (allowFixed : Bool) (report : Nat → Nat → α → α → Malformed α)
    (d : Declared α) : FormulationM α Unit :=
  match inconsistentPositions o.tolerance allowFixed d.lower d.upper with
  | [] => return ()
  | i :: rest => reject (report (rest.length + 1) i (d.lower[i]?.getD 0) (d.upper[i]?.getD 0))

-- The variables' bounds, which may cross a little where the policy treats fixed variables.
def checkVariables (o : Options α) (layout : Layout) : Declared α → FormulationM α Unit :=
  checkBounds o (o.policy != .keep) fun count i => .variableBounds count (layout.start + i)

def checkConstraints (o : Options α) : Declared α → FormulationM α Unit :=
  checkBounds o false .constraintBounds

def fixedVariables (o : Options α) (d : Declared α) : List Bool :=
  match o.policy with
  | .keep => List.replicate d.lower.length false
  | .remove | .relax => fixedMask o.tolerance o.infinity d.lower d.upper

-- The policy in force for `count` fixed variables on all ranks: where elimination is not possible,
-- bounds are relaxed instead.
def policyFor (requested : FixedPolicy) (count : Int) (distributed canRemove : Bool) :
    FixedPolicy :=
  if requested = .remove ∧ 0 < count ∧ (distributed ∨ !canRemove) then .relax else requested

structure Treatment (α : Type) where
  chain : Chain α
  layout : Layout
  types : List Nonlinearity

def create (make : Store α → Except (TransformationError α) (Transformation α × Store α)) :
    FormulationM α (Transformation α) := do
  let (t, store) ← ofExcept .transformation (make (← get).store)
  modify fun s => { s with store }
  return t

def treat (policy : FixedPolicy) (o : Options α) (layout : Layout) (d : Declared α)
    (mask : List Bool) (count : Int) : FormulationM α (Treatment α) := do
  let identity : Chain α := { userSize := .integer d.lower.length }
  match policy with
  | .remove =>
    if count ≤ 0 then return ⟨identity, layout, d.types⟩
    let values := List.zipWith Scalar.midpoint d.lower d.upper
    let t ← create (Transformation.createRemover mask values)
    let chain ← ofExcept .transformation (identity.append t)
    let reduced ← ofExcept .layout (layout.reduced (mask.map not))
    emit (.removed count reduced.globalSize)
    return ⟨chain, reduced, gather d.types (clearPositions mask)⟩
  | .relax =>
    if count ≤ 0 then return ⟨identity, layout, d.types⟩
    let t ← create (Transformation.createRelaxer mask o.tolerance)
    let chain ← ofExcept .transformation (identity.append t)
    emit (.relaxed count o.tolerance)
    return ⟨chain, layout, d.types⟩
  | .keep => return ⟨identity, layout, d.types⟩

def internalBounds (chain : Chain α) (d : Declared α) : FormulationM α (List α × List α) :=
  onStore do
    let lower ← StoreM.alloc (Tensor.ofList d.lower)
    let upper ← StoreM.alloc (Tensor.ofList d.upper)
    let (l, u) ← chain.boundsToInternal (lower, upper)
    return (← StoreM.entries l, ← StoreM.entries u)

def constant (c : Communicator α) (layout : Layout) (xs : List α) :
    FormulationM α (DistributedVector α) := do
  let view ← onStore (StoreM.alloc (Tensor.ofList xs))
  let v ← ofExcept .vector (DistributedVector.ofView layout view (some c))
  modify fun s => { s with store := s.store.freeze view }
  return v

structure Survey (α : Type) where
  size : Int
  layout : Layout
  variableData : Declared α
  constraintCount : Nat
  constraintData : Declared α

def survey (p : Problem α) (o : Options α) (c : Communicator α) : FormulationM α (Survey α) := do
  let (n, m) ← askSizes p
  let layout ← askLayout p n c
  let variableData ← askVariables p n (← arrayLength layout.localSize)
  let m ← arrayLength m
  let constraintData ← askConstraints p m
  checkVariables o layout variableData
  checkConstraints o constraintData
  return ⟨n, layout, variableData, m, constraintData⟩

def choosePolicy (requested : FixedPolicy) (count : Int) (distributed canRemove : Bool) :
    FormulationM α FixedPolicy := do
  let policy := policyFor requested count distributed canRemove
  if policy ≠ requested then emit (.removalUnsupported count distributed)
  return policy

def partConstraints (o : Options α) (d : Declared α) : FormulationM α (ConstraintSplit α) :=
  match ConstraintSplit.ofBounds? o.infinity d.lower d.upper d.types with
  | some split => return split
  | none => throw .splitLengths

structure BoundVectors (α : Type) where
  lower : DistributedVector α
  upper : DistributedVector α
  lowerIndicator : DistributedVector α
  upperIndicator : DistributedVector α

def boundVectors (c : Communicator α) (layout : Layout) (lower upper : List α)
    (classes : BoundClasses α) : FormulationM α (BoundVectors α) :=
  return ⟨← constant c layout lower, ← constant c layout upper, ← constant c layout classes.lower,
    ← constant c layout classes.upper⟩

structure BoundCounts where
  lower : Int
  upper : Int
  both : Int

def sumCounts (c : Communicator α) (classes : BoundClasses α) : FormulationM α BoundCounts :=
  return ⟨← sumOverRanks c classes.lowerCount, ← sumOverRanks c classes.upperCount,
    ← sumOverRanks c classes.bothCount⟩

def assemble (o : Options α) (c : Communicator α) (v : Survey α) (policy : FixedPolicy)
    (fixedCount : Int) (treated : Treatment α) : FormulationM α (Core α) := do
  let (lower, upper) ← internalBounds treated.chain v.variableData
  let classes := classifyBounds o.infinity lower upper
  let split ← partConstraints o v.constraintData
  let inequalities := classifyBounds o.infinity split.lower split.upper
  let bounds ← boundVectors c treated.layout lower upper classes
  let rhs ← constant c (Layout.ofSize split.equalities.length) split.rhs
  let slacks ← boundVectors c (Layout.ofSize split.inequalities.length) split.lower split.upper
    inequalities
  let counts ← sumCounts c classes
  return {
    userSize := v.size
    size := treated.layout.globalSize
    constraintCount := v.constraintCount
    userLayout := v.layout
    layout := treated.layout
    lower := bounds.lower
    upper := bounds.upper
    lowerIndicator := bounds.lowerIndicator
    upperIndicator := bounds.upperIndicator
    types := treated.types
    split := split
    rhs := rhs
    inequalityLower := slacks.lower
    inequalityUpper := slacks.upper
    inequalityLowerIndicator := slacks.lowerIndicator
    inequalityUpperIndicator := slacks.upperIndicator
    lowerCountLocal := classes.lowerCount
    lowerCount := counts.lower
    upperCountLocal := classes.upperCount
    upperCount := counts.upper
    bothCount := counts.both
    inequalityLowerCount := inequalities.lowerCount
    inequalityUpperCount := inequalities.upperCount
    inequalityBothCount := inequalities.bothCount
    policy := policy
    fixedCount := fixedCount
    chain := treated.chain }

def build (p : Problem α) (o : Options α) (c : Communicator α) (canRemove : Bool) :
    FormulationM α (Core α) := do
  let v ← survey p o c
  let mask := fixedVariables o v.variableData
  let fixedCount ← sumOverRanks c (mask.count true)
  let policy ← choosePolicy o.policy fixedCount v.layout.isDistributed canRemove
  let treated ← treat policy o v.layout v.variableData mask fixedCount
  assemble o c v policy fixedCount treated

end Core
end NonlinearProgram
