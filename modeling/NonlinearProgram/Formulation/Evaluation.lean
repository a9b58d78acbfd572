import NonlinearProgram.Formulation.Finalization

-- A solver works in internal coordinates, and the problem in the user's. Arguments of a wrong size
-- break the contract and never reach the problem. A problem that refuses, or that raises a fault
-- one can back off from, makes an evaluation fail with a warning; every other fault ends the
-- request.

namespace NonlinearProgram

open FormulationM

namespace Formulation

variable {α : Type} [Scalar α]

-- The point of an internal argument in the user's coordinates. It is the argument itself unless the
-- transformations made a new array, which is copied to the scratch point.
def pointToUser (x : Argument α) : FormulationM α View := do
  let v ← localPart x
  let c ← getCore
  if (v.size : Int) ≠ c.localSize then throw (.breach (.pointSize v.size c.localSize))
  let u ← onStore (c.chain.pointToUser v)
  if u = v then return u
  let scratch ← getPart Formulation.pointScratch
  onStore do StoreM.assign scratch (← StoreM.read u)
  return scratch

def pointAt (v : View) (isNew : RawValue α) : FormulationM α (Point α) := do
  return ⟨(← getCore).userSize, ← onStore (StoreM.read v), isNew⟩

def slots (point : View) (output multipliers : Option View) : Slot → Option View
  | .point => some point
  | .output => output
  | .multipliers => multipliers

-- Hands an evaluation to the problem. Whatever it wrote stays written.
def invoke (p : Problem α) (e : Evaluation α) (arrays : Slot → Option View) (w : Workspace α) :
    FormulationM α (Except Fault (RawValue α) × Workspace α) := do
  record (.evaluation e)
  let (r, a) := (p.evaluate e).run arrays ⟨(← get).store, w⟩
  modify fun s => { s with store := a.store }
  return (r, a.workspace)

-- The answer of a problem, unless it marks the point as one to back off from.
def judge (op : Operation) (r : Except Fault (RawValue α)) : FormulationM α (Option (RawValue α)) :=
  match r with
  | .error fault =>
    if fault.isRecoverable then do
      emit (.callbackRaised op.text fault)
      return none
    else throw (.raised fault)
  | .ok answer =>
    if answer.isRefusal then do
      emit (.callbackRefused op.text)
      return none
    else return some answer

def objective (p : Problem α) (x : Argument α) (isNew : RawValue α) :
    FormulationM α (Option α) := do
  let c ← getCore
  let answer ← timed .objective do
    let point ← pointToUser x
    let (r, _) ← invoke p (.objective (← pointAt point isNew)) (slots point none none) {}
    judge .objective r
  match answer with
  | none => return none
  | some a =>
    let f ← ofExcept .numeric a.toScalar
    if Scalar.isFinite f then return some (c.chain.objectiveToInternal f)
    else
      emit (.objectiveNotFinite f)
      return none

def gradient (p : Problem α) (x : Argument α) (isNew : RawValue α) (out : Argument α) :
    FormulationM α Bool := do
  let c ← getCore
  let target ← localPart out
  if (target.size : Int) ≠ c.localSize then
    throw (.breach (.gradientSize target.size c.localSize))
  timed .gradient do
    let point ← pointToUser x
    let scratch ← getPart Formulation.gradientScratch
    let stale ← onStore (StoreM.entries scratch)
    let (r, _) ← invoke p (.gradient (← pointAt point isNew) stale)
      (slots point (some scratch) none) {}
    match ← judge .gradient r with
    | none => return false
    | some _ =>
      onStore do
        let g ← c.chain.gradientToInternal scratch
        StoreM.assign target (← StoreM.read g)
      return true

def values (p : Problem α) (group : ConstraintGroup) (x : Argument α) (isNew : RawValue α)
    (out : Argument α) : FormulationM α Bool := do
  let c ← getCore
  let op := Operation.values group
  let indices := c.indices group
  let target ← localPart out
  if target.size ≠ indices.length then
    throw (.breach (.outputSize op target.size indices.length))
  timed op do
    let point ← pointToUser x
    let stale ← onStore (StoreM.read target)
    let (r, _) ← invoke p
      (.constraints (← pointAt point isNew) c.constraintCount indices stale)
      (slots point (some target) none) {}
    return (← judge op r).isSome

end Formulation
end NonlinearProgram
