import NonlinearProgram.Formulation.Core

-- A finalization replaces what an earlier one left, part by part. Malformed data take the core away
-- and leave the other parts; a fault of the problem leaves the formulation as it was.

namespace NonlinearProgram

open FormulationM

inductive KindError where
  | needsDense (name : String)
  | needsBlocks (name : String)
  | offersNothing (name : String)
deriving DecidableEq, Repr

def KindError.message : KindError → String
  | .needsDense name =>
    s!"{FormulationKind.dense.text} requires a DenseConstraintsInterface, got {name}"
  | .needsBlocks name => s!"{FormulationKind.mixed.text} requires an MDSInterface, got {name}"
  | .offersNothing name =>
    s!"No formulation for interface {name}; implement DenseConstraintsInterface or MDSInterface"

namespace Formulation

variable {α : Type}

def kindFor (p : Problem α) : Except KindError FormulationKind :=
  if p.offersBlocks then .ok .mixed
  else if p.offersDense then .ok .dense
  else .error (.offersNothing p.name)

def checkKind (p : Problem α) : FormulationKind → Except KindError FormulationKind
  | .dense => if p.offersDense then .ok .dense else .error (.needsDense p.name)
  | .mixed => if p.offersBlocks then .ok .mixed else .error (.needsBlocks p.name)

def create (p : Problem α) (kind : Option FormulationKind) (o : Options α) (c : Communicator α) :
    Except KindError (Formulation α) := do
  let kind ← kind.elim (kindFor p) (checkKind p)
  return { kind := kind, options := o, communicator := c }

-- May a formulation of this kind eliminate variables? Columns of sparse blocks keep their numbers.
def canRemove : FormulationKind → Bool
  | .dense => true
  | .mixed => false

def text (f : Formulation α) : String :=
  match f.core with
  | none => s!"<{f.kind.text} (not finalized)>"
  | some c => s!"<{f.kind.text} n={c.size} m_eq={c.equalityCount} m_ineq={c.inequalityCount}>"

variable [Scalar α]

def isNegative (v : RawValue α) : FormulationM α Bool := ofExcept .numeric (v.isBelow 0)

def askBlockSizes (p : Problem α) (c : Core α) : FormulationM α (BlockSizes α) := do
  if c.layout.isDistributed then reject .distributedBlocks
  let b ← ask .blockSizes p.blockSizes
  if ← ofExcept .numeric (RawValue.anyNegative [b.sparse, b.dense]) then
    reject (.negativeGroups b.sparse b.dense)
  unless (← ofExcept .numeric (b.sparse.plus b.dense)).isNumber c.size do
    reject (.groupSizes b.sparse b.dense c.size)
  if ← isNegative b.equalityCount then reject (.negativeCount "nnz_sparse_jaceq" b.equalityCount)
  if ← isNegative b.inequalityCount then
    reject (.negativeCount "nnz_sparse_jacineq" b.inequalityCount)
  if ← isNegative b.hessianCount then
    reject (.negativeCount "nnz_sparse_hess_lagr_ss" b.hessianCount)
  unless b.couplingCount.isNumber 0 do reject (.coupling b.couplingCount)
  return b

def allocateDerivatives (c : Core α) : FormulationKind → FormulationM α Unit
  | .dense => do
    let n := c.userLayout.localSize
    let rows ← onStore (StoreM.zeros [c.equalityCount, n])
    setFormulation ({ · with equalityScratch := some rows })
    let rows ← onStore (StoreM.zeros [c.inequalityCount, n])
    setFormulation ({ · with inequalityScratch := some rows })
  | .mixed => do
    let multipliers ← onStore (StoreM.zeros [c.constraintCount])
    setFormulation ({ · with multiplierScratch := some multipliers })

-- New scratch arrays for a core. Those that come after a failed one stay as they were.
def allocate (c : Core α) : FormulationM α Unit := do
  let n := c.userLayout.localSize
  let point ← onStore (StoreM.zeros [n])
  setFormulation ({ · with pointScratch := some point })
  let gradient ← onStore (StoreM.zeros [n])
  setFormulation ({ · with gradientScratch := some gradient })
  allocateDerivatives c (← getFormulation).kind

def derive (p : Problem α) : FormulationM α (Core α × Option (BlockSizes α)) := do
  let f ← getFormulation
  let c ← Core.build p f.options f.communicator (canRemove f.kind)
  match f.kind with
  | .dense => return (c, none)
  | .mixed => return (c, some (← askBlockSizes p c))

-- Asks the problem for everything anew. The answer is no if its data are malformed.
def finalize (p : Problem α) : FormulationM α Bool := do
  match ← attempt (derive p) with
  | .error (.malformed m) =>
    emit (.rejected m)
    setFormulation ({ · with core := none })
    return false
  | .error e => throw e
  | .ok (c, blocks) =>
    setFormulation ({ · with core := some c, blocks := blocks })
    allocate c
    emit (.finalized (← getFormulation).text)
    return true

def clone (p : Problem α) : FormulationM α (Formulation α) := do
  let f ← getFormulation
  let fresh : Formulation α :=
    { kind := f.kind, options := f.options, communicator := f.communicator }
  if f.core.isNone then return fresh
  modify fun s => { s with formulation := fresh }
  let outcome ← attempt (finalize p)
  let copy ← getFormulation
  modify fun s => { s with formulation := f }
  match outcome with
  | .error e => throw e
  | .ok false => throw .cloneUnfinalized
  | .ok true => return copy

end Formulation
end NonlinearProgram
