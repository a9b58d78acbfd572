import NonlinearProgram.Formulation.Evaluation

-- A dense Jacobian over all of the user's variables is filled by the problem itself; where
-- variables are eliminated, the problem fills scratch rows, of which the columns of the other
-- variables are copied. Matrices in blocks are always filled by the problem, whose variables are
-- never eliminated.

namespace NonlinearProgram

open FormulationM

namespace Formulation

variable {α : Type} [Scalar α]

def blockSizes : FormulationM α (BlockSizes α) := do
  let f ← getFormulation
  match f.core, f.blocks with
  | some _, some b => return b
  | _, _ => throw (.unfinalized f.kind)

def fillMatrix (p : Problem α) (op : Operation) (c : Core α) (indices : List Nat) (x : Argument α)
    (isNew : RawValue α) (k : Nat) (a : DenseMatrix α) : FormulationM α Bool := do
  let point ← pointToUser x
  let e := .denseJacobian (← pointAt point isNew) c.constraintCount indices a.active
  let (r, w) ← invoke p e (slots point none none) { dense := a.active }
  modify (·.setMatrix k (.dense (a.withActive w.dense)))
  return (← judge op r).isSome

-- The problem writes scratch rows; on success their internal columns are copied to matrix `k`.
def fillThroughScratch (p : Problem α) (op : Operation) (c : Core α) (indices : List Nat)
    (scratch : View) (x : Argument α) (isNew : RawValue α) (k : Nat) (a : DenseMatrix α) :
    FormulationM α Bool := do
  let point ← pointToUser x
  let stale := Rows.ofEntries indices.length c.userLayout.localSize.toNat
    (← onStore (StoreM.entries scratch))
  let e := .denseJacobian (← pointAt point isNew) c.constraintCount indices stale
  let (r, w) ← invoke p e (slots point none none) { dense := stale }
  modify fun s => { s with store := s.store.setEntries scratch w.dense.flatten }
  match ← judge op r with
  | none => return false
  | some _ =>
    let entries ← onStore do StoreM.entries (← c.chain.jacobianToInternal scratch)
    modify (·.setMatrix k (.dense (a.withActive (Rows.ofEntries a.rows a.localColumns entries))))
    return true

-- Fills a dense matrix with the Jacobian of a group of constraints. A matrix of another kind or
-- shape is an internal error of the solver.
def denseJacobian (p : Problem α) (group : ConstraintGroup) (x : Argument α) (isNew : RawValue α)
    (out : Argument α) : FormulationM α Bool := do
  let c ← getCore
  let scratch ← getPart (·.rowScratch group)
  let op := Operation.jacobian group
  let indices := c.indices group
  let s ← get
  match out, s.matrix? out with
  | .matrix k, some (.dense a) =>
    if a.rows ≠ indices.length ∨ (a.localColumns : Int) ≠ c.localSize then
      emit (.wrongShape op a.rows a.localColumns indices.length c.localSize)
      return false
    if c.chain.internalSize.isSame c.chain.userSize then
      timed op (fillMatrix p op c indices x isNew k a)
    else timed op (fillThroughScratch p op c indices scratch x isNew k a)
  | _, _ =>
    emit (.wrongMatrix op (s.typeName out))
    return false

def blockJacobian (p : Problem α) (group : ConstraintGroup) (x : Argument α) (isNew : RawValue α)
    (out : Argument α) : FormulationM α Bool := do
  let c ← getCore
  let op := Operation.jacobian group
  let indices := c.indices group
  let s ← get
  match out, s.matrix? out with
  | .matrix k, some (.mixed a) =>
    let b ← blockSizes
    unless a.rows = indices.length && a.sparse.columnsGiven.isSame b.sparse &&
        b.dense.isNumber a.denseColumns do
      throw (.breach (.jacobianShape op a.rows a.columnsGiven.plain a.sparse.columnsGiven.plain
        indices.length b.sparse.plain b.dense.plain))
    timed op do
      let point ← pointToUser x
      let contents : BlockContents α :=
        ⟨a.sparse.columnsGiven, a.denseColumns, a.sparse.triplets, a.dense⟩
      let e := .blockJacobian (← pointAt point isNew) c.constraintCount indices contents
      let (r, w) ← invoke p e (slots point none none)
        { triplets := a.sparse.triplets, dense := a.dense }
      modify (·.setMatrix k (.mixed
        { a with sparse := { a.sparse with triplets := w.triplets }, dense := w.dense }))
      return (← judge op r).isSome
  | _, _ => throw (.breach (.jacobianKind op (s.typeName out)))

def jacobian (p : Problem α) (group : ConstraintGroup) (x : Argument α) (isNew : RawValue α)
    (out : Argument α) : FormulationM α Bool := do
  match (← getFormulation).kind with
  | .dense => denseJacobian p group x isNew out
  | .mixed => blockJacobian p group x isNew out

-- Multipliers of equalities followed by those of inequalities, brought into the user's order.
def scatterMultipliers (split : ConstraintSplit α) (scratch multipliers : View) :
    FormulationM α Unit := do
  let some length := multipliers.length? | throw (.numeric .indexOutside)
  onStore do
    let ys ← StoreM.read multipliers
    StoreM.assignAt scratch split.equalities (ys.slices 0 split.equalities.length)
    StoreM.assignAt scratch split.inequalities (ys.slices split.equalities.length length)

-- Fills a block-diagonal matrix with the Hessian of the Lagrangian. The multipliers are those of
-- the equalities followed by those of the inequalities. A problem that claims entries in the block
-- that couples both groups of variables breaks the contract.
def hessian (p : Problem α) (x : Argument α) (isNew : RawValue α) (factor : α)
    (multipliers : Argument α) (newMultipliers : RawValue α) (out : Argument α) :
    FormulationM α Bool := do
  if (← getFormulation).kind = .dense then throw (.breach .noHessian)
  let op := Operation.hessian
  let s ← get
  match out, s.matrix? out with
  | .matrix k, some (.sym a) =>
    let b ← blockSizes
    unless a.sparse.columnsGiven.isSame b.sparse && b.dense.isNumber a.denseSize do
      throw (.breach (.hessianShape a.sparse.columnsGiven.plain a.denseSize b.sparse.plain
        b.dense.plain))
    let ys ← localPart multipliers
    let c ← getCore
    let m := c.constraintCount
    if ys.size ≠ m then throw (.breach (.multipliersSize ys.size m))
    let scratch ← getPart Formulation.multiplierScratch
    scatterMultipliers c.split scratch ys
    let (answer, coupling) ← timed op do
      let point ← pointToUser x
      let contents : BlockContents α :=
        ⟨a.sparse.columnsGiven, a.denseSize, a.sparse.triplets, a.dense⟩
      let e := .hessian (← pointAt point isNew) m factor (← onStore (StoreM.entries scratch))
        newMultipliers contents
      let (r, w) ← invoke p e (slots point none (some scratch))
        { triplets := a.sparse.triplets, dense := a.dense }
      modify (·.setMatrix k (.sym
        { a with sparse := { a.sparse with triplets := w.triplets }, dense := w.dense }))
      return (← judge op r, w.coupling)
    unless coupling.isNumber 0 do throw (.breach (.coupling coupling.plain))
    return answer.isSome
  | _, _ => throw (.breach (.hessianKind (s.typeName out)))

end Formulation
end NonlinearProgram
