import NonlinearProgram.Matrix.RowOrder

-- Entries that couple the two groups of variables are not represented.

namespace NonlinearProgram

structure SymBlockMatrix (α : Type) where
  sparse : CoordinateBlock α
  denseSize : Nat
  dense : Rows α

namespace SymBlockMatrix

variable {α : Type} [Scalar α]

def create (sparseSize denseSize count : RawValue α) : Except MatrixError (SymBlockMatrix α) := do
  if ← (denseSize.isBelow 0).mapError .storage then throw (.denseBlock denseSize.plain)
  let sparse ← CoordinateBlock.create sparseSize sparseSize count
  let size ← denseSize.exactInteger.mapError .storage
  return ⟨sparse, size.toNat, ← Rows.allocate size size⟩

def sparseSize (a : SymBlockMatrix α) : Nat := a.sparse.columns

def size (a : SymBlockMatrix α) : Nat := a.sparseSize + a.denseSize

def sizeGiven (a : SymBlockMatrix α) : RawValue α := a.sparse.columnsGiven.plusNat a.denseSize

def assignDense (a : SymBlockMatrix α) (t : Tensor α) : Except MatrixError (SymBlockMatrix α) :=
  match Rows.assigned? a.denseSize a.denseSize t with
  | some rows => .ok { a with dense := rows }
  | none => .error (.storage .shapeMismatch)

def text (a : SymBlockMatrix α) : String :=
  s!"SymBlockDiagMDSMatrix(n_sp={a.sparse.columnsGiven.plain}, n_de={a.denseSize}, " ++
    s!"sp_nnz={a.sparse.count})"

-- An entry of the sparse block: both triangles added, the diagonal counted once. Triplets at one
-- place are added in the order in which they stand.
def sparseEntry (a : SymBlockMatrix α) (i j : Nat) : α :=
  let both := a.sparse.sumAt i j + a.sparse.sumAt j i
  if i = j then both - a.sparse.sumAt i i else both

def arranged (a : SymBlockMatrix α) : SymBlockMatrix α :=
  { a with sparse := { a.sparse with triplets := RowOrder.arranged a.sparse.triplets } }

def sparseRows (a : SymBlockMatrix α) : Except MatrixError (Rows α) :=
  if a.sparse.isValid then .ok (Rows.tabulate a.sparseSize a.sparseSize a.arranged.sparseEntry)
  else .error (.storage .shapeMismatch)

def sparseCount (a : SymBlockMatrix α) : Except MatrixError Nat := do
  return (← a.sparseRows).flatten.countP fun x => !(x == 0)

def denseEntry (a : SymBlockMatrix α) (i j : Nat) : α :=
  Scalar.half * (a.dense.entry i j + a.dense.entry j i)

def entry (a : SymBlockMatrix α) (i j : Nat) : α :=
  let k := a.sparseSize
  if i < k ∧ j < k then a.sparseEntry i j
  else if k ≤ i ∧ k ≤ j then a.denseEntry (i - k) (j - k)
  else 0

def toRows (a : SymBlockMatrix α) : Except MatrixError (Rows α) :=
  if a.sparse.isValid then .ok (Rows.tabulate a.size a.size a.arranged.entry)
  else .error (.storage .shapeMismatch)

def sparseFault? (a : SymBlockMatrix α) : Option ValueFault :=
  a.sparse.entryFault? <|>
    allocationFault? CoordinateBlock.wideIndexWidth [a.sparseSize + 1] <|>
    allocationFault? Tensor.scalarWidth [a.sparseSize, a.sparseSize]

def sparseArray (a : SymBlockMatrix α) : Except MatrixError (Rows α) :=
  match a.sparseFault? with
  | some fault => .error (.storage fault)
  | none => a.sparseRows

def toArray (a : SymBlockMatrix α) : Except MatrixError (Rows α) :=
  if a.sparse.columnsGiven.isReal then .error (.storage .wrongKind)
  else match allocationFault? Tensor.scalarWidth [a.size, a.size] <|> a.sparseFault? with
  | some fault => .error (.storage fault)
  | none => a.toRows

end SymBlockMatrix
end NonlinearProgram
