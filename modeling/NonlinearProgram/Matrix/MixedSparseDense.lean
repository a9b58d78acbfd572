import NonlinearProgram.Matrix.Coordinate

namespace NonlinearProgram

structure MixedMatrix (α : Type) where
  sparse : CoordinateBlock α
  denseColumns : Nat
  dense : Rows α

namespace MixedMatrix

variable {α : Type} [Scalar α]

def create (rows sparseColumns denseColumns count : RawValue α) :
    Except MatrixError (MixedMatrix α) := do
  if ← (denseColumns.isBelow 0).mapError .storage then throw (.denseColumns denseColumns.plain)
  let sparse ← CoordinateBlock.create rows sparseColumns count
  let rows ← rows.exactInteger.mapError .storage
  let columns ← denseColumns.exactInteger.mapError .storage
  return ⟨sparse, columns.toNat, ← Rows.allocate rows columns⟩

def rows (a : MixedMatrix α) : Nat := a.sparse.rows

def sparseColumns (a : MixedMatrix α) : Nat := a.sparse.columns

def columns (a : MixedMatrix α) : Nat := a.sparseColumns + a.denseColumns

def columnsGiven (a : MixedMatrix α) : RawValue α := a.sparse.columnsGiven.plusNat a.denseColumns

def assignDense (a : MixedMatrix α) (t : Tensor α) : Except MatrixError (MixedMatrix α) :=
  match Rows.assigned? a.rows a.denseColumns t with
  | some rows => .ok { a with dense := rows }
  | none => .error (.storage .shapeMismatch)

def toRows (a : MixedMatrix α) : Except MatrixError (Rows α) := do
  return Rows.beside (← a.sparse.toRows) a.dense

def toArray (a : MixedMatrix α) : Except MatrixError (Rows α) :=
  match a.sparse.denseFault? <|> allocationFault? Tensor.scalarWidth [a.rows, a.columns] with
  | some fault => .error (.storage fault)
  | none => a.toRows

def text (a : MixedMatrix α) : String :=
  s!"MixedSparseDenseMatrix(m={a.rows}, n_sp={a.sparse.columnsGiven.plain}, " ++
    s!"n_de={a.denseColumns}, sp_nnz={a.sparse.count})"

end MixedMatrix
end NonlinearProgram
