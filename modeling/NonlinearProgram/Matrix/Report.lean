import NonlinearProgram.Matrix.MixedSparseDense
import NonlinearProgram.Matrix.RowStack
import NonlinearProgram.Matrix.SymBlockDiagonal

namespace NonlinearProgram

open RawValue

variable {α : Type} [Scalar α]

def RowStack.toFields (a : RowStack α) : Except ValueFault (List (String × RawValue α)) := do
  let rows ← a.active
  let columns : RawValue α := .integer a.matrix.columns
  return [("m", a.count), ("n", columns), ("n_local", .integer a.matrix.localColumns),
    ("max_rows", .integer a.matrix.capacity), ("shape", .list [a.count, columns]),
    ("data", ofRows rows), ("repr", .text a.text)]

def CoordinateBlock.toFields (b : CoordinateBlock α) (dense : Rows α) :
    List (String × RawValue α) := [
  ("irow", ofIntegers (b.triplets.map Triplet.row)),
  ("jcol", ofIntegers (b.triplets.map Triplet.column)),
  ("values", ofScalars (b.triplets.map Triplet.value)), ("dense", ofRows dense)]

def MixedMatrix.toFields (a : MixedMatrix α) : List (String × RawValue α) :=
  a.sparse.toFields a.dense

def SymBlockMatrix.toFields (a : SymBlockMatrix α) : List (String × RawValue α) :=
  a.sparse.toFields a.dense

def blockFields (kind : MatrixKind) (rows columns : RawValue α) (denseColumns : Nat)
    (text : String) (b : CoordinateBlock α) (dense : Rows α) : List (String × RawValue α) := [
  ("kind", .text kind.text), ("shape", .list [rows, columns]), ("n", columns.inDigits),
  ("n_sp", b.columnsGiven.inDigits), ("n_de", .integer denseColumns),
  ("sp_nnz", .integer b.count), ("repr", .text text), ("new", .record (b.toFields dense))]

def MixedMatrix.description (a : MixedMatrix α) : List (String × RawValue α) :=
  ("m", .integer a.rows) ::
    blockFields .mixedSparseDense (.integer a.rows) a.columnsGiven a.denseColumns a.text a.sparse
      a.dense

def SymBlockMatrix.description (a : SymBlockMatrix α) : List (String × RawValue α) :=
  blockFields .symBlockDiagonal a.sizeGiven a.sizeGiven a.denseSize a.text a.sparse a.dense

def sparseFields (rows columns count : Nat) (entries : Rows α) : List (String × RawValue α) := [
  ("shape", ofNats [rows, columns]), ("nnz", .integer count), ("array", ofRows entries)]

def MixedMatrix.sparseFields (a : MixedMatrix α) :
    Except MatrixError (List (String × RawValue α)) := do
  return NonlinearProgram.sparseFields a.rows a.sparseColumns a.sparse.count (← a.sparse.toArray)

def SymBlockMatrix.sparseFields (a : SymBlockMatrix α) :
    Except MatrixError (List (String × RawValue α)) := do
  let rows ← a.sparseArray
  return NonlinearProgram.sparseFields a.sparseSize a.sparseSize (← a.sparseCount) rows

end NonlinearProgram
