import NonlinearProgram.Matrix.MixedSparseDense
import NonlinearProgram.Matrix.RowStack
import NonlinearProgram.Matrix.SymBlockDiagonal

namespace NonlinearProgram

open RawValue

variable {α : Type} [Scalar α]

def sizeUnder (key : String) (v : RawValue α) : Except MatrixError (RawValue α) :=
  (v.require key).mapError .storage

def RowStack.ofValue (v : RawValue α) : Except MatrixError (RowStack α) := do
  let rows ← sizeUnder "m" v
  let columns ← sizeUnder "n" v
  let layout ← ((v.field? "layout").mapM Layout.ofValue).mapError .layout
  create rows columns layout ((v.field? "max_rows").getD (.integer (-1)))

def MixedMatrix.ofValue (v : RawValue α) : Except MatrixError (MixedMatrix α) := do
  create (← sizeUnder "rows" v) (← sizeUnder "n_sparse" v) (← sizeUnder "n_dense" v)
    (← sizeUnder "nnz" v)

def SymBlockMatrix.ofValue (v : RawValue α) : Except MatrixError (SymBlockMatrix α) := do
  create (← sizeUnder "n_sparse" v) (← sizeUnder "n_dense" v) (← sizeUnder "nnz" v)

def CoordinateBlock.overwriteFrom (v : RawValue α) (b : CoordinateBlock α) :
    Except MatrixError Unit × CoordinateBlock α :=
  (overwriteTriplets (v.require "irow") (v.require "jcol")
    ((v.tensorUnder "values").map Tensor.entries)).run b

end NonlinearProgram
