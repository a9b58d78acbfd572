import NonlinearProgram.Matrix.Basic

-- The columns follow a layout, and every process stores the columns of its slice. Rows can be added
-- and dropped up to the capacity; dropped rows keep their entries, and rows that have never been
-- active are zeros.

namespace NonlinearProgram

structure DenseMatrix (α : Type) where
  layout : Layout
  rows : Nat
  capacity : Nat
  -- The rows that are active or have been so.
  storage : Rows α

namespace DenseMatrix

variable {α : Type} [Zero α]

def create (rows columns : Int) (layout : Option Layout) (capacity : Int) :
    Except MatrixError (DenseMatrix α) := do
  if rows < 0 ∨ columns < 0 then .error (.negativeDimensions (toString rows) (toString columns))
  let layout ← match layout with
    | some l => pure l
    | none => (Layout.serial columns).mapError .layout
  if layout.globalSize ≠ columns then
    .error (.columnLayout layout.globalSize (toString columns))
  if 0 < capacity ∧ capacity < rows then
    .error (.capacityTooSmall (toString capacity) (toString rows))
  let total := if 0 < capacity then capacity else rows
  if let some fault := allocationFault? Tensor.scalarWidth [total, layout.localSize] then
    .error (.storage fault)
  return ⟨layout, rows.toNat, total.toNat, Rows.zeros rows.toNat layout.localSize.toNat⟩

def columns (a : DenseMatrix α) : Int := a.layout.globalSize

def localColumns (a : DenseMatrix α) : Nat := a.layout.localSize.toNat

-- The leading rows, as many as were active when a view of them was taken.
def leading (a : DenseMatrix α) (count : Nat) : Rows α := a.storage.take count

def active (a : DenseMatrix α) : Rows α := a.leading a.rows

def withActive (a : DenseMatrix α) (rows : Rows α) : DenseMatrix α :=
  { a with storage := rows ++ a.storage.drop a.rows }

def withRowCount (a : DenseMatrix α) (count : Nat) : DenseMatrix α :=
  { a with
    rows := count
    storage := a.storage ++ Rows.zeros (count - a.storage.length) a.localColumns }

def setRowCount (a : DenseMatrix α) (rows : Int) : Except MatrixError (DenseMatrix α) :=
  if 0 ≤ rows ∧ rows ≤ a.capacity then .ok (a.withRowCount rows.toNat)
  else .error (.rowCount (toString rows) a.capacity)

-- The local entries that a row gives; a single one is repeated over all columns.
def rowOf (a : DenseMatrix α) (row : List α) : Except MatrixError (List α) :=
  match row with
  | [x] => .ok (List.replicate a.localColumns x)
  | row => if row.length = a.localColumns then .ok row else .error (.storage .shapeMismatch)

def appendRow (a : DenseMatrix α) (row : List α) : Except MatrixError (DenseMatrix α) := do
  if a.rows < a.capacity then
    let row ← a.rowOf row
    let grown := a.withRowCount (a.rows + 1)
    return { grown with storage := grown.storage.set a.rows row }
  else throw (.full a.capacity)

def fill (a : DenseMatrix α) (x : α) : DenseMatrix α :=
  a.withActive (a.active.map fun row => row.map fun _ => x)

def setToZero (a : DenseMatrix α) : DenseMatrix α := a.fill 0

def textWith (rows : String) (a : DenseMatrix α) : String :=
  s!"DenseMatrix(m={rows}, n={a.columns}, n_local={a.localColumns}, max_rows={a.capacity})"

def text (a : DenseMatrix α) : String := a.textWith (toString a.rows)

end DenseMatrix
end NonlinearProgram
