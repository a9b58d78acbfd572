import NonlinearProgram.Layout.Description
import NonlinearProgram.Matrix.Dense

-- A flag counts as one row or as none, and is shown as a flag. A row that is appended to a flag
-- goes to every row there is room for, or to no row at all. A number with a fraction makes no rows
-- to look at.

namespace NonlinearProgram

structure RowStack (α : Type) where
  matrix : DenseMatrix α
  count : RawValue α := .integer matrix.rows

namespace RowStack

variable {α : Type} [Scalar α]

def create (rows columns : RawValue α) (layout : Option Layout) (capacity : RawValue α) :
    Except MatrixError (RowStack α) := do
  let orThrow {β : Type} (r : Except ValueFault β) := r.mapError MatrixError.storage
  if ← orThrow (RawValue.anyNegative [rows, columns]) then
    throw (.negativeDimensions rows.plain columns.plain)
  let layout ← layout.elim ((Layout.serialOf columns).mapError .layout) .ok
  unless columns.isNumber layout.globalSize do
    throw (.columnLayout layout.globalSize columns.plain)
  let total ← if ← orThrow ((RawValue.integer 0).isLess capacity) then do
      if ← orThrow (capacity.isLess rows) then
        throw (.capacityTooSmall capacity.plain rows.plain)
      pure capacity
    else pure rows
  let total ← orThrow total.exactInteger
  if let some fault := allocationFault? Tensor.scalarWidth [total, layout.localSize] then
    throw (.storage fault)
  let active := rows.wholePart
  return ⟨⟨layout, active, total.toNat, Rows.zeros active layout.localSize.toNat⟩, rows⟩

def active (a : RowStack α) : Except ValueFault (Rows α) :=
  if a.count.isReal then .error .wrongKind else .ok a.matrix.active

def setRowCount (a : RowStack α) (count : RawValue α) : Except MatrixError (RowStack α) := do
  if count.isUndefined || (← (count.isBelow 0).mapError .storage) ||
      (← ((RawValue.integer a.matrix.capacity).isLess count).mapError .storage) then
    throw (.rowCount count.plain a.matrix.capacity)
  else return ⟨a.matrix.withRowCount count.wholePart, count⟩

def withEveryRow (a : DenseMatrix α) (row : List α) : DenseMatrix α :=
  { a with storage := List.replicate a.capacity row }

def appendRow (a : RowStack α) (row : List α) : Except MatrixError (RowStack α) := do
  let m := a.matrix
  match a.count with
  | .flag b =>
    if m.rows < m.capacity then
      let row ← m.rowOf row
      let grown := m.withRowCount (m.rows + 1)
      return { matrix := if b then withEveryRow grown row else grown }
    else throw (.full m.capacity)
  | .real _ =>
    if ← (a.count.isBelow m.capacity).mapError .storage then throw (.storage .indexOutside)
    else throw (.full m.capacity)
  | _ => return { matrix := ← m.appendRow row }

def fill (a : RowStack α) (x : α) : Except MatrixError (RowStack α) := do
  let _ ← a.active.mapError .storage
  return { a with matrix := a.matrix.fill x }

def text (a : RowStack α) : String := a.matrix.textWith a.count.plain

end RowStack
end NonlinearProgram
