import NonlinearProgram.Layout
import NonlinearProgram.Store

-- A formulation recognises a matrix by its kind, so a matrix made for another formulation is
-- detected before any of its entries is touched.

namespace NonlinearProgram

inductive MatrixKind where
  | dense
  | mixedSparseDense
  | symBlockDiagonal
deriving DecidableEq, Repr

def MatrixKind.text : MatrixKind → String
  | .dense => "dense"
  | .mixedSparseDense => "mixed_sparse_dense"
  | .symBlockDiagonal => "sym_block_diag_mds"

-- Why there is no such matrix. Numbers that were given are kept as a message shows them.
inductive MatrixError where
  | negativeDimensions (rows columns : String)
  | columnLayout (covered : Int) (columns : String)
  | capacityTooSmall (capacity rows : String)
  | rowCount (rows : String) (capacity : Nat)
  | full (capacity : Nat)
  | sparseBlock (rows columns triplets : String)
  | denseColumns (columns : String)
  | denseBlock (size : String)
  | layout (e : LayoutError)
  | storage (fault : ValueFault)
deriving DecidableEq, Repr

def MatrixError.message? : MatrixError → Option String
  | .negativeDimensions m n => some s!"Matrix dimensions must be non-negative, got ({m}, {n})"
  | .columnLayout k n => some s!"Column layout covers {k} columns, matrix has {n}"
  | .capacityTooSmall k m => some s!"max_rows ({k}) is smaller than the row count ({m})"
  | .rowCount m k => some s!"Row count {m} outside [0, {k}]"
  | .full k => some s!"Matrix already holds its maximum of {k} rows"
  | .sparseBlock m n k => some s!"Invalid sparse block ({m}, {n}) with nnz={k}"
  | .denseColumns n => some s!"Dense column count must be non-negative, got {n}"
  | .denseBlock n => some s!"Dense block size must be non-negative, got {n}"
  | .layout e => e.message?
  | .storage _ => none

abbrev Rows (α : Type) := List (List α)

namespace Rows

variable {α : Type}

def zeros [Zero α] (rows columns : Nat) : Rows α :=
  (List.range rows).map fun _ => List.replicate columns 0

def allocate [Zero α] (rows columns : Int) : Except MatrixError (Rows α) :=
  match allocationFault? Tensor.scalarWidth [rows, columns] with
  | some fault => .error (.storage fault)
  | none => .ok (zeros rows.toNat columns.toNat)

def entry [Zero α] (a : Rows α) (i j : Nat) : α := (a[i]?.bind (·[j]?)).getD 0

def setEntry (a : Rows α) (i j : Nat) (x : α) : Rows α := a.modify i (·.set j x)

def tabulate (rows columns : Nat) (f : Nat → Nat → α) : Rows α :=
  (List.range rows).map fun i => (List.range columns).map (f i)

def ofEntries (rows columns : Nat) (xs : List α) : Rows α :=
  (List.range rows).map fun i => (xs.drop (i * columns)).take columns

def beside (a b : Rows α) : Rows α := List.zipWith (· ++ ·) a b

def assigned? (rows columns : Nat) (t : Tensor α) : Option (Rows α) :=
  (t.stretchedTo? [rows, columns]).map fun t => ofEntries rows columns t.entries

end Rows
end NonlinearProgram
