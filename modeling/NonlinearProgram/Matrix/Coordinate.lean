import NonlinearProgram.Matrix.Basic
import NonlinearProgram.RawValue.Comparison

-- A number of columns that is given with a fraction is kept as it is. Triplets can be written to
-- such a block, but it has no entries.

namespace NonlinearProgram

structure Triplet (α : Type) where
  row : Int
  column : Int
  value : α

structure CoordinateBlock (α : Type) where
  rows : Nat
  columns : Nat
  triplets : List (Triplet α)
  columnsGiven : RawValue α := .integer columns

namespace CoordinateBlock

variable {α : Type} [Scalar α]

def indexWidth : Nat := 4

def wideIndexWidth : Nat := 8

def create (rows columns count : RawValue α) : Except MatrixError (CoordinateBlock α) := do
  if ← (RawValue.anyNegative [rows, columns, count]).mapError .storage then
    throw (.sparseBlock rows.plain columns.plain count.plain)
  let size ← count.exactInteger.mapError .storage
  match allocationFault? indexWidth [size] <|> allocationFault? Tensor.scalarWidth [size] with
  | some fault => throw (.storage fault)
  | none => return {
      rows := rows.wholePart
      columns := columns.wholePart
      triplets := List.replicate size.toNat ⟨0, 0, 0⟩
      columnsGiven := columns }

def count (b : CoordinateBlock α) : Nat := b.triplets.length

-- Leading triplets changed by a list; what is beyond the last triplet is dropped.
def overwrite {β : Type} (set : Triplet α → β → Triplet α) (xs : List β) :
    ExceptT MatrixError (StateM (CoordinateBlock α)) Unit :=
  modify fun b => { b with
    triplets := List.zipWith set b.triplets xs ++ b.triplets.drop xs.length }

def beforeFault {β : Type} : List (Except ValueFault β) → List β × Option ValueFault
  | [] => ([], none)
  | .ok x :: rest =>
    let (xs, fault) := beforeFault rest
    (x :: xs, fault)
  | .error fault :: _ => ([], some fault)

def index32 (v : RawValue α) : Except ValueFault Int := do
  let n ← v.toInteger
  if isInt32 n then return n else throw .integerRange

-- Leading triplets changed by indices, one after the other up to the first that cannot be kept. The
-- characters of a text are indices as well.
def overwriteIndices (set : Triplet α → Int → Triplet α) (given : RawValue α) :
    ExceptT MatrixError (StateM (CoordinateBlock α)) Unit := do
  let items ← match given with
    | .list items | .tuple items => pure items
    | .text s => pure (s.toList.map fun c => .text c.toString)
    | _ => throw (.storage .wrongKind)
  let (indices, fault) := beforeFault ((items.take (← get).count).map index32)
  overwrite set indices
  if let some fault := fault then throw (.storage fault)

-- The leading row indices, column indices and values replaced, in this order. Of values with a
-- fault among them none is written.
def overwriteTriplets (rows columns : Except ValueFault (RawValue α))
    (values : Except ValueFault (List α)) :
    ExceptT MatrixError (StateM (CoordinateBlock α)) Unit := do
  let orThrow {β : Type} (r : Except ValueFault β) :
      ExceptT MatrixError (StateM (CoordinateBlock α)) β :=
    liftM (r.mapError MatrixError.storage)
  overwriteIndices (fun t i => { t with row := i }) (← orThrow rows)
  overwriteIndices (fun t j => { t with column := j }) (← orThrow columns)
  overwrite (fun t x => { t with value := x }) (← orThrow values)

def Inside (b : CoordinateBlock α) (t : Triplet α) : Bool :=
  0 ≤ t.row && t.row < b.rows && 0 ≤ t.column && t.column < b.columns

def isValid (b : CoordinateBlock α) : Bool := b.triplets.all b.Inside

def sumAt (b : CoordinateBlock α) (i j : Nat) : α :=
  ((b.triplets.filter fun t => t.row == (i : Int) && t.column == (j : Int)).map
    Triplet.value).foldl (· + ·) 0

def toRows (b : CoordinateBlock α) : Except MatrixError (Rows α) :=
  if b.isValid then .ok (Rows.tabulate b.rows b.columns b.sumAt)
  else .error (.storage .shapeMismatch)

-- Why a block has no entries to compute: columns with a fraction, dimensions beyond 64 bits, or a
-- triplet outside.
def entryFault? (b : CoordinateBlock α) : Option ValueFault :=
  if b.columnsGiven.isReal then some .wrongKind
  else if !(isInt64 b.rows && isInt64 b.columns) then some .integerRange
  else if !b.isValid then some .shapeMismatch
  else none

def denseFault? (b : CoordinateBlock α) : Option ValueFault :=
  b.entryFault? <|> allocationFault? Tensor.scalarWidth [b.rows, b.columns]

def toArray (b : CoordinateBlock α) : Except MatrixError (Rows α) :=
  match b.denseFault? with
  | some fault => .error (.storage fault)
  | none => b.toRows

end CoordinateBlock
end NonlinearProgram
