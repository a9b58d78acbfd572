import NonlinearProgram.Matrix.Coordinate

-- Where the columns of every row ascend, triplets keep their order. Otherwise every row is sorted
-- by its columns: a short row without exchanging triplets at one place, a long one after it has
-- been cut around pivots into short pieces, which may exchange them. Where pivots cut a row too
-- unevenly, a heap takes their place.

namespace NonlinearProgram.RowOrder

variable {α : Type}

def pieceLength : Nat := 16

def columnAt (row : Array (Triplet α)) (i : Nat) : Int := row[i]?.elim 0 Triplet.column

def middle (row : Array (Triplet α)) (x y z : Nat) : Nat :=
  let below (i j : Nat) : Bool := columnAt row i < columnAt row j
  if below x y then
    if below y z then y else if below x z then z else x
  else if below x z then x
  else if below y z then z
  else y

def skipBelow (row : Array (Triplet α)) (pivot : Int) (i : Nat) : Nat :=
  if i < row.size ∧ columnAt row i < pivot then skipBelow row pivot (i + 1) else i
termination_by row.size - i

def skipAbove (row : Array (Triplet α)) (pivot : Int) : Nat → Nat
  | 0 => 0
  | j + 1 => if pivot < columnAt row (j + 1) then skipAbove row pivot j else j + 1

-- The positions from `i` on, before `j`, cut in two: no column of the first part lies above the
-- pivot, and none of the second part below it. The second part begins at the position returned.
def cut (pivot : Int) : Nat → Array (Triplet α) → Nat → Nat → Array (Triplet α) × Nat
  | 0, row, i, _ => (row, i)
  | fuel + 1, row, i, j =>
    let i := skipBelow row pivot i
    let j := skipAbove row pivot (j - 1)
    if i < j then cut pivot fuel (row.swapIfInBounds i j) (i + 1) j else (row, i)

-- The entry at a hole of the leading `size` entries sinks below the children of the hole, always in
-- exchange for the greater one and for the right one of equals. The hole it ends in is returned.
def sink (size : Nat) : Nat → Array (Triplet α) → Nat → Array (Triplet α) × Nat
  | 0, heap, hole => (heap, hole)
  | fuel + 1, heap, hole =>
    let left := 2 * hole + 1
    let right := 2 * hole + 2
    if left < size then
      let child :=
        if right < size ∧ ¬ columnAt heap right < columnAt heap left then right else left
      sink size fuel (heap.swapIfInBounds hole child) child
    else (heap, hole)

def rise (top : Nat) : Nat → Array (Triplet α) → Nat → Array (Triplet α)
  | 0, heap, _ => heap
  | fuel + 1, heap, hole =>
    let parent := (hole - 1) / 2
    if top < hole ∧ columnAt heap parent < columnAt heap hole then
      rise top fuel (heap.swapIfInBounds hole parent) parent
    else heap

-- The part of the leading `size` entries below a position made a heap again, where only the entry
-- at the position itself may be out of place.
def settle (size : Nat) (heap : Array (Triplet α)) (top : Nat) : Array (Triplet α) :=
  let (heap, hole) := sink size size heap top
  rise top size heap hole

def heapSorted (piece : Array (Triplet α)) : Array (Triplet α) :=
  let heap := (List.range (piece.size / 2)).reverse.foldl (settle piece.size) piece
  (List.range piece.size).reverse.foldl
    (fun heap last => settle last (heap.swapIfInBounds 0 last) 0) heap

-- The positions from `first` on, before `last`, cut into pieces, at most `depth` times one within
-- another. The pivot is a median of three and moves to the front. Pieces that are long even then
-- are sorted as heaps.
def cutToPieces : Nat → Nat → Nat → Array (Triplet α) → Array (Triplet α)
  | 0, first, last, row =>
    if last - first ≤ pieceLength then row
    else row.extract 0 first ++ heapSorted (row.extract first last) ++ row.extract last row.size
  | depth + 1, first, last, row =>
    if last - first ≤ pieceLength then row
    else
      let median := middle row (first + 1) (first + (last - first) / 2) (last - 1)
      let row := row.swapIfInBounds first median
      let (row, between) := cut (columnAt row first) (last - first) row (first + 1) last
      cutToPieces depth first between (cutToPieces depth between last row)

def sorted (row : List (Triplet α)) : List (Triplet α) :=
  let pieces := cutToPieces (2 * Nat.log2 row.length) 0 row.length row.toArray
  pieces.toList.mergeSort fun s t => s.column ≤ t.column

def isSorted (row : List (Triplet α)) : Bool :=
  (row.zip row.tail).all fun (s, t) => s.column ≤ t.column

def rowsOf (triplets : List (Triplet α)) : List (List (Triplet α)) :=
  (triplets.map Triplet.row).eraseDups.map fun i => triplets.filter (·.row == i)

def arranged (triplets : List (Triplet α)) : List (Triplet α) :=
  let rows := rowsOf triplets
  if rows.all isSorted then triplets else rows.flatMap sorted

end NonlinearProgram.RowOrder
