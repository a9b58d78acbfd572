import NonlinearProgram.ValueFault
import NonlinearProgram.Word

-- `boundaries` holds the first index of every slice and, last, the size of the space; rank `r` owns
-- the indices from `boundaries[r]` up to `boundaries[r + 1]`. Boundaries are 64-bit integers, and
-- their differences are taken modulo `2 ^ 64`.

namespace NonlinearProgram

structure Layout where
  boundaries : List Int
  rank : Nat
deriving DecidableEq, Repr

inductive LayoutError where
  | value (fault : ValueFault)
  | tooFewBoundaries
  | firstNotZero (boundary : Int)
  | decreasing
  | notIncreasing
  | rankOutside (rank : String) (ranks : Nat)
  | negativeSize (size : String)
  | reducedDistributed
  | maskLength (length : Nat) (size : Int)
deriving DecidableEq, Repr

def LayoutError.message? : LayoutError → Option String
  | .value _ => none
  | .tooFewBoundaries => some "Layout needs at least two boundaries (one rank)"
  | .firstNotZero b => some s!"First layout boundary must be 0, got {b}"
  | .decreasing => some "Layout boundaries must be non-decreasing"
  | .notIncreasing => some "Layout boundaries must be strictly increasing"
  | .rankOutside rank ranks => some s!"Rank {rank} outside layout with {ranks} ranks"
  | .negativeSize n => some s!"Global size must be non-negative, got {n}"
  | .reducedDistributed => some "Cannot reduce a distributed layout"
  | .maskLength k n => some s!"Mask has length {k}, layout has {n}"

def integersText (ns : List Int) : String := "[" ++ ", ".intercalate (ns.map toString) ++ "]"

namespace Layout

-- Differences of neighbours, in 64 bits.
def wrappedSteps (bounds : List Int) : List Int :=
  List.zipWith (fun a b => (b - a).bmod 0x10000000000000000) bounds bounds.tail

def ranksOf (bounds : List Int) : Except LayoutError Nat :=
  if bounds.any (!isInt64 ·) then .error (.value .integerRange)
  else match bounds with
    | first :: second :: rest =>
      let steps := wrappedSteps bounds
      if first ≠ 0 then .error (.firstNotZero first)
      else if rest.isEmpty && steps.any (· < 0) then .error .decreasing
      else if !rest.isEmpty && steps.any (· ≤ 0) then .error .notIncreasing
      else .ok (second :: rest).length
    | _ => .error .tooFewBoundaries

def ofBoundaries (bounds : List Int) (rank : Int) : Except LayoutError Layout := do
  let ranks ← ranksOf bounds
  if 0 ≤ rank ∧ rank < ranks then return ⟨bounds, rank.toNat⟩
  else throw (.rankOutside (toString rank) ranks)

def serial (n : Int) : Except LayoutError Layout :=
  if n < 0 then .error (.negativeSize (toString n)) else ofBoundaries [0, n] 0

def ofSize (n : Nat) : Layout := ⟨[0, (n : Int)], 0⟩

def rankCount (l : Layout) : Nat := l.boundaries.length - 1

def boundary (l : Layout) (r : Nat) : Int := l.boundaries[r]?.getD 0

def globalSize (l : Layout) : Int := l.boundaries.getLastD 0

def start (l : Layout) : Int := l.boundary l.rank

def stop (l : Layout) : Int := l.boundary (l.rank + 1)

def localSize (l : Layout) : Int := l.stop - l.start

def isDistributed (l : Layout) : Bool := 1 < l.rankCount

def sizes (l : Layout) : List Int := wrappedSteps l.boundaries

def reduced (l : Layout) (keep : List Bool) : Except LayoutError Layout :=
  if l.isDistributed then .error .reducedDistributed
  else if (keep.length : Int) ≠ l.globalSize then .error (.maskLength keep.length l.globalSize)
  else serial (keep.count true)

def text (l : Layout) : String :=
  s!"VectorLayout(boundaries={integersText l.boundaries}, rank={l.rank})"

end Layout
end NonlinearProgram
