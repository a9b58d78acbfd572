import NonlinearProgram.Scalar
import NonlinearProgram.Selection
import NonlinearProgram.Store

-- The bounds of each masked variable, with midpoint `mid`, become `[low, low + w]` with `w = tol *
-- max 1 |mid|` and `low = mid - w / 2`. Where `low + w` does not exceed `low`, the upper bound is
-- the next scalar above. Everything else passes unchanged.

namespace NonlinearProgram

structure Relaxer (α : Type) where
  mask : List Bool
  tolerance : α
  -- The widths that the last relaxation produced.
  gaps : View

namespace Relaxer

variable {α : Type} [Scalar α]

-- A relaxer has not relaxed anything at first; the tolerance must be positive.
def create? (mask : List Bool) (tolerance : α) (s : Store α) : Option (Relaxer α × Store α) :=
  if 0 < tolerance then
    let (gaps, s) := s.alloc (Tensor.ofList [])
    some (⟨mask, tolerance, gaps⟩, s)
  else none

def size (r : Relaxer α) : Nat := r.mask.length

def relaxedCount (r : Relaxer α) : Nat := r.mask.count true

def width (tolerance mid : α) : α := tolerance * Scalar.larger 1 (Scalar.magnitude mid)

def widened (tolerance lower upper : α) : α × α :=
  let mid := Scalar.midpoint lower upper
  let w := width tolerance mid
  let low := mid - Scalar.half * w
  let upp := low + w
  (low, if upp ≤ low then Scalar.nextUp low else upp)

def widenedBounds (mask : List Bool) (tolerance : α) (lower upper : List α) : List (α × α) :=
  List.zipWith (fun fixed (l, u) => if fixed then widened tolerance l u else (l, u)) mask
    (lower.zip upper)

def widenedGaps (mask : List Bool) (tolerance : α) (lower upper : List α) : List α :=
  (gather (lower.zip upper) (setPositions mask)).map fun (l, u) =>
    let (low, upp) := widened tolerance l u
    upp - low

-- The slices of a tensor that the mask picks along the first axis, which has as many indices as the
-- mask has. The empty mask picks nothing from any axis.
def masked? (r : Relaxer α) (t : Tensor α) : Option (Tensor α) :=
  if t.shape.head?.any fun n => n = r.mask.length || r.mask.isEmpty then
    t.gather? (setPositions r.mask)
  else none

-- The masked slices of a tensor exchanged for others that stretch to them. A vector as long as the
-- mask takes entries from vectors only.
def withMasked (r : Relaxer α) (t slices : Tensor α) : Except ValueFault (Tensor α) :=
  if t.shape = [r.size] ∧ 1 < slices.rank then .error .severalAxes
  else match slices.stretchedToSelection? (r.relaxedCount :: t.shape.drop 1) with
    | some slices => .ok (t.withSlices (setPositions r.mask) slices)
    | none => .error .shapeMismatch

def relaxSlices (r : Relaxer α) (lower upper : Tensor α) :
    Except ValueFault (Tensor α × Tensor α × Tensor α) :=
  match r.masked? lower, r.masked? upper with
  | some fixedLower, some fixedUpper =>
    match Tensor.zipWith? (widened r.tolerance) fixedLower fixedUpper with
    | none => .error .shapeMismatch
    | some pairs => do
      let low ← r.withMasked lower (pairs.map (·.1))
      let upp ← r.withMasked upper (pairs.map (·.2))
      return (low, upp, pairs.map fun (low, upp) => upp - low)
  | _, _ => .error .indexOutside

-- Both bounds relaxed and the widths produced; vectors as long as the mask are relaxed entry by
-- entry.
def relaxed (r : Relaxer α) (lower upper : Tensor α) :
    Except ValueFault (Tensor α × Tensor α × Tensor α) :=
  if lower.shape = [r.size] ∧ upper.shape = [r.size] then
    let bounds := widenedBounds r.mask r.tolerance lower.entries upper.entries
    .ok (Tensor.ofList (bounds.map (·.1)), Tensor.ofList (bounds.map (·.2)),
      Tensor.ofList (widenedGaps r.mask r.tolerance lower.entries upper.entries))
  else r.relaxSlices lower upper

def relax (r : Relaxer α) (lower upper : View) : StoreM α (View × View) := do
  let (low, upp, gaps) ← r.relaxed (← StoreM.read lower) (← StoreM.read upper)
  let bounds := (← StoreM.alloc low, ← StoreM.alloc upp)
  modify (·.replace r.gaps gaps)
  return bounds

def lastGaps (r : Relaxer α) (s : Store α) : Tensor α := s.whole r.gaps

end Relaxer
end NonlinearProgram
