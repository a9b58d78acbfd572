
namespace NonlinearProgram

def gather {α : Type} (xs : List α) (picks : List Nat) : List α := picks.filterMap (xs[·]?)

-- A list with single entries replaced, in the given order.
def scatter {α : Type} (picks : List Nat) (xs base : List α) : List α :=
  (picks.zip xs).foldl (fun base (i, x) => base.set i x) base

def setPositions (mask : List Bool) : List Nat :=
  (List.range mask.length).filter fun i => mask[i]?.getD false

def clearPositions (mask : List Bool) : List Nat :=
  (List.range mask.length).filter fun i => !mask[i]?.getD true

-- The position an index stands for; a negative one counts from the end.
def positionOf (length : Nat) (i : Int) : Option Nat :=
  if 0 ≤ i ∧ i < length then some i.toNat
  else if i < 0 ∧ 0 ≤ i + length then some (i + length).toNat
  else none

end NonlinearProgram
