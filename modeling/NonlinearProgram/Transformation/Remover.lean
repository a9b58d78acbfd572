import NonlinearProgram.Selection
import NonlinearProgram.Store

-- The free variables are gathered on the way to the internal problem and scattered on the way back,
-- where the eliminated ones hold their fixed values. Points and multipliers are handed out in
-- scratch arrays that the next call overwrites; gradients, Jacobians and bounds are copies.

namespace NonlinearProgram

structure Remover (α : Type) where
  fixedIndices : List Nat
  freeIndices : List Nat
  fixedValues : List α
  -- The user's point: the fixed values stay in it, the free ones are overwritten.
  userPoint : View
  internalPoint : View
  userMultipliers : View

namespace Remover

variable {α : Type}

def userSize (r : Remover α) : Nat := r.userPoint.size

def internalSize (r : Remover α) : Nat := r.freeIndices.length

section

variable [Zero α]

def create (mask : List Bool) (values : List α) (s : Store α) : Remover α × Store α :=
  let fixed := setPositions mask
  let free := clearPositions mask
  let held := gather values fixed
  let zeros := List.replicate mask.length (0 : α)
  let (point, s) := s.alloc (Tensor.ofList zeros)
  let s := s.scatter point fixed held
  let (inner, s) := s.alloc (Tensor.ofList (List.replicate free.length 0))
  let (multipliers, s) := s.alloc (Tensor.ofList zeros)
  (⟨fixed, free, held, point, inner, multipliers⟩, s)

-- Multipliers of the free variables, and zeros for the eliminated ones. The scratch array is
-- cleared before the argument is read.
def multipliersToUser (r : Remover α) (z : View) : StoreM α View := do
  StoreM.fill r.userMultipliers 0
  StoreM.assignAt r.userMultipliers r.freeIndices (← StoreM.read z)
  return r.userMultipliers

end

def toInternal (r : Remover α) (x : View) : StoreM α View := do
  let xs ← StoreM.entries x
  if r.freeIndices.all (· < xs.length) then
    StoreM.assign r.internalPoint (Tensor.ofList (gather xs r.freeIndices))
    return r.internalPoint
  else throw .indexOutside

def toUser (r : Remover α) (x : View) : StoreM α View := do
  StoreM.assignAt r.userPoint r.freeIndices (← StoreM.read x)
  return r.userPoint

def gatherNew (r : Remover α) (v : View) : StoreM α View := do
  match (← StoreM.read v).gather? r.freeIndices with
  | some t => StoreM.alloc t
  | none => throw .indexOutside

def jacobianToInternal (r : Remover α) (v : View) : StoreM α View := do
  match (← StoreM.read v).gatherColumns? r.freeIndices with
  | some t => StoreM.alloc t
  | none => throw .indexOutside

end Remover
end NonlinearProgram
