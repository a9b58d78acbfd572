import NonlinearProgram.RawValue
import NonlinearProgram.Selection

namespace NonlinearProgram.RawValue

variable {α : Type} [Scalar α]

def isLess (v w : RawValue α) : Except ValueFault Bool := do
  return (← v.toQuantity).isLess (← w.toQuantity)

def isBelow (v : RawValue α) (n : Int) : Except ValueFault Bool := v.isLess (.integer n)

-- Is one of the values below zero? What comes after such a value is not looked at.
def anyNegative : List (RawValue α) → Except ValueFault Bool
  | [] => .ok false
  | v :: rest => do if ← v.isBelow 0 then return true else anyNegative rest

mutual

-- Are both values the same? Numbers of different kinds are the same if they have the same value,
-- and the order of named fields does not count.
def isSame : RawValue α → RawValue α → Bool
  | .null, .null => true
  | .text s, .text t => s == t
  | .list xs, .list ys | .tuple xs, .tuple ys => areSame xs ys
  | .record xs, .record ys => xs.length = ys.length && agree xs ys
  | v, w =>
    match v.toQuantity, w.toQuantity with
    | .ok a, .ok b => a.isEqual b
    | _, _ => false

def areSame : List (RawValue α) → List (RawValue α) → Bool
  | [], [] => true
  | x :: xs, y :: ys => isSame x y && areSame xs ys
  | _, _ => false

def agree : List (String × RawValue α) → List (String × RawValue α) → Bool
  | [], _ => true
  | (key, x) :: xs, ys => (ys.lookup key).any (isSame x) && agree xs ys

end

instance : BEq (RawValue α) := ⟨isSame⟩

def asKey : RawValue α → Except ValueFault (RawValue α)
  | .list _ | .record _ => .error .wrongKind
  | v => .ok v

def isNumber (v : RawValue α) (n : Int) : Bool := v.isSame (.integer n)

def plus (v w : RawValue α) : Except ValueFault (RawValue α) := do
  return ofQuantity (← (← v.toQuantity).add (← w.toQuantity))

def plusNat (v : RawValue α) (n : Nat) : RawValue α :=
  match v.plus (.integer n) with
  | .ok sum => sum
  | .error _ => v

def wholePart (v : RawValue α) : Nat :=
  match v.toInteger with
  | .ok n => n.toNat
  | .error _ => 0

def isReal : RawValue α → Bool
  | .real _ => true
  | _ => false

def isUndefined : RawValue α → Bool
  | .real x => Scalar.isUndefined x
  | _ => false

def exactInteger : RawValue α → Except ValueFault Int
  | .integer n => .ok n
  | _ => .error .wrongKind

def index : RawValue α → Except ValueFault Int
  | .flag b => .ok (if b then 1 else 0)
  | v => v.exactInteger

def flag? : RawValue α → Option Bool
  | .flag b => some b
  | _ => none

-- The positions that an index picks from so many. Null and a true flag pick all, a false one picks
-- none, and flags pick the positions at which they are set.
def picks (length : Nat) : RawValue α → Except ValueFault (List Nat)
  | .null | .flag true => .ok (List.range length)
  | .flag false => .ok []
  | .integer n => (positionOf length n).elim (.error .indexOutside) fun i => .ok [i]
  | .list items =>
    match items.mapM flag? with
    | some mask =>
      if mask.isEmpty || mask.length = length then .ok (setPositions mask)
      else .error .indexOutside
    | none => items.mapM fun v =>
        match v.index with
        | .ok n => (positionOf length n).elim (.error .indexOutside) .ok
        | .error _ => .error .indexOutside
  | _ => .error .indexOutside

end NonlinearProgram.RawValue
