import NonlinearProgram.Scalar
import NonlinearProgram.Selection

-- A bound is present when it lies strictly inside the interval from `-infinity` to `infinity`,
-- where `infinity` is a threshold chosen by the caller. Indicators are zeros and ones of the scalar
-- type, so that they can serve as factors.

namespace NonlinearProgram

variable {α : Type} [Scalar α]

def hasLower (infinity lower : α) : Bool := -infinity < lower

def hasUpper (infinity upper : α) : Bool := upper < infinity

def indicator (present : Bool) : α := if present then 1 else 0

structure BoundClasses (α : Type) where
  lower : List α
  upper : List α
  lowerCount : Nat
  upperCount : Nat
  bothCount : Nat

def classifyBounds (infinity : α) (lower upper : List α) : BoundClasses α where
  lower := lower.map fun l => indicator (hasLower infinity l)
  upper := upper.map fun u => indicator (hasUpper infinity u)
  lowerCount := lower.countP (hasLower infinity)
  upperCount := upper.countP (hasUpper infinity)
  bothCount := (lower.zip upper).countP fun (l, u) => hasLower infinity l && hasUpper infinity u

-- Two present bounds closer than `tol`, crossed ones included.
def isFixed (tol infinity lower upper : α) : Bool :=
  hasLower infinity lower && hasUpper infinity upper && upper - lower < tol

def fixedMask (tol infinity : α) (lower upper : List α) : List Bool :=
  List.zipWith (isFixed tol infinity) lower upper

-- Bounds that describe no box. An undefined bound never does; a lower bound above the upper one
-- does only if fixed entries are allowed and the two cross by less than `tol`.
def isInconsistent (tol : α) (allowFixed : Bool) (lower upper : α) : Bool :=
  Scalar.isUndefined lower || Scalar.isUndefined upper ||
    (upper < lower && (!allowFixed || tol ≤ lower - upper))

def inconsistentPositions (tol : α) (allowFixed : Bool) (lower upper : List α) : List Nat :=
  setPositions (List.zipWith (isInconsistent tol allowFixed) lower upper)

end NonlinearProgram
