import NonlinearProgram.Scalar
import NonlinearProgram.ValueFault

-- Integers of any size and scalars are compared by value: no integer is rounded to be compared with
-- a scalar.

namespace NonlinearProgram

inductive Quantity (α : Type) where
  | whole (n : Int)
  | scalar (x : α)
deriving DecidableEq

namespace Quantity

variable {α : Type} [Scalar α]

-- An integer below a scalar. Between the integer part of a finite scalar and the scalar there is no
-- other integer.
def integerBelow (n : Int) (x : α) : Bool :=
  if !Scalar.isFinite x then 0 < x
  else if n = Scalar.truncate x then Scalar.ofInt n < x
  else n < Scalar.truncate x

def integerAbove (n : Int) (x : α) : Bool :=
  if !Scalar.isFinite x then x < 0
  else if n = Scalar.truncate x then x < Scalar.ofInt n
  else Scalar.truncate x < n

def isLess : Quantity α → Quantity α → Bool
  | .whole m, .whole n => m < n
  | .whole n, .scalar x => integerBelow n x
  | .scalar x, .whole n => integerAbove n x
  | .scalar x, .scalar y => x < y

def isEqual : Quantity α → Quantity α → Bool
  | .whole m, .whole n => m = n
  | .whole n, .scalar x | .scalar x, .whole n =>
    Scalar.isFinite x && n = Scalar.truncate x && Scalar.ofInt n == x
  | .scalar x, .scalar y => x == y

def toInteger : Quantity α → Except ValueFault Int
  | .whole n => .ok n
  | .scalar x =>
    if Scalar.isFinite x then .ok (Scalar.truncate x)
    else .error (if Scalar.isUndefined x then .malformed else .integerRange)

def toScalar : Quantity α → Except ValueFault α
  | .whole n => (Scalar.ofInt? n).elim (.error .integerRange) .ok
  | .scalar x => .ok x

def add : Quantity α → Quantity α → Except ValueFault (Quantity α)
  | .whole m, .whole n => .ok (.whole (m + n))
  | a, b => do return .scalar ((← a.toScalar) + (← b.toScalar))

def mul : Quantity α → Quantity α → Except ValueFault (Quantity α)
  | .whole m, .whole n => .ok (.whole (m * n))
  | a, b => do return .scalar ((← a.toScalar) * (← b.toScalar))

end Quantity
end NonlinearProgram
