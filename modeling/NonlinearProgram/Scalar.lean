import NonlinearProgram.Text.Measured

-- Every algorithm of the library fixes the order of its operations and uses only what this class
-- offers, so one definition serves binary64 numbers and exact ones.

namespace NonlinearProgram

class Scalar (α : Type) extends Zero α, One α, Neg α, Add α, Sub α, Mul α, Div α, LT α, LE α,
    BEq α where
  decidableLT : DecidableRel (fun a b : α => a < b)
  decidableLE : DecidableRel (fun a b : α => a ≤ b)
  half : α
  magnitude : α → α
  infinity : α
  negInfinity : α
  undefined : α
  isUndefined : α → Bool
  isFinite : α → Bool
  -- The least scalar above, where scalars are discrete.
  nextUp : α → α
  ofInt : Int → α
  ofText? : String → Option α
  -- The integer part of a finite scalar, toward zero.
  truncate : α → Int
  binary64 : α → Text.Binary64

namespace Scalar

variable {α : Type} [Scalar α]

instance (a b : α) : Decidable (a < b) := decidableLT a b

instance (a b : α) : Decidable (a ≤ b) := decidableLE a b

def text (x : α) : String := (binary64 x).text

def shortText (x : α) : String := (binary64 x).shortText

def scientificText (x : α) : String := (binary64 x).scientificText

-- The larger of two scalars; an undefined one wins, and of equal ones the second.
def larger (a b : α) : α :=
  if isUndefined a then a else if isUndefined b then b else if b < a then a else b

-- The smaller of two scalars; an undefined one wins, and of equal ones the second.
def smaller (a b : α) : α :=
  if isUndefined a then a else if isUndefined b then b else if a < b then a else b

def ofInt? (n : Int) : Option α :=
  let x : α := ofInt n
  if isFinite x then some x else none

def midpoint (a b : α) : α := half * (a + b)

end Scalar
end NonlinearProgram
