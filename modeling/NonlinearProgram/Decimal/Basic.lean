-- A positive binary value is given as `m * 2 ^ q`. `gridScale q e` holds the two factors that turn
-- a comparison of `a * 10 ^ e` with `b * 2 ^ q` into one of natural numbers.

namespace NonlinearProgram

structure Decimal where
  significand : Nat
  exponent : Int
deriving DecidableEq, Repr, Inhabited

namespace Decimal

-- `base ^ e`, and 1 where `e` is negative.
def power (base : Nat) (e : Int) : Nat := base.pow e.toNat

-- Factors `(P, Q)` with `a * 10 ^ e ≤ b * 2 ^ q ↔ a * P ≤ b * Q`.
def gridScale (q e : Int) : Nat × Nat :=
  (power 10 e * power 2 (-q), power 10 (-e) * power 2 q)

def floorOn (m : Nat) (q e : Int) : Nat :=
  let (P, Q) := gridScale q e
  m * Q / P

-- A lower estimate of the decimal exponent of `m * 2 ^ q`, at most one too small.
def exponentEstimate (m : Nat) (q : Int) : Int :=
  ((Nat.log2 m : Int) + q) * 78913 / 262144

-- The decimal exponent `e` of a positive value: `10 ^ e ≤ m * 2 ^ q < 10 ^ (e + 1)`.
def exponentOf (m : Nat) (q : Int) : Int :=
  let e := exponentEstimate m q
  if floorOn m q (e + 1) = 0 then e else e + 1

def digits (n : Nat) : List Char := Nat.toDigits 10 n

end Decimal
end NonlinearProgram
