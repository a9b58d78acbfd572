import NonlinearProgram.Decimal.Nearest
import NonlinearProgram.Scalar
import NonlinearProgram.Text.Numeral

-- No operation rounds. There is only one zero, and what is divided by it counts as divided by
-- something small and positive.

namespace NonlinearProgram

inductive Exact where
  | undefined
  | negInfinity
  | finite (q : Rat)
  | infinity
deriving DecidableEq, Repr

namespace Exact

def neg : Exact → Exact
  | .undefined => .undefined
  | .negInfinity => .infinity
  | .finite q => .finite (-q)
  | .infinity => .negInfinity

def add : Exact → Exact → Exact
  | .undefined, _ | _, .undefined => .undefined
  | .finite p, .finite q => .finite (p + q)
  | .infinity, .negInfinity | .negInfinity, .infinity => .undefined
  | .infinity, _ | _, .infinity => .infinity
  | .negInfinity, _ | _, .negInfinity => .negInfinity

def scaledInfinity (q : Rat) : Exact :=
  if q = 0 then .undefined else if 0 < q then .infinity else .negInfinity

def mul : Exact → Exact → Exact
  | .undefined, _ | _, .undefined => .undefined
  | .finite p, .finite q => .finite (p * q)
  | .infinity, .finite q | .finite q, .infinity => scaledInfinity q
  | .negInfinity, .finite q | .finite q, .negInfinity => scaledInfinity (-q)
  | .infinity, .infinity | .negInfinity, .negInfinity => .infinity
  | .infinity, .negInfinity | .negInfinity, .infinity => .negInfinity

def div : Exact → Exact → Exact
  | .undefined, _ | _, .undefined => .undefined
  | .finite p, .finite q => if q = 0 then scaledInfinity p else .finite (p / q)
  | .finite _, _ => .finite 0
  | .infinity, .finite q => if q < 0 then .negInfinity else .infinity
  | .negInfinity, .finite q => if q < 0 then .infinity else .negInfinity
  | _, _ => .undefined

def isAtMost : Exact → Exact → Bool
  | .undefined, _ | _, .undefined => false
  | .negInfinity, _ | _, .infinity => true
  | .finite p, .finite q => p ≤ q
  | _, _ => false

def ofNumeral : Text.Numeral → Exact
  | .undefined => .undefined
  | .infinite negative => if negative then .negInfinity else .infinity
  | .decimal negative d =>
    let q : Rat := d.significand * 10 ^ d.exponent.toNat / 10 ^ (-d.exponent).toNat
    .finite (if negative then -q else q)

def binary64OfRat (q : Rat) : Text.Binary64 :=
  .ofBits (Decimal.signedBits (q < 0) (if q = 0 then 0 else Decimal.nearestBits q.num.natAbs q.den))

end Exact

instance : Scalar Exact where
  zero := .finite 0
  one := .finite 1
  neg := Exact.neg
  add := Exact.add
  sub a b := a.add b.neg
  mul := Exact.mul
  div := Exact.div
  le a b := a.isAtMost b = true
  lt a b := a.isAtMost b = true ∧ b.isAtMost a = false
  beq a b := a.isAtMost b && b.isAtMost a
  decidableLE := fun a b => inferInstanceAs (Decidable (a.isAtMost b = true))
  decidableLT := fun a b =>
    inferInstanceAs (Decidable (a.isAtMost b = true ∧ b.isAtMost a = false))
  half := .finite (1 / 2)
  magnitude
    | .undefined => .undefined
    | .finite q => .finite (if q < 0 then -q else q)
    | _ => .infinity
  infinity := .infinity
  negInfinity := .negInfinity
  undefined := .undefined
  isUndefined
    | .undefined => true
    | _ => false
  isFinite
    | .finite _ => true
    | _ => false
  nextUp x := x
  ofInt n := .finite n
  ofText? s := (Text.Numeral.ofText? s).map Exact.ofNumeral
  truncate
    | .finite q => q.num.tdiv q.den
    | _ => 0
  binary64
    | .undefined => .undefined
    | .negInfinity => .infinite true
    | .finite q => Exact.binary64OfRat q
    | .infinity => .infinite false

end NonlinearProgram
