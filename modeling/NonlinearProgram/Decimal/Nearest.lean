import NonlinearProgram.Decimal.Rounded

-- The numbers from zero on are counted by their bit patterns: a significand in units of the least
-- exponent has itself as its pattern, and each doubling of the unit adds `2 ^ 52`.

namespace NonlinearProgram.Decimal

def binaryExponent (num den : Nat) : Int :=
  let e : Int := (Nat.log2 num : Int) - Nat.log2 den
  if den * power 2 e ≤ num * power 2 (-e) then e else e - 1

def unitExponent (num den : Nat) : Int := max (-1074) (binaryExponent num den - 52)

def infiniteBits : Nat := 0x7ff <<< 52

-- The bit pattern of the number nearest to a positive quotient. A significand that is rounded up to
-- the next power of two carries over into the exponent.
def nearestBits (num den : Nat) : Nat :=
  let q := unitExponent num den
  let m := roundDiv (num * power 2 (-q)) (den * power 2 q)
  min infiniteBits ((q + 1074).toNat <<< 52 + m)

def toBits (d : Decimal) : Nat :=
  if d.significand = 0 then 0
  else if 400 < d.exponent then infiniteBits
  else if d.exponent + Nat.log2 d.significand + 1 < -400 then 0
  else nearestBits (d.significand * power 10 d.exponent) (power 10 (-d.exponent))

def signedBits (negative : Bool) (bits : Nat) : Nat := if negative then 1 <<< 63 + bits else bits

def bitsOfInt (n : Int) : Nat :=
  signedBits (n < 0) (if n = 0 then 0 else nearestBits n.natAbs 1)

def toFloat (d : Decimal) (negative : Bool) : Float :=
  Float.ofBits (.ofNat (signedBits negative d.toBits))

def floatOfInt (n : Int) : Float := Float.ofBits (.ofNat (bitsOfInt n))

end NonlinearProgram.Decimal
