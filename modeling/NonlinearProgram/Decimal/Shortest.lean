import NonlinearProgram.Decimal.Basic

-- The value is `m * 2 ^ q`; every real of its rounding interval reads back as it. Decimal grids are
-- tried from coarse to fine, and on each grid only the two neighbours of the value: the first grid
-- with a point in the interval gives the shortest decimal, the nearer neighbour is the closest one,
-- and of two equally near ones the even one is taken.

namespace NonlinearProgram.Decimal

-- The reals that round to `m * 2 ^ q`, in units of `2 ^ (q - 2)`.
structure RoundingInterval where
  low : Nat
  middle : Nat
  high : Nat
  closed : Bool

-- The interval reaches half way to each neighbour, below a power of two only half as far.
def RoundingInterval.around (m : Nat) (belowHalved : Bool) : RoundingInterval where
  low := if belowHalved then 4 * m - 1 else 4 * m - 2
  middle := 4 * m
  high := 4 * m + 2
  closed := m % 2 = 0

def RoundingInterval.holds (I : RoundingInterval) (q e : Int) (n : Nat) : Bool :=
  let (P, Q) := gridScale q e
  let x := n * P
  if I.closed then I.low * Q ≤ x && x ≤ I.high * Q else I.low * Q < x && x < I.high * Q

def RoundingInterval.nearest? (I : RoundingInterval) (q e : Int) : Option Nat :=
  let (P, Q) := gridScale q e
  let n := I.middle * Q / P
  let lower := n ≠ 0 && I.holds q e n
  let upper := I.holds q e (n + 1)
  if lower && upper then
    let below := I.middle * Q - n * P
    let above := (n + 1) * P - I.middle * Q
    if below < above then some n
    else if above < below then some (n + 1)
    else if n % 2 = 0 then some n else some (n + 1)
  else if lower then some n
  else if upper then some (n + 1)
  else none

def RoundingInterval.scan (I : RoundingInterval) (q : Int) : Nat → Int → Decimal
  | 0, e => ⟨I.middle, e⟩
  | fuel + 1, e =>
    match I.nearest? q e with
    | some n => ⟨n, e⟩
    | none => I.scan q fuel (e - 1)

-- Seventeen digits always suffice for a 53-bit significand; the estimate costs two grids more.
def shortest (m : Nat) (q : Int) (belowHalved : Bool) : Decimal :=
  (RoundingInterval.around m belowHalved).scan (q - 2) 20 (exponentEstimate m q + 1)

end NonlinearProgram.Decimal
