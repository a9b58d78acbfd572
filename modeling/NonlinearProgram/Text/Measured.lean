import NonlinearProgram.Decimal.Nearest
import NonlinearProgram.Text.Number

-- What is rounded is the exact value `m * 2 ^ q`, half to even.

namespace NonlinearProgram.Text

namespace Measured

-- `places + 1` significant digits, and the exponent of the first one.
def significant (places m : Nat) (q : Int) : List Char × Int :=
  if m = 0 then (List.replicate (places + 1) '0', 0)
  else
    let d := Decimal.rounded m q places
    (Decimal.digits d.significand, d.exponent + places)

def behindPoint (pointKept : Bool) (digits : List Char) : List Char :=
  if digits.isEmpty && !pointKept then [] else '.' :: digits

def withExponent (pointKept : Bool) (digits : List Char) (e : Int) : List Char :=
  digits.take 1 ++ behindPoint pointKept (digits.drop 1) ++ (exponentText e).toList

def scientific (pointKept : Bool) (places m : Nat) (q : Int) : List Char :=
  let (digits, e) := significant places m q
  withExponent pointKept digits e

def fixed (pointKept : Bool) (places m : Nat) (q : Int) : List Char :=
  let (P, Q) := Decimal.gridScale q (-places)
  let digits := Decimal.digits (Decimal.roundDiv (m * Q) P)
  let digits := List.replicate (places + 1 - digits.length) '0' ++ digits
  let front := digits.length - places
  digits.take front ++ behindPoint pointKept (digits.drop front)

-- With a number of significant digits, and an exponent where that is below -4 or where there are
-- more digits in front of the point. Zeros at the end behind the point are kept only together with
-- the point.
def general (pointKept : Bool) (count m : Nat) (q : Int) : List Char :=
  let (digits, e) := significant (count - 1) m q
  let kept (ds : List Char) : List Char :=
    if pointKept then ds else (ds.reverse.dropWhile (· = '0')).reverse
  if e < -4 ∨ max 1 (count : Int) ≤ e then
    withExponent pointKept (digits.take 1 ++ kept (digits.drop 1)) e
  else
    let front := (e + 1).toNat
    let zeros := List.replicate (-e - 1).toNat '0'
    (if front = 0 then ['0'] else digits.take front) ++
      behindPoint pointKept (zeros ++ kept (digits.drop front))

end Measured

namespace Binary64

def ofInt? (n : Int) : Option Binary64 :=
  match ofBits (Decimal.bitsOfInt n) with
  | .infinite _ => none
  | x => some x

def magnitude (write : Nat → Int → List Char) : Binary64 → List Char
  | .undefined => ['n', 'a', 'n']
  | .infinite _ => ['i', 'n', 'f']
  | .zero _ => write 0 0
  | .finite _ m q _ => write m q

def shortText (x : Binary64) : String :=
  signed x.isNegative (String.ofList (x.magnitude (Measured.general false 6)))

def scientificText (x : Binary64) : String :=
  signed x.isNegative (String.ofList (x.magnitude (Measured.scientific false 3)))

end Binary64
end NonlinearProgram.Text
