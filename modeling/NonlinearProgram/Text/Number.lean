import NonlinearProgram.Decimal.Shortest

namespace NonlinearProgram.Text

inductive Binary64 where
  | undefined
  | infinite (negative : Bool)
  | zero (negative : Bool)
  -- The value `significand * 2 ^ exponent`; `boundary` holds where the spacing halves below it.
  | finite (negative : Bool) (significand : Nat) (exponent : Int) (boundary : Bool)
deriving DecidableEq, Repr

namespace Binary64

def ofBits (bits : Nat) : Binary64 :=
  let negative := bits >>> 63 == 1
  let field : Nat := bits >>> 52 % 0x800
  let fraction : Nat := bits % 1 <<< 52
  if field = 0x7ff then
    if fraction = 0 then .infinite negative else .undefined
  else if field = 0 then
    if fraction = 0 then .zero negative else .finite negative fraction (-1074) false
  else .finite negative (1 <<< 52 + fraction) ((field : Int) - 1075) (fraction == 0 && 1 < field)

def ofFloat (x : Float) : Binary64 := ofBits x.toBits.toNat

def isNegative : Binary64 → Bool
  | .undefined => false
  | .infinite negative | .zero negative | .finite negative _ _ _ => negative

def integerPart? : Binary64 → Option (Int × Bool)
  | .undefined | .infinite _ => none
  | .zero _ => some (0, true)
  | .finite negative m q _ =>
    let scaled := m * Decimal.power 2 q
    let n := scaled / Decimal.power 2 (-q)
    some (if negative then -(n : Int) else n, n * Decimal.power 2 (-q) == scaled)

end Binary64

structure NumberStyle where
  lowest : Int
  limit : Int
  wholeMark : Bool

-- Full precision: `0.0001`, `1e-05`, `2.0`, `1e+16`.
def NumberStyle.full : NumberStyle := ⟨-4, 16, true⟩

def exponentText (e : Int) : String :=
  let digits := Decimal.digits e.natAbs
  (if e < 0 then "e-" else "e+") ++
    String.ofList (if digits.length < 2 then '0' :: digits else digits)

def stripZeros (digits : List Char) : List Char :=
  match digits.reverse.dropWhile (· == '0') with
  | [] => digits.take 1
  | kept => kept.reverse

def scientific (digits : List Char) (e : Int) : String :=
  let mantissa := match digits with
    | d :: rest@(_ :: _) => d :: '.' :: rest
    | short => short
  String.ofList mantissa ++ exponentText e

-- Digits around a decimal point; `e` is the exponent of the first digit.
def positional (digits : List Char) (e : Int) (wholeMark : Bool) : String :=
  if e < 0 then
    String.ofList ('0' :: '.' :: (List.replicate ((-e).toNat - 1) '0' ++ digits))
  else
    let whole := e.toNat + 1
    let front := digits.take whole ++ List.replicate (whole - digits.length) '0'
    match digits.drop whole with
    | [] => String.ofList front ++ (if wholeMark then ".0" else "")
    | rest => String.ofList (front ++ '.' :: rest)

def NumberStyle.render (style : NumberStyle) (d : Decimal) : String :=
  let all := Decimal.digits d.significand
  let e := d.exponent + (all.length : Int) - 1
  let digits := stripZeros all
  if style.lowest ≤ e ∧ e < style.limit then positional digits e style.wholeMark
  else scientific digits e

def signed (negative : Bool) (text : String) : String :=
  if negative then "-" ++ text else text

def Binary64.text (x : Binary64) : String :=
  signed x.isNegative <| match x with
    | .undefined => "nan"
    | .infinite _ => "inf"
    | .zero _ => "0.0"
    | .finite _ m q boundary => NumberStyle.full.render (Decimal.shortest m q boundary)

end NonlinearProgram.Text
