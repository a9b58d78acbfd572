import NonlinearProgram.Decimal.Nearest
import NonlinearProgram.Scalar
import NonlinearProgram.Text.Numeral

namespace NonlinearProgram

-- The next binary64 number above; undefined and infinite values stay.
def binary64NextUp (x : Float) : Float :=
  if x.isNaN then x
  else
    let bits := x.toBits
    if bits = 0x8000000000000000 then Float.ofBits 1
    else if bits = 0x7ff0000000000000 then x
    else if bits < 0x8000000000000000 then Float.ofBits (bits + 1)
    else Float.ofBits (bits - 1)

def binary64OfNumeral : Text.Numeral → Float
  | .undefined => 0 / 0
  | .infinite negative => if negative then -1 / 0 else 1 / 0
  | .decimal negative d => d.toFloat negative

instance : Scalar Float where
  decidableLT := fun a b => inferInstanceAs (Decidable (a < b))
  decidableLE := fun a b => inferInstanceAs (Decidable (a ≤ b))
  half := 0.5
  magnitude := Float.abs
  infinity := 1 / 0
  negInfinity := -1 / 0
  undefined := 0 / 0
  isUndefined := Float.isNaN
  isFinite := Float.isFinite
  nextUp := binary64NextUp
  ofInt := Decimal.floatOfInt
  ofText? := fun s => (Text.Numeral.ofText? s).map binary64OfNumeral
  truncate := fun x => (Text.Binary64.ofFloat x).integerPart?.elim 0 Prod.fst
  binary64 := Text.Binary64.ofFloat

end NonlinearProgram
