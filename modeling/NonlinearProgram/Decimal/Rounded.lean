import NonlinearProgram.Decimal.Basic

namespace NonlinearProgram.Decimal

def roundDiv (num den : Nat) : Nat :=
  let n := num / den
  let rest := num % den
  if 2 * rest < den then n
  else if den < 2 * rest then n + 1
  else if n % 2 = 0 then n else n + 1

-- `m * 2 ^ q` with `count + 1` significant digits.
def rounded (m : Nat) (q : Int) (count : Nat) : Decimal :=
  let e := exponentOf m q - count
  let (P, Q) := gridScale q e
  let n := roundDiv (m * Q) P
  if n = power 10 (count + 1) then ⟨power 10 count, e + 1⟩ else ⟨n, e⟩

end NonlinearProgram.Decimal
