
namespace NonlinearProgram.Text

-- The first index at or above `low` whose range ends at or after the code point.
def rangeIndex (ranges : Array (Nat × Nat)) (code : Nat) : Nat → Nat → Nat → Nat
  | 0, low, _ => low
  | fuel + 1, low, high =>
    if high ≤ low then low
    else
      let middle := (low + high) / 2
      if (ranges[middle]?.getD (0, 0)).2 < code then rangeIndex ranges code fuel (middle + 1) high
      else rangeIndex ranges code fuel low middle

def inRanges (ranges : Array (Nat × Nat)) (code : Nat) : Bool :=
  ranges[rangeIndex ranges code (ranges.size.log2 + 2) 0 ranges.size]?.any (·.1 ≤ code)

end NonlinearProgram.Text
