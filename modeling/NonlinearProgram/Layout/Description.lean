import NonlinearProgram.Layout
import NonlinearProgram.RawValue.Comparison
import NonlinearProgram.RawValue.Fields

namespace NonlinearProgram.Layout

open RawValue

variable {α : Type} [Scalar α]

def boundaryOf (v : RawValue α) : Except ValueFault Int := do
  let n ← v.toInteger
  if isInt64 n then return n else throw .integerRange

def serialOf (size : RawValue α) : Except LayoutError Layout := do
  if ← (size.isBelow 0).mapError .value then throw (.negativeSize size.plain)
  ofBoundaries [0, ← (boundaryOf size).mapError .value] 0

-- The layout with some boundaries, as seen from a rank that may be given as any number: its integer
-- part counts.
def seenFrom (rank : RawValue α) (bounds : List Int) : Except LayoutError Layout := do
  let ranks ← ranksOf bounds
  if (← (rank.isBelow 0).mapError .value) || !(← (rank.isBelow ranks).mapError .value) then
    throw (.rankOutside rank.plain ranks)
  return ⟨bounds, rank.wholePart⟩

theorem seenFrom_integer (r : Int) (bounds : List Int) :
    seenFrom (.integer r : RawValue α) bounds = ofBoundaries bounds r := by
  unfold seenFrom ofBoundaries
  cases ranksOf bounds with
  | error e => rfl
  | ok ranks =>
    change (if (decide (r < 0) || !decide (r < ranks)) = true then
        Except.error (LayoutError.rankOutside (toString r) ranks) else
        Except.ok (Layout.mk bounds r.toNat)) =
      if 0 ≤ r ∧ r < ranks then Except.ok (Layout.mk bounds r.toNat) else
        Except.error (LayoutError.rankOutside (toString r) ranks)
    by_cases h : r < 0 <;> by_cases h' : r < ranks <;> simp [h, h']

def ofGiven (bounds rank : RawValue α) : Except LayoutError Layout := do
  seenFrom rank (← (bounds.nestedTensor boundaryOf).mapError .value).entries

-- The layout of a serial space by its size, any other by its boundaries and a rank, which is the
-- first one unless it is given.
def ofValue (v : RawValue α) : Except LayoutError Layout :=
  match v.field? "serial" with
  | some size => serialOf size
  | none => do
    ofGiven (← (v.require "bounds").mapError .value) ((v.field? "rank").getD (.integer 0))

end NonlinearProgram.Layout
