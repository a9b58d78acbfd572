import Mathlib.Order.Interval.Set.Basic
import NonlinearProgram.Proofs.Bounds
import NonlinearProgram.Proofs.Rounding

-- A relaxation of bounds that are closer to each other than its tolerance only widens them. The
-- width that it asks for is at least the tolerance, so half of it leads from the midpoint beyond
-- either bound, whichever of them is the larger one.

namespace NonlinearProgram

-- The bounds of a variable, neither of which is infinite.
structure FiniteBounds where
  lower : Rat
  upper : Rat

namespace FiniteBounds

variable {t : Rat} {b : FiniteBounds}

def middle (b : FiniteBounds) : Rat := 1 / 2 * (b.lower + b.upper)

-- Bounds that pass for equal. They may cross.
def Close (t : Rat) (b : FiniteBounds) : Prop := |b.upper - b.lower| < t

instance (t : Rat) (b : FiniteBounds) : Decidable (b.Close t) :=
  inferInstanceAs (Decidable (_ < _))

-- The width that a tolerance asks for.
def gap (t : Rat) (b : FiniteBounds) : Rat := t * max 1 |b.middle|

def relaxed (t : Rat) (b : FiniteBounds) : FiniteBounds where
  lower := b.middle - 1 / 2 * b.gap t
  upper := b.middle + 1 / 2 * b.gap t

-- Bounds between which there are both of the others and all that is in the middle of those.
structure Surrounds (outer inner : FiniteBounds) : Prop where
  lower : inner.lower ∈ Set.Ioo outer.lower outer.upper
  upper : inner.upper ∈ Set.Ioo outer.lower outer.upper
  middle : inner.middle ∈ Set.Ioo outer.lower outer.upper

theorem le_gap (ht : 0 < t) : t ≤ b.gap t :=
  le_mul_of_one_le_right ht.le (le_max_left 1 _)

theorem gap_pos (ht : 0 < t) : 0 < b.gap t :=
  ht.trans_le (le_gap ht)

theorem width_relaxed : (b.relaxed t).upper - (b.relaxed t).lower = b.gap t := by
  rw [relaxed]
  ring

theorem Close.pos (h : b.Close t) : 0 < t :=
  (abs_nonneg _).trans_lt h

-- The bounds are at the same distance from their midpoint, which is less than half the tolerance.
theorem Close.surrounds (h : b.Close t) : (b.relaxed t).Surrounds b := by
  have hgap := le_gap (b := b) h.pos
  have ⟨hcrossed, hordered⟩ := abs_lt.mp h
  have hmiddle : b.middle = 1 / 2 * (b.lower + b.upper) := rfl
  constructor
  case lower => constructor <;> rw [relaxed] <;> linarith
  case upper => constructor <;> rw [relaxed] <;> linarith
  case middle =>
    have hpos := gap_pos (b := b) h.pos
    constructor <;> rw [relaxed] <;> linarith

end FiniteBounds

namespace Relaxer

section

variable {α : Type} [Scalar α] {mask : List Bool} {tolerance l u : α} {xs ys : List α} {i : Nat}

def lowered (tolerance lower upper : α) : α :=
  Scalar.midpoint lower upper -
    Scalar.half * width tolerance (Scalar.midpoint lower upper)

-- The width is lost, so that the next scalar above stands in for the upper bound.
def Collapses (tolerance lower upper : α) : Prop :=
  lowered tolerance lower upper + width tolerance (Scalar.midpoint lower upper) ≤
    lowered tolerance lower upper

instance (tolerance lower upper : α) : Decidable (Collapses tolerance lower upper) :=
  inferInstanceAs (Decidable (_ ≤ _))

theorem widened_eq (tolerance lower upper : α) :
    widened tolerance lower upper = (lowered tolerance lower upper,
      if Collapses tolerance lower upper then Scalar.nextUp (lowered tolerance lower upper)
      else lowered tolerance lower upper + width tolerance (Scalar.midpoint lower upper)) := rfl

theorem length_widenedBounds (hx : xs.length = mask.length) (hy : ys.length = mask.length) :
    (widenedBounds mask tolerance xs ys).length = mask.length := by
  simp [widenedBounds, hx, hy]

theorem getElem?_widenedBounds {b : Bool} (hm : mask[i]? = some b) (hl : xs[i]? = some l)
    (hu : ys[i]? = some u) :
    (widenedBounds mask tolerance xs ys)[i]? =
      some (if b then widened tolerance l u else (l, u)) := by
  have hz : (xs.zip ys)[i]? = some (l, u) := List.getElem?_zip_eq_some.mpr ⟨hl, hu⟩
  rw [widenedBounds, List.getElem?_zipWith, hm, hz]

end

variable {mask : List Bool} {t : Rat} {b : FiniteBounds}

theorem width_finite (t m : Rat) :
    width (.finite t) (.finite m) = Exact.finite (t * max 1 |m|) := by
  have hone : (1 : Exact) = .finite 1 := rfl
  have hmagnitude : Scalar.magnitude (.finite m) = Exact.finite |m| := by
    by_cases h : m < 0
    case pos => simp [Scalar.magnitude, h, abs_of_neg h]
    case neg => simp [Scalar.magnitude, h, abs_of_nonneg (not_lt.mp h)]
  have hlt : Exact.finite |m| < .finite 1 ↔ |m| < 1 := by
    simpa [Exact.lt_def, Exact.isAtMost] using le_of_lt
  have hlarger : Scalar.larger 1 (Scalar.magnitude (.finite m)) = Exact.finite (max 1 |m|) := by
    rw [hmagnitude, hone]
    simp only [Scalar.larger, Scalar.isUndefined, hlt, Bool.false_eq_true, if_false]
    by_cases h : |m| < 1
    case pos => rw [if_pos h, max_eq_left h.le]
    case neg => rw [if_neg h, max_eq_right (not_lt.mp h)]
  rw [width, hlarger]
  rfl

theorem lowered_finite (t : Rat) (b : FiniteBounds) :
    lowered (.finite t) (.finite b.lower) (.finite b.upper) =
      Exact.finite (b.relaxed t).lower := by
  have hsub (p q : Rat) : Exact.finite p - Scalar.half * Exact.finite q =
      .finite (p + -(1 / 2 * q)) := rfl
  rw [lowered, Exact.midpoint_finite, width_finite, hsub, ← sub_eq_add_neg]
  rfl

theorem not_collapses (ht : 0 < t) (b : FiniteBounds) :
    ¬Collapses (.finite t) (.finite b.lower) (.finite b.upper : Exact) := by
  have hgap : (0 : Exact) < .finite (b.gap t) := Exact.finite_pos (FiniteBounds.gap_pos ht)
  rw [Collapses, lowered_finite, Exact.midpoint_finite, width_finite]
  exact Exact.not_add_le hgap

theorem widened_finite (ht : 0 < t) (b : FiniteBounds) :
    widened (.finite t) (.finite b.lower) (.finite b.upper) =
      (Exact.finite (b.relaxed t).lower, Exact.finite (b.relaxed t).upper) := by
  have hupper : (b.relaxed t).lower + b.gap t = (b.relaxed t).upper := by
    rw [← FiniteBounds.width_relaxed]
    ring
  rw [widened_eq, if_neg (not_collapses ht b), lowered_finite, Exact.midpoint_finite, width_finite,
    ← hupper]
  rfl

-- Bounds as a relaxer is handed them. All that the mask picks are finite and close to each other.
structure Given (mask : List Bool) (t : Rat) (bounds : Nat → FiniteBounds) (l u : View)
    (s : Store Exact) : Prop where
  shape_lower : l.shape = [mask.length]
  shape_upper : u.shape = [mask.length]
  valid_lower : s.Valid l
  valid_upper : s.Valid u
  lower : ∀ i ∈ setPositions mask, (s.entries l)[i]? = some (.finite (bounds i).lower)
  upper : ∀ i ∈ setPositions mask, (s.entries u)[i]? = some (.finite (bounds i).upper)
  close : ∀ i ∈ setPositions mask, (bounds i).Close t

-- Bounds that are relaxed without loss. The interval of each masked variable is around both of its
-- bounds and of the width that is asked for and reported, the bounds of the other variables are the
-- same ones, and no array changes but that of the relaxer.
structure Widens (r : Relaxer Exact) (mask : List Bool) (t : Rat) (bounds : Nat → FiniteBounds)
    (l u : View) (s : Store Exact) (l' u' : View) (s' : Store Exact) : Prop where
  run : r.relax l u s = (.ok (l', u'), s')
  shape_lower : l'.shape = [mask.length]
  shape_upper : u'.shape = [mask.length]
  masked : ∀ i ∈ setPositions mask, ∃ b : FiniteBounds,
    (s'.entries l')[i]? = some (.finite b.lower) ∧
    (s'.entries u')[i]? = some (.finite b.upper) ∧
    b.Surrounds (bounds i) ∧ b.upper - b.lower = (bounds i).gap t
  not_collapses : ∀ i ∈ setPositions mask,
    ¬Collapses (.finite t) (.finite (bounds i).lower) (.finite (bounds i).upper : Exact)
  unmasked : ∀ i ∈ clearPositions mask,
    (s'.entries l')[i]? = (s.entries l)[i]? ∧ (s'.entries u')[i]? = (s.entries u)[i]?
  gaps : r.lastGaps s' =
    Tensor.ofList ((setPositions mask).map fun i => .finite ((bounds i).gap t))
  rest : ∀ {k : Nat} {b : Buffer Exact}, s.buffers[k]? = some b → k ≠ r.gaps.buffer →
    s'.buffers[k]? = some b
  feasible : ∀ {threshold : Exact} {xs : List Exact},
    Between threshold (s.entries l) (s.entries u) xs →
      Between threshold (s'.entries l') (s'.entries u') xs

variable {r : Relaxer Exact} {bounds : Nat → FiniteBounds} {l u : View} {s : Store Exact}

namespace Given

variable (h : Given mask t bounds l u s)
include h

theorem length_lower : (s.entries l).length = mask.length :=
  Store.length_entries_of_shape h.valid_lower h.shape_lower

theorem length_upper : (s.entries u).length = mask.length :=
  Store.length_entries_of_shape h.valid_upper h.shape_upper

theorem length_widened :
    (widenedBounds mask (.finite t) (s.entries l) (s.entries u)).length = mask.length :=
  length_widenedBounds h.length_lower h.length_upper

theorem widened_masked (ht : 0 < t) {i : Nat} (hi : i ∈ setPositions mask) :
    (widenedBounds mask (.finite t) (s.entries l) (s.entries u))[i]? =
      some (.finite ((bounds i).relaxed t).lower, .finite ((bounds i).relaxed t).upper) := by
  rw [getElem?_widenedBounds (mem_setPositions.mp hi) (h.lower i hi) (h.upper i hi), if_pos rfl,
    widened_finite ht]

theorem widened_unmasked {i : Nat} (hi : i ∈ clearPositions mask) :
    ∃ x y, (s.entries l)[i]? = some x ∧ (s.entries u)[i]? = some y ∧
      (widenedBounds mask (.finite t) (s.entries l) (s.entries u))[i]? = some (x, y) := by
  have hlt := clearPositions_lt hi
  have hx := List.getElem?_eq_getElem (h.length_lower ▸ hlt)
  have hy := List.getElem?_eq_getElem (h.length_upper ▸ hlt)
  exact ⟨_, _, hx, hy, getElem?_widenedBounds (mem_clearPositions.mp hi) hx hy⟩

theorem widenedGaps_eq (ht : 0 < t) :
    widenedGaps mask (.finite t) (s.entries l) (s.entries u) =
      (setPositions mask).map fun i => .finite ((bounds i).gap t) := by
  have hgather : gather ((s.entries l).zip (s.entries u)) (setPositions mask) =
      (setPositions mask).map fun i => (.finite (bounds i).lower, .finite (bounds i).upper) :=
    gather_eq_map fun i hi => List.getElem?_zip_eq_some.mpr ⟨h.lower i hi, h.upper i hi⟩
  have hsub (p q : Rat) : Exact.finite p - Exact.finite q = .finite (p + -q) := rfl
  rw [widenedGaps, hgather, List.map_map]
  refine List.map_congr_left fun i _ => ?_
  simp only [Function.comp_apply, widened_finite ht, hsub]
  rw [← sub_eq_add_neg, FiniteBounds.width_relaxed]

end Given

theorem widens_of_relaxed {l' u' : View} {s' : Store Exact} (ht : 0 < t) (hm : r.mask = mask)
    (hr : r.tolerance = .finite t) (h : Given mask t bounds l u s)
    (hw : r.Relaxed l u s l' u' s') : r.Widens mask t bounds l u s l' u' s' := by
  subst hm
  have hlower := hr ▸ hw.lower
  have hupper := hr ▸ hw.upper
  have hlength_lower : (s'.entries l').length = r.mask.length := by
    rw [hlower, List.length_map, h.length_widened]
  have hlength_upper : (s'.entries u').length = r.mask.length := by
    rw [hupper, List.length_map, h.length_widened]
  have hmasked {i : Nat} (hi : i ∈ setPositions r.mask) :
      (s'.entries l')[i]? = some (.finite ((bounds i).relaxed t).lower) ∧
        (s'.entries u')[i]? = some (.finite ((bounds i).relaxed t).upper) := by
    simp [hlower, hupper, h.widened_masked ht hi]
  have hunmasked {i : Nat} (hi : i ∈ clearPositions r.mask) :
      (s'.entries l')[i]? = (s.entries l)[i]? ∧ (s'.entries u')[i]? = (s.entries u)[i]? := by
    have ⟨x, y, hx, hy, hxy⟩ := h.widened_unmasked hi
    simp [hlower, hupper, hx, hy, hxy]
  have hsurrounds {i : Nat} (hi : i ∈ setPositions r.mask) := (h.close i hi).surrounds
  constructor
  case run => exact hw.run
  case shape_lower => rw [hw.shape_lower, hlength_lower]
  case shape_upper => rw [hw.shape_upper, hlength_upper]
  case masked =>
    intro i hi
    exact ⟨(bounds i).relaxed t, (hmasked hi).left, (hmasked hi).right, hsurrounds hi,
      FiniteBounds.width_relaxed⟩
  case not_collapses => exact fun i _ => not_collapses ht (bounds i)
  case unmasked => exact fun i hi => hunmasked hi
  case gaps => rw [hw.gaps, hr, h.widenedGaps_eq ht]
  case rest => exact hw.rest
  case feasible =>
    intro threshold xs hxs i
    by_cases hi : i < r.mask.length
    case neg =>
      exact betweenAt_of_no_bounds (by simpa [hlength_lower] using hi)
        (by simpa [hlength_upper] using hi)
    case pos =>
      cases mem_positions_or hi
      case inl hset =>
        have hs := hsurrounds hset
        exact (hxs i).wider (h.lower i hset) (h.upper i hset) (hmasked hset).left
          (hmasked hset).right (Exact.finite_le_finite.mpr hs.lower.left.le)
          (Exact.finite_le_finite.mpr hs.upper.right.le)
      case inr hclear =>
        exact (hxs i).congr (hunmasked hclear).left.symm (hunmasked hclear).right.symm rfl

-- A relaxer with a positive tolerance widens all bounds that it is handed at any later time, if the
-- pairs that its mask picks are closer than the tolerance.
theorem relaxation_widens (mask : List Bool) (ht : 0 < t) (s₀ : Store Exact) :
    ∃ r s₁, create? mask (.finite t) s₀ = some (r, s₁) ∧
      ∀ (bounds : Nat → FiniteBounds) (l u : View) (s : Store Exact),
        s₁.buffers.length ≤ s.buffers.length → Given mask t bounds l u s →
          ∃ l' u' s', r.Widens mask t bounds l u s l' u' s' := by
  have hpos : (0 : Exact) < .finite t := Exact.finite_pos ht
  refine ⟨⟨mask, .finite t, (s₀.alloc (Tensor.ofList [])).1⟩,
    (s₀.alloc (Tensor.ofList [])).2, by rw [create?, if_pos hpos], ?_⟩
  intro bounds l u s hs h
  have hgaps : s₀.buffers.length + 1 ≤ s.buffers.length := by simpa [Store.alloc] using hs
  obtain ⟨l', u', s', hw⟩ := relax_run (r := ⟨mask, .finite t, (s₀.alloc (Tensor.ofList [])).1⟩)
    h.shape_lower h.shape_upper hgaps
  exact ⟨l', u', s', widens_of_relaxed ht rfl rfl h hw⟩

-- The bounds of the first variable cross, and those of the second one are not close to each other.
theorem relaxation_widens_crossed :
    let mask := [true, false, true]
    let bounds : Nat → FiniteBounds := fun i => if i = 0 then ⟨17 / 4, 4⟩ else ⟨-100, -100⟩
    let before : Store Exact := ⟨[⟨[], [0], true⟩]⟩
    let s : Store Exact := ⟨before.buffers ++ [
      ⟨[.finite (17 / 4), .negInfinity, .finite (-100)], [3], true⟩,
      ⟨[.finite 4, .finite 7, .finite (-100)], [3], true⟩]⟩
    ∃ r, create? mask (.finite (1 / 2)) ⟨[]⟩ = some (r, before) ∧
      ∃ l' u' s', r.Widens mask (1 / 2) bounds ⟨1, [3]⟩ ⟨2, [3]⟩ s l' u' s' ∧
        r.lastGaps s' = ⟨[2], [.finite (33 / 16), .finite 50]⟩ := by
  intro mask bounds before s
  have hpos : (0 : Rat) < 1 / 2 := by norm_num
  obtain ⟨r, s₁, hr, hwidens⟩ := relaxation_widens mask hpos ⟨[]⟩
  have hbefore : s₁ = before := by
    rw [create?, if_pos (Exact.finite_pos hpos)] at hr
    exact (congrArg Prod.snd (Option.some.inj hr)).symm
  subst hbefore
  have hgiven : Given mask (1 / 2) bounds ⟨1, [3]⟩ ⟨2, [3]⟩ s := by
    constructor
    case shape_lower | shape_upper => rfl
    case valid_lower | valid_upper => exact ⟨_, rfl, by decide⟩
    case lower | upper | close => decide +kernel
  obtain ⟨l', u', s', h⟩ := hwidens bounds _ _ s (by decide) hgiven
  refine ⟨r, hr, l', u', s', h, ?_⟩
  rw [h.gaps]
  exact congrArg (Tensor.mk [2]) (by decide +kernel)

end Relaxer
end NonlinearProgram
