import NonlinearProgram.Bounds.Split
import NonlinearProgram.Proofs.Scalar
import NonlinearProgram.Proofs.Transformation

namespace NonlinearProgram

variable {α : Type} [Scalar α] {infinity tolerance l u x : α} {lower upper xs ys : List α}
  {mask : List Bool} {picks : List Nat} {i : Nat}

-- One entry of a point respects those of its bounds that are inside of the threshold.
structure BetweenAt (infinity : α) (lower upper xs : List α) (i : Nat) : Prop where
  lower : ∀ {l x : α}, lower[i]? = some l → xs[i]? = some x → -infinity < l → l ≤ x
  upper : ∀ {u x : α}, upper[i]? = some u → xs[i]? = some x → u < infinity → x ≤ u

-- A point respects all its bounds.
def Between (infinity : α) (lower upper xs : List α) : Prop :=
  ∀ i, BetweenAt infinity lower upper xs i

-- A point respects the bounds that are marked with a one.
structure Respects (lower upper lowerMarks upperMarks xs : List α) : Prop where
  lower : ∀ {i : Nat} {l k x : α}, lower[i]? = some l → lowerMarks[i]? = some k →
    xs[i]? = some x → k == 1 → l ≤ x
  upper : ∀ {i : Nat} {u k x : α}, upper[i]? = some u → upperMarks[i]? = some k →
    xs[i]? = some x → k == 1 → x ≤ u

-- Entries at one and the same position are numerically equal.
def Agree (xs ys : List α) : Prop :=
  ∀ {i : Nat} {x y : α}, xs[i]? = some x → ys[i]? = some y → x == y

theorem betweenAt_of_length_le (h : xs.length ≤ i) : BetweenAt infinity lower upper xs i where
  lower _ hx := by simp [List.getElem?_eq_none h] at hx
  upper _ hx := by simp [List.getElem?_eq_none h] at hx

theorem betweenAt_of_no_bounds (hl : lower.length ≤ i) (hu : upper.length ≤ i) :
    BetweenAt infinity lower upper xs i where
  lower hl' _ := by simp [List.getElem?_eq_none hl] at hl'
  upper hu' _ := by simp [List.getElem?_eq_none hu] at hu'

instance : Decidable (BetweenAt infinity lower upper xs i) :=
  decidable_of_iff
    ((∀ l ∈ lower[i]?, ∀ x ∈ xs[i]?, -infinity < l → l ≤ x) ∧
      ∀ u ∈ upper[i]?, ∀ x ∈ xs[i]?, u < infinity → x ≤ u)
    ⟨fun h => ⟨fun hl hx => h.left _ hl _ hx, fun hu hx => h.right _ hu _ hx⟩,
      fun h => ⟨fun _ hl _ hx => h.lower hl hx, fun _ hu _ hx => h.upper hu hx⟩⟩

instance : Decidable (Between infinity lower upper xs) :=
  decidable_of_iff (∀ i < xs.length, BetweenAt infinity lower upper xs i)
    ⟨fun h i => (Nat.lt_or_ge i xs.length).elim (h i) betweenAt_of_length_le, fun h i _ => h i⟩

theorem BetweenAt.congr {lower' upper' xs' : List α} {k : Nat}
    (h : BetweenAt infinity lower upper xs i) (hl : lower[i]? = lower'[k]?)
    (hu : upper[i]? = upper'[k]?) (hx : xs[i]? = xs'[k]?) :
    BetweenAt infinity lower' upper' xs' k where
  lower hl' hx' := h.lower (hl.trans hl') (hx.trans hx')
  upper hu' hx' := h.upper (hu.trans hu') (hx.trans hx')

theorem BetweenAt.wider [LawfulScalar α] {lower' upper' : List α} {l' u' : α}
    (h : BetweenAt infinity lower upper xs i) (hl : lower[i]? = some l) (hu : upper[i]? = some u)
    (hl' : lower'[i]? = some l') (hu' : upper'[i]? = some u') (hlower : l' ≤ l)
    (hupper : u ≤ u') : BetweenAt infinity lower' upper' xs i where
  lower hk hx hin := by
    cases hl'.symm.trans hk
    exact LawfulScalar.le_trans hlower (h.lower hl hx (LawfulScalar.lt_of_lt_of_le hin hlower))
  upper hk hx hin := by
    cases hu'.symm.trans hk
    exact LawfulScalar.le_trans (h.upper hu hx (LawfulScalar.lt_of_le_of_lt hupper hin)) hupper

-- Gathered entries are between gathered bounds if the entries are at the positions in question.
theorem between_gather (hl : ∀ i ∈ picks, i < lower.length) (hu : ∀ i ∈ picks, i < upper.length)
    (hx : ∀ i ∈ picks, i < xs.length) :
    Between infinity (gather lower picks) (gather upper picks) (gather xs picks) ↔
      ∀ i ∈ picks, BetweenAt infinity lower upper xs i := by
  constructor
  case mp =>
    intro h i hi
    have ⟨k, hk⟩ := List.getElem?_of_mem hi
    exact (h k).congr (getElem?_gather_of hl hk) (getElem?_gather_of hu hk)
      (getElem?_gather_of hx hk)
  case mpr =>
    intro h k
    cases hk : picks[k]?
    case none =>
      apply betweenAt_of_length_le
      rw [length_gather hx]
      exact List.getElem?_eq_none_iff.mp hk
    case some i =>
      exact (h i (List.mem_of_getElem? hk)).congr (getElem?_gather_of hl hk).symm
        (getElem?_gather_of hu hk).symm (getElem?_gather_of hx hk).symm

-- A point is between its bounds if the masked entries are, and the others.
theorem between_iff_positions (hx : xs.length = mask.length) :
    Between infinity lower upper xs ↔
      (∀ i ∈ setPositions mask, BetweenAt infinity lower upper xs i) ∧
        ∀ i ∈ clearPositions mask, BetweenAt infinity lower upper xs i := by
  constructor
  case mp => exact fun h => ⟨fun i _ => h i, fun i _ => h i⟩
  case mpr =>
    intro ⟨hs, hc⟩ i
    by_cases hi : i < mask.length
    case neg => exact betweenAt_of_length_le (by omega)
    case pos => exact (mem_positions_or hi).elim (hs i) (hc i)

theorem between_restrict (hl : lower.length = mask.length) (hu : upper.length = mask.length)
    (hx : xs.length = mask.length) :
    Between infinity (restrict mask lower) (restrict mask upper) (restrict mask xs) ↔
      ∀ i ∈ clearPositions mask, BetweenAt infinity lower upper xs i :=
  between_gather (fun _ hi => hl ▸ clearPositions_lt hi) (fun _ hi => hu ▸ clearPositions_lt hi)
    fun _ hi => hx ▸ clearPositions_lt hi

-- Gathered entries agree if the entries at the positions in question do.
theorem agree_gather (hx : ∀ i ∈ picks, i < xs.length) (hy : ∀ i ∈ picks, i < ys.length) :
    Agree (gather xs picks) (gather ys picks) ↔
      ∀ i ∈ picks, ∀ x y, xs[i]? = some x → ys[i]? = some y → x == y := by
  constructor
  case mp =>
    intro h i hi x y hxi hyi
    have ⟨k, hk⟩ := List.getElem?_of_mem hi
    exact h ((getElem?_gather_of hx hk).trans hxi) ((getElem?_gather_of hy hk).trans hyi)
  case mpr =>
    intro h k x y hxk hyk
    rw [getElem?_gather hx, Option.bind_eq_some_iff] at hxk
    have ⟨i, hk, hxi⟩ := hxk
    exact h i (List.mem_of_getElem? hk) x y hxi ((getElem?_gather_of hy hk).symm.trans hyk)

theorem hasLower_iff : hasLower infinity l ↔ -infinity < l := by simp [hasLower]

theorem hasUpper_iff : hasUpper infinity u ↔ u < infinity := by simp [hasUpper]

section

variable [LawfulScalar α]

theorem indicator_beq_one {present : Bool} : (indicator present : α) == 1 ↔ present := by
  cases present
  case false => simpa [indicator] using LawfulScalar.not_zero_beq_one
  case true => simpa [indicator] using LawfulScalar.one_beq_one

-- The indicators mark the bounds that are inside of the threshold.
theorem respects_indicators :
    Respects lower upper (lower.map fun l => indicator (hasLower infinity l))
      (upper.map fun u => indicator (hasUpper infinity u)) xs ↔
      Between infinity lower upper xs := by
  constructor
  case mp =>
    intro h i
    constructor
    case lower =>
      intro l x hl hx hi
      exact h.lower hl (by rw [List.getElem?_map, hl]; rfl) hx
        (indicator_beq_one.mpr (hasLower_iff.mpr hi))
    case upper =>
      intro u x hu hx hi
      exact h.upper hu (by rw [List.getElem?_map, hu]; rfl) hx
        (indicator_beq_one.mpr (hasUpper_iff.mpr hi))
  case mpr =>
    intro h
    constructor
    case lower =>
      intro i l k x hl hk hx h1
      have hk : indicator (hasLower infinity l) = k := by simpa [hl] using hk
      exact (h i).lower hl hx (hasLower_iff.mp (indicator_beq_one.mp (hk ▸ h1)))
    case upper =>
      intro i u k x hu hk hx h1
      have hk : indicator (hasUpper infinity u) = k := by simpa [hu] using hk
      exact (h i).upper hu hx (hasUpper_iff.mp (indicator_beq_one.mp (hk ▸ h1)))

-- Between equal bounds there is one value only.
theorem betweenAt_of_isEquality (hl : lower[i]? = some l) (hu : upper[i]? = some u)
    (hx : xs[i]? = some x) (h : ConstraintSplit.isEquality infinity l u) :
    BetweenAt infinity lower upper xs i ↔ x == l := by
  simp only [ConstraintSplit.isEquality, Bool.and_eq_true, hasLower_iff, hasUpper_iff] at h
  have ⟨⟨hlu, hi⟩, hi'⟩ := h
  have ⟨hle, hge⟩ := LawfulScalar.beq_iff.mp hlu
  constructor
  case mp =>
    intro h
    exact LawfulScalar.beq_iff.mpr ⟨LawfulScalar.le_trans (h.upper hu hx hi') hge, h.lower hl hx hi⟩
  case mpr =>
    intro h
    have ⟨hxl, hlx⟩ := LawfulScalar.beq_iff.mp h
    constructor
    case lower =>
      intro l' x' hl' hx' _
      cases hl.symm.trans hl'
      cases hx.symm.trans hx'
      exact hlx
    case upper =>
      intro u' x' hu' hx' _
      cases hu.symm.trans hu'
      cases hx.symm.trans hx'
      exact LawfulScalar.le_trans hxl hle

-- Constraints hold if the equalities take the right values and the inequalities hold.
theorem ConstraintSplit.between_ofBounds {types : List Nonlinearity} {split : ConstraintSplit α}
    (h : split = .ofBounds infinity lower upper types) (hl : lower.length = xs.length)
    (hu : upper.length = xs.length) :
    Between infinity lower upper xs ↔ Agree (gather xs split.equalities) split.rhs ∧
      Between infinity split.lower split.upper (gather xs split.inequalities) := by
  have hm : xs.length = (List.zipWith (isEquality infinity) lower upper).length := by
    simp [hl, hu]
  rw [between_iff_positions hm, h]
  refine and_congr ?_ (between_gather ?_ ?_ ?_).symm
  case refine_1 =>
    rw [ofBounds, agree_gather (fun _ hi => hm ▸ setPositions_lt hi)
      fun _ hi => hl ▸ hm ▸ setPositions_lt hi]
    refine forall₂_congr fun i hi => ?_
    have hlt : i < xs.length := hm ▸ setPositions_lt hi
    have hmask := mem_setPositions.mp hi
    rw [List.getElem?_zipWith, List.getElem?_eq_getElem (hl ▸ hlt),
      List.getElem?_eq_getElem (hu ▸ hlt), Option.some_inj] at hmask
    rw [betweenAt_of_isEquality (List.getElem?_eq_getElem (hl ▸ hlt))
      (List.getElem?_eq_getElem (hu ▸ hlt)) (List.getElem?_eq_getElem hlt) hmask]
    simp [hlt, hl]
  case refine_2 => exact fun _ hi => hl ▸ hm ▸ clearPositions_lt hi
  case refine_3 => exact fun _ hi => hu ▸ hm ▸ clearPositions_lt hi
  case refine_4 => exact fun _ hi => hm ▸ clearPositions_lt hi

end

-- A fixed variable is put between its bounds, unless these cross.
theorem midpoint_between [ExactScalar α] (h : isFixed tolerance infinity l u) (hlu : ¬u < l) :
    l ≤ Scalar.midpoint l u ∧ Scalar.midpoint l u ≤ u := by
  simp only [isFixed, Bool.and_eq_true, hasLower_iff, hasUpper_iff] at h
  have ⟨⟨hl, hu⟩, _⟩ := h
  have hdl := (LawfulScalar.defined_of_le (LawfulScalar.le_of_lt hl)).right
  have hdu := (LawfulScalar.defined_of_le (LawfulScalar.le_of_lt hu)).left
  have hle := LawfulScalar.le_of_not_lt hdl hdu hlu
  exact ⟨ExactScalar.le_midpoint hl hle hu, ExactScalar.midpoint_le hl hle hu⟩

theorem eq_midpoint [ExactScalar α] (h : isFixed tolerance infinity l u) (hlu : l == u)
    (hl : l ≤ x) (hu : x ≤ u) : Scalar.midpoint l u = x := by
  have ⟨hle, hul⟩ := LawfulScalar.beq_iff.mp hlu
  have ⟨hlm, hmu⟩ := midpoint_between h fun hlt => LawfulScalar.not_le_of_lt hlt hle
  have hmx := LawfulScalar.le_trans hmu (LawfulScalar.le_trans hul hl)
  have hxm := LawfulScalar.le_trans hu (LawfulScalar.le_trans hul hlm)
  exact ExactScalar.eq_of_beq (LawfulScalar.beq_iff.mpr ⟨hmx, hxm⟩)

end NonlinearProgram
