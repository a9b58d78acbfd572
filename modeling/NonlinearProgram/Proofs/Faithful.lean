import NonlinearProgram.Proofs.Binary64

-- Sums and products of binary64 numbers are rounded to a neighbor of what they would be without
-- rounding. So rounding never takes a result past a number that could be written down exactly.

namespace NonlinearProgram

namespace Binary64

open Float.Model (Format UnpackedFloat totalExponent)
open Float.Model.UnpackedFloat

-- A mantissa that fits, with its leading bit set unless the exponent is the least one. There is no
-- greatest exponent, and the mantissa may be zero.
structure Regular (m : ℕ) (e : ℤ) : Prop where
  lt : m < 2 ^ 53
  least : -1074 ≤ e
  leading : e = -1074 ∨ 2 ^ 52 ≤ m

def OnGrid (q : ℚ) : Prop := ∃ (s : Sign) (m : ℕ) (e : ℤ), Regular m e ∧ q = s.apply m * 2 ^ e

-- No number of the grid lies strictly between what is rounded and what it is rounded to.
structure Faithful (q r : ℚ) : Prop where
  le : ∀ {g}, OnGrid g → g ≤ q → g ≤ r
  ge : ∀ {g}, OnGrid g → q ≤ g → r ≤ g

variable {s t : Sign} {m n k l : ℕ} {e f : ℤ} {q r : ℚ} {u : UnpackedFloat} {x y : Float}

theorem two_zpow_pos (e : ℤ) : (0 : ℚ) < 2 ^ e := zpow_pos two_pos e

theorem two_zpow_add (e : ℤ) (k : ℕ) : (2 : ℚ) ^ (e + k) = 2 ^ k * 2 ^ e := by
  rw [zpow_add₀ two_ne_zero, zpow_natCast, mul_comm]

-- Numbers with one exponent are in the order of their mantissas.
theorem scaled_le_iff : (m : ℚ) * 2 ^ e ≤ n * 2 ^ (e + k) ↔ m ≤ n * 2 ^ k := by
  rw [two_zpow_add, ← mul_assoc, mul_le_mul_iff_left₀ (two_zpow_pos e)]
  exact_mod_cast Iff.rfl

theorem le_scaled_iff : (n : ℚ) * 2 ^ (e + k) ≤ m * 2 ^ e ↔ n * 2 ^ k ≤ m := by
  rw [two_zpow_add, ← mul_assoc, mul_le_mul_iff_left₀ (two_zpow_pos e)]
  exact_mod_cast Iff.rfl

theorem Faithful.refl (q : ℚ) : Faithful q q := ⟨fun _ => id, fun _ => id⟩

theorem OnGrid.neg (h : OnGrid q) : OnGrid (-q) := by
  obtain ⟨s, m, e, hr, rfl⟩ := h
  cases s
  case negative => exact ⟨.positive, m, e, hr, by simp [Sign.apply]⟩
  case positive => exact ⟨.negative, m, e, hr, by simp [Sign.apply]⟩

theorem Faithful.neg (h : Faithful q r) : Faithful (-q) (-r) where
  le hg hq := le_neg.mpr (h.ge hg.neg (le_neg.mp hq))
  ge hg hq := neg_le.mpr (h.le hg.neg (neg_le.mp hq))

-- The grid has no greatest exponent, so it is closed under doubling.
theorem OnGrid.double (h : OnGrid q) : OnGrid (2 * q) := by
  obtain ⟨s, m, e, hr, rfl⟩ := h
  by_cases hm : 2 ^ 52 ≤ m
  case pos =>
    refine ⟨s, m, e + 1, ⟨hr.lt, by have := hr.least; omega, .inr hm⟩, ?_⟩
    rw [zpow_add_one₀ two_ne_zero]
    ring
  case neg =>
    refine ⟨s, 2 * m, e, ⟨by omega, hr.least, .inl (hr.leading.resolve_right hm)⟩, ?_⟩
    cases s <;> simp only [Sign.apply] <;> push_cast <;> ring

theorem negative_nonpos (m : ℕ) (e : ℤ) : ((Sign.negative.apply m : ℤ) : ℚ) * 2 ^ e ≤ 0 := by
  have := two_zpow_pos e
  simp only [Sign.apply, Int.cast_neg, neg_mul, Left.neg_nonpos_iff]
  positivity

-- Below the range of a mantissa that has its leading bit set, there is a finer grid only.
theorem Regular.lt_leading (h : Regular m e) (he : e < f) (hn : 2 ^ 52 ≤ n) :
    (m : ℚ) * 2 ^ e < n * 2 ^ f := by
  calc (m : ℚ) * 2 ^ e < 2 ^ 53 * 2 ^ e :=
        mul_lt_mul_of_pos_right (by exact_mod_cast h.lt) (two_zpow_pos e)
    _ = 2 ^ 52 * 2 ^ (e + 1) := by rw [zpow_add_one₀ two_ne_zero]; ring
    _ ≤ n * 2 ^ f := mul_le_mul (by exact_mod_cast hn) (zpow_le_zpow_right₀ one_le_two he)
        (two_zpow_pos _).le (by positivity)

-- The mantissa `n` of a rounded number, where `m` had `k` bits too many.
structure Rounds (m k : ℕ) (e : ℤ) (n : ℕ) : Prop where
  lower : m / 2 ^ k ≤ n
  upper : n ≤ m / 2 ^ k + 1
  exact : 2 ^ k ∣ m → n = m / 2 ^ k
  least : -1074 ≤ e + k
  leading : e + k = -1074 ∨ 2 ^ 52 ≤ m / 2 ^ k

namespace Rounds

variable (h : Rounds m k e n)

include h

theorem le_value (hl : l * 2 ^ k ≤ m) : l ≤ n :=
  ((Nat.le_div_iff_mul_le (Nat.two_pow_pos k)).mpr hl).trans h.lower

theorem value_le (hl : m ≤ l * 2 ^ k) : n ≤ l := by
  rcases (Nat.div_le_of_le_mul (hl.trans_eq (mul_comm ..))).lt_or_eq with hlt | heq
  case inl => exact h.upper.trans hlt
  case inr =>
    have hm : m = l * 2 ^ k := hl.antisymm (heq ▸ Nat.div_mul_le_self m _)
    rw [h.exact (hm ▸ Nat.dvd_mul_left ..), heq]

theorem regular_le (hg : Regular l f) (hle : (l : ℚ) * 2 ^ f ≤ m * 2 ^ e) :
    (l : ℚ) * 2 ^ f ≤ n * 2 ^ (e + k) := by
  by_cases hf : e + k ≤ f
  case pos =>
    obtain ⟨j, rfl⟩ := Int.le.dest hf
    rw [add_assoc, ← Nat.cast_add, le_scaled_iff, pow_add, mul_comm (2 ^ k), ← mul_assoc] at hle
    exact le_scaled_iff.mpr (h.le_value hle)
  case neg =>
    have hlead := h.leading.resolve_left fun he => hf (he ▸ hg.least)
    exact (hg.lt_leading (not_le.mp hf) (hlead.trans h.lower)).le

theorem le_regular (hg : Regular l f) (hle : (m : ℚ) * 2 ^ e ≤ l * 2 ^ f) :
    (n : ℚ) * 2 ^ (e + k) ≤ l * 2 ^ f := by
  by_cases hf : e + k ≤ f
  case pos =>
    obtain ⟨j, rfl⟩ := Int.le.dest hf
    rw [add_assoc, ← Nat.cast_add, scaled_le_iff, pow_add, mul_comm (2 ^ k), ← mul_assoc] at hle
    exact scaled_le_iff.mpr (h.value_le hle)
  case neg =>
    have hlead := h.leading.resolve_left fun he => hf (he ▸ hg.least)
    have hlt := hg.lt_leading (not_le.mp hf) hlead
    exact absurd ((le_scaled_iff.mpr (Nat.div_mul_le_self m _)).trans hle) hlt.not_ge

theorem faithful (hm : 0 < m) : Faithful (m * 2 ^ e) (n * 2 ^ (e + k)) where
  le := by
    rintro _ ⟨s, l, f, hg, rfl⟩ hle
    cases s
    case negative => exact (negative_nonpos l f).trans (by positivity)
    case positive => exact h.regular_le hg hle
  ge := by
    rintro _ ⟨s, l, f, hg, rfl⟩ hle
    cases s
    case negative =>
      have : (0 : ℚ) < m * 2 ^ e := by positivity
      exact absurd (hle.trans (negative_nonpos l f)) this.not_ge
    case positive => exact h.le_regular hg hle

end Rounds

-- What numbers stand for, if they are finite.
def valueOf : UnpackedFloat → ℚ
  | .finite s m e _ => s.apply m * 2 ^ e
  | _ => 0

def value (x : Float) : ℚ := valueOf x.toModel.unpack

-- The number with the given parts; zero has no exponent.
def assemble (s : Sign) (m : ℕ) (e : ℤ) : UnpackedFloat :=
  if h : m = 0 then .zero s else .finite s m e (Nat.pos_of_ne_zero h)

theorem valueOf_assemble (s : Sign) (m : ℕ) (e : ℤ) :
    valueOf (assemble s m e) = s.apply m * 2 ^ e := by
  rw [assemble]
  split
  case isTrue h => cases s <;> simp [valueOf, h, Sign.apply]
  case isFalse => rfl

theorem mantissa_shift (em : ExtendedMantissa) (k : ℕ) :
    (em >>> k).mantissa = em.mantissa / 2 ^ k := by
  induction k
  case zero => simp [HShiftRight.hShiftRight, Nat.repeat]
  case succ k hi =>
    change (em >>> k).mantissa / 2 = _
    rw [hi, Nat.div_div_eq_div_mul, pow_succ]

-- No bit is lost in what can be divided.
theorem shift_of_dvd (h : 2 ^ k ∣ m) :
    (⟨m, false, false⟩ : ExtendedMantissa) >>> k = ⟨m / 2 ^ k, false, false⟩ := by
  induction k
  case zero => simp [HShiftRight.hShiftRight, Nat.repeat]
  case succ k hi =>
    obtain ⟨l, rfl⟩ := h
    change ((⟨_, false, false⟩ : ExtendedMantissa) >>> k).shiftRightOne = _
    rw [hi ⟨2 * l, by ring⟩, pow_succ, mul_assoc, Nat.mul_div_cancel_left _ (Nat.two_pow_pos k)]
    simp [ExtendedMantissa.shiftRightOne, ← mul_assoc, ← pow_succ]

theorem roundedMantissa_between (em : ExtendedMantissa) :
    em.mantissa ≤ em.roundedMantissa ∧ em.roundedMantissa ≤ em.mantissa + 1 := by
  rcases em with ⟨m, r, s⟩
  cases r <;> cases s <;>
    simp [ExtendedMantissa.roundedMantissa, ExtendedMantissa.accuracy, Accuracy.roundToNearestEven]
  omega

-- How far a mantissa is shifted.
def excess (m : ℕ) (e : ℤ) : ℕ := (max (m.log2 + e - 52) (-1074) - e).toNat

theorem targetExponent_eq (m : ℕ) (e : ℤ) :
    Format.binary64.targetExponent (totalExponent m e) = max (m.log2 + e - 52) (-1074) := by
  simp [Format.targetExponent, totalExponent, Format.mantissaBits, Format.minExponent]
  omega

theorem shiftToTargetExponent_eq (m : ℕ) (e : ℤ) :
    shiftToTargetExponent .binary64 m e .exact =
      ((⟨m, false, false⟩ : ExtendedMantissa) >>> excess m e, e + excess m e) := by
  unfold shiftToTargetExponent
  rw [targetExponent_eq]
  rfl

-- A number that is not too coarse is rounded to the grid.
theorem rounds_excess (hm : 0 < m) (h : 52 ≤ m.log2 ∨ e ≤ -1074) : Rounds m (excess m e) e
    ((⟨m, false, false⟩ : ExtendedMantissa) >>> excess m e).roundedMantissa := by
  have hk : e + excess m e = max (m.log2 + e - 52) (-1074) := by
    simp only [excess]
    omega
  have hb := roundedMantissa_between ((⟨m, false, false⟩ : ExtendedMantissa) >>> excess m e)
  rw [mantissa_shift] at hb
  refine ⟨hb.left, hb.right, fun hd => ?_, by omega, ?_⟩
  case refine_1 => rw [shift_of_dvd hd]; rfl
  case refine_2 =>
    by_cases hlead : e + excess m e = -1074
    case pos => exact .inl hlead
    case neg =>
      have hlog : m.log2 = 52 + excess m e := by omega
      rw [Nat.le_div_iff_mul_le (Nat.two_pow_pos _), ← pow_add, ← hlog]
      exact .inr (Nat.log2_self_le hm.ne')

theorem lt_of_excess (m : ℕ) (e : ℤ) : m / 2 ^ excess m e < 2 ^ 53 := by
  have hk : m.log2 + 1 ≤ 53 + excess m e := by
    simp only [excess]
    omega
  rw [Nat.div_lt_iff_lt_mul (Nat.two_pow_pos _), ← pow_add]
  exact Nat.lt_log2_self.trans_le (Nat.pow_le_pow_right two_pos hk)

-- A mantissa that rounding made too long has but one leading bit.
theorem excess_eq_zero (hn : n < 2 ^ 53) (he : -1074 ≤ e) : excess n e = 0 := by
  have : n.log2 < 53 := by
    by_cases h : n = 0
    case pos => simp [h]
    case neg => exact (Nat.log2_lt h).mpr hn
  simp only [excess]
  omega

-- Numbers on the grid, up to the least that is too great for 64 bits and beyond.
inductive Gridded : UnpackedFloat → Prop
  | zero (s : Sign) : Gridded (.zero s)
  | finite {s : Sign} {m : ℕ} {e : ℤ} (hm : 0 < m) (hr : Regular m e) : Gridded (.finite s m e hm)

theorem gridded_assemble (hr : Regular m e) (s : Sign) : Gridded (assemble s m e) := by
  rw [assemble]
  split
  case isTrue => exact .zero s
  case isFalse h => exact .finite _ hr

-- What becomes of a rational number when it is rounded.
structure RoundsTo (q : ℚ) (u : UnpackedFloat) : Prop where
  gridded : Gridded u
  faithful : Faithful q (valueOf u)

theorem Gridded.rounds (h : Gridded u) : RoundsTo (valueOf u) u := ⟨h, .refl _⟩

theorem RoundsTo.assemble (hr : Regular n f) (hf : Faithful (m * 2 ^ e) (n * 2 ^ f)) (s : Sign) :
    RoundsTo (s.apply m * 2 ^ e) (assemble s n f) := by
  refine ⟨gridded_assemble hr s, ?_⟩
  rw [valueOf_assemble]
  cases s
  case negative => simpa [Sign.apply] using hf.neg
  case positive => exact hf

theorem roundWithAccuracy_rounds (hm : 0 < m) (h : 52 ≤ m.log2 ∨ e ≤ -1074) (s : Sign) :
    RoundsTo (s.apply m * 2 ^ e) (roundWithAccuracy .binary64 s m e .exact) := by
  have hr := rounds_excess hm h
  have hlt := lt_of_excess m e
  have hfaith := hr.faithful hm
  unfold roundWithAccuracy
  rw [shiftToTargetExponent_eq]
  dsimp only
  generalize ((⟨m, false, false⟩ : ExtendedMantissa) >>> excess m e).roundedMantissa = n at *
  rw [shiftToTargetExponent_eq]
  dsimp only
  rw [mantissa_shift]
  by_cases hn : n < 2 ^ 53
  case pos =>
    rw [excess_eq_zero hn hr.least]
    refine .assemble ⟨?_, ?_, ?_⟩ ?_ s
    · simpa using hn
    · simpa using hr.least
    · simpa using hr.leading.imp_right hr.lower.trans'
    · simpa using hfaith
  case neg =>
    have hn : n = 2 ^ 53 := by
      have := hr.upper
      omega
    subst hn
    have hone : excess (2 ^ 53) (e + excess m e) = 1 := by
      have := hr.least
      rw [excess, Nat.log2_two_pow]
      omega
    rw [hone]
    refine .assemble ⟨by norm_num, by have := hr.least; omega, .inr (by norm_num)⟩ ?_ s
    convert hfaith using 1
    rw [Nat.cast_one, zpow_add_one₀ two_ne_zero]
    norm_num
    ring

theorem log2_shiftLeft (hm : 0 < m) (k : ℕ) : (m <<< k).log2 = m.log2 + k := by
  have hm' : m <<< k ≠ 0 := by simp [Nat.shiftLeft_eq, hm.ne']
  rw [Nat.log2_eq_iff hm', Nat.shiftLeft_eq, add_right_comm, pow_add, pow_add]
  exact ⟨Nat.mul_le_mul_right _ (Nat.log2_self_le hm.ne'),
    Nat.mul_lt_mul_of_pos_right Nat.lt_log2_self (Nat.two_pow_pos k)⟩

-- A number that is too coarse for the grid is written with a smaller exponent first.
theorem round_rounds (hm : 0 < m) (s : Sign) :
    RoundsTo (s.apply m * 2 ^ e) (UnpackedFloat.round .binary64 s m e) := by
  unfold UnpackedFloat.round
  rw [targetExponent_eq]
  simp only [decreaseExponent]
  generalize hk : (e - max (m.log2 + e - 52) (-1074)).toNat = k
  have hpos : 0 < m <<< k := by simp [Nat.shiftLeft_eq, hm]
  have hfine : 52 ≤ (m <<< k).log2 ∨ e - k ≤ -1074 := by
    rw [log2_shiftLeft hm]
    omega
  have hpow : (2 : ℚ) ^ e = 2 ^ k * 2 ^ (e - k) := by
    rw [← two_zpow_add, sub_add_cancel]
  convert roundWithAccuracy_rounds hpos hfine s using 1
  rw [hpow, Nat.shiftLeft_eq]
  cases s <;> simp only [Sign.apply] <;> push_cast <;> ring

theorem normalize_rounds (n e : ℤ) (s : Sign) :
    RoundsTo (n * 2 ^ e) (normalize .binary64 n e s) := by
  rw [UnpackedFloat.normalize]
  rcases lt_trichotomy n 0 with hn | rfl | hn
  case inl =>
    have hn' : n = Sign.negative.apply (-n).toNat := by
      simp only [Sign.apply]
      omega
    rw [compare_lt_iff_lt.mpr hn]
    convert round_rounds (m := (-n).toNat) (by omega) .negative using 3
  case inr.inl =>
    rw [Int.cast_zero, zero_mul]
    exact (Gridded.zero s).rounds
  case inr.inr =>
    have hn' : n = Sign.positive.apply n.toNat := by
      simp only [Sign.apply]
      omega
    rw [compare_gt_iff_gt.mpr hn]
    convert round_rounds (m := n.toNat) (by omega) .positive using 3

-- Packing keeps what does not overflow.
theorem Gridded.unpack_pack (hu : Gridded u)
    (h : (UnpackedFloat.unpack .binary64 (pack .binary64 u)).isFinite) :
    UnpackedFloat.unpack .binary64 (pack .binary64 u) = u := by
  cases hu
  case zero s => rw [pack, unpack_packedZero]
  case finite m e hm hr =>
    have := hr.least
    by_cases he : e ≤ 971
    case pos =>
      exact Binary64.unpack_pack (n := ((e + 1074) * 2 ^ 52 + m).toNat) <|
        .finite hm ⟨hr.lt, hr.least, he, hr.leading⟩ (by omega)
    case neg =>
      have hb : Format.binary64.exponentBias = 1023 := rfl
      rw [pack, if_pos (by simp only [hb]; omega), unpack_packedInfinity] at h
      cases h

theorem RoundsTo.faithful_value (hu : RoundsTo q u)
    (hx : x.toModel.unpack = UnpackedFloat.unpack .binary64 (pack .binary64 u)) (h : x.isFinite) :
    Faithful q (value x) := by
  have h : x.toModel.unpack.isFinite := h
  rw [value, hx, hu.gridded.unpack_pack (hx ▸ h)]
  exact hu.faithful

theorem Decodes.gridded (h : Decodes s n u) (hf : u.isFinite) : Gridded u := by
  cases h
  case zero => exact .zero s
  case finite m e hm hc _ => exact .finite hm ⟨hc.1, hc.2.1, hc.2.2.2⟩
  all_goals cases hf

theorem gridded (h : x.isFinite) : Gridded x.toModel.unpack := (decodes x).gridded h

theorem Gridded.onGrid (h : Gridded u) : OnGrid (valueOf u) := by
  cases h
  case zero =>
    refine ⟨.positive, 0, -1074, ⟨by norm_num, le_rfl, .inl rfl⟩, ?_⟩
    simp [valueOf, Sign.apply]
  case finite s m e hm hr => exact ⟨s, m, e, hr, rfl⟩

theorem onGrid (h : x.isFinite) : OnGrid (value x) := (gridded h).onGrid

theorem apply_decreaseExponent (s : Sign) (m : ℕ) (h : f ≤ e) :
    ((s.apply (decreaseExponent m e f).1 : ℤ) : ℚ) * 2 ^ f = s.apply m * 2 ^ e := by
  obtain ⟨k, rfl⟩ := Int.le.dest h
  have hk : (f + k - f).toNat = k := by omega
  rw [two_zpow_add, decreaseExponent, hk, Nat.shiftLeft_eq]
  cases s <;> simp only [Sign.apply] <;> push_cast <;> ring

theorem add_rounds {v : UnpackedFloat} (hu : Gridded u) (hv : Gridded v) :
    RoundsTo (valueOf u + valueOf v) (add .binary64 u v) := by
  have hzero (s : Sign) : valueOf (.zero s) = 0 := rfl
  cases hu <;> cases hv
  case zero.zero s t =>
    rw [hzero, hzero, add_zero, add]
    split <;> exact (Gridded.zero _).rounds
  case zero.finite hm hr =>
    rw [hzero, zero_add]
    exact (Gridded.finite hm hr).rounds
  case finite.zero hm hr _ =>
    rw [hzero, add_zero]
    exact (Gridded.finite hm hr).rounds
  case finite.finite s m e _ _ t n f _ _ =>
    have hr := normalize_rounds (s.apply (decreaseExponent m e (min e f)).1 +
      t.apply (decreaseExponent n f (min e f)).1) (min e f) .positive
    rw [Int.cast_add, add_mul, apply_decreaseExponent s m (min_le_left ..),
      apply_decreaseExponent t n (min_le_right ..)] at hr
    exact hr

theorem half_rounds (hu : Gridded u) :
    RoundsTo (valueOf u / 2) (mul .binary64 (0.5 : Float).toModel.unpack u) := by
  have hf : (0.5 : Float).toModel.unpack = .finite .positive (2 ^ 52) (-53) (by decide) := by rfl
  rw [hf]
  cases hu
  case zero s =>
    have hz : valueOf (.zero s) / 2 = 0 := by simp [valueOf]
    rw [hz]
    exact (Gridded.zero _).rounds
  case finite s m e hm hr =>
    have hlog : (2 ^ 52 * m).log2 = m.log2 + 52 := by
      rw [mul_comm, ← Nat.shiftLeft_eq, log2_shiftLeft hm]
    have hr := roundWithAccuracy_rounds (m := 2 ^ 52 * m) (e := -53 + e) (by positivity)
      (.inl (by omega)) (.positive * s)
    have hv : ((Sign.apply (.positive * s) (2 ^ 52 * m : ℕ) : ℤ) : ℚ) * 2 ^ (-53 + e) =
        valueOf (.finite s m e hm) / 2 := by
      have he : (2 : ℚ) ^ (-53 + e) = 2 ^ e / 2 ^ 53 := by
        rw [zpow_add₀ two_ne_zero, mul_comm]
        rfl
      rw [he]
      cases s <;> simp only [Sign.apply, valueOf] <;> push_cast <;> ring
    exact hv ▸ hr

theorem add_faithful (hx : x.isFinite) (hy : y.isFinite) (h : (x + y).isFinite) :
    Faithful (value x + value y) (value (x + y)) :=
  (add_rounds (gridded hx) (gridded hy)).faithful_value rfl h

theorem half_faithful (hx : x.isFinite) (h : (0.5 * x).isFinite) :
    Faithful (value x / 2) (value (0.5 * x)) :=
  (half_rounds (gridded hx)).faithful_value rfl h

-- Magnitudes are in the order of their parts.
theorem Regular.lt_of_lt (h : Regular m e) (h' : Regular n f)
    (hlt : (e + 1074) * 2 ^ 52 + m < (f + 1074) * 2 ^ 52 + n) : (m : ℚ) * 2 ^ e < n * 2 ^ f := by
  have := h.lt
  have := h.least
  have := h.leading
  have := h'.leading
  rcases lt_trichotomy e f with he | rfl | he
  case inl => exact h.lt_leading he (by omega)
  case inr.inl =>
    have hmn : m < n := by omega
    exact mul_lt_mul_of_pos_right (by exact_mod_cast hmn) (two_zpow_pos e)
  case inr.inr =>
    have := h'.lt
    have := h'.least
    omega

-- The bits `n` of a magnitude stand for `a`.
def StandsFor (n : ℕ) (a : ℚ) : Prop :=
  ∃ (m : ℕ) (e : ℤ), Regular m e ∧ (n : ℤ) = (e + 1074) * 2 ^ 52 + m ∧ a = m * 2 ^ e

namespace StandsFor

variable {a b : ℚ}

theorem zero : StandsFor 0 0 :=
  ⟨0, -1074, ⟨by norm_num, le_rfl, .inl rfl⟩, by norm_num, by norm_num⟩

theorem lt (h : StandsFor n a) (h' : StandsFor k b) (hlt : n < k) : a < b := by
  obtain ⟨m, e, hm, hn, rfl⟩ := h
  obtain ⟨l, f, hl, hk, rfl⟩ := h'
  exact hm.lt_of_lt hl (hn ▸ hk ▸ Int.ofNat_lt.mpr hlt)

theorem eq (h : StandsFor n a) (h' : StandsFor n b) : a = b := by
  obtain ⟨m, e, hm, hn, rfl⟩ := h
  obtain ⟨l, f, hl, hk, rfl⟩ := h'
  have := hm.lt
  have := hl.lt
  have := hm.least
  have := hl.least
  have := hm.leading
  have := hl.leading
  obtain rfl : e = f := by omega
  obtain rfl : m = l := by omega
  rfl

theorem nonneg (h : StandsFor n a) : 0 ≤ a := by
  obtain ⟨m, e, _, _, rfl⟩ := h
  positivity

theorem pos (h : StandsFor n a) (hn : 0 < n) : 0 < a := zero.lt h hn

-- With their signs, too.
theorem apply_lt (h : StandsFor n a) (h' : StandsFor k b) (hlt : s.apply n < t.apply k) :
    (s.apply 1 : ℤ) * a < (t.apply 1 : ℤ) * b := by
  have := h.nonneg
  have := h'.nonneg
  cases s <;> cases t <;> simp only [Sign.apply] at hlt ⊢ <;> push_cast
  case negative.negative => linarith [h'.lt h (by omega)]
  case negative.positive =>
    rcases Nat.eq_zero_or_pos n with rfl | hn
    case inl => linarith [h'.pos (by omega)]
    case inr => linarith [h.pos hn]
  case positive.negative => omega
  case positive.positive => linarith [h.lt h' (by omega)]

theorem apply_eq (h : StandsFor n a) (h' : StandsFor k b) (heq : s.apply n = t.apply k) :
    (s.apply 1 : ℤ) * a = (t.apply 1 : ℤ) * b := by
  cases s <;> cases t <;> simp only [Sign.apply] at heq ⊢
  case negative.negative | positive.positive =>
    obtain rfl : n = k := by omega
    rw [h.eq h']
  all_goals
    obtain ⟨rfl, rfl⟩ : n = 0 ∧ k = 0 := by omega
    rw [h.eq zero, h'.eq zero, mul_zero, mul_zero]

end StandsFor

theorem Decodes.standsFor (h : Decodes s n u) (hf : u.isFinite) :
    ∃ a, StandsFor n a ∧ valueOf u = (s.apply 1 : ℤ) * a := by
  cases h
  case zero h => exact ⟨0, h ▸ .zero, by simp [valueOf]⟩
  case finite m e hm hc hn =>
    refine ⟨_, ⟨m, e, ⟨hc.1, hc.2.1, hc.2.2.2⟩, hn, rfl⟩, ?_⟩
    cases s <;> simp [valueOf, Sign.apply]
  all_goals cases hf

theorem value_lt (hx : x.isFinite) (hy : y.isFinite) (h : rank x < rank y) : value x < value y := by
  obtain ⟨a, ha, hax⟩ := (decodes x).standsFor hx
  obtain ⟨b, hb, hby⟩ := (decodes y).standsFor hy
  rw [value, value, hax, hby]
  exact ha.apply_lt hb h

theorem rank_of_isFinite (h : x.isFinite) : -(2047 * 2 ^ 52) < rank x ∧ rank x < 2047 * 2 ^ 52 := by
  rw [isFinite_iff] at h
  rw [rank]
  cases signOf x <;> simp only [Sign.apply] <;> omega

theorem not_isNaN (h : x.isFinite) : ¬x.isNaN :=
  RoundedScalar.defined_of_finite (α := Float) h

-- Finite numbers are in the order of what they stand for.
theorem le_iff_value_le (hx : x.isFinite) (hy : y.isFinite) : x ≤ y ↔ value x ≤ value y := by
  have hnx := not_isNaN hx
  have hny := not_isNaN hy
  rw [le_iff]
  constructor
  case mp =>
    intro ⟨_, _, h⟩
    rcases h.lt_or_eq with hlt | heq
    case inl => exact (value_lt hx hy hlt).le
    case inr =>
      obtain ⟨a, ha, hax⟩ := (decodes x).standsFor hx
      obtain ⟨b, hb, hby⟩ := (decodes y).standsFor hy
      rw [value, value, hax, hby, ha.apply_eq hb heq]
  case mpr =>
    intro h
    exact ⟨hnx, hny, not_lt.mp fun hlt => (value_lt hy hx hlt).not_ge h⟩

-- A midpoint that does not overflow lies between, though the sum and the half of it are rounded:
-- twice the lower bound is a number of the grid, and so is the lower bound.
theorem midpoint_between (hx : x.isFinite) (hy : y.isFinite) (h : x ≤ y)
    (hm : (Scalar.midpoint x y).isFinite) :
    x ≤ Scalar.midpoint x y ∧ Scalar.midpoint x y ≤ y := by
  have hmid : Scalar.midpoint x y = 0.5 * (x + y) := rfl
  rw [hmid] at hm ⊢
  have hs : (x + y).isFinite := isFinite_of_mul (by decide +kernel) hm
  have hsum := add_faithful hx hy hs
  have hhalf := half_faithful hs hm
  rw [le_iff_value_le hx hy] at h
  rw [le_iff_value_le hx hm, le_iff_value_le hm hy]
  constructor
  case left =>
    apply hhalf.le (onGrid hx)
    linarith [hsum.le (onGrid hx).double (by linarith)]
  case right =>
    apply hhalf.ge (onGrid hy)
    linarith [hsum.ge (onGrid hy).double (by linarith)]

end Binary64

-- Scalars of which a midpoint lies between, unless it overflows.
class CentredScalar (α : Type) [Scalar α] : Prop extends RoundedScalar α where
  finite_zero : Scalar.isFinite (0 : α)
  lt_infinity : ∀ {x : α}, Scalar.isFinite x → x < Scalar.infinity
  negInfinity_lt : ∀ {x : α}, Scalar.isFinite x → Scalar.negInfinity < x
  le_midpoint : ∀ {l u : α}, Scalar.isFinite l → Scalar.isFinite u → l ≤ u →
    Scalar.isFinite (Scalar.midpoint l u) → l ≤ Scalar.midpoint l u
  midpoint_le : ∀ {l u : α}, Scalar.isFinite l → Scalar.isFinite u → l ≤ u →
    Scalar.isFinite (Scalar.midpoint l u) → Scalar.midpoint l u ≤ u

open Binary64 in
instance : CentredScalar Float where
  finite_zero := by decide +kernel
  lt_infinity h := by
    have hi : rank Scalar.infinity = 2047 * 2 ^ 52 := by decide +kernel
    exact lt_iff.mpr ⟨not_isNaN h, by decide +kernel, hi ▸ (rank_of_isFinite h).right⟩
  negInfinity_lt h := by
    have hi : rank Scalar.negInfinity = -(2047 * 2 ^ 52) := by decide +kernel
    exact lt_iff.mpr ⟨by decide +kernel, not_isNaN h, hi ▸ (rank_of_isFinite h).left⟩
  le_midpoint hl hu h hm := (midpoint_between hl hu h hm).left
  midpoint_le hl hu h hm := (midpoint_between hl hu h hm).right

open Exact in
instance : CentredScalar Exact where
  finite_zero := rfl
  lt_infinity {x} h := by
    cases x <;> simp_all [Scalar.isFinite, lt_def, Scalar.infinity, isAtMost]
  negInfinity_lt {x} h := by
    cases x <;> simp_all [Scalar.isFinite, lt_def, Scalar.negInfinity, isAtMost]
  le_midpoint {l u} hl hu h _ := by
    cases l <;> cases hl
    cases u <;> cases hu
    rw [finite_le_finite] at h
    rw [midpoint_finite, finite_le_finite]
    linarith
  midpoint_le {l u} hl hu h _ := by
    cases l <;> cases hl
    cases u <;> cases hu
    rw [finite_le_finite] at h
    rw [midpoint_finite, finite_le_finite]
    linarith

end NonlinearProgram
