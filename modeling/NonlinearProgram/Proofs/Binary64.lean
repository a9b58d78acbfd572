import Mathlib
import NonlinearProgram.Proofs.Rounding
import NonlinearProgram.Scalar.Binary64

namespace NonlinearProgram

namespace Binary64

open Float.Model (Format UnpackedFloat)
open Float.Model.UnpackedFloat

-- A mantissa that fits, with its leading bit set unless the exponent is the least one.
def Canonical : UnpackedFloat → Prop
  | .finite _ m e _ => m < 2 ^ 53 ∧ -1074 ≤ e ∧ e ≤ 971 ∧ (e = -1074 ∨ 2 ^ 52 ≤ m)
  | _ => True

-- What the sign and the other bits of a number stand for.
inductive Decodes (s : Sign) (n : Nat) : UnpackedFloat → Prop
  | zero (h : n = 0) : Decodes s n (.zero s)
  | finite {m : Nat} {e : Int} (hm : 0 < m) (hc : Canonical (.finite s m e hm))
      (hn : (n : Int) = (e + 1074) * 2 ^ 52 + m) : Decodes s n (.finite s m e hm)
  | infinity (h : n = 2047 * 2 ^ 52) : Decodes s n (.infinity s)
  | notANumber (h : 2047 * 2 ^ 52 < n) : Decodes s n .notANumber

variable {b : BitVec 64} {u v : UnpackedFloat}

theorem toNat_unpackMantissa (b : BitVec 64) :
    (@unpackMantissa .binary64 b).toNat = b.toNat % 2 ^ 52 := by
  simp [unpackMantissa]

theorem toNat_unpackExponent (b : BitVec 64) :
    (@unpackExponent .binary64 b).toNat = b.toNat / 2 ^ 52 % 2 ^ 11 := by
  simp [unpackExponent, Nat.shiftRight_eq_div_pow]

theorem toNat_unpackSign (b : BitVec 64) :
    (@unpackSign .binary64 b).toNat = b.toNat / 2 ^ 63 := by
  simp [unpackSign, Nat.shiftRight_eq_div_pow]
  have := b.isLt
  omega

theorem toNat_normalMantissa (m : BitVec 52) : (1#1 ++ m).toNat = 2 ^ 52 + m.toNat := by
  rw [BitVec.toNat_append, ← Nat.shiftLeft_add_eq_or_of_lt m.isLt]
  rfl

theorem decodes_unpack (b : BitVec 64) :
    Decodes (Sign.ofBitVec (@unpackSign .binary64 b)) (b.toNat % 2 ^ 63)
      (UnpackedFloat.unpack .binary64 b) := by
  have hm := toNat_unpackMantissa b
  have he := toNat_unpackExponent b
  have hb : Format.binary64.exponentBias = 1023 := rfl
  unfold UnpackedFloat.unpack
  simp only [← BitVec.toNat_inj, he, hm, hb, BitVec.neg_one_eq_allOnes, BitVec.toNat_allOnes,
    BitVec.toNat_ofNat, toNat_normalMantissa]
  split
  case isTrue =>
    split
    case isTrue => exact .infinity (by omega)
    case isFalse => exact .notANumber (by omega)
  case isFalse =>
    split
    case isTrue h0 =>
      split
      case isTrue => exact .zero (by omega)
      case isFalse =>
        refine .finite _ ?_ ?_
        · simp only [Canonical, h0]
          omega
        · rw [h0]
          omega
    case isFalse =>
      refine .finite _ ?_ ?_
      · simp only [Canonical]
        omega
      · omega

theorem unpackSign_packComponents {spec : Format} (s : Sign) (e : BitVec spec.exponentBits)
    (m : BitVec spec.mantissaBitsWithoutImplicit) :
    Sign.ofBitVec (unpackSign (packComponents spec s e m)) = s := by
  have h : unpackSign (packComponents spec s e m) = s.toBitVec := by
    ext i hi
    cases Nat.lt_one_iff.mp hi
    simp [unpackSign, packComponents, BitVec.getLsbD_append, BitVec.getElem_append]
  rw [h]
  cases s <;> rfl

theorem unpack_packComponents (s : Sign) (e : BitVec 11) (m : BitVec 52) :
    Decodes s (e.toNat * 2 ^ 52 + m.toNat)
      (UnpackedFloat.unpack .binary64 (packComponents .binary64 s e m)) := by
  have h := decodes_unpack (packComponents .binary64 s e m)
  rw [unpackSign_packComponents] at h
  have hm := toNat_unpackMantissa (packComponents .binary64 s e m)
  have he := toNat_unpackExponent (packComponents .binary64 s e m)
  rw [unpackMantissa_packComponents] at hm
  rw [unpackExponent_packComponents] at he
  have : (packComponents .binary64 s e m).toNat % 2 ^ 63 = e.toNat * 2 ^ 52 + m.toNat := by
    rw [hm, he]
    omega
  rwa [this] at h

-- A sign and a magnitude make one number only.
theorem Decodes.unique {s : Sign} {n : Nat} (h : Decodes s n u) (h' : Decodes s n v) : u = v := by
  cases h <;> cases h'
  case finite.finite m e hm hc hn m' e' hm' hc' hn' =>
    simp only [Canonical] at hc hc'
    have he : e = e' := by omega
    have hmm : m = m' := by omega
    subst he hmm
    rfl
  all_goals first | rfl | (simp only [Canonical] at *; omega) | omega

-- A number is packed into its sign and its magnitude.
theorem unpack_pack {s : Sign} {n : Nat} (h : Decodes s n u) :
    UnpackedFloat.unpack .binary64 (pack .binary64 u) = u := by
  refine Decodes.unique (s := s) (n := n) ?_ h
  cases h
  case zero h => exact h ▸ unpack_packComponents s 0#11 0#52
  case infinity h =>
    refine (?_ : n = _) ▸ unpack_packComponents s (-1#11) 0#52
    rw [h]
    decide
  case notANumber h => exact .notANumber h
  case finite m e hm hc hn =>
    have ⟨hlt, hle, hge, hc⟩ := hc
    have hb : Format.binary64.exponentBias = 1023 := rfl
    have hmb : Format.binary64.mantissaBits = 53 := rfl
    unfold pack
    simp only [hb, hmb]
    rw [if_neg (by omega)]
    split
    case isTrue hlog =>
      have := (Nat.log2_eq_iff (by omega)).mp (show m.log2 = 52 by omega)
      refine (?_ : n = _) ▸ unpack_packComponents s _ _
      simp only [BitVec.toNat_ofNat]
      omega
    case isFalse hlog =>
      have : m < 2 ^ 52 := by
        refine Decidable.byContradiction fun h => hlog ?_
        have := (Nat.log2_eq_iff (n := m) (k := 52) (by omega)).mpr (by omega)
        omega
      refine (?_ : n = _) ▸ unpack_packComponents s _ _
      simp only [BitVec.toNat_ofNat]
      omega

variable {s t : Sign} {n k : Nat} {x y : Float}

theorem Decodes.isNaN (h : Decodes s n u) : u.isNaN ↔ 2047 * 2 ^ 52 < n := by
  cases h
  case finite m e hm hc hn =>
    simp only [Canonical] at hc
    simp [UnpackedFloat.isNaN]
    omega
  all_goals simp_all [UnpackedFloat.isNaN]

theorem Decodes.isFinite (h : Decodes s n u) : u.isFinite ↔ n < 2047 * 2 ^ 52 := by
  cases h
  case finite m e hm hc hn =>
    simp only [Canonical] at hc
    simp [UnpackedFloat.isFinite]
    omega
  case notANumber =>
    simp [UnpackedFloat.isFinite]
    omega
  all_goals simp_all [UnpackedFloat.isFinite]

-- Numbers with different exponents are in the order of these.
theorem compare_then {m m' : Nat} {e e' : Int} {hm : 0 < m} {hm' : 0 < m'}
    (h : Canonical (.finite s m e hm)) (h' : Canonical (.finite t m' e' hm')) :
    (compare e e').then (compare m m') =
      compare ((e + 1074) * 2 ^ 52 + (m : Int)) ((e' + 1074) * 2 ^ 52 + (m' : Int)) := by
  simp only [Canonical] at h h'
  simp only [compare, compareOfLessAndEq]
  split_ifs <;> first | rfl | omega

theorem Canonical.between {m : Nat} {e : Int} {hm : 0 < m} (h : Canonical (.finite s m e hm)) :
    0 < (e + 1074) * 2 ^ 52 + (m : Int) ∧ (e + 1074) * 2 ^ 52 + (m : Int) < 2047 * 2 ^ 52 := by
  simp only [Canonical] at h
  omega

-- Numbers are in the order of their signed magnitudes.
theorem compare_eq (hu : Decodes s n u) (hv : Decodes t k v) (hn : n ≤ 2047 * 2 ^ 52)
    (hk : k ≤ 2047 * 2 ^ 52) : u.compare v = some (compare (s.apply n) (t.apply k)) := by
  cases hu
  case notANumber => omega
  all_goals cases hv
  case zero.notANumber | finite.notANumber | infinity.notANumber => omega
  case zero.zero | zero.infinity | infinity.zero | infinity.infinity =>
    subst n k
    cases s <;> cases t <;> rfl
  case finite.finite hc hn _ _ _ hc' hn' =>
    have := hc.between
    have := hc'.between
    rw [hn, hn']
    cases s <;> cases t <;> simp only [UnpackedFloat.compare, compare_then hc hc', Sign.apply] <;>
      simp only [compare, compareOfLessAndEq] <;> split_ifs <;> first | rfl | omega
  case zero.finite h _ _ _ hc hn | infinity.finite h _ _ _ hc hn =>
    have := hc.between
    rw [h, hn]
    cases s <;> cases t <;> simp only [UnpackedFloat.compare, Sign.apply] <;>
      simp only [compare, compareOfLessAndEq] <;> split_ifs <;> first | rfl | omega
  case finite.zero hc hn h | finite.infinity hc hn h =>
    have := hc.between
    rw [h, hn]
    cases s <;> cases t <;> simp only [UnpackedFloat.compare, Sign.apply] <;>
      simp only [compare, compareOfLessAndEq] <;> split_ifs <;> first | rfl | omega

theorem compare_of_notANumber (hu : Decodes s n u) (hv : Decodes t k v)
    (h : 2047 * 2 ^ 52 < n ∨ 2047 * 2 ^ 52 < k) : u.compare v = none := by
  cases h
  case inl h =>
    have hnan := hu.isNaN.mpr h
    cases u <;> first | rfl | cases hnan
  case inr h =>
    have hnan := hv.isNaN.mpr h
    cases u <;> cases v <;> first | rfl | cases hnan

-- The sign and the other bits of a number.
def signOf (x : Float) : Sign := Sign.ofBitVec (@unpackSign .binary64 x.toBits.toBitVec)

def magnitudeOf (x : Float) : Nat := x.toBits.toBitVec.toNat % 2 ^ 63

def rank (x : Float) : Int := (signOf x).apply (magnitudeOf x)

theorem decodes (x : Float) : Decodes (signOf x) (magnitudeOf x) x.toModel.unpack :=
  decodes_unpack x.toBits.toBitVec

theorem compare_toModel (x y : Float) :
    x.toModel.unpack.compare y.toModel.unpack =
      if magnitudeOf x ≤ 2047 * 2 ^ 52 ∧ magnitudeOf y ≤ 2047 * 2 ^ 52 then
        some (compare (rank x) (rank y))
      else none := by
  split
  case isTrue h => exact compare_eq (decodes x) (decodes y) h.left h.right
  case isFalse h => exact compare_of_notANumber (decodes x) (decodes y) (by omega)

theorem isNaN_iff : x.isNaN ↔ 2047 * 2 ^ 52 < magnitudeOf x := (decodes x).isNaN

theorem isFinite_iff : x.isFinite ↔ magnitudeOf x < 2047 * 2 ^ 52 := (decodes x).isFinite

theorem le_iff : x ≤ y ↔ ¬x.isNaN ∧ ¬y.isNaN ∧ rank x ≤ rank y := by
  have hd : x ≤ y ↔ (x.toModel.unpack.compare y.toModel.unpack).any (·.isLE) := decide_eq_true_iff
  rw [hd, compare_toModel, isNaN_iff, isNaN_iff]
  split
  case isTrue => simp [Ordering.isLE_iff_ne_gt, compare_le_iff_le]; omega
  case isFalse => simp; omega

theorem lt_iff : x < y ↔ ¬x.isNaN ∧ ¬y.isNaN ∧ rank x < rank y := by
  have hd : x < y ↔ x.toModel.unpack.compare y.toModel.unpack == some .lt := decide_eq_true_iff
  rw [hd, compare_toModel, isNaN_iff, isNaN_iff]
  split
  case isTrue => simp [compare_lt_iff_lt]; omega
  case isFalse => simp; omega

theorem beq_iff : x == y ↔ ¬x.isNaN ∧ ¬y.isNaN ∧ rank x = rank y := by
  have hd : (x == y) = (x.toModel.unpack.compare y.toModel.unpack == some .eq) := rfl
  rw [hd, compare_toModel, isNaN_iff, isNaN_iff]
  split
  case isTrue => simp; omega
  case isFalse => simp; omega

-- The sign of what is not undefined.
def sign? : UnpackedFloat → Option Sign
  | .notANumber => none
  | .zero s | .infinity s | .finite s _ _ _ => some s

theorem Decodes.sign? (h : Decodes s n u) (hn : n ≤ 2047 * 2 ^ 52) : sign? u = some s := by
  cases h
  case notANumber => omega
  all_goals rfl

theorem sign?_packComponents (s : Sign) {e : BitVec 11} (he : e.toNat < 2047) (m : BitVec 52) :
    sign? (UnpackedFloat.unpack .binary64 (packComponents .binary64 s e m)) = some s := by
  refine (unpack_packComponents s e m).sign? ?_
  have := m.isLt
  omega

theorem unpack_packedInfinity (s : Sign) :
    UnpackedFloat.unpack .binary64 (packedInfinity .binary64 s) = .infinity s := by
  have h : Decodes s _ (.infinity s) := .infinity rfl
  simpa only [pack] using unpack_pack h

theorem unpack_packedZero (s : Sign) :
    UnpackedFloat.unpack .binary64 (packedZero .binary64 s) = .zero s := by
  have h : Decodes s _ (.zero s) := .zero rfl
  simpa only [pack] using unpack_pack h

-- Packing keeps the sign, whatever becomes of the magnitude.
theorem sign?_unpack_pack (u : UnpackedFloat) :
    sign? (UnpackedFloat.unpack .binary64 (pack .binary64 u)) = sign? u := by
  cases u
  case notANumber => rfl
  case zero s => rw [pack, unpack_packedZero]
  case infinity s => rw [pack, unpack_packedInfinity]
  case finite s m e hm =>
    rw [pack]
    split
    case isTrue =>
      rw [unpack_packedInfinity]
      rfl
    case isFalse h =>
      have hb : 2 ^ Format.binary64.exponentBits = 2048 := rfl
      split
      case isTrue =>
        refine sign?_packComponents s ?_ _
        rw [BitVec.toNat_ofNat]
        omega
      case isFalse => exact sign?_packComponents s (by simp) _

theorem sign?_roundWithAccuracy (spec : Format) (s : Sign) (m : Nat) (e : Int) (a : Accuracy) :
    sign? (roundWithAccuracy spec s m e a) = some s := by
  simp only [roundWithAccuracy]
  split <;> rfl

theorem sign?_normalize {spec : Format} {m e : Int} (h : m < 0) :
    sign? (normalize spec m e .positive) = some .negative := by
  rw [UnpackedFloat.normalize, compare_lt_iff_lt.mpr h]
  exact sign?_roundWithAccuracy ..

theorem isSome_sign?_normalize (spec : Format) (m e : Int) (z : Sign) :
    (sign? (normalize spec m e z)).isSome := by
  rw [UnpackedFloat.normalize]
  split
  case h_2 => rfl
  all_goals exact congrArg Option.isSome (sign?_roundWithAccuracy ..)

-- Mantissas with one exponent are in the order of the magnitudes.
theorem mantissa_le {m m' : Nat} {e e' : Int} {hm : 0 < m} {hm' : 0 < m'}
    (h : Canonical (.finite s m e hm)) (h' : Canonical (.finite t m' e' hm'))
    (hle : (e + 1074) * 2 ^ 52 + (m : Int) ≤ (e' + 1074) * 2 ^ 52 + (m' : Int)) :
    (decreaseExponent m e (min e e')).1 ≤ (decreaseExponent m' e' (min e e')).1 := by
  simp only [Canonical] at h h'
  have hee : e ≤ e' := by omega
  simp only [decreaseExponent, Nat.shiftLeft_eq, min_eq_left hee, Int.sub_self, Int.toNat_zero]
  cases hee.eq_or_lt
  case inl he =>
    subst he
    simp
    omega
  case inr he =>
    have h2 : 2 ^ 1 ≤ 2 ^ (e' - e).toNat := Nat.pow_le_pow_right (by omega) (by omega)
    calc m * 2 ^ 0 ≤ m' * 2 ^ 1 := by omega
      _ ≤ m' * 2 ^ (e' - e).toNat := Nat.mul_le_mul_left _ h2

-- A difference of finite numbers is zero or negative if they are ordered.
theorem sub_finite {m m' : Nat} {e e' : Int} {hm : 0 < m} {hm' : 0 < m'}
    (h : Canonical (.finite s m e hm)) (h' : Canonical (.finite t m' e' hm'))
    (hle : s.apply ((e + 1074) * 2 ^ 52 + m) ≤ t.apply ((e' + 1074) * 2 ^ 52 + m')) :
    sub .binary64 (.finite s m e hm) (.finite t m' e' hm') = .zero .positive ∨
      sign? (sub .binary64 (.finite s m e hm) (.finite t m' e' hm')) = some .negative := by
  have hmin : min e' e = min e e' := min_comm ..
  have hle : s.apply (decreaseExponent m e (min e e')).1 ≤
      t.apply (decreaseExponent m' e' (min e e')).1 := by
    have := h.between
    have := h'.between
    cases s <;> cases t <;> simp only [Sign.apply] at hle ⊢
    case negative.negative =>
      have := mantissa_le h' h (by omega)
      rw [hmin] at this
      omega
    case negative.positive => omega
    case positive.negative => omega
    case positive.positive =>
      have := mantissa_le h h' hle
      omega
  simp only [sub]
  cases hle.eq_or_lt
  case inl heq =>
    left
    rw [heq, Int.sub_self]
    rfl
  case inr hlt => exact .inr (sign?_normalize (by omega))

theorem sub_signed (hu : Decodes s n u) (hv : Decodes t k v) (hn : n ≤ 2047 * 2 ^ 52)
    (hk : k ≤ 2047 * 2 ^ 52) (hle : s.apply n ≤ t.apply k) (hlt : s.apply n < 2047 * 2 ^ 52)
    (hgt : -(2047 * 2 ^ 52) < t.apply k) :
    (∃ r, sub .binary64 u v = .zero r) ∨ sign? (sub .binary64 u v) = some .negative := by
  cases hu
  case notANumber => omega
  all_goals cases hv
  case zero.notANumber | finite.notANumber | infinity.notANumber => omega
  case finite.finite hc hn _ _ _ hc' hn' =>
    rw [hn, hn'] at hle
    exact (sub_finite hc hc' hle).imp_left fun h => ⟨_, h⟩
  case zero.zero => 
    rw [sub]
    split <;> exact .inl ⟨_, rfl⟩
  case zero.infinity | infinity.zero | infinity.infinity  =>
    subst n k
    cases s <;> cases t <;> simp [Sign.apply] at hle hlt hgt <;> exact .inr rfl
  case zero.finite hc hn | infinity.finite hc hn =>
    have := hc.between
    cases s <;> cases t <;> simp only [Sign.apply] at hle hlt hgt <;> first | exact .inr rfl | omega
  case finite.zero hc hn _ | finite.infinity hc hn _ =>
    have := hc.between
    cases s <;> cases t <;> simp only [Sign.apply] at hle hlt hgt <;> first | exact .inr rfl | omega

theorem Decodes.eq_and_eq (h : Decodes s n u) (h' : Decodes t k u) (hn : n ≤ 2047 * 2 ^ 52) :
    s = t ∧ n = k := by
  cases h <;> cases h' <;> first | omega | exact ⟨rfl, by omega⟩

-- The bits of a number as a position among all numbers, counted from zero.
def rankOfBits (w : Nat) : Int := if w < 2 ^ 63 then w else 2 ^ 63 - w

theorem apply_eq_rankOfBits (b : BitVec 64) :
    (Sign.ofBitVec (@unpackSign .binary64 b)).apply ((b.toNat % 2 ^ 63 : Nat) : Int) =
      rankOfBits b.toNat := by
  have := b.isLt
  have hs : @unpackSign .binary64 b = 0#1 ↔ b.toNat < 2 ^ 63 := by
    rw [← BitVec.toNat_inj, toNat_unpackSign, BitVec.toNat_ofNat]
    omega
  simp only [Sign.ofBitVec, rankOfBits, hs]
  split_ifs <;> simp only [Sign.apply] <;> omega

theorem rank_eq (x : Float) : rank x = rankOfBits x.toBits.toNat :=
  apply_eq_rankOfBits x.toBits.toBitVec

theorem unpack_ofBits (w : UInt64) :
    (Float.ofBits w).toModel.unpack = UnpackedFloat.unpack .binary64 w.toBitVec :=
  unpack_pack (decodes_unpack w.toBitVec)

-- Bits that are those of a number.
theorem rank_ofBits {w : UInt64} (h : w.toNat % 2 ^ 63 ≤ 2047 * 2 ^ 52) :
    ¬(Float.ofBits w).isNaN ∧ rank (Float.ofBits w) = rankOfBits w.toNat := by
  have hd := decodes_unpack w.toBitVec
  rw [← unpack_ofBits] at hd
  have ⟨hs, hm⟩ := hd.eq_and_eq (decodes _) h
  constructor
  · rw [isNaN_iff, ← hm]
    exact Nat.not_lt.mpr h
  · rw [rank, ← hs, ← hm]
    exact apply_eq_rankOfBits w.toBitVec

-- The next number is one step up, as long as there is one.
theorem rank_nextUp (hx : ¬x.isNaN) (hr : rank x < 2047 * 2 ^ 52) :
    ¬(binary64NextUp x).isNaN ∧ rank (binary64NextUp x) = rank x + 1 := by
  have hm : x.toBits.toNat % 2 ^ 63 ≤ 2047 * 2 ^ 52 := Nat.not_lt.mp fun h => hx (isNaN_iff.mpr h)
  have hlt := x.toBits.toNat_lt
  have h0 : UInt64.toNat 0x8000000000000000 = 2 ^ 63 := rfl
  have hi : UInt64.toNat 0x7ff0000000000000 = 2047 * 2 ^ 52 := rfl
  rw [rank_eq x] at hr ⊢
  simp only [rankOfBits] at hr
  unfold binary64NextUp
  simp only [hx, ← UInt64.toNat_inj, UInt64.lt_iff_toNat_lt, h0, hi, Bool.false_eq_true, if_false]
  split
  case isTrue h =>
    have ⟨hn, hr⟩ := rank_ofBits (w := 1) (by decide)
    exact ⟨hn, by rw [hr, h]; decide⟩
  case isFalse =>
    split
    case isTrue => omega
    case isFalse =>
      split
      case isTrue h =>
        have hw : (x.toBits + 1).toNat = x.toBits.toNat + 1 := by
          rw [UInt64.toNat_add]
          exact Nat.mod_eq_of_lt (by simp; omega)
        have ⟨hn, hr⟩ := rank_ofBits (w := x.toBits + 1) (by omega)
        refine ⟨hn, ?_⟩
        rw [hr, hw, rankOfBits, rankOfBits]
        omega
      case isFalse h =>
        have hw : (x.toBits - 1).toNat = x.toBits.toNat - 1 := by
          rw [UInt64.toNat_sub_of_le]
          · rfl
          · rw [UInt64.le_iff_toNat_le]; simp; omega
        have ⟨hn, hr⟩ := rank_ofBits (w := x.toBits - 1) (by omega)
        refine ⟨hn, ?_⟩
        rw [hr, hw, rankOfBits, rankOfBits]
        omega

theorem isNaN_eq (u : UnpackedFloat) : u.isNaN = (sign? u).isNone := by
  cases u <;> rfl

theorem isNaN_unpack_pack (u : UnpackedFloat) :
    (UnpackedFloat.unpack .binary64 (pack .binary64 u)).isNaN = u.isNaN := by
  rw [isNaN_eq, sign?_unpack_pack, isNaN_eq]

theorem isNaN_normalize (spec : Format) (m e : Int) (z : Sign) :
    (normalize spec m e z).isNaN = false := by
  rw [isNaN_eq, ← Option.not_isSome, isSome_sign?_normalize]
  rfl

theorem add_defined (hx : ¬x.isNaN) (hy : y.isFinite) : ¬(x + y).isNaN := by
  have h : (x + y).isNaN = (add .binary64 x.toModel.unpack y.toModel.unpack).isNaN :=
    isNaN_unpack_pack _
  have hx : ¬x.toModel.unpack.isNaN := hx
  have hy : y.toModel.unpack.isFinite := hy
  rw [h]
  generalize x.toModel.unpack = u at hx
  generalize y.toModel.unpack = v at hy
  cases u <;> cases v
  case finite.finite => simp [add, isNaN_normalize]
  case zero.zero => simp only [add]; split <;> simp [UnpackedFloat.isNaN]
  all_goals simp_all [UnpackedFloat.isNaN, UnpackedFloat.isFinite, add]

theorem sub_defined (hx : x.isFinite) (hy : ¬y.isNaN) : ¬(x - y).isNaN := by
  have h : (x - y).isNaN = (sub .binary64 x.toModel.unpack y.toModel.unpack).isNaN :=
    isNaN_unpack_pack _
  have hx : x.toModel.unpack.isFinite := hx
  have hy : ¬y.toModel.unpack.isNaN := hy
  rw [h]
  generalize x.toModel.unpack = u at hx
  generalize y.toModel.unpack = v at hy
  cases u <;> cases v
  case finite.finite => simp [sub, isNaN_normalize]
  case zero.zero => simp only [sub]; split <;> simp [UnpackedFloat.isNaN]
  all_goals simp_all [UnpackedFloat.isNaN, UnpackedFloat.isFinite, sub]

theorem mul_defined (hx : x.isFinite) (hy : y.isFinite) : ¬(x * y).isNaN := by
  have h : (x * y).isNaN = (mul .binary64 x.toModel.unpack y.toModel.unpack).isNaN :=
    isNaN_unpack_pack _
  have hx : x.toModel.unpack.isFinite := hx
  have hy : y.toModel.unpack.isFinite := hy
  rw [h]
  generalize x.toModel.unpack = u at hx
  generalize y.toModel.unpack = v at hy
  cases u <;> cases v
  case finite.finite => simp [mul, isNaN_eq, sign?_roundWithAccuracy]
  all_goals simp_all [UnpackedFloat.isNaN, UnpackedFloat.isFinite, mul]

theorem nonpos_of_signed (h : (∃ r, u = .zero r) ∨ sign? u = some .negative) :
    (UnpackedFloat.unpack .binary64 (pack .binary64 u)).le (.zero .positive) := by
  cases h
  case inl h =>
    have ⟨r, h⟩ := h
    subst h
    rw [pack, unpack_packedZero]
    rfl
  case inr h =>
    rw [← sign?_unpack_pack u] at h
    generalize UnpackedFloat.unpack .binary64 (pack .binary64 u) = v at h
    cases v <;> cases h <;> rfl

theorem rank_between (hx : ¬x.isNaN) :
    -(2047 * 2 ^ 52) ≤ rank x ∧ rank x ≤ 2047 * 2 ^ 52 := by
  rw [isNaN_iff] at hx
  rw [rank]
  cases signOf x <;> simp only [Sign.apply] <;> omega

theorem isFinite_of_between {a b : Float} (ha : a < x) (hb : x < b) : x.isFinite := by
  rw [lt_iff] at ha hb
  have := rank_between ha.left
  have := rank_between hb.right.left
  have hr : rank x = (signOf x).apply (magnitudeOf x) := rfl
  rw [isFinite_iff]
  cases hs : signOf x <;> simp only [hs, Sign.apply] at hr <;> omega

theorem sub_nonpos {a b : Float} (hb : x < b) (ha : a < y) (h : a ≤ b) : a - b ≤ 0 := by
  rw [lt_iff] at ha hb
  rw [le_iff] at h
  have hx := rank_between hb.left
  have hy := rank_between ha.right.left
  have hna : magnitudeOf a ≤ 2047 * 2 ^ 52 := Nat.not_lt.mp fun hn => h.left (isNaN_iff.mpr hn)
  have hnb : magnitudeOf b ≤ 2047 * 2 ^ 52 :=
    Nat.not_lt.mp fun hn => h.right.left (isNaN_iff.mpr hn)
  have hs := sub_signed (decodes a) (decodes b) hna hnb h.right.right
    (show rank a < _ by omega) (show _ < rank b by omega)
  have hle : (a - b).toModel.unpack.le (0 : Float).toModel.unpack := nonpos_of_signed hs
  exact decide_eq_true hle

-- What is not finite is infinite or undefined.
theorem not_isFinite_cases (h : ¬x.isFinite) :
    x.toModel.unpack = .notANumber ∨ ∃ s, x.toModel.unpack = .infinity s := by
  have h : ¬x.toModel.unpack.isFinite := h
  cases hu : x.toModel.unpack <;> simp_all [UnpackedFloat.isFinite]

theorem isFinite_of_mul {t b : Float} (ht : 0 < t) (h : (t * b).isFinite) : b.isFinite := by
  have ht : (UnpackedFloat.zero .positive).lt t.toModel.unpack := of_decide_eq_true ht
  have h : (UnpackedFloat.unpack .binary64
    (pack .binary64 (mul .binary64 t.toModel.unpack b.toModel.unpack))).isFinite := h
  refine Decidable.byContradiction fun hb => ?_
  generalize t.toModel.unpack = u at ht h
  rcases not_isFinite_cases hb with hb | ⟨s, hb⟩ <;> rw [hb] at h
  case inl =>
    have hm : mul .binary64 u .notANumber = .notANumber := by cases u <;> rfl
    rw [hm] at h
    cases h
  case inr =>
    have hm : ∃ r, mul .binary64 u (.infinity s) = .infinity r := by
      cases u
      case notANumber | zero => cases ht
      all_goals exact ⟨_, rfl⟩
    have ⟨r, hm⟩ := hm
    rw [hm, pack, unpack_packedInfinity] at h
    cases h

theorem abs_cases (h : ¬x.isFinite) :
    x.abs.toModel.unpack = .notANumber ∨ x.abs.toModel.unpack = .infinity .positive := by
  have ha : x.abs.toModel.unpack =
    UnpackedFloat.unpack .binary64 (pack .binary64 x.toModel.unpack.abs) := rfl
  rcases not_isFinite_cases h with hx | ⟨s, hx⟩ <;> rw [ha, hx]
  case inl => exact .inl rfl
  case inr =>
    right
    rw [UnpackedFloat.abs, pack, unpack_packedInfinity]

theorem isFinite_of_abs (h : x.abs.isFinite) : x.isFinite := by
  have h : x.abs.toModel.unpack.isFinite := h
  refine Decidable.byContradiction fun hx => ?_
  rcases abs_cases hx with hx | hx <;> rw [hx] at h <;> cases h

theorem isFinite_of_abs_lt (h : x.abs < y) : x.isFinite := by
  have h : x.abs.toModel.unpack.lt y.toModel.unpack := of_decide_eq_true h
  refine Decidable.byContradiction fun hx => ?_
  generalize y.toModel.unpack = v at h
  rcases abs_cases hx with hx | hx <;> rw [hx] at h
  case inl => cases h
  case inr =>
    cases v
    case infinity s => cases s <;> cases h
    all_goals cases h

-- The way from the middle down by half of what is not finite and up again by all of it ends
-- nowhere.
theorem isNaN_of_not_isFinite {m w : Float} (h : ¬w.isFinite) : (m - 0.5 * w + w).isNaN := by
  have hf : (0.5 : Float).toModel.unpack = .finite .positive (2 ^ 52) (-53) (by decide) := by rfl
  have hs : (m - 0.5 * w + w).isNaN = (add .binary64 (UnpackedFloat.unpack .binary64
      (pack .binary64 (sub .binary64 m.toModel.unpack (UnpackedFloat.unpack .binary64
        (pack .binary64 (mul .binary64 (0.5 : Float).toModel.unpack w.toModel.unpack))))))
      w.toModel.unpack).isNaN := isNaN_unpack_pack _
  rw [hs, hf]
  generalize m.toModel.unpack = u
  rcases not_isFinite_cases h with hw | ⟨s, hw⟩ <;> rw [hw]
  case inl => cases UnpackedFloat.unpack .binary64 _ <;> rfl
  case inr =>
    have hm : mul .binary64 (.finite .positive (2 ^ 52) (-53) (by decide)) (.infinity s) =
        .infinity s := by
      cases s <;> rfl
    rw [hm, pack, unpack_packedInfinity]
    have hu : sub .binary64 u (.infinity s) = .notANumber ∨
        sub .binary64 u (.infinity s) = .infinity (-s) := by
      cases u
      case infinity r => cases r <;> cases s <;> first | exact .inl rfl | exact .inr rfl
      case notANumber => exact .inl rfl
      all_goals exact .inr rfl
    rcases hu with hu | hu <;> rw [hu]
    case inl => rfl
    case inr => 
      rw [pack, unpack_packedInfinity]
      cases s <;> rfl

theorem lt_nextUp (h : x.isFinite) : x < binary64NextUp x := by
  have hm := isFinite_iff.mp h
  have hx : ¬x.isNaN := fun hn => absurd (isNaN_iff.mp hn) (by omega)
  have hr : rank x < 2047 * 2 ^ 52 := by
    rw [rank]
    cases signOf x <;> simp only [Sign.apply] <;> omega
  have ⟨hn, hr⟩ := rank_nextUp hx hr
  exact lt_iff.mpr ⟨hx, hn, by omega⟩

theorem nextUp_of_rank (hr : rank x = 2047 * 2 ^ 52) : binary64NextUp x = x := by
  have hb : x.toBits = 0x7ff0000000000000 := by
    rw [rank_eq, rankOfBits] at hr
    rw [← UInt64.toNat_inj]
    show _ = 2047 * 2 ^ 52
    omega
  unfold binary64NextUp
  simp [hb]

theorem le_nextUp (hx : ¬x.isNaN) : x ≤ binary64NextUp x := by
  have hr := rank_between hx
  cases hr.right.lt_or_eq
  case inl hlt =>
    have ⟨hn, hr⟩ := rank_nextUp hx hlt
    exact le_iff.mpr ⟨hx, hn, by omega⟩
  case inr heq =>
    rw [nextUp_of_rank heq]
    exact le_iff.mpr ⟨hx, hx, Int.le_refl _⟩

instance : LawfulScalar Float where
  defined_of_le h := ⟨(le_iff.mp h).left, (le_iff.mp h).right.left⟩
  le_total ha hb := (Int.le_total (rank _) (rank _)).imp (fun h => le_iff.mpr ⟨ha, hb, h⟩)
    fun h => le_iff.mpr ⟨hb, ha, h⟩
  le_trans hab hbc := by
    rw [le_iff] at hab hbc ⊢
    exact ⟨hab.left, hbc.right.left, hab.right.right.trans hbc.right.right⟩
  lt_iff := by
    intro a b
    rw [le_iff, le_iff, lt_iff]
    grind
  beq_iff := by
    intro a b
    rw [le_iff, le_iff, beq_iff]
    grind
  zero_lt_one := by decide +kernel

instance : RoundedScalar Float where
  defined_of_finite {a} h := by
    have h := isFinite_iff.mp h
    exact fun hn => absurd (isNaN_iff.mp hn) (by omega)
  finite_of_between := isFinite_of_between
  finite_half := by decide +kernel
  add_defined := add_defined
  sub_defined := sub_defined
  mul_defined := mul_defined
  sub_nonpos := sub_nonpos
  finite_of_mul := isFinite_of_mul
  finite_of_magnitude := isFinite_of_abs
  finite_of_magnitude_lt := isFinite_of_abs_lt
  undefined_of_not_finite := isNaN_of_not_isFinite
  le_nextUp := le_nextUp
  lt_nextUp ha _ _ _ := lt_nextUp ha

end Binary64

end NonlinearProgram
