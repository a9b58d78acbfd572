import Mathlib.Algebra.Order.Ring.Rat
import Mathlib.Tactic.Linarith
import Mathlib.Tactic.Ring
import NonlinearProgram.Scalar.Exact

namespace NonlinearProgram

-- The order of the scalars that are not undefined is total, and undefined scalars are comparable to
-- nothing, not even to themselves.
class LawfulScalar (α : Type) [Scalar α] : Prop where
  defined_of_le : ∀ {a b : α}, a ≤ b → ¬Scalar.isUndefined a ∧ ¬Scalar.isUndefined b
  le_total : ∀ {a b : α}, ¬Scalar.isUndefined a → ¬Scalar.isUndefined b → a ≤ b ∨ b ≤ a
  le_trans : ∀ {a b c : α}, a ≤ b → b ≤ c → a ≤ c
  lt_iff : ∀ {a b : α}, a < b ↔ a ≤ b ∧ ¬b ≤ a
  beq_iff : ∀ {a b : α}, (a == b) ↔ a ≤ b ∧ b ≤ a
  zero_lt_one : (0 : α) < 1

-- Scalars whose operations do not round.
class ExactScalar (α : Type) [Scalar α] : Prop extends LawfulScalar α where
  eq_of_beq : ∀ {a b : α}, (a == b) → a = b
  le_midpoint : ∀ {a l u b : α}, a < l → l ≤ u → u < b → l ≤ Scalar.midpoint l u
  midpoint_le : ∀ {a l u b : α}, a < l → l ≤ u → u < b → Scalar.midpoint l u ≤ u
  add_comm : ∀ a b : α, a + b = b + a
  add_assoc : ∀ a b c : α, a + b + c = a + (b + c)
  zero_add : ∀ a : α, 0 + a = a

namespace LawfulScalar

variable {α : Type} [Scalar α] [LawfulScalar α] {a b c : α}

theorem le_of_lt (h : a < b) : a ≤ b :=
  (lt_iff.mp h).left

theorem not_le_of_lt (h : a < b) : ¬b ≤ a :=
  (lt_iff.mp h).right

theorem le_refl (h : ¬Scalar.isUndefined a) : a ≤ a :=
  (le_total h h).elim id id

theorem le_of_not_lt (ha : ¬Scalar.isUndefined a) (hb : ¬Scalar.isUndefined b) (h : ¬b < a) :
    a ≤ b := by
  cases le_total ha hb
  case inl hab => exact hab
  case inr hba => exact Decidable.byContradiction fun hab => h <| lt_iff.mpr ⟨hba, hab⟩

theorem lt_of_lt_of_le (hab : a < b) (hbc : b ≤ c) : a < c :=
  lt_iff.mpr ⟨le_trans (le_of_lt hab) hbc, fun hca => not_le_of_lt hab (le_trans hbc hca)⟩

theorem lt_of_le_of_lt (hab : a ≤ b) (hbc : b < c) : a < c :=
  lt_iff.mpr ⟨le_trans hab (le_of_lt hbc), fun hca => not_le_of_lt hbc (le_trans hca hab)⟩

theorem one_beq_one : ((1 : α) == 1) = true := by
  have ⟨_, h⟩ := defined_of_le (le_of_lt (zero_lt_one (α := α)))
  exact beq_iff.mpr ⟨le_refl h, le_refl h⟩

theorem not_zero_beq_one : ¬((0 : α) == 1) = true := by
  intro h
  exact not_le_of_lt zero_lt_one (beq_iff.mp h).right

end LawfulScalar

namespace Exact

theorem le_def (a b : Exact) : a ≤ b ↔ a.isAtMost b = true := .rfl

theorem lt_def (a b : Exact) : a < b ↔ a.isAtMost b = true ∧ b.isAtMost a = false := .rfl

theorem beq_def (a b : Exact) : (a == b) = (a.isAtMost b && b.isAtMost a) := rfl

theorem add_def (a b : Exact) : a + b = a.add b := rfl

theorem neg_neg (a : Exact) : - -a = a := by
  have h : - -a = a.neg.neg := rfl
  rw [h]
  cases a
  case finite q => exact congrArg Exact.finite (Rat.neg_neg q)
  all_goals rfl

theorem isAtMost_trans {a b c : Exact} (hab : a.isAtMost b) (hbc : b.isAtMost c) :
    a.isAtMost c := by
  cases a <;> cases b <;> cases c <;> simp_all [isAtMost]
  case finite.finite.finite p q r => exact hab.trans hbc

theorem isAtMost_antisymm {a b : Exact} (hab : a.isAtMost b) (hba : b.isAtMost a) : a = b := by
  cases a <;> cases b <;> simp_all [isAtMost]
  case finite.finite p q => exact le_antisymm hab hba

theorem isAtMost_total {a b : Exact} (ha : ¬Scalar.isUndefined a) (hb : ¬Scalar.isUndefined b) :
    a.isAtMost b ∨ b.isAtMost a := by
  cases a <;> cases b <;> simp_all [isAtMost, Scalar.isUndefined]
  case finite.finite p q => exact le_total p q

theorem defined_of_isAtMost {a b : Exact} (h : a.isAtMost b) :
    ¬Scalar.isUndefined a ∧ ¬Scalar.isUndefined b := by
  cases a <;> cases b <;> simp_all [isAtMost, Scalar.isUndefined]

-- What lies strictly between two scalars is finite.
theorem finite_of_between {a x b : Exact} (ha : a < x) (hb : x < b) :
    ∃ q : Rat, x = .finite q := by
  replace ⟨ha, ha'⟩ := (lt_def a x).mp ha
  replace ⟨hb, hb'⟩ := (lt_def x b).mp hb
  cases x
  case undefined => cases a <;> simp [isAtMost] at ha
  case negInfinity => cases a <;> simp [isAtMost] at ha ha'
  case finite => exact ⟨_, rfl⟩
  case infinity => cases b <;> simp [isAtMost] at hb hb'

theorem finite_le_finite {p q : Rat} : Exact.finite p ≤ Exact.finite q ↔ p ≤ q := by
  simp [le_def, isAtMost]

theorem midpoint_finite (p q : Rat) :
    Scalar.midpoint (.finite p) (.finite q) = Exact.finite (1 / 2 * (p + q)) := rfl

instance : LawfulScalar Exact where
  defined_of_le := defined_of_isAtMost
  le_total := isAtMost_total
  le_trans := isAtMost_trans
  lt_iff {a b} := by simp [lt_def, le_def]
  beq_iff {a b} := by simp [beq_def, le_def]
  zero_lt_one := by decide +kernel

theorem midpoint_between {a l u b : Exact} (ha : a < l) (h : l ≤ u) (hb : u < b) :
    l ≤ Scalar.midpoint l u ∧ Scalar.midpoint l u ≤ u := by
  have ⟨p, hl⟩ := finite_of_between ha (LawfulScalar.lt_of_le_of_lt h hb)
  have ⟨q, hu⟩ := finite_of_between (LawfulScalar.lt_of_lt_of_le ha h) hb
  subst hl hu
  rw [finite_le_finite] at h
  rw [midpoint_finite, finite_le_finite, finite_le_finite]
  constructor <;> linarith

instance : ExactScalar Exact where
  eq_of_beq {a b} h := by
    rw [beq_def, Bool.and_eq_true] at h
    exact isAtMost_antisymm h.left h.right
  le_midpoint ha h hb := (midpoint_between ha h hb).left
  midpoint_le ha h hb := (midpoint_between ha h hb).right
  add_comm a b := by
    simp only [add_def]
    cases a <;> cases b <;> simp [add]
    case finite.finite p q => ring
  add_assoc a b c := by
    simp only [add_def]
    cases a <;> cases b <;> cases c <;> simp [add]
    case finite.finite.finite p q r => ring
  zero_add a := by
    have h0 : (0 : Exact) = .finite 0 := rfl
    simp only [add_def, h0]
    cases a <;> simp [add]

end Exact
end NonlinearProgram
