import NonlinearProgram.Proofs.Scalar

namespace NonlinearProgram

-- Scalars whose operations may round, though never to the other side of zero. What is finite stays
-- defined, and what is not does not become finite again.
class RoundedScalar (α : Type) [Scalar α] : Prop extends LawfulScalar α where
  defined_of_finite : ∀ {a : α}, Scalar.isFinite a → ¬Scalar.isUndefined a
  finite_of_between : ∀ {a x b : α}, a < x → x < b → Scalar.isFinite x
  finite_half : Scalar.isFinite (Scalar.half : α)
  add_defined : ∀ {a b : α}, ¬Scalar.isUndefined a → Scalar.isFinite b → ¬Scalar.isUndefined (a + b)
  sub_defined : ∀ {a b : α}, Scalar.isFinite a → ¬Scalar.isUndefined b → ¬Scalar.isUndefined (a - b)
  mul_defined : ∀ {a b : α}, Scalar.isFinite a → Scalar.isFinite b → ¬Scalar.isUndefined (a * b)
  sub_nonpos : ∀ {a b x y : α}, x < b → a < y → a ≤ b → a - b ≤ 0
  finite_of_mul : ∀ {t b : α}, 0 < t → Scalar.isFinite (t * b) → Scalar.isFinite b
  finite_of_magnitude : ∀ {a : α}, Scalar.isFinite (Scalar.magnitude a) → Scalar.isFinite a
  finite_of_magnitude_lt : ∀ {a b : α}, Scalar.magnitude a < b → Scalar.isFinite a
  undefined_of_not_finite : ∀ {m w : α}, ¬Scalar.isFinite w →
    Scalar.isUndefined (m - Scalar.half * w + w)
  le_nextUp : ∀ {a : α}, ¬Scalar.isUndefined a → a ≤ Scalar.nextUp a
  -- Where a positive width is lost to rounding, the next scalar is another one.
  lt_nextUp : ∀ {a t b : α}, Scalar.isFinite a → 0 < t → 1 ≤ b → a + t * b ≤ a →
    a < Scalar.nextUp a

namespace Exact

theorem mul_def (a b : Exact) : a * b = a.mul b := rfl

theorem pos_cases {a : Exact} (h : 0 < a) : a = .infinity ∨ ∃ q : Rat, 0 < q ∧ a = .finite q := by
  have h : isAtMost (.finite 0) a ∧ a.isAtMost (.finite 0) = false := h
  cases a <;> simp_all [isAtMost]

theorem finite_pos {q : Rat} (h : 0 < q) : 0 < Exact.finite q := by
  have h0 : (0 : Exact) = .finite 0 := rfl
  simp [lt_def, h0, isAtMost, h, h.le]

theorem scaledInfinity_of_pos {q : Rat} (h : 0 < q) : scaledInfinity q = .infinity := by
  rw [scaledInfinity, if_neg h.ne', if_pos h]

theorem scaledInfinity_of_neg {q : Rat} (h : q < 0) : scaledInfinity q = .negInfinity := by
  rw [scaledInfinity, if_neg h.ne, if_neg h.le.not_gt]

theorem mul_pos {a b : Exact} (ha : 0 < a) (hb : 0 < b) : 0 < a * b := by
  rw [mul_def]
  rcases pos_cases ha with rfl | ⟨p, hp, rfl⟩ <;> rcases pos_cases hb with rfl | ⟨q, hq, rfl⟩
  · exact ha
  · rw [mul, scaledInfinity_of_pos hq]
    exact ha
  · rw [mul, scaledInfinity_of_pos hp]
    exact hb
  · exact finite_pos (Rat.mul_pos hp hq)

-- No width is lost.
theorem not_add_le {p : Rat} {w : Exact} (h : 0 < w) : ¬.finite p + w ≤ Exact.finite p := by
  rw [add_def, le_def]
  rcases pos_cases h with rfl | ⟨q, hq, rfl⟩
  · simp [add, isAtMost]
  · simp [add, isAtMost, hq]

theorem finite_of_mul {t b : Exact} (ht : 0 < t) (h : Scalar.isFinite (t * b)) :
    Scalar.isFinite b := by
  rw [mul_def] at h
  rcases pos_cases ht with rfl | ⟨q, hq, rfl⟩ <;> cases b
  case inr.negInfinity =>
    rw [mul, scaledInfinity_of_neg (neg_neg_of_pos hq)] at h
    cases h
  case inr.infinity =>
    rw [mul, scaledInfinity_of_pos hq] at h
    cases h
  case inl.finite | inr.finite => rfl
  all_goals cases h

instance : RoundedScalar Exact where
  defined_of_finite {a} h := by
    cases a <;> simp_all [Scalar.isFinite, Scalar.isUndefined]
  finite_of_between ha hb := by
    have ⟨q, h⟩ := finite_of_between ha hb
    rw [h]
    rfl
  finite_half := rfl
  add_defined {a b} ha hb := by
    simp only [add_def]
    cases a <;> cases b <;> simp_all [Scalar.isFinite, Scalar.isUndefined, add]
  sub_defined {a b} ha hb := by
    have h : a - b = a.add b.neg := rfl
    rw [h]
    cases a <;> cases b <;> simp_all [Scalar.isFinite, Scalar.isUndefined, add, neg]
  mul_defined {a b} ha hb := by
    have h : a * b = a.mul b := rfl
    rw [h]
    cases a <;> cases b <;> simp_all [Scalar.isFinite, Scalar.isUndefined, mul]
  sub_nonpos {a b x y} hb ha h := by
    have hd : a - b = a.add b.neg := rfl
    have h0 : (0 : Exact) = .finite 0 := rfl
    rw [hd, h0]
    rw [lt_def] at ha hb
    rw [le_def] at h ⊢
    cases a <;> cases b <;> cases x <;> cases y <;> simp_all [isAtMost, neg, add]
  finite_of_mul := finite_of_mul
  finite_of_magnitude {a} h := by
    cases a <;> simp_all [Scalar.isFinite, Scalar.magnitude]
  finite_of_magnitude_lt {a b} h := by
    have h := (lt_def _ _).mp h
    cases a <;> cases b <;> simp_all [Scalar.isFinite, Scalar.magnitude, isAtMost]
  undefined_of_not_finite {m w} h := by
    have hd : m - Scalar.half * w + w = (m.add (mul (.finite (1 / 2)) w).neg).add w := rfl
    have hn : mul (.finite (1 / 2)) .negInfinity = .negInfinity := by decide +kernel
    have hp : mul (.finite (1 / 2)) .infinity = .infinity := by decide +kernel
    rw [hd]
    cases w
    case undefined => cases m <;> rfl
    case finite => exact (h rfl).elim
    case negInfinity => rw [hn]; cases m <;> rfl
    case infinity => rw [hp]; cases m <;> rfl
  le_nextUp h := LawfulScalar.le_refl h
  lt_nextUp {a t b} ha ht hb h := by
    cases a
    case finite p =>
      have hpos := mul_pos ht (LawfulScalar.lt_of_lt_of_le LawfulScalar.zero_lt_one hb)
      exact (not_add_le hpos h).elim
    all_goals cases ha

end Exact
end NonlinearProgram
