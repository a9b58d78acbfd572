import NonlinearProgram.Options
import NonlinearProgram.Proofs.Bounds
import NonlinearProgram.Proofs.Rounding

namespace NonlinearProgram

-- The bounds of a variable, and the indicators that say which of them are present.
structure Box (α : Type) where
  lower : α
  upper : α
  lowerMark : α
  upperMark : α
deriving DecidableEq

namespace Relaxer

variable {α : Type} [Scalar α] [RoundedScalar α] {tolerance mid lower upper a b : α}

theorem one_defined : ¬Scalar.isUndefined (1 : α) :=
  (LawfulScalar.defined_of_le (LawfulScalar.le_of_lt LawfulScalar.zero_lt_one)).right

theorem one_le_larger {x : α} (h : Scalar.isFinite (Scalar.larger 1 x)) :
    1 ≤ Scalar.larger 1 x := by
  have hd := RoundedScalar.defined_of_finite h
  rw [Scalar.larger, if_neg one_defined] at hd ⊢
  split at hd
  case isTrue hx => exact (hd hx).elim
  case isFalse hx =>
    rw [if_neg hx]
    split
    case isTrue => exact LawfulScalar.le_refl one_defined
    case isFalse hlt => exact LawfulScalar.le_of_not_lt one_defined hx hlt

-- A finite width belongs to a finite midpoint.
theorem finite_of_width (ht : 0 < tolerance) (h : Scalar.isFinite (width tolerance mid)) :
    Scalar.isFinite mid := by
  have h := RoundedScalar.finite_of_mul ht h
  rw [Scalar.larger, if_neg one_defined] at h
  split at h
  case isTrue => exact RoundedScalar.finite_of_magnitude h
  case isFalse =>
    split at h
    case isTrue hlt => exact RoundedScalar.finite_of_magnitude_lt hlt
    case isFalse => exact RoundedScalar.finite_of_magnitude h

-- Where the width is finite, the relaxed bounds are in order.
theorem widened_le (ht : 0 < tolerance)
    (h : Scalar.isFinite (width tolerance (Scalar.midpoint lower upper))) :
    (widened tolerance lower upper).1 ≤ (widened tolerance lower upper).2 := by
  have hlow := RoundedScalar.sub_defined (finite_of_width ht h)
    (RoundedScalar.mul_defined RoundedScalar.finite_half h)
  have hupp := RoundedScalar.add_defined hlow h
  simp only [widened]
  split
  case isTrue => exact RoundedScalar.le_nextUp hlow
  case isFalse hle => exact (LawfulScalar.le_total hlow hupp).resolve_right hle

-- Where it is not, there is no upper bound left.
theorem undefined_of_width
    (h : ¬Scalar.isFinite (width tolerance (Scalar.midpoint lower upper))) :
    Scalar.isUndefined (widened tolerance lower upper).2 := by
  have hupp := RoundedScalar.undefined_of_not_finite (m := Scalar.midpoint lower upper) h
  simp only [widened]
  split
  case isTrue hle => exact ((LawfulScalar.defined_of_le hle).left hupp).elim
  case isFalse => exact hupp

-- Relaxed bounds between which and beyond which there is something have room between them.
theorem widened_lt (ht : 0 < tolerance) (ha : a < (widened tolerance lower upper).1)
    (hb : (widened tolerance lower upper).2 < b) :
    (widened tolerance lower upper).1 < (widened tolerance lower upper).2 := by
  have hlow := (LawfulScalar.defined_of_le (LawfulScalar.le_of_lt ha)).right
  have hupp := (LawfulScalar.defined_of_le (LawfulScalar.le_of_lt hb)).left
  have hw : Scalar.isFinite (width tolerance (Scalar.midpoint lower upper)) :=
    Decidable.byContradiction fun h => hupp (undefined_of_width h)
  have hmid := finite_of_width ht hw
  have hlt := LawfulScalar.lt_of_le_of_lt (widened_le ht hw) hb
  simp only [widened] at ha hb hlow hupp hlt ⊢
  split
  case isTrue hle =>
    apply RoundedScalar.lt_nextUp (RoundedScalar.finite_of_between ha hlt) ht
    · exact one_le_larger (RoundedScalar.finite_of_mul ht hw)
    · exact hle
  case isFalse hle =>
    rw [if_neg hle] at hupp
    exact LawfulScalar.lt_iff.mpr ⟨(LawfulScalar.le_total hlow hupp).resolve_right hle, hle⟩

end Relaxer

namespace Box

variable {α : Type} [Scalar α]

-- Bounds with the indicators that belong to them.
def ofBounds (infinity : α) (bounds : α × α) : Box α :=
  ⟨bounds.1, bounds.2, indicator (hasLower infinity bounds.1),
    indicator (hasUpper infinity bounds.2)⟩

-- Bounds that do not contradict each other.
structure Sound (b : Box α) : Prop where
  lower : ¬Scalar.isUndefined b.lower
  upper : ¬Scalar.isUndefined b.upper
  ordered : b.lower ≤ b.upper

def TwoSided (b : Box α) : Prop := b.lowerMark == 1 ∧ b.upperMark == 1

instance (b : Box α) : Decidable b.Sound :=
  decidable_of_iff (¬Scalar.isUndefined b.lower ∧ ¬Scalar.isUndefined b.upper ∧ b.lower ≤ b.upper)
    ⟨fun ⟨hl, hu, ho⟩ => ⟨hl, hu, ho⟩, fun h => ⟨h.lower, h.upper, h.ordered⟩⟩

instance (b : Box α) : Decidable b.TwoSided := inferInstanceAs (Decidable (_ ∧ _))

-- Is a variable with these bounds to be treated as a fixed one?
def isTreated (o : Options α) (bounds : α × α) : Bool :=
  o.policy != .keep && isFixed o.tolerance o.infinity bounds.1 bounds.2

-- Bounds that cross only where both of them are present.
def CrossesWithin (o : Options α) (bounds : α × α) : Prop :=
  bounds.2 < bounds.1 → -o.infinity < bounds.1 ∧ bounds.2 < o.infinity

-- Bounds of a fixed variable are relaxed by a finite width.
def RelaxesFinitely (o : Options α) (bounds : α × α) : Prop :=
  isFixed o.tolerance o.infinity bounds.1 bounds.2 →
    Scalar.isFinite (Relaxer.width o.tolerance (Scalar.midpoint bounds.1 bounds.2))

instance (o : Options α) (bounds : α × α) : Decidable (CrossesWithin o bounds) :=
  inferInstanceAs (Decidable (_ → _))

instance (o : Options α) (bounds : α × α) : Decidable (RelaxesFinitely o bounds) :=
  inferInstanceAs (Decidable (_ → _))

-- The box that the policy in force makes of a variable's bounds; of an eliminated variable, none.
def treated (o : Options α) (policy : FixedPolicy) (bounds : α × α) : Option (Box α) :=
  if isTreated o bounds then
    match policy with
    | .keep => some (ofBounds o.infinity bounds)
    | .remove => none
    | .relax => some (ofBounds o.infinity (Relaxer.widened o.tolerance bounds.1 bounds.2))
  else some (ofBounds o.infinity bounds)

variable {o : Options α} {policy : FixedPolicy} {infinity l u : α} {b : Box α} {bounds : α × α}

theorem twoSided_ofBounds [LawfulScalar α] :
    (ofBounds infinity bounds).TwoSided ↔ -infinity < bounds.1 ∧ bounds.2 < infinity := by
  rw [TwoSided, ofBounds, indicator_beq_one, indicator_beq_one, hasLower_iff, hasUpper_iff]

theorem sound_of_le [LawfulScalar α] (h : b.lower ≤ b.upper) : b.Sound :=
  have ⟨hl, hu⟩ := LawfulScalar.defined_of_le h
  ⟨hl, hu, h⟩

theorem isFixed_iff : isFixed o.tolerance infinity l u ↔
    -infinity < l ∧ u < infinity ∧ u - l < o.tolerance := by
  rw [isFixed, Bool.and_eq_true, Bool.and_eq_true, hasLower_iff, hasUpper_iff, decide_eq_true_iff,
    and_assoc]

theorem isTreated_iff : isTreated o bounds ↔
    o.policy ≠ .keep ∧ isFixed o.tolerance o.infinity bounds.1 bounds.2 := by
  rw [isTreated, Bool.and_eq_true, bne_iff_ne]

-- Bounds that are accepted are defined, and do not cross unless fixed variables are treated.
theorem of_consistent {allowFixed : Bool} (h : ¬isInconsistent o.tolerance allowFixed l u) :
    ¬Scalar.isUndefined l ∧ ¬Scalar.isUndefined u ∧ (u < l → allowFixed) := by
  simp only [isInconsistent, Bool.or_eq_true, Bool.and_eq_true, decide_eq_true_iff] at h
  refine ⟨fun hl => h (.inl (.inl hl)), fun hu => h (.inl (.inr hu)), fun hlt => ?_⟩
  cases allowFixed
  case false => exact (h (.inr ⟨hlt, .inl rfl⟩)).elim
  case true => rfl

variable [RoundedScalar α]

-- Crossed bounds that are both present are those of a fixed variable.
theorem isFixed_of_le (ht : 0 < o.tolerance) (hl : -infinity < l) (hu : u < infinity)
    (h : u ≤ l) : isFixed o.tolerance infinity l u := by
  apply isFixed_iff.mpr
  exact ⟨hl, hu, LawfulScalar.lt_of_le_of_lt (RoundedScalar.sub_nonpos hl hu h) ht⟩

theorem sound_widened_iff (ht : 0 < o.tolerance) :
    (ofBounds infinity (Relaxer.widened o.tolerance l u)).Sound ↔
      Scalar.isFinite (Relaxer.width o.tolerance (Scalar.midpoint l u)) := by
  constructor
  case mp =>
    intro h
    exact Decidable.byContradiction fun hw => h.upper (Relaxer.undefined_of_width hw)
  case mpr =>
    intro hw
    exact sound_of_le (Relaxer.widened_le ht hw)

-- Accepted bounds that are left as they are make a sound box, unless they cross: then one of them
-- is beyond the threshold, or the variable would have been detected as fixed.
theorem sound_ofBounds_iff (ht : 0 < o.tolerance)
    (hc : ¬isInconsistent o.tolerance (o.policy != .keep) l u) (hf : ¬isTreated o (l, u)) :
    (ofBounds infinity (l, u)).Sound ↔ CrossesWithin o (l, u) := by
  have ⟨hl, hu, ha⟩ := of_consistent hc
  constructor
  case mp =>
    intro h hlt
    exact (LawfulScalar.not_le_of_lt hlt h.ordered).elim
  case mpr =>
    intro h
    apply sound_of_le
    apply LawfulScalar.le_of_not_lt hl hu
    intro hlt
    have ⟨hpl, hpu⟩ := h hlt
    have hfix := isFixed_of_le ht hpl hpu (LawfulScalar.le_of_lt hlt)
    exact hf (isTreated_iff.mpr ⟨bne_iff_ne.mp (ha hlt), hfix⟩)

-- Bounds that were accepted make a sound box, unless they cross beyond the threshold or are relaxed
-- by a width that overflows.
theorem sound_treated_iff (ht : 0 < o.tolerance) (hp : policy = .keep ↔ o.policy = .keep)
    (hc : ¬isInconsistent o.tolerance (o.policy != .keep) l u) :
    (∀ b, treated o policy (l, u) = some b → b.Sound) ↔
      CrossesWithin o (l, u) ∧ (policy = .relax → RelaxesFinitely o (l, u)) := by
  rw [treated.eq_def]
  split
  case isTrue hf =>
    have ⟨hk, hfix⟩ := isTreated_iff.mp hf
    have ⟨hl, hu, _⟩ := isFixed_iff.mp hfix
    cases policy
    case keep => exact (hk (hp.mp rfl)).elim
    case remove => simp [CrossesWithin, hl, hu]
    case relax => simp [CrossesWithin, RelaxesFinitely, hl, hu, hfix, sound_widened_iff ht]
  case isFalse hf =>
    have hr : policy = .relax → ¬isFixed o.tolerance o.infinity l u := by
      intro hr hfix
      exact hf (isTreated_iff.mpr ⟨fun hk => by simp [hr] at hp; exact hp hk, hfix⟩)
    simp only [Option.some_inj, forall_eq', sound_ofBounds_iff ht hc hf]
    exact ⟨fun h => ⟨h, fun hp' hfix => (hr hp' hfix).elim⟩, And.left⟩

-- A box with two bounds has an interior if fixed variables are treated.
theorem lt_of_twoSided (ht : 0 < o.tolerance) (hp : policy = .keep ↔ o.policy = .keep)
    (hk : o.policy ≠ .keep) (h : treated o policy (l, u) = some b) (hb : b.TwoSided) :
    b.lower < b.upper := by
  rw [treated.eq_def] at h
  split at h
  case isTrue =>
    cases policy
    case keep => exact (hk (hp.mp rfl)).elim
    case remove => cases h
    case relax =>
      cases h
      have ⟨hl, hu⟩ := twoSided_ofBounds.mp hb
      exact Relaxer.widened_lt ht hl hu
  case isFalse hf =>
    cases h
    have ⟨hl, hu⟩ := twoSided_ofBounds.mp hb
    have hdl := (LawfulScalar.defined_of_le (LawfulScalar.le_of_lt hl)).right
    have hdu := (LawfulScalar.defined_of_le (LawfulScalar.le_of_lt hu)).left
    have hnot : ¬u ≤ l := fun hle => hf (isTreated_iff.mpr ⟨hk, isFixed_of_le ht hl hu hle⟩)
    exact LawfulScalar.lt_iff.mpr ⟨(LawfulScalar.le_total hdl hdu).resolve_right hnot, hnot⟩

-- What becomes of a variable's bounds where fixed variables are relaxed.
structure Relaxes (o : Options α) (bounds : α × α) (b : Box α) : Prop where
  kept : ¬isFixed o.tolerance o.infinity bounds.1 bounds.2 → b = ofBounds o.infinity bounds
  widened : isFixed o.tolerance o.infinity bounds.1 bounds.2 →
    (b.lower, b.upper) = Relaxer.widened o.tolerance bounds.1 bounds.2
  twoSided : isFixed o.tolerance o.infinity bounds.1 bounds.2 →
    (b.TwoSided ↔ -o.infinity < b.lower ∧ b.upper < o.infinity)
  interior : isFixed o.tolerance o.infinity bounds.1 bounds.2 → b.TwoSided → b.lower < b.upper

theorem relaxes_treated (ht : 0 < o.tolerance) (hk : o.policy ≠ .keep) :
    Relaxes o bounds (ofBounds o.infinity
      (if isTreated o bounds then Relaxer.widened o.tolerance bounds.1 bounds.2 else bounds)) := by
  by_cases hf : isFixed o.tolerance o.infinity bounds.1 bounds.2
  case pos =>
    rw [if_pos (isTreated_iff.mpr ⟨hk, hf⟩)]
    constructor
    case kept => exact fun hn => (hn hf).elim
    case widened => exact fun _ => rfl
    case twoSided => exact fun _ => twoSided_ofBounds
    case interior =>
      intro _ h2
      have ⟨hl, hu⟩ := twoSided_ofBounds.mp h2
      exact Relaxer.widened_lt ht hl hu
  case neg =>
    rw [if_neg fun htr => hf (isTreated_iff.mp htr).right]
    constructor
    case kept => exact fun _ => rfl
    all_goals exact fun h => (hf h).elim

end Box
end NonlinearProgram
