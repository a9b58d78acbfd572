import NonlinearProgram.Proofs.Formulation.Feasibility
import NonlinearProgram.Proofs.Formulation.Indicators
import NonlinearProgram.Proofs.Split

namespace NonlinearProgram

open Program FormulationM

variable {α : Type}

namespace ConstraintSplit

variable {split : ConstraintSplit α} {m : Nat}

-- Each group is in the user's order, and every constraint is in exactly one of them.
structure Separates (split : ConstraintSplit α) (m : Nat) : Prop where
  equalities_sorted : split.equalities.Pairwise (· < ·)
  inequalities_sorted : split.inequalities.Pairwise (· < ·)
  disjoint : ∀ i ∈ split.equalities, i ∉ split.inequalities
  covers : ∀ i, i ∈ split.equalities ∨ i ∈ split.inequalities ↔ i < m

theorem Parts.separates (h : split.Parts m) : split.Separates m := by
  have ⟨mask, hm, heq, hineq⟩ := h
  constructor
  case equalities_sorted => exact heq ▸ setPositions_sorted mask
  case inequalities_sorted => exact hineq ▸ clearPositions_sorted mask
  case disjoint => exact fun i hi => hineq ▸ not_mem_clearPositions (heq ▸ hi)
  case covers =>
    intro i
    constructor
    case mp => exact fun hi => hi.elim (h.lt.left i) (h.lt.right i)
    case mpr => exact fun hi => heq ▸ hineq ▸ mem_positions_or (hm.symm ▸ hi)

variable [Scalar α] {o : Options α} {d : Declared α}

-- What an equality is to be equal to is what the user gave for both bounds.
structure IsEqualTo (infinity : α) (d : Declared α) (c : α) (i : Nat) : Prop where
  lower : d.lower[i]? = some c
  upper : ∃ u, d.upper[i]? = some u ∧ c == u
  finite : Scalar.isFinite c
  present : Box.IsPresent infinity c

-- The box of an inequality is what the user gave, without contradiction, and not a single value.
structure IsWithin (d : Declared α) (b : Box α) (i : Nat) : Prop where
  lower : d.lower[i]? = some b.lower
  upper : d.upper[i]? = some b.upper
  sound : b.Sound
  interior : b.TwoSided → b.lower < b.upper

-- Types of constraints are those that the user gave.
structure KeepsTypes (split : ConstraintSplit α) (d : Declared α) : Prop where
  equalities :
    List.Forall₂ (fun type i => d.types[i]? = some type) split.equalityTypes split.equalities
  inequalities :
    List.Forall₂ (fun type i => d.types[i]? = some type) split.inequalityTypes split.inequalities

theorem isEquality_iff {infinity l u : α} :
    isEquality infinity l u ↔ l == u ∧ -infinity < l ∧ u < infinity := by
  rw [isEquality, Bool.and_eq_true, Bool.and_eq_true, hasLower_iff, hasUpper_iff, and_assoc]

section

variable (h : split = .ofBounds o.infinity d.lower d.upper d.types) (hd : d.Fits m)

include h hd

theorem parts_of_fits : split.Parts m :=
  h ▸ parts_ofBounds hd.lower hd.upper

theorem keepsTypes_of_fits : split.KeepsTypes d := by
  have ⟨heq, hineq⟩ := (parts_of_fits h hd).lt
  have hget {i : Nat} (hi : i < m) : ∃ type, d.types[i]? = some type ∧ d.types[i]? = some type :=
    have ht := List.getElem?_eq_getElem (hd.types ▸ hi)
    ⟨_, ht, ht⟩
  subst h
  constructor
  all_goals
    apply forall₂_gather
    intro i hi
  case equalities => exact hget (heq i hi)
  case inequalities => exact hget (hineq i hi)

theorem isEqualTo_of_fits [RoundedScalar α] :
    List.Forall₂ (IsEqualTo o.infinity d) split.rhs split.equalities := by
  have hlt := (parts_of_fits h hd).lt.left
  subst h
  apply forall₂_gather
  intro i hi
  have hl := List.getElem?_eq_getElem (hd.lower.symm ▸ hlt i hi)
  have hu := List.getElem?_eq_getElem (hd.upper.symm ▸ hlt i hi)
  have hmask := mem_setPositions.mp hi
  rw [List.getElem?_zipWith, hl, hu] at hmask
  have ⟨hlu, hlow, hupp⟩ := isEquality_iff.mp (Option.some_inj.mp hmask)
  have hlt := LawfulScalar.lt_of_le_of_lt (LawfulScalar.beq_iff.mp hlu).left hupp
  exact ⟨_, hl, hl, ⟨_, hu, hlu⟩, RoundedScalar.finite_of_between hlow hlt, hlow, hlt⟩

-- Two bounds inside of the threshold that are equal would have made an equality.
theorem isWithin_of_fits [LawfulScalar α]
    (hc : inconsistentPositions o.tolerance false d.lower d.upper = []) :
    List.Forall₂ (IsWithin d) ((split.lower.zip split.upper).map (Box.ofBounds o.infinity))
      split.inequalities := by
  have hlt := (parts_of_fits h hd).lt.right
  subst h
  rw [ofBounds, zip_gather (fun i hi => hd.lower.symm ▸ hlt i hi)
    fun i hi => hd.upper.symm ▸ hlt i hi, List.forall₂_map_left_iff]
  apply forall₂_gather
  intro i hi
  have hl := List.getElem?_eq_getElem (hd.lower.symm ▸ hlt i hi)
  have hu := List.getElem?_eq_getElem (hd.upper.symm ▸ hlt i hi)
  have hcons := setPositions_eq_nil.mp hc i
  have hmask := mem_clearPositions.mp hi
  rw [List.getElem?_zipWith, hl, hu] at hcons hmask
  have hcons : ¬isInconsistent o.tolerance false _ _ := fun h => hcons (congrArg some h)
  obtain ⟨hdl, hdu, hcross⟩ := Box.of_consistent hcons
  have hle := LawfulScalar.le_of_not_lt hdl hdu fun hlt => Bool.noConfusion (hcross hlt)
  refine ⟨(_, _), List.getElem?_zip_eq_some.mpr ⟨hl, hu⟩, hl, hu, Box.sound_of_le hle,
    fun h2 => ?_⟩
  obtain ⟨hlow, hupp⟩ := Box.twoSided_ofBounds.mp h2
  refine LawfulScalar.lt_iff.mpr ⟨hle, fun hge => ?_⟩
  have heq := isEquality_iff.mpr ⟨LawfulScalar.beq_iff.mpr ⟨hle, hge⟩, hlow, hupp⟩
  exact Bool.noConfusion (heq.symm.trans (Option.some_inj.mp hmask))

end

end ConstraintSplit

namespace Core

variable [Scalar α] {core : Core α} {o : Options α} {v : Survey α} {s : Store α}

-- What a solver reads of the inequalities.
def inequalityVectors (core : Core α) : List (DistributedVector α) :=
  [core.inequalityLower, core.inequalityUpper, core.inequalityLowerIndicator,
    core.inequalityUpperIndicator]

theorem Describes.length_inequalityVectors (h : core.Describes o v s)
    (hc : v.constraintData.Fits v.constraintCount) :
    ∀ w ∈ core.inequalityVectors, (s.entries w.view).length = core.inequalityCount := by
  have ⟨_, hl, hu⟩ := localSize_split hc h.split
  simp only [Layout.localSize_ofSize, Int.natCast_inj] at hl hu
  have hi := h.inequalities
  simp [inequalityVectors, hi.lower.entries, hi.upper.entries, hi.lowerIndicator.entries,
    hi.upperIndicator.entries, hl, hu, inequalityCount]

end Core

namespace Formulation

variable [Scalar α] [RoundedScalar α] {p : Problem α} {s t : Session α} {d : Finalized α}

-- The constraints are separated into equalities, whose right-hand sides are finite and what both
-- bounds are, and inequalities, whose bounds are in order, and apart where both are present. What
-- is said of either group is what the user declared of its constraints.
theorem constraints_separated (hf : finalize p s = (.ok true, t))
    (hd : t.formulation.finalized = some d) :
    d.core.split.Separates d.core.constraintCount ∧
    d.core.split.KeepsTypes (p.constraintData d.core.constraintCount) ∧
    List.Forall₂ (ConstraintSplit.IsEqualTo s.formulation.options.infinity
      (p.constraintData d.core.constraintCount)) (t.store.entries d.core.rhs.view)
      d.core.split.equalities ∧
    (∀ w ∈ d.core.inequalityVectors, (t.store.entries w.view).length = d.core.inequalityCount) ∧
    List.Forall₂ (ConstraintSplit.IsWithin (p.constraintData d.core.constraintCount))
      (d.core.inequalityBoxes t.store) d.core.split.inequalities := by
  have ⟨v, hF⟩ := finalizes_of_finalized hf hd
  have hdesc := hF.intact.describes
  have hsurv := hF.ready.surveyed
  have hdata : p.constraintData d.core.constraintCount = v.constraintData := by
    rw [hsurv.constraintData, hdesc.constraintCount]
    rfl
  have hfit := hsurv.constraints_fit
  rw [hdata, hdesc.rhs.entries, hdesc.inequalityBoxes, hdesc.constraintCount]
  exact ⟨(ConstraintSplit.parts_of_fits hdesc.split hfit).separates,
    ConstraintSplit.keepsTypes_of_fits hdesc.split hfit,
    ConstraintSplit.isEqualTo_of_fits hdesc.split hfit, hdesc.length_inequalityVectors hfit,
    ConstraintSplit.isWithin_of_fits hdesc.split hfit hsurv.constraints_consistent⟩

-- A problem of one variable and of constraints with the given bounds.
def constrained (lower upper : List Float) : Problem Float :=
  { Problem.ofFunctions 1 lower.length (fun _ => 0) fun _ _ => 0 with
    constraintBounds := fun _ _ => .ok { lower := lower, upper := upper, answer := .flag true } }

-- Zeros of both signs are equal, and equal bounds beyond the threshold are those of an inequality.
theorem constraints_separated_signed : ∃ t d b b',
    finalize (constrained [-0, 1, 1e30] [0, 2, 1e30]) (relaxing 1e-8 1e20) = (.ok true, t) ∧
    t.formulation.finalized = some d ∧ d.core.split.equalities = [0] ∧
    d.core.split.inequalities = [1, 2] ∧ d.core.split.Separates 3 ∧
    d.core.inequalityBoxes t.store = [b, b'] ∧ b.Sound ∧ b.lower < b.upper ∧ b'.Sound := by
  have ⟨t, d, hf, hd, hb⟩ := finalized_of_data (p := constrained [-0, 1, 1e30] [0, 2, 1e30])
    (s := relaxing 1e-8 1e20)
    (f := fun d s => (d.core.split.equalities, d.core.split.inequalities, d.core.constraintCount,
      d.core.inequalityBoxes s))
    (b := ([0], [1, 2], 3, [⟨1, 2, 1, 1⟩, ⟨1e30, 1e30, 1, 0⟩])) (by decide +kernel)
    (by decide +kernel)
  simp only [Prod.mk.injEq] at hb
  have ⟨heq, hineq, hcount, hboxes⟩ := hb
  have ⟨hsep, _, _, _, hwithin⟩ := constraints_separated hf hd
  rw [hboxes, hineq, List.forall₂_cons, List.forall₂_cons] at hwithin
  have ⟨h, h', _⟩ := hwithin
  exact ⟨t, d, _, _, hf, hd, heq, hineq, hcount ▸ hsep, hboxes, h.sound,
    h.interior (by decide +kernel), h'.sound⟩

end Formulation
end NonlinearProgram
