import NonlinearProgram.Proofs.Formulation.Boxes
import NonlinearProgram.Proofs.Formulation.Evaluation

namespace NonlinearProgram

open Program FormulationM

variable {α : Type} [Scalar α]

namespace Box

-- A bound is present where it lies strictly between the thresholds.
def IsPresent (infinity x : α) : Prop := -infinity < x ∧ x < infinity

instance (infinity x : α) : Decidable (IsPresent infinity x) := inferInstanceAs (Decidable (_ ∧ _))

-- The indicators tell which bounds are present.
structure Truthful (infinity : α) (b : Box α) : Prop where
  lower : b.lowerMark = indicator (decide (IsPresent infinity b.lower))
  upper : b.upperMark = indicator (decide (IsPresent infinity b.upper))

-- The bounds are not beyond the threshold that is meant for the other side.
structure Facing (infinity : α) (b : Box α) : Prop where
  lower : -infinity < b.lower → b.lower < infinity
  upper : b.upper < infinity → -infinity < b.upper

instance [DecidableEq α] (infinity : α) (b : Box α) : Decidable (b.Truthful infinity) :=
  decidable_of_iff (_ ∧ _) ⟨fun ⟨hl, hu⟩ => ⟨hl, hu⟩, fun h => ⟨h.lower, h.upper⟩⟩

instance (infinity : α) (b : Box α) : Decidable (b.Facing infinity) :=
  decidable_of_iff
    ((-infinity < b.lower → b.lower < infinity) ∧ (b.upper < infinity → -infinity < b.upper))
    ⟨fun ⟨hl, hu⟩ => ⟨hl, hu⟩, fun h => ⟨h.lower, h.upper⟩⟩

variable {infinity : α} {bounds : α × α} {b : Box α}

theorem indicator_inj [LawfulScalar α] {p q : Bool} :
    (indicator p : α) = indicator q ↔ p = q := by
  constructor
  case mp =>
    intro h
    rw [Bool.eq_iff_iff, ← indicator_beq_one (α := α), h, indicator_beq_one]
  case mpr => exact congrArg indicator

-- Each indicator looks at one of the thresholds only.
theorem truthful_ofBounds_iff [LawfulScalar α] :
    (ofBounds infinity bounds).Truthful infinity ↔ (ofBounds infinity bounds).Facing infinity := by
  have hl : hasLower infinity bounds.1 = decide (IsPresent infinity bounds.1) ↔
      (-infinity < bounds.1 → bounds.1 < infinity) := by
    rw [Bool.eq_iff_iff, hasLower_iff, decide_eq_true_iff, IsPresent, iff_self_and]
  have hu : hasUpper infinity bounds.2 = decide (IsPresent infinity bounds.2) ↔
      (bounds.2 < infinity → -infinity < bounds.2) := by
    rw [Bool.eq_iff_iff, hasUpper_iff, decide_eq_true_iff, IsPresent, iff_and_self]
  constructor
  case mp => exact fun h => ⟨hl.mp (indicator_inj.mp h.lower), hu.mp (indicator_inj.mp h.upper)⟩
  case mpr => exact fun h => ⟨congrArg indicator (hl.mpr h.lower), congrArg indicator (hu.mpr h.upper)⟩

-- Two bounds in order are present as soon as both are marked.
theorem facing_of_twoSided [LawfulScalar α] (h : (ofBounds infinity bounds).Sound)
    (h2 : (ofBounds infinity bounds).TwoSided) : (ofBounds infinity bounds).Facing infinity := by
  have ⟨hl, hu⟩ := twoSided_ofBounds.mp h2
  exact ⟨fun _ => LawfulScalar.lt_of_le_of_lt h.ordered hu,
    fun _ => LawfulScalar.lt_of_lt_of_le hl h.ordered⟩

end Box

namespace Core

variable {o : Options α} {core : Core α} {v : Survey α} {s : Store α}

-- The boxes of the inequalities.
def inequalityBoxes (core : Core α) (s : Store α) : List (Box α) :=
  let bounds := (s.entries core.inequalityLower.view).zip (s.entries core.inequalityUpper.view)
  let marks := (s.entries core.inequalityLowerIndicator.view).zip
    (s.entries core.inequalityUpperIndicator.view)
  (bounds.zip marks).map fun ((l, u), (i, j)) => ⟨l, u, i, j⟩

-- The numbers of bounds are those of the indicators that are set.
structure CountsMarks (core : Core α) (s : Store α) : Prop where
  lower : core.lowerCountLocal = (core.boxes s).countP (·.lowerMark == 1)
  upper : core.upperCountLocal = (core.boxes s).countP (·.upperMark == 1)
  inequalityLower : core.inequalityLowerCount = (core.inequalityBoxes s).countP (·.lowerMark == 1)
  inequalityUpper : core.inequalityUpperCount = (core.inequalityBoxes s).countP (·.upperMark == 1)
  inequalityBoth : core.inequalityBothCount = (core.inequalityBoxes s).countP (·.TwoSided)

theorem Describes.inequalityBoxes (h : core.Describes o v s) : core.inequalityBoxes s =
    (core.split.lower.zip core.split.upper).map (Box.ofBounds o.infinity) := by
  have hi := h.inequalities
  simp only [Core.inequalityBoxes, hi.lower.entries, hi.upper.entries, hi.lowerIndicator.entries,
    hi.upperIndicator.entries]
  exact map_zip_marks ..

theorem Survey.length_bounds (core : Core α) (h : v.variableData.Fits (v.fixed o).length) :
    (v.bounds o core).1.length = (clearPositions (v.eliminated o core)).length ∧
      (v.bounds o core).2.length = (clearPositions (v.eliminated o core)).length :=
  length_treatedBounds h

theorem Describes.length_boxes (h : core.Describes o v s)
    (hv : v.variableData.Fits (v.fixed o).length) :
    ((core.boxes s).length : Int) = core.localSize := by
  have ⟨hl, hu⟩ := v.length_bounds core hv
  rw [h.boxes, List.length_map, List.length_zip, hl, hu, Nat.min_self]
  exact h.localSize.symm

theorem Describes.length_inequalityBoxes (h : core.Describes o v s)
    (hc : v.constraintData.Fits v.constraintCount) :
    (core.inequalityBoxes s).length = core.inequalityCount := by
  have ⟨_, hl, hu⟩ := localSize_split hc h.split
  simp only [Layout.localSize_ofSize, Int.natCast_inj] at hl hu
  rw [h.inequalityBoxes, List.length_map, List.length_zip, hl, hu, Nat.min_self, inequalityCount]

variable [LawfulScalar α] {lower upper : List α} {infinity : α}

theorem countP_lowerMark (h : lower.length ≤ upper.length) :
    ((lower.zip upper).map (Box.ofBounds infinity)).countP (·.lowerMark == 1) =
      lower.countP (hasLower infinity) := by
  rw [List.countP_map, ← List.map_fst_zip h, List.countP_map, List.map_fst_zip h]
  apply List.countP_congr
  intro bounds _
  exact indicator_beq_one

theorem countP_upperMark (h : upper.length ≤ lower.length) :
    ((lower.zip upper).map (Box.ofBounds infinity)).countP (·.upperMark == 1) =
      upper.countP (hasUpper infinity) := by
  rw [List.countP_map, ← List.map_snd_zip h, List.countP_map, List.map_snd_zip h]
  apply List.countP_congr
  intro bounds _
  exact indicator_beq_one

theorem countP_twoSided :
    ((lower.zip upper).map (Box.ofBounds infinity)).countP (·.TwoSided) =
      (lower.zip upper).countP fun (l, u) => hasLower infinity l && hasUpper infinity u := by
  rw [List.countP_map]
  apply List.countP_congr
  intro bounds _
  simp [Box.twoSided_ofBounds, hasLower_iff, hasUpper_iff]

theorem Describes.countsMarks (h : core.Describes o v s)
    (hv : v.variableData.Fits (v.fixed o).length)
    (hc : v.constraintData.Fits v.constraintCount) : core.CountsMarks s := by
  have ⟨hl, hu⟩ := v.length_bounds core hv
  have ⟨_, hil, hiu⟩ := localSize_split hc h.split
  simp only [Layout.localSize_ofSize, Int.natCast_inj] at hil hiu
  constructor
  case lower => rw [h.lowerCountLocal, h.boxes, countP_lowerMark (hl.trans hu.symm).le]
  case upper => rw [h.upperCountLocal, h.boxes, countP_upperMark (hu.trans hl.symm).le]
  case inequalityLower =>
    rw [h.inequalityLowerCount, h.inequalityBoxes, countP_lowerMark (hil.trans hiu.symm).le]
  case inequalityUpper =>
    rw [h.inequalityUpperCount, h.inequalityBoxes, countP_upperMark (hiu.trans hil.symm).le]
  case inequalityBoth => rw [h.inequalityBothCount, h.inequalityBoxes, countP_twoSided]

end Core

namespace Formulation

variable [LawfulScalar α] {p : Problem α} {s t : Session α} {d : Finalized α}

-- Indicators say of each bound on which side of one threshold it is, and the counts are those of
-- the indicators. They tell which bounds are present exactly if no bound is beyond the other
-- threshold; where both bounds of a sound box are marked, none is.
theorem indicators_truthful_iff (hf : finalize p s = (.ok true, t))
    (hd : t.formulation.finalized = some d) :
    ((d.core.boxes t.store).length = d.core.localSize ∧
      (d.core.inequalityBoxes t.store).length = d.core.inequalityCount) ∧
    (∀ b ∈ d.core.boxes t.store ++ d.core.inequalityBoxes t.store,
      b = .ofBounds s.formulation.options.infinity (b.lower, b.upper) ∧
      (b.Truthful s.formulation.options.infinity ↔ b.Facing s.formulation.options.infinity) ∧
      (b.Sound → b.TwoSided → b.Truthful s.formulation.options.infinity)) ∧
    d.core.CountsMarks t.store := by
  have ⟨v, hF⟩ := finalizes_of_finalized hf hd
  have hdesc := hF.intact.describes
  have hsurv := hF.ready.surveyed
  have hv : v.variableData.Fits (v.fixed s.formulation.options).length :=
    Core.fixedVariables_fits hsurv.variables_fit ▸ hsurv.variables_fit
  refine ⟨⟨hdesc.length_boxes hv, hdesc.length_inequalityBoxes hsurv.constraints_fit⟩,
    fun b hb => ?_, hdesc.countsMarks hv hsurv.constraints_fit⟩
  have ⟨bounds, hb⟩ : ∃ bounds, Box.ofBounds s.formulation.options.infinity bounds = b := by
    rw [hdesc.boxes, hdesc.inequalityBoxes, ← List.map_append] at hb
    have ⟨bounds, _, hb⟩ := List.mem_map.mp hb
    exact ⟨bounds, hb⟩
  subst hb
  exact ⟨rfl, Box.truthful_ofBounds_iff, fun hs h2 =>
    Box.truthful_ofBounds_iff.mpr (Box.facing_of_twoSided hs h2)⟩

-- A variable between zero and one.
theorem indicators_truthful_iff_bounded : ∃ t d,
    finalize (between 0 1) (relaxing 1e-8 1e20) = (.ok true, t) ∧
    t.formulation.finalized = some d ∧
    (∀ b ∈ d.core.boxes t.store, b.Truthful 1e20) ∧ d.core.lowerCountLocal = 1 := by
  have ⟨t, d, hf, hd, hb⟩ := finalized_of_data (p := between 0 1) (s := relaxing 1e-8 1e20)
    (f := fun d s => d.core.boxes s) (b := [⟨0, 1, 1, 1⟩]) (by decide +kernel) (by decide +kernel)
  have ⟨_, hboxes, hcounts⟩ := indicators_truthful_iff hf hd
  refine ⟨t, d, hf, hd, fun b hb' => ?_, ?_⟩
  · have hfacing : ∀ b ∈ [(⟨0, 1, 1, 1⟩ : Box Float)], b.Facing 1e20 := by decide +kernel
    exact (hboxes b (List.mem_append_left _ hb')).right.left.mpr (hfacing b (hb ▸ hb'))
  · rw [hcounts.lower, hb]
    decide +kernel

-- A lower bound of infinity is marked as present, and counted.
theorem infinite_lower_bound_marked : ∃ t d,
    finalize (between (1 / 0) (1 / 0)) (relaxing 1e-8 1e20) = (.ok true, t) ∧
    t.formulation.finalized = some d ∧ d.core.boxes t.store = [⟨1 / 0, 1 / 0, 1, 0⟩] ∧
    d.core.lowerCountLocal = 1 ∧ ¬∀ b ∈ d.core.boxes t.store, b.Truthful 1e20 := by
  have ⟨t, d, hf, hd, hb⟩ := finalized_of_data (p := between (1 / 0) (1 / 0))
    (s := relaxing 1e-8 1e20) (f := fun d s => (d.core.boxes s, d.core.lowerCountLocal))
    (b := ([⟨1 / 0, 1 / 0, 1, 0⟩], 1)) (by decide +kernel) (by decide +kernel)
  have ⟨hboxes, hcount⟩ := Prod.mk.inj hb
  refine ⟨t, d, hf, hd, hboxes, hcount, ?_⟩
  rw [hboxes]
  decide +kernel

end Formulation
end NonlinearProgram
