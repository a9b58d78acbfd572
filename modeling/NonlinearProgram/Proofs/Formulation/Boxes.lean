import Mathlib.Data.List.Forall2
import NonlinearProgram.Proofs.Binary64
import NonlinearProgram.Proofs.Box
import NonlinearProgram.Proofs.Formulation.Ranks
import NonlinearProgram.Proofs.Problem

namespace NonlinearProgram

open Program FormulationM

variable {α : Type}

theorem restrict_cons (b : Bool) (mask : List Bool) (x : α) (xs : List α) :
    restrict (b :: mask) (x :: xs) = (if b then [] else [x]) ++ restrict mask xs := by
  have hm : gather (x :: xs) ((clearPositions mask).map (· + 1)) =
      gather xs (clearPositions mask) := by
    simp [gather, List.filterMap_map]
  rw [restrict, clearPositions_cons]
  cases b
  case false => simp [gather_cons, hm, restrict]
  case true => simp [hm, restrict]

theorem restrict_map {β : Type} (f : β → Bool) (g : β → α) (xs : List β) :
    restrict (xs.map f) (xs.map g) = (xs.filter (!f ·)).map g := by
  induction xs
  case nil => rfl
  case cons x xs hi =>
    rw [List.map_cons, List.map_cons, restrict_cons, hi, List.filter_cons]
    cases f x <;> rfl

variable [Scalar α]

-- The sum of what no rank takes away from is at least what this rank contributes.
def Communicator.Covers (c : Communicator α) : Prop :=
  ∀ (k n : Nat) (total : Int), (c.sum k (.whole n)).bind Quantity.toInteger = .ok total →
    (n : Int) ≤ total

theorem Communicator.covers_serial (name : String) :
    (serial name : Communicator α).Covers := by
  intro k n total h
  cases h
  exact Int.le_refl _

-- The declared bounds, pair by pair.
def Declared.pairs (d : Declared α) : List (α × α) := d.lower.zip d.upper

namespace Core

variable {o : Options α} {d : Declared α} {policy : FixedPolicy} {count : Int} {n : Nat}

omit [Scalar α] in
theorem unzip_pairs (h : d.Fits n) :
    d.lower = d.pairs.map Prod.fst ∧ d.upper = d.pairs.map Prod.snd := by
  have hl : d.lower.length = d.upper.length := h.lower.trans h.upper.symm
  exact ⟨(List.map_fst_zip (Nat.le_of_eq hl)).symm, (List.map_snd_zip (Nat.le_of_eq hl.symm)).symm⟩

theorem fixedVariables_eq (h : d.Fits n) :
    fixedVariables o d = d.pairs.map (Box.isTreated o) := by
  have ⟨hl, hu⟩ := unzip_pairs h
  rw [fixedVariables, hl, hu]
  cases hp : o.policy
  case keep =>
    have hf : Box.isTreated o = fun _ => false := by
      funext b
      simp [Box.isTreated, hp]
    simp [hf, List.map_const']
  all_goals simp [Box.isTreated, hp, fixedMask, List.zipWith_map]

theorem filterMap_treated_of_not (h : ∀ b ∈ d.pairs, ¬Box.isTreated o b) :
    d.pairs.filterMap (Box.treated o policy) = d.pairs.map (Box.ofBounds o.infinity) := by
  rw [← List.filterMap_eq_map]
  apply List.filterMap_congr
  intro b hb
  exact if_neg (h b hb)

theorem filterMap_treated_remove : d.pairs.filterMap (Box.treated o .remove) =
    (d.pairs.filter (!Box.isTreated o ·)).map (Box.ofBounds o.infinity) := by
  rw [← List.filterMap_eq_map, List.filterMap_filter]
  apply List.filterMap_congr
  intro b _
  simp only [Box.treated]
  cases Box.isTreated o b <;> rfl

theorem filterMap_treated_relax : d.pairs.filterMap (Box.treated o .relax) =
    d.pairs.map fun b => Box.ofBounds o.infinity
      (if Box.isTreated o b then Relaxer.widened o.tolerance b.1 b.2 else b) := by
  rw [← List.filterMap_eq_map]
  apply List.filterMap_congr
  intro b _
  simp only [Box.treated, Function.comp_apply]
  cases Box.isTreated o b <;> rfl

-- Treating the bounds all at once is treating them pair by pair.
theorem zip_treatedBounds (h : d.Fits n) (hp : policy = .keep → o.policy = .keep)
    (hc : count ≤ 0 → ∀ b ∈ d.pairs, ¬Box.isTreated o b) :
    ((treatedBounds policy o d (fixedVariables o d) count).1.zip
      (treatedBounds policy o d (fixedVariables o d) count).2).map (Box.ofBounds o.infinity) =
        d.pairs.filterMap (Box.treated o policy) := by
  have ⟨hl, hu⟩ := unzip_pairs h
  unfold treatedBounds
  split
  case isTrue hn => exact (filterMap_treated_of_not (hc hn)).symm
  case isFalse =>
    rw [fixedVariables_eq h]
    cases policy
    case keep => 
      refine (filterMap_treated_of_not fun b _ ht => ?_).symm
      exact (Box.isTreated_iff.mp ht).left (hp rfl)
    case remove =>
      rw [hl, hu]
      dsimp only
      rw [restrict_map, restrict_map, List.zip_map', filterMap_treated_remove, List.map_map]
      rfl
    case relax =>
      rw [Relaxer.widenedBounds]
      dsimp only
      rw [List.zip_map', List.map_map, filterMap_treated_relax]
      have hz : d.lower.zip d.upper = d.pairs := rfl
      rw [hz]
      simp [List.zipWith_map_left, List.zipWith_self]

-- The boxes of the internal variables.
def boxes (core : Core α) (s : Store α) : List (Box α) :=
  let bounds := (s.entries core.lower.view).zip (s.entries core.upper.view)
  let marks := (s.entries core.lowerIndicator.view).zip (s.entries core.upperIndicator.view)
  (bounds.zip marks).map fun ((l, u), (i, j)) => ⟨l, u, i, j⟩

-- What the problem declares of the variables at hand.
def declared (core : Core α) (p : Problem α) : Declared α :=
  declaredBy (p.variableBounds core.userSize) (undeclared core.userLayout.localSize.toNat)

variable {core : Core α} {v : Survey α} {s : Store α}

theorem map_zip_marks (infinity : α) (lower upper : List α) :
    ((lower.zip upper).zip ((lower.map fun l => indicator (hasLower infinity l)).zip
      (upper.map fun u => indicator (hasUpper infinity u)))).map
        (fun ((l, u), (i, j)) => (⟨l, u, i, j⟩ : Box α)) =
      (lower.zip upper).map (Box.ofBounds infinity) := by
  induction lower generalizing upper
  case nil => rfl
  case cons l lower hi =>
    cases upper
    case nil => rfl
    case cons u upper => exact congrArg _ (hi upper)

theorem Describes.boxes (h : core.Describes o v s) : core.boxes s =
    ((v.bounds o core).1.zip (v.bounds o core).2).map (Box.ofBounds o.infinity) := by
  have hb := h.bounds
  simp only [Core.boxes, hb.lower.entries, hb.upper.entries, hb.lowerIndicator.entries,
    hb.upperIndicator.entries]
  exact map_zip_marks ..

theorem policyFor_eq_keep {requested : FixedPolicy} {distributed canRemove : Bool} :
    policyFor requested count distributed canRemove = .keep ↔ requested = .keep := by
  rw [policyFor]
  split
  case isTrue h => simp [h.left]
  case isFalse => rfl

end Core

namespace Formulation

variable {p : Problem α} {v : Core.Survey α} {d : Finalized α} {s t : Session α}

namespace Finalizes

variable (h : Finalizes p v d s t)

include h

theorem policy_eq_keep : d.core.policy = .keep ↔ s.formulation.options.policy = .keep := by
  have ⟨_, hb, _⟩ := h.built
  rw [hb.policy]
  exact Core.policyFor_eq_keep

theorem declared : d.core.declared p = v.variableData := by
  have ⟨_, hb, _⟩ := h.built
  have hd := h.intact.describes
  rw [Core.declared, hd.userSize, hd.userLayout, hb.surveyed.variableData]

theorem fits : v.variableData.Fits v.layout.localSize.toNat :=
  have ⟨_, hb, _⟩ := h.built
  hb.surveyed.variables_fit

-- No count is below what this rank contributes to it.
theorem le_count (hc : s.formulation.communicator.Covers) {j n : Nat} {total : Int}
    (hj : (d.core.counts s.formulation.options v)[j]? = some ((n : Int), total)) :
    (n : Int) ≤ total := by
  have ⟨_, hb, _⟩ := h.built
  have ⟨_, _, hs, _⟩ := hb.reductions
  exact hc _ _ _ (hs.total hj)

theorem boxes (hc : s.formulation.communicator.Covers) : d.core.boxes t.store =
    (d.core.declared p).pairs.filterMap
      (Box.treated s.formulation.options d.core.policy) := by
  rw [h.intact.describes.boxes, h.declared]
  apply Core.zip_treatedBounds h.fits h.policy_eq_keep.mp
  intro hn b hb ht
  have hle : ((v.fixed s.formulation.options).count true : Int) ≤ d.core.fixedCount :=
    h.le_count hc (j := 0) rfl
  have hm : true ∈ v.fixed s.formulation.options := by
    rw [Core.Survey.fixed, Core.fixedVariables_eq h.fits]
    exact List.mem_map.mpr ⟨b, hb, ht⟩
  have := List.count_pos_iff.mpr hm
  omega

theorem consistent {l u : α} (hb : (l, u) ∈ (d.core.declared p).pairs) :
    ¬isInconsistent s.formulation.options.tolerance (s.formulation.options.policy != .keep) l
      u := by
  rw [h.declared] at hb
  intro hi
  have ⟨_, hbuilt, _⟩ := h.built
  have hnil := setPositions_eq_nil.mp hbuilt.surveyed.variables_consistent
  have ⟨i, hget⟩ := List.getElem?_of_mem hb
  have ⟨hl, hu⟩ := List.getElem?_zip_eq_some.mp hget
  apply hnil i
  rw [List.getElem?_zipWith, hl, hu]
  exact congrArg some hi

-- The number of variables with two bounds here is what goes into their total.
theorem bothCount [LawfulScalar α] : ∃ k, (s.formulation.communicator.sum k
    (.whole ((d.core.boxes t.store).countP (·.TwoSided)))).bind Quantity.toInteger =
      .ok d.core.bothCount := by
  have ⟨_, hb, _⟩ := h.built
  have ⟨_, _, hs, _⟩ := hb.reductions
  have htotal := hs.total (j := 3) rfl
  have hcount : (d.core.boxes t.store).countP (·.TwoSided) =
      (classifyBounds s.formulation.options.infinity (v.bounds s.formulation.options d.core).1
        (v.bounds s.formulation.options d.core).2).bothCount := by
    rw [h.intact.describes.boxes, List.countP_map, classifyBounds]
    apply List.countP_congr
    intro bounds _
    simp [Box.twoSided_ofBounds, hasLower_iff, hasUpper_iff]
  rw [hcount]
  exact ⟨_, htotal⟩

end Finalizes

variable [RoundedScalar α]

-- The bounds of all internal variables are in order exactly if no declared pair crosses beyond the
-- threshold, and none is relaxed by a width that overflows. Boxes with two bounds have an interior
-- in any case, as long as fixed variables are treated.
theorem bounds_sound_iff (hf : finalize p s = (.ok true, t))
    (hd : t.formulation.finalized = some d) (ht : 0 < s.formulation.options.tolerance)
    (hc : s.formulation.communicator.Covers) :
    ((∀ b ∈ d.core.boxes t.store, b.Sound) ↔
      ∀ bounds ∈ (d.core.declared p).pairs, Box.CrossesWithin s.formulation.options bounds ∧
        (d.core.policy = .relax → Box.RelaxesFinitely s.formulation.options bounds)) ∧
    (s.formulation.options.policy ≠ .keep →
      ∀ b ∈ d.core.boxes t.store, b.TwoSided → b.lower < b.upper) := by
  have ⟨v, hF⟩ := finalizes_of_finalized hf hd
  rw [hF.boxes hc]
  constructor
  case left =>
    have hsound {l u : α} (hb : (l, u) ∈ (d.core.declared p).pairs) :=
      Box.sound_treated_iff ht hF.policy_eq_keep (hF.consistent hb)
    constructor
    case mp =>
      intro h (l, u) hb
      apply (hsound hb).mp
      intro b htr
      exact h b (List.mem_filterMap.mpr ⟨(l, u), hb, htr⟩)
    case mpr =>
      intro h b hb
      have ⟨(l, u), hb, htr⟩ := List.mem_filterMap.mp hb
      exact (hsound hb).mpr (h (l, u) hb) b htr
  case right =>
    intro hk b hb
    have ⟨(l, u), hb, htr⟩ := List.mem_filterMap.mp hb
    exact Box.lt_of_twoSided ht hF.policy_eq_keep hk htr

-- Where fixed variables are relaxed, the others keep their bounds and their indicators. A relaxed
-- variable has two bounds exactly if its relaxed bounds are inside of the threshold. What this rank
-- contributes to the count of variables with two bounds is how many of them are here.
theorem relaxed_two_sided_iff (hf : finalize p s = (.ok true, t))
    (hd : t.formulation.finalized = some d) (ht : 0 < s.formulation.options.tolerance)
    (hc : s.formulation.communicator.Covers) (hp : d.core.policy = .relax) :
    List.Forall₂ (Box.Relaxes s.formulation.options) (d.core.declared p).pairs
      (d.core.boxes t.store) ∧
    ∃ k, (s.formulation.communicator.sum k
      (.whole ((d.core.boxes t.store).countP (·.TwoSided)))).bind Quantity.toInteger =
        .ok d.core.bothCount := by
  have ⟨v, hF⟩ := finalizes_of_finalized hf hd
  constructor
  case left =>
    have hk : s.formulation.options.policy ≠ .keep := by
      intro hk
      exact FixedPolicy.noConfusion (hp.symm.trans (hF.policy_eq_keep.mpr hk))
    rw [hF.boxes hc, hp, Core.filterMap_treated_relax, List.forall₂_map_right_iff,
      List.forall₂_same]
    exact fun bounds _ => Box.relaxes_treated ht hk
  case right => exact hF.bothCount

end Formulation

-- The only variable has the given bounds.
def between (l u : Float) : Problem Float :=
  { Problem.ofFunctions 1 0 (fun _ => 0) fun _ _ => 0 with
    variableBounds := fun _ _ => .ok { lower := [l], upper := [u], answer := .flag true } }

def relaxing (tolerance infinity : Float) : Session Float where
  formulation := {
    kind := .dense
    options := ⟨.relax, tolerance, infinity⟩
    communicator := .serial "alone" }
  clock := 0

namespace Formulation

-- What can be computed of a finalization that succeeds.
theorem finalized_of_data {β : Type} {p : Problem α} {s : Session α} {f : Finalized α → Store α → β}
    {b : β} (hs : succeeds p s)
    (hb : (finalize p s).2.formulation.finalized.map (f · (finalize p s).2.store) = some b) :
    ∃ t d, finalize p s = (.ok true, t) ∧ t.formulation.finalized = some d ∧ f d t.store = b :=
  have ⟨d, hd, hb⟩ := Option.map_eq_some_iff.mp hb
  ⟨_, d, finalize_of_succeeds hs, hd, hb⟩

-- A variable that is fixed at two gets room to move.
theorem bounds_sound_iff_relaxed : ∃ t d,
    finalize (between 2 2) (relaxing 1e-8 1e20) = (.ok true, t) ∧
    t.formulation.finalized = some d ∧ (∀ b ∈ d.core.boxes t.store, b.Sound) ∧
    ∀ b ∈ d.core.boxes t.store, b.TwoSided → b.lower < b.upper := by
  have ⟨t, d, hf, hd, hb⟩ := finalized_of_data (p := between 2 2) (s := relaxing 1e-8 1e20)
    (f := fun d _ => (d.core.declared (between 2 2)).pairs) (b := [(2, 2)]) (by decide +kernel)
    (by decide +kernel)
  have ⟨hsound, hlt⟩ := bounds_sound_iff hf hd (by decide +kernel) (Communicator.covers_serial _)
  refine ⟨t, d, hf, hd, hsound.mpr fun bounds hb' => ?_, hlt (by decide)⟩
  rw [hb, List.mem_singleton] at hb'
  subst hb'
  exact ⟨by decide +kernel, fun _ => by decide +kernel⟩

-- Crossed bounds of which one is beyond the threshold are accepted, and no policy treats them.
theorem crossed_bounds_accepted : ∃ t d,
    finalize (between 1.5 1.2) (relaxing 1 1) = (.ok true, t) ∧
    t.formulation.finalized = some d ∧ d.core.boxes t.store = [⟨1.5, 1.2, 1, 0⟩] ∧
    ¬∀ b ∈ d.core.boxes t.store, b.Sound := by
  have ⟨t, d, hf, hd, hb⟩ := finalized_of_data (p := between 1.5 1.2) (s := relaxing 1 1)
    (f := fun d s => d.core.boxes s) (b := [⟨1.5, 1.2, 1, 0⟩]) (by decide +kernel)
    (by decide +kernel)
  refine ⟨t, d, hf, hd, hb, ?_⟩
  rw [hb]
  decide +kernel

-- A variable that is fixed at 1.5 keeps two bounds when it is relaxed, and those of a free variable
-- stay as they are.
theorem relaxed_two_sided_iff_inside : ∃ t d b,
    finalize (between 1.5 1.5) (relaxing 1e-8 1e20) = (.ok true, t) ∧
    t.formulation.finalized = some d ∧ d.core.boxes t.store = [b] ∧
    (b.lower, b.upper) = Relaxer.widened 1e-8 1.5 1.5 ∧ b.TwoSided ∧ b.lower < b.upper ∧
    d.core.bothCount = 1 := by
  have ⟨t, d, hf, hd, hb⟩ := finalized_of_data (p := between 1.5 1.5) (s := relaxing 1e-8 1e20)
    (f := fun d s => (d.core.policy, (d.core.declared (between 1.5 1.5)).pairs, d.core.boxes s))
    (b := (.relax, [(1.5, 1.5)], [.ofBounds 1e20 (Relaxer.widened 1e-8 1.5 1.5)]))
    (by decide +kernel) (by decide +kernel)
  simp only [Prod.mk.injEq] at hb
  have ⟨hp, hpairs, hboxes⟩ := hb
  have ⟨hrel, k, hk⟩ := relaxed_two_sided_iff hf hd (by decide +kernel)
    (Communicator.covers_serial _) hp
  rw [hpairs, hboxes, List.forall₂_cons] at hrel
  have hfix : isFixed (1e-8 : Float) 1e20 1.5 1.5 := by decide +kernel
  have h2 := (hrel.left.twoSided hfix).mpr (by decide +kernel)
  refine ⟨t, d, _, hf, hd, hboxes, hrel.left.widened hfix, h2, hrel.left.interior hfix h2, ?_⟩
  rw [hboxes, List.countP_cons_of_pos (by simpa using h2)] at hk
  exact (Except.ok.inj hk).symm

-- A variable that is fixed just inside of the threshold loses its upper bound when it is relaxed.
theorem relaxed_past_threshold : ∃ t d,
    finalize (between 99999999999999e6 99999999999999e6) (relaxing 1e-8 1e20) = (.ok true, t) ∧
    t.formulation.finalized = some d ∧ d.core.policy = .relax ∧ d.core.fixedCount = 1 ∧
    (d.core.boxes t.store).map (fun b => (b.lowerMark, b.upperMark)) = [(1, 0)] ∧
    d.core.bothCount = 0 := by
  have ⟨t, d, hf, hd, hb⟩ := finalized_of_data
    (p := between 99999999999999e6 99999999999999e6) (s := relaxing 1e-8 1e20)
    (f := fun d s => (d.core.policy, d.core.fixedCount,
      (d.core.boxes s).map fun b => (b.lowerMark, b.upperMark), d.core.bothCount))
    (b := (.relax, 1, [(1, 0)], 0)) (by decide +kernel) (by decide +kernel)
  simp only [Prod.mk.injEq] at hb
  exact ⟨t, d, hf, hd, hb⟩

end Formulation
end NonlinearProgram
