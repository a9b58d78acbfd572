import Mathlib
import NonlinearProgram.Proofs.Layout

namespace NonlinearProgram.Layout

variable {bounds : List Int} {ranks : Nat} {rank a b : Int} {l : Layout}

-- The layout as another rank sees it.
def seenBy (l : Layout) (r : Nat) : Layout := { l with rank := r }

-- The indices that a rank owns.
def slice (l : Layout) (r : Nat) : Set Int := Set.Ico (l.seenBy r).start (l.seenBy r).stop

-- The slices of all ranks lie side by side and make up the whole space.
structure Partitions (l : Layout) : Prop where
  nonneg : ∀ r < l.rankCount, 0 ≤ (l.seenBy r).localSize
  ordered : ∀ r q, r < q → q < l.rankCount → (l.seenBy r).stop ≤ (l.seenBy q).start
  disjoint : ∀ r q, r < l.rankCount → q < l.rankCount → r ≠ q → Disjoint (l.slice r) (l.slice q)
  covers : ∀ i, (∃ r < l.rankCount, i ∈ l.slice r) ↔ 0 ≤ i ∧ i < l.globalSize
  sizes : l.sizes.sum = l.globalSize

-- Boundaries of at least one slice, and the rank of one of them. Every boundary comes before the
-- next one, except that a slice may be empty if it is the only one.
structure Cuts (before : Int → Int → Prop) (bounds : List Int) (rank : Int) : Prop where
  two : 2 ≤ bounds.length
  first : bounds.head? = some 0
  order : bounds.IsChain fun a b => before a b ∨ bounds.length = 2 ∧ a = b
  rank_nonneg : 0 ≤ rank
  rank_lt : rank < bounds.length - 1

-- On the circle of the 64-bit integers, the shorter way from one to the other goes up.
def Precedes (a b : Int) : Prop := a < b ∧ b - a < 2 ^ 63 ∨ b - a < -2 ^ 63

theorem isInt64_iff : isInt64 a ↔ -2 ^ 63 ≤ a ∧ a < 2 ^ 63 := by
  simp [isInt64]

-- A step of 64 bits is positive, or zero where no step is needed.
theorem step_pos_iff (ha : isInt64 a) (hb : isInt64 b) :
    0 < (b - a).bmod 0x10000000000000000 ↔ Precedes a b := by
  rw [isInt64_iff] at ha hb
  rw [Precedes, Int.bmod_def]
  split <;> omega

theorem step_nonneg_iff (ha : isInt64 a) (hb : isInt64 b) :
    0 ≤ (b - a).bmod 0x10000000000000000 ↔ Precedes a b ∨ a = b := by
  rw [isInt64_iff] at ha hb
  rw [Precedes, Int.bmod_def]
  split <;> omega

theorem forall_wrappedSteps {p : Int → Prop} : (∀ step ∈ wrappedSteps bounds, p step) ↔
    bounds.IsChain fun a b => p ((b - a).bmod 0x10000000000000000) := by
  induction bounds
  case nil => simp [wrappedSteps]
  case cons a bounds hi =>
    cases bounds
    case nil => simp [wrappedSteps]
    case cons b bounds =>
      rw [List.isChain_cons_cons, ← hi]
      simp [wrappedSteps]

-- Boundaries are in order if the check finds nothing wrong with their steps.
theorem isChain_iff_steps (h : ∀ b ∈ bounds, isInt64 b) :
    (bounds.IsChain fun a b => Precedes a b ∨ bounds.length = 2 ∧ a = b) ↔
      ∀ step ∈ wrappedSteps bounds, 0 < step ∨ bounds.length = 2 ∧ 0 ≤ step := by
  rw [forall_wrappedSteps]
  apply List.IsChain.iff_of_mem_imp
  intro a b ha hb
  rw [step_pos_iff (h a ha) (h b hb), step_nonneg_iff (h a ha) (h b hb)]
  tauto

-- What the check of the boundaries lets through.
theorem ranksOf_iff (h : ∀ b ∈ bounds, isInt64 b) : ranksOf bounds = .ok ranks ↔
    bounds.length = ranks + 1 ∧ 2 ≤ bounds.length ∧ bounds.head? = some 0 ∧
      bounds.IsChain fun a b => Precedes a b ∨ bounds.length = 2 ∧ a = b := by
  have hv : bounds.any (!isInt64 ·) = false := by simpa using h
  rw [isChain_iff_steps h, ranksOf.eq_def, hv]
  obtain _ | ⟨first, _ | ⟨second, rest⟩⟩ := bounds
  case nil => simp
  case cons.nil => simp
  case cons.cons =>
    have hsteps : (∀ step ∈ wrappedSteps (first :: second :: rest), 0 < step ∨
        (first :: second :: rest).length = 2 ∧ 0 ≤ step) ↔
        (rest.isEmpty && (wrappedSteps (first :: second :: rest)).any (· < 0)) = false ∧
        (!rest.isEmpty && (wrappedSteps (first :: second :: rest)).any (· ≤ 0)) = false := by
      cases rest
      case nil => simp [or_iff_right_of_imp Int.le_of_lt]
      case cons => simp
    rw [hsteps]
    dsimp only
    generalize (rest.isEmpty && _) = decreasing
    generalize (!rest.isEmpty && _) = notIncreasing
    by_cases hf : first = 0
    case neg => simp [hf]
    case pos => cases decreasing <;> cases notIncreasing <;> simp [hf]

-- The layouts that there are.
theorem exists_ofBoundaries_iff (h : ∀ b ∈ bounds, isInt64 b) :
    (∃ l, ofBoundaries bounds rank = .ok l) ↔ Cuts Precedes bounds rank := by
  constructor
  case mp =>
    intro ⟨l, hl⟩
    have ⟨ranks, hr, hnonneg, hlt, _⟩ := ranksOf_of_ofBoundaries hl
    have ⟨hlen, htwo, hfirst, horder⟩ := (ranksOf_iff h).mp hr
    exact ⟨htwo, hfirst, horder, hnonneg, by omega⟩
  case mpr =>
    intro hc
    have htwo := hc.two
    have hlt := hc.rank_lt
    have hr : ranksOf bounds = .ok (bounds.length - 1) :=
      (ranksOf_iff h).mpr ⟨by omega, htwo, hc.first, hc.order⟩
    have hrank : rank = (rank.toNat : Int) := (Int.toNat_of_nonneg hc.rank_nonneg).symm
    rw [hrank]
    exact ⟨_, ofBoundaries_rank hr (by omega)⟩

theorem Cuts.isChain_le (h : Cuts (· < ·) bounds rank) : bounds.IsChain (· ≤ ·) :=
  h.order.imp fun _ _ h => h.elim Int.le_of_lt fun h => Int.le_of_eq h.right

theorem Cuts.nonneg (h : Cuts (· < ·) bounds rank) : ∀ b ∈ bounds, 0 ≤ b := by
  match bounds, h.first, h.isChain_le with
  | first :: rest, hf, hc =>
    cases hf
    rw [List.forall_mem_cons]
    exact ⟨Int.le_refl 0, fun b hb => hc.rel_cons hb⟩

-- Steps from one boundary to another that is not negative do not wrap around.
theorem cuts_lt_iff (h : ∀ b ∈ bounds, isInt64 b) :
    Cuts (· < ·) bounds rank ↔ Cuts Precedes bounds rank ∧ ∀ b ∈ bounds, 0 ≤ b := by
  have horder (hn : ∀ b ∈ bounds, 0 ≤ b) :
      (bounds.IsChain fun a b => a < b ∨ bounds.length = 2 ∧ a = b) ↔
        bounds.IsChain fun a b => Precedes a b ∨ bounds.length = 2 ∧ a = b := by
    apply List.IsChain.iff_of_mem_imp
    intro a b ha hb
    have ha' := isInt64_iff.mp (h a ha)
    have hb' := isInt64_iff.mp (h b hb)
    have := hn a ha
    have := hn b hb
    rw [Precedes]
    omega
  constructor
  case mp =>
    intro hc
    exact ⟨{ hc with order := (horder hc.nonneg).mp hc.order }, hc.nonneg⟩
  case mpr =>
    intro ⟨hc, hn⟩
    exact { hc with order := (horder hn).mpr hc.order }

theorem isChain_le_iff : l.boundaries.IsChain (· ≤ ·) ↔
    ∀ r < l.rankCount, 0 ≤ (l.seenBy r).localSize := by
  rw [List.isChain_iff_getElem]
  apply forall_congr'
  intro r
  have hlt : r + 1 < l.boundaries.length ↔ r < l.rankCount := by
    rw [rankCount]
    omega
  rw [← hlt]
  apply forall_congr'
  intro hr
  have hr' : r < l.boundaries.length := by omega
  simp [localSize, start, stop, boundary, seenBy, hr, hr']

-- What follows holds where no slice has a negative size.
section

variable (h : ∀ r < l.rankCount, 0 ≤ (l.seenBy r).localSize)

include h

theorem boundary_le {r q : Nat} (hrq : r ≤ q) (hq : q ≤ l.rankCount) :
    l.boundary r ≤ l.boundary q := by
  induction q, hrq using Nat.le_induction
  case base => exact Int.le_refl _
  case succ q _ hi => exact Int.le_trans (hi (by omega)) (Int.sub_nonneg.mp (h q (by omega)))

theorem mem_slice_iff {q : Nat} (hq : q ≤ l.rankCount) (i : Int) :
    (∃ r < q, i ∈ l.slice r) ↔ l.boundary 0 ≤ i ∧ i < l.boundary q := by
  induction q
  case zero =>
    simp
  case succ q hi =>
    have hlow := boundary_le h (Nat.zero_le q) (by omega)
    have hupp := boundary_le h (Nat.le_add_right q 1) hq
    have hslice : i ∈ l.slice q ↔ l.boundary q ≤ i ∧ i < l.boundary (q + 1) := Iff.rfl
    rw [Nat.exists_lt_succ_right, hi (by omega), hslice]
    omega

-- Boundaries that are not negative are close enough for their steps.
theorem sizes_eq (hb : ∀ b ∈ l.boundaries, isInt64 b ∧ 0 ≤ b) :
    l.sizes = List.ofFn fun r : Fin l.rankCount => (l.seenBy r).localSize := by
  apply List.ext_getElem
  · simp [sizes, wrappedSteps, rankCount]
  · intro r hr hr'
    have hlt : r + 1 < l.boundaries.length := by
      simp only [sizes, wrappedSteps, List.length_zipWith, List.length_tail] at hr
      omega
    have hlt' : r < l.boundaries.length := by omega
    have hstep := h r (by rw [rankCount]; omega)
    obtain ⟨hn, hz⟩ := hb _ (List.getElem_mem hlt)
    obtain ⟨_, hz'⟩ := hb _ (List.getElem_mem hlt')
    have hn := (isInt64_iff.mp hn).right
    simp only [localSize, start, stop, boundary, seenBy, hlt, hlt', getElem?_pos,
      Option.getD_some] at hstep
    simp only [sizes, wrappedSteps, List.getElem_zipWith, List.getElem_tail, List.getElem_ofFn,
      localSize, start, stop, boundary, seenBy, hlt, hlt', getElem?_pos, Option.getD_some]
    rw [Int.bmod_def]
    split <;> omega

end

-- The slices are as they should be exactly if no boundary is negative.
theorem partitions_iff (h : ∀ b ∈ bounds, isInt64 b) (hl : ofBoundaries bounds rank = .ok l) :
    l.Partitions ↔ ∀ b ∈ bounds, 0 ≤ b := by
  obtain ⟨ranks, hr, _, _, hl'⟩ := ranksOf_of_ofBoundaries hl
  have hcuts := (exists_ofBoundaries_iff h).mp ⟨l, hl⟩
  have hbounds : l.boundaries = bounds := by rw [hl']
  obtain ⟨hlen, hfirst⟩ := ranksOf_eq_ok hr
  have hranks : ranks = l.rankCount := by simp [rankCount, hbounds, hlen]
  subst hranks
  have hzero : l.boundary 0 = 0 := by simp [boundary, hbounds, hfirst]
  have hlast : l.boundary l.rankCount = l.globalSize := by
    rw [boundary, globalSize, List.getLastD_eq_getLast?, List.getLast?_eq_getElem?, rankCount]
  constructor
  case mp =>
    intro hp b hb
    obtain ⟨r, hlt, hget⟩ := List.getElem_of_mem hb
    have hle := boundary_le hp.nonneg (Nat.zero_le r) (by omega)
    rw [hzero] at hle
    simpa [boundary, hbounds, hlt, hget] using hle
  case mpr =>
    intro hn
    have hc := (cuts_lt_iff h).mpr ⟨hcuts, hn⟩
    have hnonneg := isChain_le_iff.mp (hbounds ▸ hc.isChain_le)
    have hordered {r q : Nat} (hrq : r < q) (hq : q < l.rankCount) :
        (l.seenBy r).stop ≤ (l.seenBy q).start :=
      boundary_le hnonneg (Nat.succ_le_of_lt hrq) (Nat.le_of_lt hq)
    have hdisjoint {r q : Nat} (hrq : r < q) (hq : q < l.rankCount) :
        Disjoint (l.slice r) (l.slice q) := by
      apply Set.Ico_disjoint_Ico.mpr
      exact (min_le_left _ _).trans ((hordered hrq hq).trans (le_max_right _ _))
    constructor
    case nonneg => exact hnonneg
    case ordered => exact fun _ _ => hordered
    case disjoint =>
      intro r q hr hq hne
      rcases Nat.lt_or_gt_of_ne hne with hlt | hlt
      · exact hdisjoint hlt hq
      · exact (hdisjoint hlt hr).symm
    case covers =>
      intro i
      rw [mem_slice_iff hnonneg (Nat.le_refl _), hzero, hlast]
    case sizes =>
      have hb : ∀ b ∈ l.boundaries, isInt64 b ∧ 0 ≤ b := hbounds ▸ fun b hb => ⟨h b hb, hn b hb⟩
      rw [sizes_eq hnonneg hb, List.sum_ofFn, globalSize, hbounds]
      exact sum_localSize hr fun r => by rw [← hbounds]; rfl

-- A layout is made of boundaries each of which comes, in 64 bits, before the next one. They are in
-- order as integers, and their slices make up the whole space, exactly if none of them is negative.
theorem slices_partition_iff (h : ∀ b ∈ bounds, isInt64 b) (rank : Int) :
    ((∃ l, ofBoundaries bounds rank = .ok l) ↔ Cuts Precedes bounds rank) ∧
    (Cuts (· < ·) bounds rank ↔ Cuts Precedes bounds rank ∧ ∀ b ∈ bounds, 0 ≤ b) ∧
    ∀ l, ofBoundaries bounds rank = .ok l → l.boundaries = bounds ∧ l.rank = rank ∧
      (l.Partitions ↔ ∀ b ∈ bounds, 0 ≤ b) := by
  refine ⟨exists_ofBoundaries_iff h, cuts_lt_iff h, fun l hl => ?_⟩
  have ⟨_, _, hnonneg, _, hl'⟩ := ranksOf_of_ofBoundaries hl
  have hrank : (l.rank : Int) = rank := by rw [hl', Int.toNat_of_nonneg hnonneg]
  exact ⟨by rw [hl'], hrank, partitions_iff h hl⟩

-- Three ranks that own slices of different sizes.
theorem slices_partition_iff_uneven : ∃ l, ofBoundaries [0, 2, 5, 6] 1 = .ok l ∧ l.Partitions := by
  have h64 : ∀ b ∈ [0, 2, 5, 6], isInt64 b := by decide
  have ⟨_, _, hp⟩ := slices_partition_iff h64 1
  have hl : ofBoundaries [0, 2, 5, 6] 1 = .ok ⟨[0, 2, 5, 6], 1⟩ := rfl
  exact ⟨_, hl, (hp _ hl).right.right.mpr (by decide)⟩

-- From the greatest 64-bit integer, one step up can lead to a negative one.
theorem wrapped_boundaries_accepted :
    ofBoundaries [0, 2 ^ 63 - 1, 1 - 2 ^ 63, 0] 1 = .ok ⟨[0, 2 ^ 63 - 1, 1 - 2 ^ 63, 0], 1⟩ ∧
    ¬Cuts (· < ·) [0, 2 ^ 63 - 1, 1 - 2 ^ 63, 0] 1 ∧
    ¬(⟨[0, 2 ^ 63 - 1, 1 - 2 ^ 63, 0], 1⟩ : Layout).Partitions := by
  refine ⟨by decide, fun h => ?_, fun h => ?_⟩
  · exact absurd (h.nonneg (1 - 2 ^ 63) (by decide)) (by decide)
  · exact absurd (h.nonneg 1 (by decide)) (by decide)

end NonlinearProgram.Layout
