import NonlinearProgram.Proofs.Formulation.Ranks
import NonlinearProgram.Proofs.Partition
import NonlinearProgram.Proofs.Problem

namespace NonlinearProgram

open Program

section

variable {α : Type} [Scalar α] {ranks : Nat}

-- Each rank gets a layout for `n` variables that are spread over all ranks. The boundaries are what
-- its own problem gives it; of the other ranks, it learns how many variables all of them own
-- together.
structure Spread (rank : Fin ranks → Rank α) (n : Int) (layout : Fin ranks → Layout) : Prop where
  pos : 0 < ranks
  number : ∀ r, (rank r).communicator.rank = .integer r.val
  size : ∀ r, (rank r).communicator.size = .integer ranks
  distributes : ∀ r, (rank r).problem.Distributes n ranks
  accepts : ∀ r, (Core.askLayout (rank r).problem n (rank r).communicator (rank r).session).1 =
    .ok (layout r)
  total : ∀ r, (rank r).communicator.sum (rank r).entered (.whole (layout r).localSize) =
    .ok (.whole (∑ q, (layout q).localSize))

-- Every variable belongs to the slice of exactly one rank.
def OwnedOnce (n : Int) (layout : Fin ranks → Layout) : Prop :=
  ∀ i, 0 ≤ i → i < n → ∃! r : Fin ranks, i ∈ (layout r).slice r

theorem Layout.exists_crossing {l : Layout} {j k : Nat} (hjk : j ≤ k) (hj : l.boundary j ≤ 0)
    (hk : 0 < l.boundary k) : ∃ q, j ≤ q ∧ q < k ∧ 0 ∈ l.slice q := by
  induction k, hjk using Nat.le_induction
  case base => omega
  case succ k hjk hi =>
    by_cases hc : 0 < l.boundary k
    case pos =>
      have ⟨q, hq, hlt, hmem⟩ := hi hc
      exact ⟨q, hq, by omega, hmem⟩
    case neg => exact ⟨k, hjk, by omega, Int.not_lt.mp hc, hk⟩

-- The own slice of a rank lies within the space of `n` variables.
structure Layout.Within (l : Layout) (n : Int) : Prop where
  start : 0 ≤ l.start
  ordered : l.start ≤ l.stop
  stop : l.stop ≤ n

namespace Spread

variable {rank : Fin ranks → Rank α} {n : Int} {layout : Fin ranks → Layout}
  (h : Spread rank n layout)

include h

theorem accepted (r : Fin ranks) :
    Layout.ofBoundaries (layout r).boundaries r = .ok (layout r) ∧
      (layout r).boundaries.length = ranks + 1 ∧ (layout r).globalSize = n := by
  have ⟨reply, _, hl, hn, _⟩ := Core.askLayout_of_distributes (Prod.ext (h.accepts r) rfl)
    (h.number r) (h.size r) (h.distributes r)
  have hb : (layout r).boundaries = _ := congrArg Layout.boundaries (Layout.ofBoundaries_eq_ok hl)
  refine ⟨by rw [hb, hl], ?_, hn⟩
  rw [hb, length_overlay, List.length_replicate]

theorem sum_localSize : ∑ q, (layout q).localSize = n := by
  have r : Fin ranks := ⟨0, h.pos⟩
  have ⟨_, _, _, _, hs⟩ := Core.askLayout_of_distributes (Prod.ext (h.accepts r) rfl)
    (h.number r) (h.size r) (h.distributes r)
  have ht := h.total r
  rw [Rank.entered] at ht
  rw [ht] at hs
  exact Except.ok.inj hs

theorem isInt64 (r : Fin ranks) : ∀ b ∈ (layout r).boundaries, NonlinearProgram.isInt64 b := by
  have ⟨_, hr, _⟩ := Layout.ranksOf_of_ofBoundaries (h.accepted r).left
  simpa using Layout.isInt64_of_ranksOf hr

theorem seenBy_self (r : Fin ranks) : (layout r).seenBy r = layout r := by
  have hr : (layout r).rank = r := by
    rw [Layout.ofBoundaries_eq_ok (h.accepted r).left, Int.toNat_natCast]
  rw [Layout.seenBy, ← hr]

theorem rankCount_eq (r : Fin ranks) : (layout r).rankCount = ranks := by
  rw [Layout.rankCount, (h.accepted r).right.left, Nat.add_sub_cancel]

theorem lt_rankCount (r q : Fin ranks) : q < (layout r).rankCount := by
  rw [h.rankCount_eq]
  exact q.isLt

-- The first slice starts at zero, and the last one ends at the number of variables.
theorem ends (r : Fin ranks) :
    (layout r).boundary 0 = 0 ∧ (layout r).boundary ranks = n := by
  have ⟨hl, hlen, hn⟩ := h.accepted r
  have ⟨_, hfirst⟩ := Layout.ranksOf_eq_ok
    (Layout.ranksOf_of_ofBoundaries hl).choose_spec.left
  constructor
  · simp [Layout.boundary, hfirst]
  · rw [← hn, Layout.boundary, Layout.globalSize, List.getLastD_eq_getLast?,
      List.getLast?_eq_getElem?, hlen, Nat.add_sub_cancel]

-- What follows holds where every slice lies within the space.
section

variable (hw : ∀ r, (layout r).Within n)

include hw

theorem mem_space {r : Fin ranks} {i : Int} (hi : i ∈ (layout r).slice r) : 0 ≤ i ∧ i < n := by
  rw [Layout.slice, h.seenBy_self] at hi
  exact ⟨Int.le_trans (hw r).start hi.left, Int.lt_of_lt_of_le hi.right (hw r).stop⟩

-- Slices that do not overlap leave no variable out, as they have room for all of them.
theorem exists_owner
    (hd : Pairwise fun r q => Disjoint ((layout r).slice r) ((layout q).slice q)) {i : Int}
    (hi : 0 ≤ i ∧ i < n) : ∃ r, i ∈ (layout r).slice r := by
  let owned (r : Fin ranks) := Finset.Ico (layout r).start (layout r).stop
  have hmem {r : Fin ranks} {j : Int} : j ∈ owned r ↔ j ∈ (layout r).slice r := by
    rw [Layout.slice, h.seenBy_self, Set.mem_Ico, Finset.mem_Ico]
  have hdisjoint : ∀ r ∈ Finset.univ, ∀ q ∈ Finset.univ, r ≠ q → Disjoint (owned r) (owned q) :=
    fun r _ q _ hne => Finset.disjoint_left.mpr fun j hr hq =>
      Set.disjoint_left.mp (hd hne) (hmem.mp hr) (hmem.mp hq)
  have hsub : Finset.univ.biUnion owned ⊆ Finset.Ico 0 n := by
    intro j hj
    obtain ⟨r, _, hr⟩ := Finset.mem_biUnion.mp hj
    exact Finset.mem_Ico.mpr (h.mem_space hw (hmem.mp hr))
  have hcard : ((Finset.univ.biUnion owned).card : Int) = n := by
    rw [Finset.card_biUnion hdisjoint, Nat.cast_sum, ← h.sum_localSize]
    refine Finset.sum_congr rfl fun r _ => ?_
    rw [Int.card_Ico, Int.toNat_of_nonneg (Int.sub_nonneg.mpr (hw r).ordered), Layout.localSize]
  have hle : (Finset.Ico 0 n).card ≤ (Finset.univ.biUnion owned).card := by
    rw [Int.card_Ico]
    omega
  have hi : i ∈ Finset.univ.biUnion owned :=
    Finset.eq_of_subset_of_card_le hsub hle ▸ Finset.mem_Ico.mpr hi
  obtain ⟨r, _, hr⟩ := Finset.mem_biUnion.mp hi
  exact ⟨r, hmem.mp hr⟩

theorem ownedOnce_iff_disjoint : OwnedOnce n layout ↔
    Pairwise fun r q => Disjoint ((layout r).slice r) ((layout q).slice q) := by
  constructor
  case mp =>
    intro hone r q hne
    refine Set.disjoint_left.mpr fun i hr hq => hne ?_
    have ⟨h₀, hn⟩ := h.mem_space hw hr
    exact (hone i h₀ hn).unique hr hq
  case mpr =>
    intro hd i h₀ hn
    have ⟨r, hr⟩ := h.exists_owner hw hd ⟨h₀, hn⟩
    refine ⟨r, hr, fun q hq => ?_⟩
    exact Decidable.byContradiction fun hne => Set.disjoint_left.mp (hd hne) hq hr

end

theorem partitions {r : Fin ranks} (hb : ∀ b ∈ (layout r).boundaries, 0 ≤ b) :
    (layout r).Partitions :=
  (Layout.partitions_iff (h.isInt64 r) (h.accepted r).left).mpr hb

theorem within {r : Fin ranks} (hb : ∀ b ∈ (layout r).boundaries, 0 ≤ b) :
    (layout r).Within n := by
  have hn := (h.partitions hb).nonneg
  have hs := h.seenBy_self r
  have hstart := Layout.boundary_le hn (Nat.zero_le r) (Nat.le_of_lt (h.lt_rankCount r r))
  have hordered := Layout.boundary_le hn (Nat.le_succ r) (h.lt_rankCount r r)
  have hstop := Layout.boundary_le hn (h.lt_rankCount r r) (Nat.le_refl _)
  rw [(h.ends r).left] at hstart
  rw [h.rankCount_eq, (h.ends r).right] at hstop
  rw [← hs]
  exact ⟨hstart, hordered, hstop⟩

-- The first of several ranks owns the first variable, whatever its other boundaries are.
theorem first_mem {r : Fin ranks} (hr : r.val = 0) (hm : 2 ≤ ranks) : 0 ∈ (layout r).slice r := by
  have ⟨hl, hlen, _⟩ := h.accepted r
  have hcuts := (Layout.exists_ofBoundaries_iff (h.isInt64 r)).mp ⟨_, hl⟩
  have hint := h.isInt64 r
  have hsecond : 0 < (layout r).boundary 1 := by
    change 0 < (layout r).boundaries[1]?.getD 0
    match hb : (layout r).boundaries with
    | first :: second :: _ :: rest =>
      rw [hb] at hcuts hint
      cases hcuts.first
      have hs := Layout.isInt64_iff.mp (hint second (by simp))
      have hstep := (List.isChain_cons_cons.mp hcuts.order).left
      simp only [Layout.Precedes, List.length_cons] at hstep
      show 0 < second
      omega
    | [] | [_] | [_, _] =>
      simp only [hb, List.length_cons, List.length_nil] at hlen
      omega
  rw [Layout.slice, hr]
  exact ⟨Int.le_of_eq (h.ends r).left, hsecond⟩

-- What follows holds where all ranks give the same boundaries.
section

variable (ha : ∀ r q, (layout r).boundaries = (layout q).boundaries)

include ha

omit [Scalar α] h in
theorem slice_of_agree (r q : Fin ranks) : (layout q).slice q = (layout r).slice q := by
  simp only [Layout.slice, Layout.seenBy, ha q r]

theorem ownedOnce_of_agree (hb : ∀ r, ∀ b ∈ (layout r).boundaries, 0 ≤ b) :
    OwnedOnce n layout := by
  refine (h.ownedOnce_iff_disjoint fun r => h.within (hb r)).mpr fun r q hne => ?_
  dsimp only
  rw [slice_of_agree ha r q]
  exact (h.partitions (hb r)).disjoint r q (h.lt_rankCount r r) (h.lt_rankCount r q)
    (Fin.val_ne_of_ne hne)

-- Boundaries that go below zero have to come back, and the first variable is owned again.
theorem nonneg_of_ownedOnce (hn : 0 < n) (hone : OwnedOnce n layout) (r : Fin ranks) :
    ∀ b ∈ (layout r).boundaries, 0 ≤ b := by
  intro b hb
  apply Decidable.byContradiction
  intro hneg
  obtain ⟨j, hj, hget⟩ := List.getElem_of_mem hb
  have hlen := (h.accepted r).right.left
  have hbj : (layout r).boundary j = b := by simp [Layout.boundary, hj, hget]
  have hpos : j ≠ 0 := fun hz => by
    rw [hz, (h.ends r).left] at hbj
    omega
  have hlast : j ≠ ranks := fun hl => by
    rw [hl, (h.ends r).right] at hbj
    omega
  obtain ⟨q, hjq, hq, hmem⟩ := Layout.exists_crossing (show j ≤ ranks by omega) (by omega)
    ((h.ends r).right ▸ hn)
  have hfirst := h.first_mem (r := ⟨0, h.pos⟩) rfl (by omega)
  have hagain : 0 ∈ (layout ⟨q, hq⟩).slice q := slice_of_agree ha r ⟨q, hq⟩ ▸ hmem
  have heq : 0 = q := congrArg Fin.val ((hone 0 (Int.le_refl 0) hn).unique hfirst hagain)
  omega

end

-- Three boundaries have no room for a step that wraps around.
theorem boundaries_nonneg (hm : ranks ≤ 2) (hn : 0 ≤ n)
    (r : Fin ranks) : ∀ b ∈ (layout r).boundaries, 0 ≤ b := by
  have hpos := h.pos
  have ⟨hl, hlen, hlast⟩ := h.accepted r
  have hcuts := (Layout.exists_ofBoundaries_iff (h.isInt64 r)).mp ⟨_, hl⟩
  have hint := h.isInt64 r
  change (layout r).boundaries.getLastD 0 = n at hlast
  match hb : (layout r).boundaries with
  | [first, last] =>
    rw [hb] at hcuts hlast
    cases hcuts.first
    obtain rfl : last = n := hlast
    simp [hn]
  | [first, middle, last] =>
    rw [hb] at hcuts hlast hint
    cases hcuts.first
    obtain rfl : last = n := hlast
    have hmiddle := Layout.isInt64_iff.mp (hint middle (by simp))
    have hstep := (List.isChain_cons_cons.mp hcuts.order).left
    simp only [Layout.Precedes, List.length_cons, List.length_nil] at hstep
    simp only [List.mem_cons, List.not_mem_nil, or_false, forall_eq_or_imp, forall_eq]
    omega
  | [] | [_] | _ :: _ :: _ :: _ :: _ =>
    simp only [hb, List.length_cons, List.length_nil] at hlen
    omega

-- Two ranks that part the variables in different places own too few or too many.
theorem ownedOnce_of_le_two (hm : ranks ≤ 2) : OwnedOnce n layout := by
  intro i h₀ hi
  have hb := h.boundaries_nonneg hm (Int.le_of_lt (Int.lt_of_le_of_lt h₀ hi))
  refine (h.ownedOnce_iff_disjoint fun r => h.within (hb r)).mpr
    ((pairwise_disjoint_on _).mpr fun r q hrq => ?_) i h₀ hi
  obtain rfl : ranks = 2 := by omega
  obtain ⟨rfl, rfl⟩ : r = 0 ∧ q = 1 := by revert r q; decide
  have hsum := h.sum_localSize
  rw [Fin.sum_univ_two, Layout.localSize, Layout.localSize] at hsum
  have hstart : (layout 0).start = 0 := h.seenBy_self 0 ▸ (h.ends 0).left
  have hstop : (layout 1).stop = n := h.seenBy_self 1 ▸ (h.ends 1).right
  rw [Layout.slice, Layout.slice, h.seenBy_self, h.seenBy_self, Set.Ico_disjoint_Ico]
  omega

end Spread

-- One or two ranks cannot but part the variables among them. More ranks that agree on the boundaries
-- do so exactly if no boundary is negative, and ranks with any boundaries, whose slices lie within
-- the space, exactly if no two slices overlap.
theorem owned_once_iff {rank : Fin ranks → Rank α} {n : Int} {layout : Fin ranks → Layout}
    (h : Spread rank n layout) :
    (ranks ≤ 2 → OwnedOnce n layout) ∧
    ((∀ r q, (layout r).boundaries = (layout q).boundaries) → 0 < n →
      (OwnedOnce n layout ↔ ∀ r, ∀ b ∈ (layout r).boundaries, 0 ≤ b)) ∧
    ((∀ r, (layout r).Within n) →
      (OwnedOnce n layout ↔
        Pairwise fun r q => Disjoint ((layout r).slice r) ((layout q).slice q))) :=
  ⟨h.ownedOnce_of_le_two, fun ha hn => ⟨h.nonneg_of_ownedOnce ha hn, h.ownedOnce_of_agree ha⟩,
    h.ownedOnce_iff_disjoint⟩

end

-- The layouts of ranks with boundaries of their own.
def parts {ranks : Nat} (boundaries : Fin ranks → List Int) (r : Fin ranks) : Layout :=
  ⟨boundaries r, r⟩

-- Ranks with boundaries of their own.
def dividers {ranks : Nat} (boundaries : Fin ranks → List Int) (r : Fin ranks) : Rank Exact where
  problem := { Problem.ofFunctions 0 0 (fun _ => 0) fun _ _ => 0 with
    distribution := fun _ _ => .ok { boundaries := boundaries r, answer := .flag true } }
  session := {
    formulation := {
      kind := .dense
      options := ⟨.keep, .finite (1 / 100), .finite 1000⟩
      communicator := peers (fun q => [(parts boundaries q).localSize]) r }
    clock := 0 }

theorem dividers_spread {ranks : Nat} {n : Int} {boundaries : Fin ranks → List Int}
    (hpos : 0 < ranks) (ha : ∀ r, (Core.askLayout (dividers boundaries r).problem n
      (dividers boundaries r).communicator (dividers boundaries r).session).1.toOption =
        some (parts boundaries r)) :
    Spread (dividers boundaries) n (parts boundaries) where
  pos := hpos
  number _ := rfl
  size _ := rfl
  distributes _ _ h := by cases h; rfl
  accepts r := by
    have h := ha r
    cases hx : (Core.askLayout (dividers boundaries r).problem n
      (dividers boundaries r).communicator (dividers boundaries r).session).1
    all_goals
      rw [hx] at h
      cases h
    rfl
  total _ := peers_sum rfl

-- Four ranks that disagree on the boundaries, with slices that lie side by side.
def shuffled : Fin 4 → List Int :=
  ![[0, 2, 3, 4, 7], [0, 3, 5, 6, 7], [0, 1, 2, 3, 7], [0, 1, 2, 5, 7]]

theorem owned_once_iff_shuffled :
    Spread (dividers shuffled) 7 (parts shuffled) ∧ OwnedOnce 7 (parts shuffled) := by
  have h : Spread (dividers shuffled) 7 (parts shuffled) :=
    dividers_spread (by decide) (by decide +kernel)
  refine ⟨h, ((owned_once_iff h).right.right fun r => ?_).mpr ((pairwise_disjoint_on _).mpr ?_)⟩
  · constructor <;> revert r <;> decide
  intro r q hrq
  rw [Layout.slice, Layout.slice, Set.Ico_disjoint_Ico]
  revert r q
  decide

-- Three ranks, of which the middle one is mistaken about where its slice begins and ends.
def mistaken : Fin 3 → List Int := ![[0, 1, 2, 4], [0, 2, 3, 4], [0, 1, 2, 4]]

-- Four ranks that agree on boundaries that wrap around.
def wrapping (_ : Fin 4) : List Int := [0, 1, 2 ^ 63 - 1, 10 - 2 ^ 63, 5]

-- Where the middle rank is mistaken, nobody owns the second variable, and the third one has two
-- owners. Where the boundaries wrap around, the last rank owns what the first two own as well.
theorem accepted_slices_overlap :
    (Spread (dividers mistaken) 4 (parts mistaken) ∧ ¬OwnedOnce 4 (parts mistaken)) ∧
    (Spread (dividers wrapping) 5 (parts wrapping) ∧ ¬OwnedOnce 5 (parts wrapping)) := by
  constructor
  case left =>
    refine ⟨dividers_spread (by decide) (by decide +kernel), fun h => ?_⟩
    obtain ⟨r, ⟨hstart, hstop⟩, -⟩ := h 1 (by decide) (by decide)
    revert r
    decide
  case right =>
    refine ⟨dividers_spread (by decide) (by decide +kernel), fun h => ?_⟩
    have hsecond : 1 ∈ (parts wrapping 1).slice (1 : Fin 4) := by constructor <;> decide
    have hlast : 1 ∈ (parts wrapping 3).slice (3 : Fin 4) := by constructor <;> decide
    exact absurd ((h 1 (by decide) (by decide)).unique hsecond hlast) (by decide)

end NonlinearProgram
