import Mathlib.Algebra.Order.BigOperators.Group.Finset
import NonlinearProgram.Proofs.Bounds
import NonlinearProgram.Proofs.Formulation.Ranks
import NonlinearProgram.Proofs.Problem

namespace NonlinearProgram

-- What the counts of a core are about.
inductive Tally where
  | fixed
  | lower
  | upper
  | both
deriving DecidableEq, Repr

-- Where a tally stands among the sums for the counts.
def Tally.position : Tally → Nat
  | .fixed => 0
  | .lower => 1
  | .upper => 2
  | .both => 3

def Core.tally {α : Type} (core : Core α) : Tally → Int
  | .fixed => core.fixedCount
  | .lower => core.lowerCount
  | .upper => core.upperCount
  | .both => core.bothCount

namespace Rank

variable {α : Type} [Scalar α] {r : Rank α} {v : Core.Survey α} {d : Finalized α}

-- Is an indicator set?
def flags (r : Rank α) (indicators : DistributedVector α) : List Bool :=
  (r.after.store.entries indicators.view).map (· == 1)

-- Which of the variables here are to be counted: the user's variables that are detected as fixed,
-- and the internal variables whose indicators are set.
def marks (r : Rank α) (core : Core α) : Tally → List Bool
  | .fixed => Core.fixedVariables r.options <|
      declaredBy (r.problem.variableBounds core.userSize)
        (Core.undeclared core.userLayout.localSize.toNat)
  | .lower => r.flags core.lowerIndicator
  | .upper => r.flags core.upperIndicator
  | .both => List.zipWith (· && ·) (r.flags core.lowerIndicator) (r.flags core.upperIndicator)

theorem count_map {β : Type} (f : β → Bool) (xs : List β) :
    (xs.map f).count true = xs.countP f := by
  rw [List.count, List.countP_map]
  simp [Function.comp_def]

theorem count_zipWith {β : Type} (f g : β → Bool) (xs ys : List β) :
    (List.zipWith (· && ·) (xs.map f) (ys.map g)).count true =
      (xs.zip ys).countP fun (x, y) => f x && g y := by
  have h : List.zipWith (· && ·) (xs.map f) (ys.map g) =
      (xs.zip ys).map fun (x, y) => f x && g y := by
    rw [List.zipWith_map, List.map_zip_eq_zipWith]
    rfl
  rw [h, count_map]

theorem flags_eq [LawfulScalar α] {indicators : DistributedVector α} {β : Type} {present : β → Bool}
    {bounds : List β}
    (h : r.after.store.Constant indicators.view (bounds.map fun b => indicator (present b))) :
    r.flags indicators = bounds.map present := by
  rw [flags, h.entries, List.map_map]
  refine List.map_congr_left fun b _ => ?_
  exact Bool.eq_iff_iff.mpr indicator_beq_one

theorem count_zipWith_le (xs ys : List Bool) :
    (List.zipWith (· && ·) xs ys).count true ≤ xs.count true ∧
      (List.zipWith (· && ·) xs ys).count true ≤ ys.count true := by
  induction xs generalizing ys
  case nil => simp
  case cons x xs hi =>
    cases ys
    case nil => simp
    case cons y ys =>
      have := hi ys
      cases x <;> cases y <;> simp <;> omega

section

variable (h : Formulation.Finalizes r.problem v d r.session r.after)

include h

theorem flags_lower [LawfulScalar α] : r.flags d.core.lowerIndicator =
    (v.bounds r.options d.core).1.map (hasLower r.options.infinity) :=
  flags_eq h.intact.describes.bounds.lowerIndicator

theorem flags_upper [LawfulScalar α] : r.flags d.core.upperIndicator =
    (v.bounds r.options d.core).2.map (hasUpper r.options.infinity) :=
  flags_eq h.intact.describes.bounds.upperIndicator

-- What a rank contributes to a tally is the number of its marks.
theorem counts_tally [LawfulScalar α] (k : Tally) :
    (d.core.counts r.options v)[k.position]? =
      some (((r.marks d.core k).count true : Int), d.core.tally k) := by
  have hd := h.intact.describes
  have ⟨u, hb, _⟩ := h.built
  cases k
  case fixed =>
    rw [marks, hd.userSize, hd.userLayout, ← hb.surveyed.variableData]
    rfl
  case lower => rw [marks, flags_lower h, count_map]; rfl
  case upper => rw [marks, flags_upper h, count_map]; rfl
  case both => rw [marks, flags_lower h, flags_upper h, count_zipWith]; rfl

theorem length_flags [LawfulScalar α] :
    ((r.flags d.core.lowerIndicator).length : Int) = d.core.layout.localSize ∧
      ((r.flags d.core.upperIndicator).length : Int) = d.core.layout.localSize := by
  have ⟨u, hb, _⟩ := h.built
  have hfit : v.variableData.Fits (v.fixed r.options).length := by
    have hs := hb.surveyed.variables_fit
    rwa [← Core.fixedVariables_fits hs] at hs
  have ⟨hl, hu⟩ : (v.bounds r.options d.core).1.length = _ ∧
      (v.bounds r.options d.core).2.length = _ := Core.length_treatedBounds hfit
  rw [flags_lower h, flags_upper h, List.length_map, List.length_map,
    h.intact.describes.localSize]
  exact ⟨congrArg _ hl, congrArg _ hu⟩

-- Nothing is eliminated where variables are spread over ranks.
theorem layout_of_distributed (hd : d.core.userLayout.isDistributed) :
    d.core.layout = v.layout := by
  have ⟨u, hb, _⟩ := h.built
  rw [h.intact.describes.userLayout] at hd
  cases h.intact.describes.layout
  case inl hr =>
    have ⟨hp, hc, _⟩ := hr
    rw [hb.policy, hd] at hp
    exact (Core.policyFor_of_distributed hc hp).elim
  case inr hl => exact hl

theorem size_nonneg : 0 ≤ d.core.size := by
  have ⟨u, hb, _⟩ := h.built
  have ⟨first, hl, _⟩ := hb.reductions
  have hd := h.intact.describes
  rw [hd.size]
  cases hd.layout
  case inl hr =>
    rw [hr.right.right, hd.localSize]
    exact Int.natCast_nonneg _
  case inr hlayout =>
    rw [hlayout, hl.globalSize_eq]
    exact hb.surveyed.size

end

end Rank

-- The marks of all variables of the whole problem: slices are put together, and a rank that holds
-- all variables has all marks.
def everywhere {α : Type} [Scalar α] {ranks : Nat} (rank : Fin ranks → Rank α)
    (core : Fin ranks → Core α) (k : Tally) (r : Fin ranks) : List Bool :=
  if (core r).userLayout.isDistributed then (List.ofFn fun q => (rank q).marks (core q) k).flatten
  else (rank r).marks (core r) k

-- The counts of a rank are those of the whole problem.
structure CountsOnce {α : Type} [Scalar α] {ranks : Nat} (rank : Fin ranks → Rank α)
    (core : Fin ranks → Core α) (r : Fin ranks) : Prop where
  exact : ∀ k, (core r).tally k = (everywhere rank core k r).count true
  both_le_lower : (core r).bothCount ≤ (core r).lowerCount
  lower_le_size : (core r).lowerCount ≤ (core r).size
  both_le_upper : (core r).bothCount ≤ (core r).upperCount
  upper_le_size : (core r).upperCount ≤ (core r).size

section

variable {α : Type} [Scalar α] {ranks : Nat} {rank : Fin ranks → Rank α}
  {core : Fin ranks → Core α} {r : Fin ranks} {k : Tally}

theorem count_everywhere_of_distributed (h : (core r).userLayout.isDistributed) :
    ((everywhere rank core k r).count true : Int) =
      ∑ q, (((rank q).marks (core q) k).count true : Int) := by
  rw [everywhere, if_pos h, List.count_flatten, List.map_ofFn, List.sum_ofFn, Nat.cast_sum]
  rfl

theorem count_everywhere_of_not_distributed (h : ¬(core r).userLayout.isDistributed) :
    (everywhere rank core k r).count true = ((rank r).marks (core r) k).count true := by
  rw [everywhere, if_neg h]

-- If each of several ranks finds as much as all of them together, then there is nothing to find.
theorem eq_zero_of_forall_eq_sum {f : Fin ranks → Nat} (hm : 2 ≤ ranks)
    (h : ∀ r, (f r : Int) = ∑ q, (f q : Int)) (r : Fin ranks) : f r = 0 := by
  have : Nontrivial (Fin ranks) := Fin.nontrivial_iff_two_le.mpr hm
  have ⟨q, hq⟩ := exists_ne r
  have hsum := Finset.add_sum_erase Finset.univ (fun i => (f i : Int)) (Finset.mem_univ r)
  have hle := Finset.single_le_sum (fun i _ => Int.natCast_nonneg (f i))
    (Finset.mem_erase.mpr ⟨hq, Finset.mem_univ q⟩)
  have := h q
  omega

end

namespace Together

variable {α : Type} [Scalar α] [LawfulScalar α] {ranks : Nat} {rank : Fin ranks → Rank α}
  {v : Fin ranks → Core.Survey α} {d : Fin ranks → Finalized α} (h : Together rank)
  (hf : ∀ r, Formulation.Finalizes (rank r).problem (v r) (d r) (rank r).session (rank r).after)
  (hu : ∀ r q, (d r).core.userLayout.isDistributed = (d q).core.userLayout.isDistributed)

include h hf hu

-- If all ranks finish, and all of them or none own slices, then every rank gets the number of marks
-- of all ranks together.
theorem tally_eq_sum (r : Fin ranks) (k : Tally) :
    (d r).core.tally k = ∑ q, (((rank q).marks (d q).core k).count true : Int) :=
  h.total_counts hf hu (fun q => Rank.counts_tally (hf q) k) r

omit [LawfulScalar α] in
-- Slices of all ranks together are as many variables as there are.
theorem sum_internalSize {r : Fin ranks}
    (hr : (d r).core.userLayout.isDistributed ∨ ranks ≤ 1) :
    ∑ q, (d q).core.layout.localSize = (d r).core.size := by
  choose first hl _ hc using fun q => Rank.contributions_of_finalizes (hf q)
  have hpre (q : Fin ranks) : (first q).map Reduction.value <+: (rank q).contributions :=
    ⟨_, (hc q).symm⟩
  rw [(hf r).intact.describes.size]
  cases hr
  case inl hr =>
    have hd (q : Fin ranks) : (d q).core.userLayout.isDistributed := (hu q r).trans hr
    have hlayout (q : Fin ranks) := Rank.layout_of_distributed (hf q) (hd q)
    have hne (q : Fin ranks) : first q ≠ [] :=
      (hl q).ne_nil_of_distributed ((hf q).intact.describes.userLayout ▸ hd q)
    simp only [hlayout]
    rw [Together.sum_localSize h hl hpre hne r, (hl r).globalSize_eq]
  case inr hm =>
    have : Subsingleton (Fin ranks) := ⟨fun q q' => Fin.ext (by omega)⟩
    rw [Fintype.sum_subsingleton _ r]
    cases (hf r).intact.describes.layout
    case inl hr => exact hr.right.right.symm
    case inr hlayout =>
      rw [hlayout, (hl r).globalSize_eq]
      by_cases hn : first r = []
      case pos => exact (hn ▸ hl r).localSize_eq
      case neg =>
        have := Together.sum_localSize h hl hpre (fun q => Subsingleton.elim r q ▸ hn) r
        rwa [Fintype.sum_subsingleton _ r] at this

theorem tally_le_tally {k l : Tally} (hk : ∀ q, ((rank q).marks (d q).core k).count true ≤
      ((rank q).marks (d q).core l).count true) (r : Fin ranks) :
    (d r).core.tally k ≤ (d r).core.tally l := by
  rw [h.tally_eq_sum hf hu, h.tally_eq_sum hf hu]
  exact Finset.sum_le_sum fun q _ => Int.ofNat_le.mpr (hk q)

variable {r : Fin ranks} (hr : (d r).core.userLayout.isDistributed ∨ ranks ≤ 1 ∨
  ∀ q k, ((rank q).marks (d q).core k).count true = 0)

include hr

theorem tally_eq_everywhere (k : Tally) :
    (d r).core.tally k = (everywhere rank (fun q => (d q).core) k r).count true := by
  rw [h.tally_eq_sum hf hu]
  by_cases hd : (d r).core.userLayout.isDistributed
  case pos => rw [count_everywhere_of_distributed hd]
  case neg =>
    rw [count_everywhere_of_not_distributed hd]
    rcases hr.resolve_left hd with hm | hzero
    · have : Subsingleton (Fin ranks) := ⟨fun q q' => Fin.ext (by omega)⟩
      rw [Fintype.sum_subsingleton _ r]
    · simp [hzero]

theorem tally_le_size {k : Tally}
    (hl : ∀ q, (((rank q).marks (d q).core k).length : Int) = (d q).core.layout.localSize) :
    (d r).core.tally k ≤ (d r).core.size := by
  rw [h.tally_eq_sum hf hu]
  rcases or_assoc.mpr hr with hd | hzero
  · rw [← h.sum_internalSize hf hu hd]
    exact Finset.sum_le_sum fun q _ => hl q ▸ Int.ofNat_le.mpr List.count_le_length
  · simpa [hzero] using Rank.size_nonneg (hf r)

theorem countsOnce : CountsOnce rank (fun q => (d q).core) r where
  exact := h.tally_eq_everywhere hf hu hr
  both_le_lower := h.tally_le_tally (k := .both) (l := .lower) hf hu
    (fun _ => Rank.count_zipWith_le _ _ |>.left) r
  both_le_upper := h.tally_le_tally (k := .both) (l := .upper) hf hu
    (fun _ => Rank.count_zipWith_le _ _ |>.right) r
  lower_le_size := h.tally_le_size (k := .lower) hf hu hr
    fun q => (Rank.length_flags (hf q)).left
  upper_le_size := h.tally_le_size (k := .upper) hf hu hr
    fun q => (Rank.length_flags (hf q)).right

end Together

section

variable {α : Type} [Scalar α] {ranks : Nat} {rank : Fin ranks → Rank α}
  {core : Fin ranks → Core α}

-- The counts are those of the whole problem exactly if the ranks own slices of the variables, or
-- there is one rank only, or nothing is to be counted: ranks that all hold all variables count each
-- of them once for every rank.
theorem counts_once_iff [LawfulScalar α] (h : Together rank) (hr : ∀ r, (rank r).Returns true)
    (hc : ∀ r, (rank r).core? = some (core r))
    (hu : ∀ r q, (core r).userLayout.isDistributed = (core q).userLayout.isDistributed) :
    (∀ r, CountsOnce rank core r) ↔
      (∀ r, (core r).userLayout.isDistributed) ∨ ranks ≤ 1 ∨
        ∀ r k, ((rank r).marks (core r) k).count true = 0 := by
  choose v d hf hd using fun r => (rank r).finalizes (hr r) (hc r)
  have hcore : core = fun r => (d r).core := funext fun r => (hd r).symm
  subst hcore
  constructor
  case mp =>
    intro honce
    by_cases hm : 2 ≤ ranks
    case neg => exact .inr (.inl (by omega))
    case pos =>
      by_cases hd : ∀ r, (d r).core.userLayout.isDistributed
      case pos => exact .inl hd
      case neg =>
        have ⟨r₀, hr₀⟩ := Classical.not_forall.mp hd
        have hown (r : Fin ranks) : ¬(d r).core.userLayout.isDistributed := hu r r₀ ▸ hr₀
        refine .inr (.inr fun r k => eq_zero_of_forall_eq_sum
          (f := fun r => ((rank r).marks (d r).core k).count true) hm (fun r => ?_) r)
        rw [← h.tally_eq_sum hf hu, (honce r).exact, count_everywhere_of_not_distributed (hown r)]
  case mpr =>
    intro hcases r
    exact h.countsOnce hf hu (hcases.imp_left fun hd => hd r)

end

-- Both ranks hold the only variable, which lies between zero and one.
def replicas : Fin 2 → Rank Exact :=
  pair fun _ => { Problem.ofFunctions 1 0 (fun _ => 0) fun _ _ => 0 with
    variableBounds := fun _ _ =>
      .ok { lower := [.finite 0], upper := [.finite 1], answer := .flag true } }

-- Each rank owns one of two variables.
def slices : Fin 2 → Rank Exact :=
  pair fun _ => { Problem.ofFunctions 2 0 (fun _ => 0) fun _ _ => 0 with
    distribution := fun _ _ => .ok { boundaries := [0, 1, 2], answer := .flag true }
    variableBounds := fun _ _ =>
      .ok { lower := [.finite 0], upper := [.finite 1], answer := .flag true } }

theorem counts_once_iff_slices : ∃ core, (∀ r, (slices r).core? = some (core r)) ∧
    (∀ r, (core r).lowerCount = 2) ∧ ∀ r, CountsOnce slices core r := by
  have hdata : ∀ r, (slices r).core?.map (fun core => (core.userLayout, core.lowerCount)) =
      some (⟨[0, 1, 2], r.val⟩, 2) := by decide +kernel
  choose core hc hcore using fun r => Option.map_eq_some_iff.mp (hdata r)
  have hl (r : Fin 2) := (Prod.mk.inj (hcore r)).left
  have hd (r : Fin 2) : (core r).userLayout.isDistributed := by rw [hl r]; rfl
  have honce : ∀ r, CountsOnce slices core r := (counts_once_iff
    (.of_replicated (fun _ => rfl) (by decide +kernel))
    (fun r => Rank.returns_of_succeeds (by revert r; decide +kernel)) hc
    (fun r q => by rw [hd, hd])).mpr (.inl hd)
  exact ⟨core, hc, fun r => (Prod.mk.inj (hcore r)).right, honce⟩

-- Two ranks that both hold the only variable count it twice.
theorem replicas_count_twice : Together replicas ∧ (∀ r, (replicas r).Returns true) ∧
    ∃ core, (∀ r, (replicas r).core? = some (core r)) ∧
      (∀ r, ¬(core r).userLayout.isDistributed) ∧ (core 0).size = 1 ∧ (core 0).lowerCount = 2 ∧
      ¬CountsOnce replicas core 0 := by
  have hdata : ∀ r, (replicas r).core?.map (fun core => (core.userLayout, core.size,
      core.lowerCount)) = some (⟨[0, 1], 0⟩, 1, 2) := by decide +kernel
  choose core hc hcore using fun r => Option.map_eq_some_iff.mp (hdata r)
  simp only [Prod.mk.injEq] at hcore
  refine ⟨.of_replicated (fun _ => rfl) (by decide +kernel),
    fun r => Rank.returns_of_succeeds (by revert r; decide +kernel), core, hc, fun r => ?_,
    (hcore 0).right.left, (hcore 0).right.right, fun h => ?_⟩
  · rw [(hcore r).left]
    decide
  · have := h.lower_le_size
    rw [(hcore 0).right.left, (hcore 0).right.right] at this
    omega

end NonlinearProgram
