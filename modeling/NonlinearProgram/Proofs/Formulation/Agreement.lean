import NonlinearProgram.Proofs.Formulation.Tally

namespace NonlinearProgram

open Program FormulationM

variable {α : Type} [Scalar α]

namespace Core

variable {p p' : Problem α} {o : Options α} {c c' : Communicator α} {v v' : Survey α}
  {s s' t t' : Session α} {core : Core α} {ranks r r' : Nat}

-- A survey goes by the sizes that the problem gives, and asks for a layout of so many variables.
theorem survey_reads (h : survey p o c s = (.ok v, t)) :
    ∃ (m : Int) (u w : Session α), askSizes p s = (.ok (v.size, m), u) ∧
      askLayout p v.size c u = (.ok v.layout, w) ∧ v.constraintCount = m.toNat := by
  rw [survey, bind_eq_ok] at h
  obtain ⟨⟨n, m⟩, u₁, h₁, h⟩ := h
  obtain ⟨l, u₂, h₂, h⟩ := bind_eq_ok.mp h
  obtain ⟨_, _, _, h⟩ := bind_eq_ok.mp h
  obtain ⟨_, _, _, h⟩ := bind_eq_ok.mp h
  obtain ⟨k, _, h₃, h⟩ := bind_eq_ok.mp h
  obtain ⟨_, hk, _⟩ := arrayLength_eq_ok.mp h₃
  obtain ⟨_, _, _, h⟩ := bind_eq_ok.mp h
  obtain ⟨_, _, _, h⟩ := bind_eq_ok.mp h
  obtain ⟨_, _, _, h⟩ := bind_eq_ok.mp h
  cases (ok_eq_ok.mp h).left
  exact ⟨m, u₁, u₂, h₁, h₂, hk⟩

theorem survey_sizes (hp : p.sizes = p'.sizes) (h : survey p o c s = (.ok v, t))
    (h' : survey p' o c' s' = (.ok v', t')) :
    v.size = v'.size ∧ v.constraintCount = v'.constraintCount := by
  have ⟨m, _, _, ha, _, hm⟩ := survey_reads h
  have ⟨m', _, _, ha', _, hm'⟩ := survey_reads h'
  have ⟨given, items, hg, hi, hn⟩ := askSizes_reads ha
  have ⟨given', items', hg', hi', hn'⟩ := askSizes_reads ha'
  rw [hp, hg'] at hg
  cases hg
  rw [hi'] at hi
  cases hi
  rw [hn', Except.ok.injEq, List.cons.injEq, List.cons.injEq] at hn
  exact ⟨hn.left.symm, by rw [hm, hm', hn.right.left]⟩

-- A rank among several knows the slices of all of them.
theorem survey_layout (hd : p.Distributes v.size ranks) (hr : c.rank = .integer r)
    (hs : c.size = .integer ranks) (h : survey p o c s = (.ok v, t)) :
    ∃ reply, p.distribution v.size (List.replicate (ranks + 1) 0) = .ok reply ∧
      v.layout = ⟨overlay reply.boundaries (List.replicate (ranks + 1) 0), r⟩ ∧
      v.layout.globalSize = v.size := by
  have ⟨_, _, _, _, hl, _⟩ := survey_reads h
  have ⟨reply, hq, hl, hn, _⟩ := askLayout_of_distributes hl hr hs hd
  exact ⟨reply, hq, Layout.ofBoundaries_eq_ok hl, hn⟩

namespace MadeFor

variable {chain : Chain α} {policy : FixedPolicy} {count : Int}

omit [Scalar α]

theorem items_eq_nil_iff (h : MadeFor chain policy count) :
    chain.items = [] ↔ count ≤ 0 ∨ policy = .keep := by
  cases h
  case kept hi h => exact iff_of_true hi h
  case removed r hi hc => simp [hi, hc]
  case relaxed r hi hc => simp [hi, hc]

theorem identical (h : MadeFor chain policy count) (hp : policy = .remove → count ≤ 0) :
    chain.Identical := by
  cases h
  case kept hi _ => exact .inl hi
  case removed r hi hc => exact absurd (hp rfl) (by omega)
  case relaxed r hi hc => exact .inr ⟨r, hi⟩

end MadeFor

-- The policy for variables that are spread over ranks does not depend on anything else.
omit [Scalar α] in
theorem policyFor_distributed (requested : FixedPolicy) (count : Int)
    (canRemove canRemove' : Bool) :
    policyFor requested count true canRemove = policyFor requested count true canRemove' := by
  simp [policyFor]

-- What two cores know of the problem as a whole is the same.
structure Agrees (a b : Core α) : Prop where
  userSize : a.userSize = b.userSize
  size : a.size = b.size
  boundaries : a.layout.boundaries = b.layout.boundaries
  constraintCount : a.constraintCount = b.constraintCount
  split : a.split = b.split
  policy : a.policy = b.policy
  fixedCount : a.fixedCount = b.fixedCount
  lowerCount : a.lowerCount = b.lowerCount
  upperCount : a.upperCount = b.upperCount
  bothCount : a.bothCount = b.bothCount
  untouched : a.chain.items = [] ↔ b.chain.items = []

-- All variables are still there: their chain is empty, or it relaxes some of them.
structure Retains (core : Core α) : Prop where
  size : core.size = core.userSize
  layout : core.layout = core.userLayout
  chain : core.chain.Identical

end Core

-- The problems of the ranks, whose variables are spread over the ranks, differ in the bounds of the
-- variables only.
structure Alike {ranks : Nat} (rank : Fin ranks → Rank α) : Prop where
  sizes : ∀ r q, (rank r).problem.sizes = (rank q).problem.sizes
  distribution : ∀ r q, (rank r).problem.distribution = (rank q).problem.distribution
  distributes : ∀ r n, (rank r).problem.Distributes n ranks
  constraintBounds : ∀ r q, (rank r).problem.constraintBounds = (rank q).problem.constraintBounds
  options : ∀ r q, (rank r).options = (rank q).options

namespace Alike

variable {ranks : Nat} {rank : Fin ranks → Rank α} {v : Fin ranks → Core.Survey α}
  {d : Fin ranks → Finalized α} {u : Fin ranks → Session α} (ha : Alike rank)
  (hs : ∀ r, Core.survey (rank r).problem (rank r).options (rank r).communicator
    (rank r).session = (.ok (v r), u r))

include ha hs

theorem survey_sizes (r q : Fin ranks) :
    (v r).size = (v q).size ∧ (v r).constraintCount = (v q).constraintCount :=
  Core.survey_sizes (ha.sizes r q) (ha.options r q ▸ hs r) (hs q)

variable (h : Together rank)

include h

theorem survey_layouts (r q : Fin ranks) :
    (v r).layout.boundaries = (v q).layout.boundaries := by
  have ⟨reply, hr, hl, _⟩ := Core.survey_layout (ha.distributes r _) (h.number r) (h.size r) (hs r)
  have ⟨reply', hr', hl', _⟩ :=
    Core.survey_layout (ha.distributes q _) (h.number q) (h.size q) (hs q)
  rw [ha.distribution r q, (ha.survey_sizes hs r q).left, hr'] at hr
  cases hr
  rw [hl, hl']

theorem distributed (hm : 2 ≤ ranks) (r : Fin ranks) : (v r).layout.isDistributed := by
  have ⟨reply, _, hl, _⟩ := Core.survey_layout (ha.distributes r _) (h.number r) (h.size r) (hs r)
  simp only [hl, Layout.isDistributed, Layout.rankCount, length_overlay, List.length_replicate,
    decide_eq_true_eq]
  omega

variable (hf : ∀ r, Formulation.Finalizes (rank r).problem (v r) (d r) (rank r).session
  (rank r).after)

include hf

omit h in
theorem split_eq (r q : Fin ranks) : (d r).core.split = (d q).core.split := by
  have ⟨_, hb, _⟩ := (hf r).built
  have ⟨_, hb', _⟩ := (hf q).built
  have hc : (v r).constraintData = (v q).constraintData := by
    rw [hb.surveyed.constraintData, hb'.surveyed.constraintData, ha.constraintBounds r q,
      (ha.survey_sizes hs r q).right]
  have ho : (rank r).session.formulation.options = (rank q).session.formulation.options :=
    ha.options r q
  rw [(hf r).intact.describes.split, (hf q).intact.describes.split, hc, ho]

variable (hm : 2 ≤ ranks)

include hm

theorem userLayout_distributed (r : Fin ranks) : (d r).core.userLayout.isDistributed :=
  (hf r).intact.describes.userLayout ▸ ha.distributed hs h hm r

theorem layout_eq (r : Fin ranks) : (d r).core.layout = (v r).layout :=
  Rank.layout_of_distributed (hf r) (ha.userLayout_distributed hs h hf hm r)

-- All ranks get the same totals.
theorem counts_eq {k : Nat} {n total : Fin ranks → Int}
    (hk : ∀ q, ((d q).core.counts (rank q).options (v q))[k]? = some (n q, total q))
    (r q : Fin ranks) : total r = total q := by
  have hu (r q : Fin ranks) :
      (d r).core.userLayout.isDistributed = (d q).core.userLayout.isDistributed := by
    rw [ha.userLayout_distributed hs h hf hm, ha.userLayout_distributed hs h hf hm]
  rw [h.total_counts hf hu hk r, h.total_counts hf hu hk q]

theorem policy_eq (r : Fin ranks) : (d r).core.policy =
    Core.policyFor (rank r).options.policy (d r).core.fixedCount true true := by
  have ⟨_, hb, _⟩ := (hf r).built
  rw [hb.policy, ha.distributed hs h hm r]
  exact Core.policyFor_distributed ..

theorem agrees (hc : ∀ r, Core.MadeFor (d r).core.chain (d r).core.policy (d r).core.fixedCount)
    (r q : Fin ranks) : (d r).core.Agrees (d q).core := by
  have hd := (hf r).intact.describes
  have hd' := (hf q).intact.describes
  have hsizes := ha.survey_sizes hs r q
  have hbounds : (d r).core.layout.boundaries = (d q).core.layout.boundaries := by
    rw [ha.layout_eq hs h hf hm, ha.layout_eq hs h hf hm, ha.survey_layouts hs h r q]
  have hfixed : (d r).core.fixedCount = (d q).core.fixedCount :=
    ha.counts_eq hs h hf hm (k := 0) (fun _ => rfl) r q
  have hpolicy : (d r).core.policy = (d q).core.policy := by
    rw [ha.policy_eq hs h hf hm r, ha.policy_eq hs h hf hm q, ha.options r q, hfixed]
  constructor
  case userSize => rw [hd.userSize, hd'.userSize, hsizes.left]
  case size => rw [hd.size, hd'.size, Layout.globalSize, Layout.globalSize, hbounds]
  case boundaries => exact hbounds
  case constraintCount => rw [hd.constraintCount, hd'.constraintCount, hsizes.right]
  case split => exact ha.split_eq hs hf r q
  case policy => exact hpolicy
  case fixedCount => exact hfixed
  case lowerCount => exact ha.counts_eq hs h hf hm (k := 1) (fun _ => rfl) r q
  case upperCount => exact ha.counts_eq hs h hf hm (k := 2) (fun _ => rfl) r q
  case bothCount => exact ha.counts_eq hs h hf hm (k := 3) (fun _ => rfl) r q
  case untouched =>
    rw [(hc r).items_eq_nil_iff, (hc q).items_eq_nil_iff, hfixed, hpolicy]

theorem retains (hc : ∀ r, Core.MadeFor (d r).core.chain (d r).core.policy (d r).core.fixedCount)
    (r : Fin ranks) : (d r).core.Retains := by
  have hd := (hf r).intact.describes
  have hl := ha.layout_eq hs h hf hm r
  constructor
  case size =>
    have ⟨_, _, _, hn⟩ := Core.survey_layout (ha.distributes r _) (h.number r) (h.size r) (hs r)
    rw [hd.size, hl, hn, hd.userSize]
  case layout => rw [hl, hd.userLayout]
  case chain =>
    refine (hc r).identical fun hp => Decidable.byContradiction fun hn => ?_
    rw [ha.policy_eq hs h hf hm] at hp
    exact Core.policyFor_of_distributed (by omega) hp

end Alike

-- Ranks that all succeed agree on the problem as a whole, whatever bounds each of them has: on the
-- sizes, the constraints, the treatment of fixed variables and the counts of bounds. No variable is
-- eliminated, and together the ranks own all variables.
theorem ranks_agree {ranks : Nat} {rank : Fin ranks → Rank α} (h : Together rank)
    (hm : 2 ≤ ranks) (ha : Alike rank) (hr : ∀ r, (rank r).Returns true) :
    ∃ core : Fin ranks → Core α, (∀ r, (rank r).core? = some (core r)) ∧
      (∀ r q, (core r).Agrees (core q)) ∧ (∀ r, (core r).Retains) ∧
      ∀ r, ∑ q, (core q).localSize = (core r).size := by
  choose v d u hs hf hc using fun r => (hr r).surveyed
  have hd (r : Fin ranks) := ha.userLayout_distributed hs h hf hm r
  refine ⟨fun r => (d r).core, fun r => ?_, ha.agrees hs h hf hm hc, ha.retains hs h hf hm hc,
    fun r => h.sum_internalSize hf (fun r q => by rw [hd r, hd q]) (.inl (hd r))⟩
  rw [Rank.core?, (hf r).formulation, Formulation.core_holding]

-- Two ranks that own one variable each, with an upper bound of one. Fixed variables are to be
-- removed.
def neighbours (lower : Fin 2 → Exact) (contributed : Fin 2 → List Int) (r : Fin 2) :
    Rank Exact where
  problem := { Problem.ofFunctions 2 0 (fun _ => 0) fun _ _ => 0 with
    distribution := fun _ _ => .ok { boundaries := [0, 1, 2], answer := .flag true }
    variableBounds := fun _ _ =>
      .ok { lower := [lower r], upper := [.finite 1], answer := .flag true } }
  session := {
    formulation := {
      kind := .dense
      options := ⟨.remove, .finite (1 / 100), .finite 1000⟩
      communicator := peers contributed r }
    clock := 0 }

-- Where one of the ranks owns a fixed variable, both of them relax fixed variables.
theorem ranks_agree_neighbours :
    ∃ core : Fin 2 → Core Exact,
      (∀ r, (neighbours ![.finite 0, .finite 1] ![[1, 0, 1, 1, 1], [1, 1, 1, 1, 1]] r).core? =
        some (core r)) ∧
      (∀ r q, (core r).Agrees (core q)) ∧ (∀ r, (core r).Retains) ∧
      (∀ r, ∑ q, (core q).localSize = (core r).size) ∧ ∀ r, (core r).policy = .relax := by
  let rank := neighbours ![.finite 0, .finite 1] ![[1, 0, 1, 1, 1], [1, 1, 1, 1, 1]]
  have h : Together rank := .of_peers (fun _ => rfl) (fun _ => rfl) (by decide +kernel)
  have hr (r : Fin 2) : (rank r).Returns true :=
    Rank.returns_of_succeeds (by revert r; decide +kernel)
  have ha : Alike rank :=
    ⟨fun _ _ => rfl, fun _ _ => rfl, fun _ _ _ h => by cases h; rfl, fun _ _ => rfl, fun _ _ => rfl⟩
  have ⟨core, hcore, hagree, hretain, hsum⟩ := ranks_agree h (Nat.le_refl 2) ha hr
  refine ⟨core, hcore, hagree, hretain, hsum, fun r => ?_⟩
  have hp : ∀ r, (rank r).core?.map Core.policy = some .relax := by decide +kernel
  have := hp r
  rw [show (rank r).core? = _ from hcore r] at this
  exact Option.some.inj this

end NonlinearProgram
