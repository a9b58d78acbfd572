import NonlinearProgram.Proofs.Formulation.Progress
import NonlinearProgram.Proofs.Formulation.Ranks
import NonlinearProgram.Proofs.Problem

namespace NonlinearProgram

open Program FormulationM

variable {α β γ : Type} [Scalar α]

-- The rank has entered so many sums in its finalization.
def Rank.HasEntered (r : Rank α) (k : Nat) (s : Session α) : Prop :=
  ∃ done, s.reductions = r.session.reductions ++ done ∧ done.length = k ∧
    ∀ e ∈ done, e.communicator = r.communicator.name

namespace Rank.HasEntered

variable {r : Rank α} {k : Nat} {s t : Session α}

omit [Scalar α]

theorem zero (h : s.reductions = r.session.reductions) : r.HasEntered 0 s :=
  ⟨[], by simpa using h, rfl, by simp⟩

theorem succ (h : r.HasEntered k s) {value : Quantity α}
    (ht : t.reductions = s.reductions ++ [⟨r.communicator.name, value⟩]) :
    r.HasEntered (k + 1) t := by
  have ⟨done, hs, hl, hn⟩ := h
  refine ⟨done ++ [⟨r.communicator.name, value⟩], ?_, by simp [hl], ?_⟩
  · rw [ht, hs, List.append_assoc]
  · simpa [or_imp, forall_and] using hn

theorem position (h : r.HasEntered k s) :
    r.communicator.position s.reductions = r.entered + k := by
  have ⟨done, hs, hl, hn⟩ := h
  rw [hs, Communicator.position_append done hn, hl]
  rfl

end Rank.HasEntered

theorem Rank.HasEntered.length_contributions {r : Rank α} {k : Nat} (h : r.HasEntered k r.after) :
    r.contributions.length = k := by
  have ⟨done, hs, hl, _⟩ := h
  rw [contributions_of_reductions hs, List.length_map, hl]

-- The finalization of a rank comes to some work after so many sums; what that work enters into the
-- history stays there.
structure Rank.Reaches (r : Rank α) (k : Nat) (x : FormulationM α β) (s : Session α) : Prop where
  entered : r.HasEntered k s
  later : (x s).2.reductions <+: r.after.reductions

namespace Rank.Reaches

variable {r : Rank α} {k : Nat} {x : FormulationM α β} {f : β → FormulationM α γ}
  {s t : Session α} {b : β}

theorem of_bind (h : r.Reaches k (x >>= f) s) (hf : ∀ b, Appends (f b)) : r.Reaches k x s where
  entered := h.entered
  later := List.IsPrefix.trans (Appends.run_bind hf s) h.later

-- A sum that is entered next is the next contribution.
theorem contributes {n : Int} {f : Int → FormulationM α γ}
    (h : r.Reaches k (sumOverRanks r.communicator n >>= f) s) (hf : ∀ b, Appends (f b)) :
    r.contributions[k]? = some (.whole n) := by
  have ⟨done, hs, hl, hn⟩ := h.entered
  have ⟨rest, hr⟩ := (h.of_bind hf).later
  rw [sumOverRanks_run, Session.reductions_traced, hs, List.append_assoc, List.append_assoc] at hr
  rw [contributions_of_reductions hr.symm]
  simp [← hl]

theorem next {n total : Int} {f : Int → FormulationM α γ}
    (h : r.Reaches k (sumOverRanks r.communicator n >>= f) s)
    (ht : r.communicator.sum (r.communicator.position s.reductions) (.whole n) =
      .ok (.whole total)) :
    r.Reaches (k + 1) (f total) (s.traced [.reduction ⟨r.communicator.name, .whole n⟩]) := by
  constructor
  case entered => exact h.entered.succ (Session.reductions_traced _)
  case later =>
    rw [← bind_of_ok (sumOverRanks_of_total ht) f]
    exact h.later

end Rank.Reaches

-- Ranks that reach the same sum get the total.
theorem Together.total_of_reaches {ranks k : Nat} {rank : Fin ranks → Rank α} (h : Together rank)
    {n : Fin ranks → Int} {s : Fin ranks → Session α} {f : Fin ranks → Int → FormulationM α β}
    (hr : ∀ r, (rank r).Reaches k (sumOverRanks (rank r).communicator (n r) >>= f r) (s r))
    (hf : ∀ r b, Appends (f r b)) (r : Fin ranks) :
    (rank r).communicator.sum ((rank r).communicator.position (s r).reductions) (.whole (n r)) =
      .ok (.whole (∑ q, n q)) := by
  rw [(hr r).entered.position]
  exact h.total k n (fun q => (hr q).contributes (hf q)) r

theorem Together.next {ranks k : Nat} {rank : Fin ranks → Rank α} (h : Together rank)
    {n : Fin ranks → Int} {s : Fin ranks → Session α} {f : Fin ranks → Int → FormulationM α β}
    (hr : ∀ r, (rank r).Reaches k (sumOverRanks (rank r).communicator (n r) >>= f r) (s r))
    (hf : ∀ r b, Appends (f r b)) (r : Fin ranks) :
    (rank r).Reaches (k + 1) (f r (∑ q, n q))
      ((s r).traced [.reduction ⟨(rank r).communicator.name, .whole (n r)⟩]) :=
  (hr r).next (h.total_of_reaches hr hf r)

-- Ranks that start to sum their counts together all get them.
theorem Together.sumCounts_run {ranks k : Nat} {rank : Fin ranks → Rank α} (h : Together rank)
    {classes : Fin ranks → BoundClasses α} {s : Fin ranks → Session α}
    (hr : ∀ r, (rank r).Reaches k (Core.sumCounts (rank r).communicator (classes r)) (s r))
    (r : Fin ranks) :
    ∃ counts t, Core.sumCounts (rank r).communicator (classes r) (s r) = (.ok counts, t) ∧
      (rank r).Reaches (k + 3) (pure counts : FormulationM α Core.BoundCounts) t := by
  have h₁ := h.total_of_reaches hr (fun r _ => .bind (.sumOverRanks _ _) fun _ =>
    .bind (.sumOverRanks _ _) fun _ => .pure _)
  have hr₁ := h.next hr (fun r _ => .bind (.sumOverRanks _ _) fun _ =>
    .bind (.sumOverRanks _ _) fun _ => .pure _)
  have h₂ := h.total_of_reaches hr₁ (fun r _ => .bind (.sumOverRanks _ _) fun _ => .pure _)
  have hr₂ := h.next hr₁ (fun r _ => .bind (.sumOverRanks _ _) fun _ => .pure _)
  have h₃ := h.total_of_reaches hr₂ (fun r _ => .pure _)
  have hr₃ := h.next hr₂ (fun r _ => .pure _)
  refine ⟨_, _, ?_, hr₃ r⟩
  rw [Core.sumCounts, bind_of_ok (sumOverRanks_of_total (h₁ r)),
    bind_of_ok (sumOverRanks_of_total (h₂ r)), bind_of_ok (sumOverRanks_of_total (h₃ r))]
  rfl

-- The ranks are given one problem with `n` variables, which they part among them, and `m`
-- constraints. Only the bounds of the variables are their own.
structure Shared {ranks : Nat} (rank : Fin ranks → Rank α) (n m : Nat) (boundaries : List Int)
    (o : Options α) (kind : FormulationKind) (bounds : Fin ranks → BoundsReply α)
    (constraints : BoundsReply α) : Prop where
  parts : Layout.ranksOf boundaries = .ok ranks
  globalSize : boundaries.getLastD 0 = n
  answers : ∀ r, (rank r).problem.Answers n m ⟨boundaries, r⟩ (bounds r) constraints
  options : ∀ r, (rank r).options = o
  tolerance : 0 < o.tolerance
  kind : ∀ r, (rank r).session.formulation.kind = kind
  affordable : ∀ r : Fin ranks, Layout.Affordable ⟨boundaries, r⟩ m

namespace Shared

variable {ranks n m : Nat} {rank : Fin ranks → Rank α} {boundaries : List Int} {o : Options α}
  {kind : FormulationKind} {bounds : Fin ranks → BoundsReply α} {constraints : BoundsReply α}

section

variable (hs : Shared rank n m boundaries o kind bounds constraints)

include hs

theorem build_prefix (r : Fin ranks) :
    (Core.build (rank r).problem o (rank r).communicator (Formulation.canRemove kind)
      (rank r).session).2.reductions <+: (rank r).after.reductions := by
  rw [← hs.options r, ← hs.kind r]
  exact Formulation.build_prefix_finalize _ _

variable (h : Together rank)

include h

theorem owned (r : Fin ranks) :
    Layout.Owned ⟨boundaries, r⟩ (rank r).communicator n ranks where
  number := h.number r
  size := h.size r
  boundaries := hs.parts
  rank_lt := r.isLt
  globalSize := hs.globalSize

-- All ranks compare their numbers of variables first.
theorem reaches_layout (r : Fin ranks) :
    ∃ s, s.reductions = (rank r).session.reductions ∧
      (rank r).Reaches 0 (do
        let total ← sumOverRanks (rank r).communicator (Layout.mk boundaries r).localSize
        if total ≠ n then reject (.localSizes total n)
        return Layout.mk boundaries r : FormulationM α Layout) s := by
  have ⟨u, hu, hsizes⟩ := Core.askSizes_decides (hs.answers r) (rank r).session
  have ⟨_, hsizes⟩ := hsizes.resolve_right fun h => h.left trivial
  refine ⟨u.traced [.query (.distribution n (List.replicate boundaries.length 0))], by simp [hu],
    ?_⟩
  constructor
  case entered => exact .zero (by simp [hu])
  case later =>
    rw [← Core.askLayout_run (hs.answers r) (hs.affordable r) (hs.owned h r) u]
    exact List.IsPrefix.trans (Core.askLayout_prefix_survey hsizes) <|
      List.IsPrefix.trans (Core.survey_prefix_build _ _) (hs.build_prefix r)

theorem total (r : Fin ranks) :
    (rank r).communicator.sum ((rank r).communicator.position (rank r).session.reductions)
      (.whole (Layout.mk boundaries r).localSize) = .ok (.whole n) := by
  choose s hr hreach using hs.reaches_layout h
  have htotal := h.total_of_reaches hreach (fun _ _ => .of_adds (.of_traces (.guard (.pure _)))) r
  rwa [Layout.sum_localSize hs.parts fun _ => rfl, hs.globalSize, hr r] at htotal

theorem survey_run (r : Fin ranks) :
    ∃ t, t.reductions = (rank r).session.reductions ++
        [⟨(rank r).communicator.name, .whole (Layout.mk boundaries r).localSize⟩] ∧
      (Core.Accepts o m ⟨boundaries, r⟩ (bounds r) constraints ∧
          Core.survey (rank r).problem o (rank r).communicator (rank r).session =
            (.ok (Core.surveyOf n m ⟨boundaries, r⟩ (bounds r) constraints), t) ∨
        ¬Core.Accepts o m ⟨boundaries, r⟩ (bounds r) constraints ∧
          Rejects (Core.survey (rank r).problem o (rank r).communicator) (rank r).session t) :=
  Core.survey_of_total (hs.answers r) (hs.affordable r) (hs.owned h r) (hs.total h r)

-- A rank whose bounds make no sense rejects the problem before its next sum.
theorem rejects {r : Fin ranks}
    (hr : ¬Core.Accepts o m ⟨boundaries, r⟩ (bounds r) constraints) :
    (rank r).contributions.length = 1 ∧ (rank r).Returns false := by
  have ⟨t, ht, hout⟩ := hs.survey_run h r
  have ⟨_, hrej⟩ := hout.resolve_left fun h => hr h.left
  rw [← hs.options r] at hrej
  have hb : Rejects (Core.build (rank r).problem (rank r).options (rank r).communicator
      (Formulation.canRemove (rank r).session.formulation.kind)) (rank r).session t := hrej.bind _
  have ⟨u, hf, hu⟩ := Formulation.finalize_of_rejects (Formulation.derive_of_rejects hb)
  constructor
  case left =>
    have ha : (rank r).after = u := congrArg Prod.snd hf
    exact ((Rank.HasEntered.zero rfl).succ ((ha ▸ hu).trans ht)).length_contributions
  case right => exact congrArg Prod.fst hf

-- A rank whose bounds make sense goes on to the number of fixed variables.
theorem reaches_fixed {r : Fin ranks}
    (hr : Core.Accepts o m ⟨boundaries, r⟩ (bounds r) constraints) :
    ∃ t, Core.survey (rank r).problem o (rank r).communicator (rank r).session =
        (.ok (Core.surveyOf n m ⟨boundaries, r⟩ (bounds r) constraints), t) ∧
      (rank r).Reaches 1 (do
        let v := Core.surveyOf n m ⟨boundaries, r⟩ (bounds r) constraints
        let fixedCount ← sumOverRanks (rank r).communicator ((v.fixed o).count true)
        Core.finish o (rank r).communicator (Formulation.canRemove kind) v fixedCount) t := by
  have ⟨t, ht, hout⟩ := hs.survey_run h r
  have ⟨_, hsurvey⟩ := hout.resolve_right fun h => h.left hr
  refine ⟨t, hsurvey, (Rank.HasEntered.zero rfl).succ ht, ?_⟩
  have hl := hs.build_prefix r
  rw [Core.build, bind_of_ok hsurvey] at hl
  exact hl

omit h in
theorem isDistributed (hm : 2 ≤ ranks) (r : Fin ranks) :
    (Layout.mk boundaries r).isDistributed := by
  have := (Layout.ranksOf_eq_ok hs.parts).left
  simp [Layout.isDistributed, Layout.rankCount, this]
  omega

-- Where all bounds make sense, the ranks go on to the counts of bounds together.
theorem reaches_counts (hm : 2 ≤ ranks)
    (hr : ∀ r : Fin ranks, Core.Accepts o m ⟨boundaries, r⟩ (bounds r) constraints)
    (r : Fin ranks) :
    ∃ (core : Core.BoundCounts → Core α) (classes : BoundClasses α) (u : Session α),
      Core.build (rank r).problem o (rank r).communicator (Formulation.canRemove kind)
        (rank r).session = (do
          let counts ← Core.sumCounts (rank r).communicator classes
          return core counts : FormulationM α (Core α)) u ∧
      (rank r).Reaches 2 (Core.sumCounts (rank r).communicator classes) u ∧
      ∀ counts, (core counts).Describes o
        (Core.surveyOf n m ⟨boundaries, r⟩ (bounds r) constraints) u.store ∧
        (core counts).layout = ⟨boundaries, r⟩ := by
  choose t hsurvey hreach using fun r => hs.reaches_fixed h (hr r)
  have hfixed := h.total_of_reaches hreach fun r _ => Core.finish_appends _ _ _
  have ⟨hfit, hcfit, hl⟩ := (hr r).surveyOf_fits (hs.affordable r) n
  have ⟨core, classes, u, hu, hb, hcore⟩ := Core.build_of_fixed (Formulation.canRemove kind)
    (hsurvey r) hfit hcfit hl (hs.isDistributed hm r) hs.tolerance (hfixed r)
  refine ⟨core, classes, u, hb, ?_, hcore⟩
  constructor
  case entered => exact (hreach r).entered.succ hu
  case later =>
    have hl := hs.build_prefix r
    rw [hb] at hl
    exact List.IsPrefix.trans (Appends.run_bind (fun _ => .pure _) u) hl

-- Where all bounds make sense, every rank gets its core after five sums.
theorem build_run (hm : 2 ≤ ranks)
    (hr : ∀ r : Fin ranks, Core.Accepts o m ⟨boundaries, r⟩ (bounds r) constraints)
    (r : Fin ranks) :
    ∃ core t s, Core.build (rank r).problem o (rank r).communicator (Formulation.canRemove kind)
        (rank r).session = (.ok core, t) ∧ (rank r).HasEntered 5 t ∧
      core.Describes o (Core.surveyOf n m ⟨boundaries, r⟩ (bounds r) constraints) s ∧
      core.layout = ⟨boundaries, r⟩ := by
  choose core classes u hb hreach hcore using hs.reaches_counts h hm hr
  have ⟨counts, t, hcounts, ht⟩ := h.sumCounts_run hreach r
  have ⟨hdesc, hlayout⟩ := hcore r counts
  refine ⟨core r counts, t, (u r).store, ?_, ht.entered, hdesc, hlayout⟩
  rw [hb, bind_of_ok hcounts]
  rfl

-- Where all bounds make sense, all ranks enter the same number of sums, and all of them succeed
-- unless the problem comes in blocks, which cannot be spread over ranks.
theorem all_accept (hm : 2 ≤ ranks)
    (hr : ∀ r : Fin ranks, Core.Accepts o m ⟨boundaries, r⟩ (bounds r) constraints)
    (r : Fin ranks) :
    (rank r).contributions.length = 5 ∧ (rank r).Returns (kind = .dense) := by
  have ⟨core, t, s, hb, ht, hdesc, hlayout⟩ := hs.build_run h hm hr r
  rw [← hs.options r, ← hs.kind r] at hb
  have hf : ∃ u, Formulation.finalize (rank r).problem (rank r).session =
      (.ok (decide (kind = .dense)), u) ∧ u.reductions = t.reductions := by
    cases hk : kind
    case dense =>
      have hle := Core.length_split_le ((hr r).surveyOf_fits (hs.affordable r) n).right.left
        hdesc.split
      exact Formulation.finalize_of_dense (hk ▸ hs.kind r) hb
        (hdesc.userLayout ▸ hs.affordable r) hle.left hle.right
    case mixed =>
      refine Formulation.finalize_of_rejects (Formulation.derive_of_mixed (hk ▸ hs.kind r) hb ?_)
      rw [hlayout]
      exact hs.isDistributed hm r
  have ⟨u, hf, hu⟩ := hf
  constructor
  case left =>
    have ha : (rank r).after = u := congrArg Prod.snd hf
    have hu : (rank r).HasEntered 5 (rank r).after := by
      rw [ha, Rank.HasEntered, hu]
      exact ht
    exact hu.length_contributions
  case right => exact congrArg Prod.fst hf

-- The ranks enter the same number of sums and agree on the outcome exactly if the bounds make sense
-- on all ranks or on none: a rank that rejects its bounds leaves while the others wait for it.
theorem same_collectives_iff (hm : 2 ≤ ranks) :
    ((∀ r q, (rank r).contributions.length = (rank q).contributions.length) ∧
        ((∀ r, (rank r).Returns true) ∨ ∀ r, (rank r).Returns false)) ↔
      (∀ r : Fin ranks, Core.Accepts o m ⟨boundaries, r⟩ (bounds r) constraints) ∨
        ∀ r : Fin ranks, ¬Core.Accepts o m ⟨boundaries, r⟩ (bounds r) constraints := by
  constructor
  case mp =>
    intro ⟨hlength, _⟩
    by_cases hall : ∀ r : Fin ranks, Core.Accepts o m ⟨boundaries, r⟩ (bounds r) constraints
    case pos => exact .inl hall
    case neg =>
      have ⟨q, hq⟩ := Classical.not_forall.mp hall
      refine .inr fun r hr => ?_
      have ⟨t, _, hreach⟩ := hs.reaches_fixed h hr
      have hlt := (List.getElem?_eq_some_iff.mp
        (hreach.contributes fun _ => Core.finish_appends _ _ _)).choose
      rw [hlength r q, (hs.rejects h hq).left] at hlt
      omega
  case mpr =>
    intro hcases
    rcases hcases with hall | hnone
    case inl =>
      refine ⟨fun r q => ?_, ?_⟩
      · rw [(hs.all_accept h hm hall r).left, (hs.all_accept h hm hall q).left]
      · cases hk : kind
        case dense => exact .inl fun r => by simpa [hk] using (hs.all_accept h hm hall r).right
        case mixed => exact .inr fun r => by simpa [hk] using (hs.all_accept h hm hall r).right
    case inr =>
      refine ⟨fun r q => ?_, .inr fun r => (hs.rejects h (hnone r)).right⟩
      rw [(hs.rejects h (hnone r)).left, (hs.rejects h (hnone q)).left]

end

end Shared

-- Two ranks that own one variable each, with a lower bound of its own and an upper bound of one.
def owners (lower : Fin 2 → Exact) : Fin 2 → Rank Exact :=
  pair fun r => { Problem.ofFunctions 2 0 (fun _ => 0) fun _ _ => 0 with
    distribution := fun _ _ => .ok { boundaries := [0, 1, 2], answer := .flag true }
    variableBounds := fun _ _ =>
      .ok { lower := [lower r], upper := [.finite 1], answer := .flag true } }

def ownBounds (lower : Fin 2 → Exact) (r : Fin 2) : BoundsReply Exact :=
  { lower := [lower r], upper := [.finite 1], answer := .flag true }

theorem owners_shared (lower : Fin 2 → Exact) :
    Shared (owners lower) 2 0 [0, 1, 2] ⟨.keep, .finite (1 / 100), .finite 1000⟩ .dense
      (ownBounds lower) { answer := .flag true } where
  parts := by decide +kernel
  globalSize := rfl
  answers r := by
    constructor
    case sizes => exact ⟨_, _, rfl, rfl, rfl⟩
    case distribution => exact ⟨_, rfl, rfl, rfl⟩
    case variableBounds => rfl
    case constraintBounds => rfl
  options _ := rfl
  tolerance := by decide +kernel
  kind _ := rfl
  affordable r := by
    constructor
    case boundaries => revert r; decide +kernel
    case entries => revert r; decide +kernel
    case constraints => decide +kernel
    case rows => revert r; decide +kernel

-- Two ranks with a variable between zero and one each succeed together.
theorem same_collectives_iff_owners :
    (∀ r q, (owners (fun _ => 0) r).contributions.length =
      (owners (fun _ => 0) q).contributions.length) ∧
    ((∀ r, (owners (fun _ => 0) r).Returns true) ∨ ∀ r, (owners (fun _ => 0) r).Returns false) :=
  (Shared.same_collectives_iff (owners_shared fun _ => 0)
    (.of_replicated (fun _ => rfl) (by decide +kernel)) (Nat.le_refl 2)).mpr
    (.inl (by decide +kernel))

-- With a lower bound of five, the first rank leaves after one sum, while the other rank goes on.
theorem owners_part : ∃ lower, Together (owners lower) ∧
    Shared (owners lower) 2 0 [0, 1, 2] ⟨.keep, .finite (1 / 100), .finite 1000⟩ .dense
      (ownBounds lower) { answer := .flag true } ∧
    (owners lower 0).contributions.length = 1 ∧ (owners lower 0).Returns false ∧
    (owners lower 1).contributions.length = 5 ∧ (owners lower 1).Returns true := by
  let lower (r : Fin 2) : Exact := if r = 0 then .finite 5 else .finite 0
  have h : Together (owners lower) := .of_replicated (fun _ => rfl) (by decide +kernel)
  have ⟨hlength, hreturns⟩ := (owners_shared lower).rejects h (r := 0) (by decide +kernel)
  exact ⟨lower, h, owners_shared lower, hlength, hreturns, by decide +kernel,
    Rank.returns_of_succeeds (by decide +kernel)⟩

end NonlinearProgram
