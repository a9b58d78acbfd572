import NonlinearProgram.Proofs.Bounds
import NonlinearProgram.Proofs.Formulation.Delivery

namespace NonlinearProgram

open Program FormulationM

variable {α : Type}

-- A communicator of one process: a sum is what is contributed here.
def Communicator.Alone (c : Communicator α) : Prop :=
  ∀ k n, c.sum k (.whole n) = .ok (.whole n)

namespace Chain

-- The variables that a chain eliminates.
def eliminated (c : Chain α) : List Nat :=
  c.items.flatMap fun
    | .remover r => r.fixedIndices
    | .relaxer _ | .objective _ => []

theorem Eliminates.eliminated {c : Chain α} {mask : List Bool} {values : List α} {s : Store α}
    (h : c.Eliminates mask values s) : c.eliminated = setPositions mask := by
  cases h
  case kept hi hm _ =>
    have hn : setPositions mask = [] := by
      rw [setPositions_eq_nil, hm]
      exact fun i => by simp [List.getElem?_replicate]
    cases hi
    case inl hi => simp [Chain.eliminated, hi, hn]
    case inr hi =>
      have ⟨_, hi⟩ := hi
      simp [Chain.eliminated, hi, hn]
  case removed r hi hr => simp [Chain.eliminated, hi, hr.fixedIndices]

end Chain

-- The user's variables at hand that are not eliminated, in order.
def Core.freeVariables (c : Core α) : List Nat :=
  (List.range c.userLayout.localSize.toNat).filter (· ∉ c.chain.eliminated)

variable [Scalar α]

theorem Formulation.Ready.freeVariables {p : Problem α} {d : Finalized α} {o : Options α}
    {v : Core.Survey α} {s : Session α} (h : Formulation.Ready p d o v s) :
    d.core.freeVariables = clearPositions (v.eliminated o d.core) := by
  rw [Core.freeVariables, clearPositions, h.eliminates.eliminated, h.intact.describes.userLayout,
    h.length_eliminated]
  refine List.filter_congr fun i hi => ?_
  rw [← h.length_eliminated, List.mem_range] at hi
  simp [mem_setPositions, hi]

namespace Problem

-- What a problem declares of its variables, where they are all at hand, and of its constraints.
def variableData (p : Problem α) (n : Int) : Declared α :=
  declaredBy (p.variableBounds n) (Core.undeclared n.toNat)

def constraintData (p : Problem α) (m : Nat) : Declared α :=
  declaredBy (p.constraintBounds m) (Core.undeclared m)

-- A point that satisfies the user's problem, whose constraints are `g`.
structure Feasible (p : Problem α) (o : Options α) (n : Int) (m : Nat) (g : List α → Nat → α)
    (x : List α) : Prop where
  length : (x.length : Int) = n
  bounds : Between o.infinity (p.variableData n).lower (p.variableData n).upper x
  constraints : Between o.infinity (p.constraintData m).lower (p.constraintData m).upper
    ((List.range m).map (g x))

instance (p : Problem α) (o : Options α) (n : Int) (m : Nat) (g : List α → Nat → α) (x : List α) :
    Decidable (p.Feasible o n m g x) :=
  decidable_of_iff
    ((x.length : Int) = n ∧
      Between o.infinity (p.variableData n).lower (p.variableData n).upper x ∧
      Between o.infinity (p.constraintData m).lower (p.constraintData m).upper
        ((List.range m).map (g x)))
    ⟨fun h => ⟨h.left, h.right.left, h.right.right⟩,
      fun h => ⟨h.length, h.bounds, h.constraints⟩⟩

end Problem

namespace Core.Survey

variable {v : Survey α} {o : Options α} {core : Core α}

-- Where nothing is relaxed, the bounds of the variables that stay are what the user gave.
theorem bounds_eq (hp : core.policy ≠ .relax) (hd : v.variableData.Fits (v.fixed o).length) :
    v.bounds o core = (restrict (v.eliminated o core) v.variableData.lower,
      restrict (v.eliminated o core) v.variableData.upper) := by
  have hn : (restrict (List.replicate (v.fixed o).length false) v.variableData.lower,
      restrict (List.replicate (v.fixed o).length false) v.variableData.upper) =
      (v.variableData.lower, v.variableData.upper) := by
    rw [restrict_replicate hd.lower, restrict_replicate hd.upper]
  rw [bounds, treatedBounds.eq_def, eliminated, eliminatedMask]
  by_cases hc : core.fixedCount ≤ 0
  case pos => rw [if_pos hc, if_neg (by omega), hn]
  case neg =>
    rw [if_neg hc]
    cases hk : core.policy
    case keep => rw [if_neg (by simp), hn]
    case remove => rw [if_pos ⟨rfl, by omega⟩]
    case relax => exact absurd hk hp

-- Only fixed variables are eliminated.
theorem isFixed_of_eliminated {i : Nat} {l u : α}
    (h : i ∈ setPositions (v.eliminated o core)) (hl : v.variableData.lower[i]? = some l)
    (hu : v.variableData.upper[i]? = some u) : isFixed o.tolerance o.infinity l u := by
  rw [mem_setPositions, eliminated, eliminatedMask] at h
  split at h
  case isFalse => simp [List.getElem?_replicate] at h
  case isTrue =>
    rw [fixed, fixedVariables] at h
    cases hk : o.policy
    case keep => simp [hk, List.getElem?_replicate] at h
    all_goals simpa [hk, fixedMask, List.getElem?_zipWith, hl, hu] using h

-- An eliminated variable is set to the midpoint of its bounds, which lie inside of the threshold.
theorem midpoint_of_eliminated {i : Nat} (hd : v.variableData.Fits (v.eliminated o core).length)
    (h : i ∈ setPositions (v.eliminated o core)) : ∃ l u, v.variableData.lower[i]? = some l ∧
      v.variableData.upper[i]? = some u ∧
      (midpoints v.variableData)[i]? = some (Scalar.midpoint l u) ∧
      isFixed o.tolerance o.infinity l u := by
  have hl : i < v.variableData.lower.length := hd.lower ▸ setPositions_lt h
  have hu : i < v.variableData.upper.length := hd.upper ▸ setPositions_lt h
  have hl' := List.getElem?_eq_getElem hl
  have hu' := List.getElem?_eq_getElem hu
  refine ⟨_, _, hl', hu', ?_, isFixed_of_eliminated h hl' hu'⟩
  rw [midpoints, List.getElem?_zipWith, hl', hu']

end Core.Survey

namespace Formulation

-- A point that satisfies the internal problem as a solver sees it.
structure Feasible (p : Problem α) (d : Finalized α) (s : Session α) (isNew : RawValue α)
    (y : List α) : Prop where
  length : (y.length : Int) = d.core.localSize
  bounds : Respects (s.store.entries d.core.lower.view) (s.store.entries d.core.upper.view)
    (s.store.entries d.core.lowerIndicator.view) (s.store.entries d.core.upperIndicator.view) y
  equalities : ∃ cs, (valuesAt p .equalities y isNew s).1 = .ok (some cs) ∧
    cs.length = (s.store.entries d.core.rhs.view).length ∧
    Agree cs (s.store.entries d.core.rhs.view)
  inequalities : ∃ ds, (valuesAt p .inequalities y isNew s).1 = .ok (some ds) ∧
    ds.length = (s.store.entries d.core.inequalityLower.view).length ∧
    Respects (s.store.entries d.core.inequalityLower.view)
      (s.store.entries d.core.inequalityUpper.view)
      (s.store.entries d.core.inequalityLowerIndicator.view)
      (s.store.entries d.core.inequalityUpperIndicator.view) ds

variable {p : Problem α} {s t : Session α} {d : Finalized α} {o : Options α}
  {v : Core.Survey α} {ys xs : List α}

theorem Ready.length_pointToUser (h : Ready p d o v s) (ys : List α) :
    (v.pointToUser o d.core ys).length = (v.eliminated o d.core).length :=
  (length_expand ..).trans (Core.length_midpoints h.variables_fit)

-- What the internal bounds and their indicators say of the variables that stay.
theorem Ready.respects_iff [LawfulScalar α] (h : Ready p d o v s) (hp : d.core.policy ≠ .relax)
    (hl : ys.length = v.internalSize o d.core) :
    Respects (s.store.entries d.core.lower.view) (s.store.entries d.core.upper.view)
        (s.store.entries d.core.lowerIndicator.view) (s.store.entries d.core.upperIndicator.view)
        ys ↔
      ∀ i ∈ clearPositions (v.eliminated o d.core), BetweenAt o.infinity v.variableData.lower
        v.variableData.upper (v.pointToUser o d.core ys) i := by
  have hb := h.intact.describes.bounds
  have hfit := h.variables_fit
  have hbounds := Core.Survey.bounds_eq (v := v) (o := o) hp
    (Core.length_eliminatedMask .. ▸ hfit)
  have hys : restrict (v.eliminated o d.core) (v.pointToUser o d.core ys) = ys :=
    restrict_expand (Core.length_midpoints hfit) hl
  rw [hb.lower.entries, hb.upper.entries, hb.lowerIndicator.entries, hb.upperIndicator.entries,
    respects_indicators, hbounds,
    ← between_restrict hfit.lower hfit.upper (h.length_pointToUser ys), hys]

-- The two groups of constraints say together what the user's bounds say.
theorem Ready.between_iff_split [LawfulScalar α] (h : Ready p d o v s) (c : Nat → α) :
    Between o.infinity v.constraintData.lower v.constraintData.upper
        ((List.range d.core.constraintCount).map c) ↔
      Agree ((d.core.indices .equalities).map c) d.core.split.rhs ∧
        Between o.infinity d.core.split.lower d.core.split.upper
          ((d.core.indices .inequalities).map c) := by
  have hd := h.intact.describes
  have hcfit : v.constraintData.Fits d.core.constraintCount :=
    hd.constraintCount ▸ h.surveyed.constraints_fit
  rw [← gather_map _ (h.indices_lt .equalities), ← gather_map _ (h.indices_lt .inequalities)]
  exact ConstraintSplit.between_ofBounds hd.split (by simp [hcfit.lower]) (by simp [hcfit.upper])

-- What a solver sees of the internal problem, said of the user's point.
theorem feasible_iff [LawfulScalar α] {g : List α → Nat → α} (h : Ready p d o v s)
    (hp : d.core.policy ≠ .relax)
    (hg : p.HasConstraints d.core.userSize v.layout.localSize.toNat d.core.constraintCount g)
    (hl : ys.length = v.internalSize o d.core) (isNew : RawValue α) :
    Feasible p d s isNew ys ↔
      (∀ i ∈ clearPositions (v.eliminated o d.core), BetweenAt o.infinity v.variableData.lower
        v.variableData.upper (v.pointToUser o d.core ys) i) ∧
      Between o.infinity v.constraintData.lower v.constraintData.upper
        ((List.range d.core.constraintCount).map (g (v.pointToUser o d.core ys))) := by
  have hd := h.intact.describes
  have hcfit : v.constraintData.Fits d.core.constraintCount :=
    hd.constraintCount ▸ h.surveyed.constraints_fit
  have hvar := h.respects_iff hp hl
  have hcon := h.between_iff_split (g (v.pointToUser o d.core ys))
  have ⟨hrhs, hlow, _⟩ := Core.localSize_split hcfit hd.split
  simp only [Layout.localSize_ofSize, Int.natCast_inj] at hrhs hlow
  have heq := valuesAt_run h hg hl .equalities isNew
  have hineq := valuesAt_run h hg hl .inequalities isNew
  have hi := hd.inequalities
  constructor
  case mp =>
    intro hf
    have ⟨cs, hcs, _, ha⟩ := hf.equalities
    have ⟨ds, hds, _, hr⟩ := hf.inequalities
    cases heq.symm.trans hcs
    cases hineq.symm.trans hds
    rw [hd.rhs.entries] at ha
    rw [hi.lower.entries, hi.upper.entries, hi.lowerIndicator.entries, hi.upperIndicator.entries,
      respects_indicators] at hr
    exact ⟨hvar.mp hf.bounds, hcon.mpr ⟨ha, hr⟩⟩
  case mpr =>
    intro ⟨hf, hc⟩
    have ⟨ha, hr⟩ := hcon.mp hc
    constructor
    case length => rw [hl, h.localSize]
    case bounds => exact hvar.mpr hf
    case equalities =>
      refine ⟨_, heq, ?_, hd.rhs.entries ▸ ha⟩
      rw [hd.rhs.entries, List.length_map, hrhs]
      rfl
    case inequalities =>
      refine ⟨_, hineq, ?_, ?_⟩
      · rw [hi.lower.entries, List.length_map, hlow]
        rfl
      · rwa [hi.lower.entries, hi.upper.entries, hi.lowerIndicator.entries,
          hi.upperIndicator.entries, respects_indicators]

-- On one rank, all variables are at hand.
theorem Finalizes.localSize_eq (hf : Finalizes p v d s t)
    (hc : s.formulation.communicator.Alone) : v.layout.localSize = v.size := by
  have ⟨_, hb, _⟩ := hf.built
  have ⟨_, hl, _⟩ := hb.reductions
  cases hl
  case serial hl _ =>
    rw [Layout.serial_eq_ok hl, Layout.localSize_whole]
  case sliced hs _ =>
    rw [hc] at hs
    exact Except.ok.inj hs

-- What the problem declares, where all variables are at hand.
theorem Ready.declared (h : Ready p d o v s) (hn : d.core.userSize = v.layout.localSize) :
    p.variableData d.core.userSize = v.variableData ∧
      p.constraintData d.core.constraintCount = v.constraintData := by
  constructor
  case left =>
    rw [h.surveyed.variableData, ← hn, h.intact.describes.userSize]
    rfl
  case right =>
    rw [h.surveyed.constraintData, h.intact.describes.constraintCount]
    rfl

theorem Ready.length_of_feasible {g : List α → Nat → α} (h : Ready p d o v s)
    (hn : d.core.userSize = v.layout.localSize)
    (hx : p.Feasible o d.core.userSize d.core.constraintCount g xs) :
    xs.length = (v.eliminated o d.core).length := by
  have := hx.length
  rw [h.length_eliminated]
  omega

section

variable [ExactScalar α] {g : List α → Nat → α}

theorem feasible_pointToUser (h : Ready p d o v s) (hn : d.core.userSize = v.layout.localSize)
    (hp : d.core.policy ≠ .relax)
    (hg : p.HasConstraints d.core.userSize v.layout.localSize.toNat d.core.constraintCount g)
    (hcross : ∀ i ∈ setPositions (v.eliminated o d.core), ∀ l u,
      v.variableData.lower[i]? = some l → v.variableData.upper[i]? = some u → ¬u < l)
    {isNew : RawValue α} (hy : Feasible p d s isNew ys) :
    p.Feasible o d.core.userSize d.core.constraintCount g (v.pointToUser o d.core ys) := by
  have ⟨hfree, hcon⟩ := (feasible_iff h hp hg (h.length_eq hy.length) isNew).mp hy
  have ⟨hvars, hcons⟩ := h.declared hn
  have hfit := h.variables_fit
  have hlen := h.length_pointToUser ys
  constructor
  case length =>
    have := h.surveyed.localSize
    rw [hlen, h.length_eliminated, hn]
    omega
  case bounds =>
    rw [hvars, between_iff_positions hlen]
    refine ⟨fun i hi => ?_, hfree⟩
    have ⟨l, u, hl, hu, hm, hfix⟩ := Core.Survey.midpoint_of_eliminated hfit hi
    have ⟨hlm, hmu⟩ := midpoint_between hfix (hcross i hi l u hl hu)
    have hx : (v.pointToUser o d.core ys)[i]? = some (Scalar.midpoint l u) :=
      (getElem?_expand_of_set (mem_setPositions.mp hi)).trans hm
    constructor
    case lower =>
      intro l' x hl' hx' _
      cases hl.symm.trans hl'
      cases hx.symm.trans hx'
      exact hlm
    case upper =>
      intro u' x hu' hx' _
      cases hu.symm.trans hu'
      cases hx.symm.trans hx'
      exact hmu
  case constraints => exact hcons ▸ hcon

theorem feasible_pointToInternal (h : Ready p d o v s)
    (hn : d.core.userSize = v.layout.localSize) (hp : d.core.policy ≠ .relax)
    (hg : p.HasConstraints d.core.userSize v.layout.localSize.toNat d.core.constraintCount g)
    (heq : ∀ i ∈ setPositions (v.eliminated o d.core), ∀ l u,
      v.variableData.lower[i]? = some l → v.variableData.upper[i]? = some u → l == u)
    (hx : p.Feasible o d.core.userSize d.core.constraintCount g xs) (isNew : RawValue α) :
    v.pointToUser o d.core (v.pointToInternal o d.core xs) = xs ∧
      Feasible p d s isNew (v.pointToInternal o d.core xs) := by
  have ⟨hvars, hcons⟩ := h.declared hn
  have hfit := h.variables_fit
  have hlen := h.length_of_feasible hn hx
  have hbounds := hvars ▸ hx.bounds
  have hback : v.pointToUser o d.core (v.pointToInternal o d.core xs) = xs := by
    refine expand_restrict (Core.length_midpoints hfit) hlen fun i hi => ?_
    have ⟨l, u, hl, hu, hm, hfix⟩ := Core.Survey.midpoint_of_eliminated hfit hi
    have ⟨hpl, hpu⟩ : -o.infinity < l ∧ u < o.infinity := by
      simp only [isFixed, Bool.and_eq_true, hasLower_iff, hasUpper_iff] at hfix
      exact hfix.left
    have hi' := List.getElem?_eq_getElem (hlen ▸ setPositions_lt hi)
    rw [hm, hi', eq_midpoint hfix (heq i hi l u hl hu) ((hbounds i).lower hl hi' hpl)
      ((hbounds i).upper hu hi' hpu)]
  have hl : (v.pointToInternal o d.core xs).length = v.internalSize o d.core :=
    length_restrict hlen
  refine ⟨hback, (feasible_iff h hp hg hl isNew).mpr ?_⟩
  rw [hback]
  exact ⟨((between_iff_positions hlen).mp hbounds).right, hcons ▸ hx.constraints⟩

end

-- The internal problem means the same as the user's: internal points that are feasible are feasible
-- for the user, and points that are feasible for the user come from exactly one of them.
theorem internal_problem_faithful [ExactScalar α] {u : Session α} {f : List α → α}
    {g : List α → Nat → α} (hc : s.formulation.communicator.Alone)
    (hf : finalize p s = (.ok true, t)) (hd : t.formulation.finalized = some d)
    (hp : d.core.policy = .keep ∨ d.core.policy = .remove) (hu : Undisturbed d t u)
    (hobj : p.HasObjective d.core.userSize d.core.userSize.toNat f)
    (hcons : p.HasConstraints d.core.userSize d.core.userSize.toNat d.core.constraintCount g)
    (isNew : RawValue α) :
    ((∀ i ∈ d.core.chain.eliminated, ∀ lo up, (p.variableData d.core.userSize).lower[i]? = some lo →
        (p.variableData d.core.userSize).upper[i]? = some up → ¬up < lo) →
      ∀ y, Feasible p d u isNew y → ∃ x, (userPointAt y u).1 = .ok x ∧
        p.Feasible s.formulation.options d.core.userSize d.core.constraintCount g x ∧
        (Scalar.isFinite (f x) → (objectiveAt p y isNew u).1 = .ok (some (f x)))) ∧
    ((∀ i ∈ d.core.chain.eliminated, ∀ lo up, (p.variableData d.core.userSize).lower[i]? = some lo →
        (p.variableData d.core.userSize).upper[i]? = some up → lo == up) →
      ∀ x, p.Feasible s.formulation.options d.core.userSize d.core.constraintCount g x →
        ∃ y, (internalPointAt x u).1 = .ok y ∧ Feasible p d u isNew y ∧
          (userPointAt y u).1 = .ok x ∧
          ∀ y', Feasible p d u isNew y' → (userPointAt y' u).1 = .ok x → y' = y) := by
  have ⟨v, hF⟩ := finalizes_of_finalized hf hd
  have hr := hF.ready.undisturbed hu
  have hn : d.core.userSize = v.layout.localSize :=
    hr.intact.describes.userSize.trans (hF.localSize_eq hc).symm
  have hp' : d.core.policy ≠ .relax := by
    cases hp <;> simp [*]
  have ⟨hvars, _⟩ := hr.declared hn
  rw [hr.eliminates.eliminated, hvars]
  rw [congrArg Int.toNat hn] at hobj hcons
  constructor
  case left =>
    intro hcross y hy
    refine ⟨_, userPointAt_run hr (hr.length_eq hy.length), feasible_pointToUser hr hn hp' hcons hcross hy,
      fun hfin => ?_⟩
    rw [objectiveAt_run hr hobj (hr.length_eq hy.length), if_pos hfin]
  case right =>
    intro heq x hx
    have ⟨hback, hy⟩ := feasible_pointToInternal hr hn hp' hcons heq hx isNew
    refine ⟨_, internalPointAt_run hr (hr.length_of_feasible hn hx), hy, ?_, fun y' hy' hx' => ?_⟩
    · rw [userPointAt_run hr (hr.length_eq hy.length), hback]
    · rw [userPointAt_run hr (hr.length_eq hy'.length)] at hx'
      rw [← Except.ok.inj hx']
      exact (restrict_expand (Core.length_midpoints hr.variables_fit)
        (hr.length_eq hy'.length)).symm

-- Two variables, of which the first is fixed, and two constraints, of which the first is an
-- equality.
def sampleObjective (x : List Exact) : Exact := x[1]?.getD 0

def sampleConstraints (x : List Exact) (j : Nat) : Exact :=
  if j = 0 then x[0]?.getD 0 + x[1]?.getD 0 else x[1]?.getD 0

def sample : Problem Exact :=
  { Problem.ofFunctions 2 2 sampleObjective sampleConstraints with
    variableBounds := fun _ _ =>
      .ok { lower := [.finite 1, .finite 0], upper := [.finite 1, .finite 5], answer := .flag true }
    constraintBounds := fun _ _ =>
      .ok { lower := [.finite 4], upper := [.finite 4, .finite 10], answer := .flag true } }

-- A session in which fixed variables are to be removed.
def sampleStart : Session Exact where
  formulation := {
    kind := .dense
    options := ⟨.remove, .finite (1 / 100), .finite 1000⟩
    communicator := .serial "alone" }
  clock := 0

theorem internal_problem_faithful_sample : ∃ t d y, finalize sample sampleStart = (.ok true, t) ∧
    t.formulation.finalized = some d ∧
    (internalPointAt [.finite 1, .finite 3] t).1 = .ok y ∧ Feasible sample d t .null y ∧
    (userPointAt y t).1 = .ok [.finite 1, .finite 3] ∧
    (objectiveAt sample y .null t).1 = .ok (some (.finite 3)) := by
  have hf := finalize_of_succeeds (p := sample) (s := sampleStart) (by decide +kernel)
  have hdata : ((finalize sample sampleStart).2.formulation.finalized.map fun d =>
      (d.core.policy, d.core.userSize, d.core.constraintCount, d.core.chain.eliminated)) =
      some (.remove, 2, 2, [0]) := by decide +kernel
  have ⟨v, d, hF⟩ := finalize_eq_true hf
  have hd := hF.finalized
  simp only [hd, Option.map_some, Option.some.injEq, Prod.mk.injEq] at hdata
  have ⟨hp, hn, hm, he⟩ := hdata
  have ⟨hout, hin⟩ := internal_problem_faithful (fun _ _ => rfl) hf hd (.inr hp) (.refl d _)
    (Problem.hasObjective_of_evaluate rfl) (Problem.hasConstraints_of_evaluate rfl) .null
  rw [hn, hm, he] at hout hin
  have heq : ∀ i ∈ [0], ∀ lo ∈ (sample.variableData 2).lower[i]?,
      ∀ up ∈ (sample.variableData 2).upper[i]?, lo == up ∧ ¬up < lo := by decide +kernel
  have ⟨y, hy, hfeas, hback, _⟩ := hin (fun i hi lo up hl hu => (heq i hi lo hl up hu).left)
    [.finite 1, .finite 3] (by decide +kernel)
  have ⟨x, hx, _, hobj⟩ := hout (fun i hi lo up hl hu => (heq i hi lo hl up hu).right) y hfeas
  rw [hback] at hx
  cases hx
  exact ⟨_, d, y, hf, hd, hy, hfeas, hback, hobj (by decide +kernel)⟩

end Formulation
end NonlinearProgram
