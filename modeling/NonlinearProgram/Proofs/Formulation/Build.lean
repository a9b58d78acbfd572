import NonlinearProgram.Proofs.Formulation.Treatment

namespace NonlinearProgram

open Program FormulationM

variable {α : Type}

namespace Core

variable {s t : Session α} {layout : Layout} {c : Communicator α}

theorem constant_run {xs : List α} (h : (xs.length : Int) = layout.localSize) (s : Session α) :
    ∃ v st, constant c layout xs s = (.ok v, { s with store := st }) ∧ st.Constant v.view xs ∧
      v.layout = layout ∧ s.store.Writes (fun _ => False) st := by
  have ha := onStore_of_ok (StoreM.alloc_run (Tensor.ofList xs) s.store)
  have hv : DistributedVector.ofView layout (s.store.alloc (Tensor.ofList xs)).1 (some c) =
      .ok ⟨layout, ⟨s.store.buffers.length, [xs.length]⟩, some c⟩ := by
    simp [DistributedVector.ofView, Store.alloc, Tensor.ofList, View.size, Tensor.sizeOf, h,
      View.flat]
  refine ⟨⟨layout, ⟨s.store.buffers.length, [xs.length]⟩, some c⟩, s.store.frozen xs, ?_,
    s.store.constant_frozen xs, rfl, .frozen xs⟩
  rw [constant, bind_of_ok ha, bind_of_ok (ofExcept_eq_ok.mpr ⟨hv, rfl⟩), ← Store.freeze_alloc]
  rfl

variable [Scalar α] {o : Options α} {d : Declared α} {mask : List Bool} {count : Int}
  {policy : FixedPolicy} {treated : Treatment α}

-- Vectors with the given bounds and their classes.
structure BoundVectors.Hold (b : BoundVectors α) (layout : Layout) (bounds : List α × List α)
    (infinity : α) (s : Store α) : Prop where
  lower : s.Constant b.lower.view bounds.1
  upper : s.Constant b.upper.view bounds.2
  lowerIndicator :
    s.Constant b.lowerIndicator.view (bounds.1.map fun l => indicator (hasLower infinity l))
  upperIndicator :
    s.Constant b.upperIndicator.view (bounds.2.map fun u => indicator (hasUpper infinity u))
  layouts : b.lower.layout = layout ∧ b.upper.layout = layout ∧
    b.lowerIndicator.layout = layout ∧ b.upperIndicator.layout = layout

theorem BoundVectors.Hold.same {b : BoundVectors α} {bounds : List α × List α} {infinity : α}
    {s t : Store α} (h : b.Hold layout bounds infinity s) (hc : s.SameConstants t) :
    b.Hold layout bounds infinity t :=
  ⟨h.lower.same hc, h.upper.same hc, h.lowerIndicator.same hc, h.upperIndicator.same hc,
    h.layouts⟩

theorem boundVectors_run (bounds : List α × List α)
    (hl : (bounds.1.length : Int) = layout.localSize)
    (hu : (bounds.2.length : Int) = layout.localSize) (infinity : α) (s : Session α) :
    ∃ b st, boundVectors c layout bounds.1 bounds.2 (classifyBounds infinity bounds.1 bounds.2) s =
        (.ok b, { s with store := st }) ∧
      b.Hold layout bounds infinity st ∧ s.store.Writes (fun _ => False) st := by
  have ⟨v₁, s₁, h₁, hc₁, hl₁, hw₁⟩ := constant_run (c := c) hl s
  have ⟨v₂, s₂, h₂, hc₂, hl₂, hw₂⟩ := constant_run (c := c) hu { s with store := s₁ }
  have hi₁ : ((classifyBounds infinity bounds.1 bounds.2).lower.length : Int) =
      layout.localSize := by
    simpa [classifyBounds] using hl
  have hi₂ : ((classifyBounds infinity bounds.1 bounds.2).upper.length : Int) =
      layout.localSize := by
    simpa [classifyBounds] using hu
  have ⟨v₃, s₃, h₃, hc₃, hl₃, hw₃⟩ := constant_run (c := c) hi₁ { s with store := s₂ }
  have ⟨v₄, s₄, h₄, hc₄, hl₄, hw₄⟩ := constant_run (c := c) hi₂ { s with store := s₃ }
  have hw₃₄ := hw₃.trans hw₄ fun _ _ => id
  have hw₂₄ := hw₂.trans hw₃₄ fun _ _ => id
  refine ⟨⟨v₁, v₂, v₃, v₄⟩, s₄, ?_, ?_, hw₁.trans hw₂₄ fun _ _ => id⟩
  · rw [boundVectors, bind_of_ok h₁, bind_of_ok h₂, bind_of_ok h₃, bind_of_ok h₄]
    rfl
  · exact ⟨hc₁.same hw₂₄.sameConstants_of_none, hc₂.same hw₃₄.sameConstants_of_none,
      hc₃.same hw₄.sameConstants_of_none, hc₄, hl₁, hl₂, hl₃, hl₄⟩

end Core

-- The communicator takes one number after the other, and answers each with its total.
def Communicator.Sums [Scalar α] (c : Communicator α) :
    List (Reduction α) → List (Int × Int) → Prop
  | _, [] => True
  | history, (n, total) :: rest =>
    (c.sum (c.position history) (.whole n)).bind Quantity.toInteger = .ok total ∧
      c.Sums (history ++ [⟨c.name, .whole n⟩]) rest

namespace Core

variable [Scalar α] {o : Options α} {d : Declared α} {mask : List Bool} {count : Int}
  {policy : FixedPolicy} {treated : Treatment α} {s t : Session α} {layout : Layout}
  {c : Communicator α}

namespace Survey

def fixed (v : Survey α) (o : Options α) : List Bool := fixedVariables o v.variableData

-- The variables that are not among the internal ones of a core.
def eliminated (v : Survey α) (o : Options α) (core : Core α) : List Bool :=
  eliminatedMask core.policy (v.fixed o) core.fixedCount

-- The bounds of the internal variables of a core.
def bounds (v : Survey α) (o : Options α) (core : Core α) : List α × List α :=
  treatedBounds core.policy o v.variableData (v.fixed o) core.fixedCount

end Survey

variable {p : Problem α} {v : Survey α} {core : Core α}

-- The core describes the surveyed problem, with its arrays in the store.
structure Describes (core : Core α) (o : Options α) (v : Survey α) (s : Store α) : Prop where
  userSize : core.userSize = v.size
  constraintCount : core.constraintCount = v.constraintCount
  userLayout : core.userLayout = v.layout
  size : core.size = core.layout.globalSize
  layout : core.policy = .remove ∧ 0 < core.fixedCount ∧
    core.layout.globalSize = core.layout.localSize ∨ core.layout = v.layout
  localSize : core.layout.localSize = (clearPositions (v.eliminated o core)).length
  types : core.types = restrict (v.eliminated o core) v.variableData.types
  eliminates : core.chain.Eliminates (v.eliminated o core) (midpoints v.variableData) s
  split : core.split = .ofBounds o.infinity v.constraintData.lower v.constraintData.upper
    v.constraintData.types
  bounds : BoundVectors.Hold
    ⟨core.lower, core.upper, core.lowerIndicator, core.upperIndicator⟩ core.layout
    (v.bounds o core) o.infinity s
  rhs : s.Constant core.rhs.view core.split.rhs
  inequalities : BoundVectors.Hold
    ⟨core.inequalityLower, core.inequalityUpper, core.inequalityLowerIndicator,
      core.inequalityUpperIndicator⟩ (Layout.ofSize core.split.inequalities.length)
    (core.split.lower, core.split.upper) o.infinity s
  lowerCountLocal : core.lowerCountLocal = (v.bounds o core).1.countP (hasLower o.infinity)
  upperCountLocal : core.upperCountLocal = (v.bounds o core).2.countP (hasUpper o.infinity)
  inequalityLowerCount :
    core.inequalityLowerCount = core.split.lower.countP (hasLower o.infinity)
  inequalityUpperCount :
    core.inequalityUpperCount = core.split.upper.countP (hasUpper o.infinity)
  inequalityBothCount : core.inequalityBothCount =
    (core.split.lower.zip core.split.upper).countP fun (l, u) =>
      hasLower o.infinity l && hasUpper o.infinity u

theorem Describes.same {s t : Store α} (h : core.Describes o v s) (hc : s.SameConstants t)
    (he : core.chain.Eliminates (v.eliminated o core) (midpoints v.variableData) t) :
    core.Describes o v t :=
  { h with
    eliminates := he
    bounds := h.bounds.same hc
    rhs := h.rhs.same hc
    inequalities := h.inequalities.same hc }

theorem fixedVariables_fits {d : Declared α} {n : Nat} (h : d.Fits n) :
    (fixedVariables o d).length = n := by
  rw [fixedVariables]
  cases o.policy <;> simp [fixedMask, h.lower, h.upper]

theorem localSize_split {d : Declared α} {n : Nat} (h : d.Fits n) {infinity : α}
    {split : ConstraintSplit α} (hs : split = .ofBounds infinity d.lower d.upper d.types) :
    split.rhs.length = (Layout.ofSize split.equalities.length).localSize ∧
      split.lower.length = (Layout.ofSize split.inequalities.length).localSize ∧
      split.upper.length = (Layout.ofSize split.inequalities.length).localSize := by
  rw [Layout.localSize_ofSize, Layout.localSize_ofSize, Int.natCast_inj, Int.natCast_inj,
    Int.natCast_inj, hs]
  have hm : (List.zipWith (ConstraintSplit.isEquality infinity) d.lower d.upper).length = n := by
    simp [h.lower, h.upper]
  refine ⟨length_gather fun _ hi => ?_, length_gather fun _ hi => ?_, length_gather fun _ hi => ?_⟩
  · exact h.lower ▸ hm ▸ setPositions_lt hi
  · exact h.lower ▸ hm ▸ clearPositions_lt hi
  · exact h.upper ▸ hm ▸ clearPositions_lt hi

theorem length_split_le {d : Declared α} {n : Nat} (h : d.Fits n) {infinity : α}
    {split : ConstraintSplit α} (hs : split = .ofBounds infinity d.lower d.upper d.types) :
    split.equalities.length ≤ n ∧ split.inequalities.length ≤ n := by
  have hm : (List.zipWith (ConstraintSplit.isEquality infinity) d.lower d.upper).length = n := by
    simp [h.lower, h.upper]
  rw [hs]
  constructor
  · exact Nat.le_trans (Nat.le_of_eq (length_setPositions _)) (hm ▸ List.count_le_length)
  · exact Nat.le_trans (Nat.le_of_eq (length_clearPositions _)) (hm ▸ List.count_le_length)

theorem assemble_run (hv : v.variableData.Fits (v.fixed o).length)
    (hc : v.constraintData.Fits v.constraintCount)
    (ht : Treats treated policy o v.layout v.variableData (v.fixed o) count s.store) :
    ∃ (core : BoundCounts → Core α) (st : Store α),
      assemble o c v policy count treated s =
        (do
          let bounds := treatedBounds policy o v.variableData (v.fixed o) count
          let counts ← sumCounts c (classifyBounds o.infinity bounds.1 bounds.2)
          return core counts : FormulationM α (Core α)) { s with store := st } ∧
      ∀ counts, (core counts).Describes o v st ∧ (core counts).policy = policy ∧
        (core counts).fixedCount = count ∧ (core counts).lowerCount = counts.lower ∧
        (core counts).upperCount = counts.upper ∧ (core counts).bothCount = counts.both ∧
        (core counts).chain = treated.chain := by
  let bounds := treatedBounds policy o v.variableData (v.fixed o) count
  have ⟨hl, hu⟩ : bounds.1.length = _ ∧ bounds.2.length = _ := length_treatedBounds hv
  generalize hs : ConstraintSplit.ofBounds o.infinity v.constraintData.lower v.constraintData.upper
    v.constraintData.types = split
  have ⟨hrhs, hsl, hsu⟩ := localSize_split hc hs.symm
  have ⟨s₁, h₁, he⟩ := internalBounds_run hv ht
  have ⟨b, s₂, h₂, hb, hw₂⟩ := boundVectors_run (c := c) bounds (hl ▸ ht.localSize.symm)
    (hu ▸ ht.localSize.symm) o.infinity { s with store := s₁ }
  have ⟨rhs, s₃, h₃, hr, _, hw₃⟩ := constant_run (c := c) hrhs { s with store := s₂ }
  have ⟨i, s₄, h₄, hi, hw₄⟩ := boundVectors_run (c := c) (split.lower, split.upper)
    hsl hsu o.infinity { s with store := s₃ }
  have hw₃₄ := hw₃.trans hw₄ fun _ _ => id
  have hw₂₄ := hw₂.trans hw₃₄ fun _ _ => id
  have hp (s : Session α) : partConstraints o v.constraintData s = (.ok split, s) := by
    simp [partConstraints, ConstraintSplit.ofBounds?, hc.lower, hc.upper, hc.types, hs]
  constructor
  refine ⟨s₄, ?_, fun counts => ?_⟩
  · rw [assemble, bind_of_ok h₁]
    dsimp only
    rw [bind_of_ok (hp _), bind_of_ok h₂, bind_of_ok h₃, bind_of_ok h₄]
  · refine ⟨?_, rfl, rfl, rfl, rfl, rfl, rfl⟩
    constructor
    case userSize => rfl
    case constraintCount => rfl
    case userLayout => rfl
    case size => rfl
    case layout => exact ht.layout
    case localSize => exact ht.localSize
    case types => exact ht.types
    case eliminates => exact he.writes hw₂₄ fun _ _ => id
    case split => exact hs.symm
    case bounds => exact hb.same hw₃₄.sameConstants_of_none
    case rhs => exact hr.same hw₄.sameConstants_of_none
    case inequalities => exact hi
    case lowerCountLocal => rfl
    case upperCountLocal => rfl
    case inequalityLowerCount => rfl
    case inequalityUpperCount => rfl
    case inequalityBothCount => rfl

-- What the treatment of the fixed variables comes to is taken over as it is.
theorem treated_of_assemble (h : assemble o c v policy count treated s = (.ok core, t)) :
    core.chain = treated.chain ∧ core.layout = treated.layout := by
  obtain ⟨_, _, _, h⟩ := bind_eq_ok.mp h
  obtain ⟨_, _, _, h⟩ := bind_eq_ok.mp h
  obtain ⟨_, _, _, h⟩ := bind_eq_ok.mp h
  obtain ⟨_, _, _, h⟩ := bind_eq_ok.mp h
  obtain ⟨_, _, _, h⟩ := bind_eq_ok.mp h
  obtain ⟨_, _, _, h⟩ := bind_eq_ok.mp h
  obtain ⟨rfl, _⟩ := ok_eq_ok.mp h
  exact ⟨rfl, rfl⟩

-- What a rank contributes to the counts of a core, and what all ranks together make of it.
def counts (core : Core α) (o : Options α) (v : Survey α) : List (Int × Int) :=
  let classes := classifyBounds o.infinity (v.bounds o core).1 (v.bounds o core).2
  [((v.fixed o).count true, core.fixedCount), (classes.lowerCount, core.lowerCount),
    (classes.upperCount, core.upperCount), (classes.bothCount, core.bothCount)]

-- How a core came out of a session in which a problem was asked for everything.
structure Built (p : Problem α) (o : Options α) (c : Communicator α) (canRemove : Bool)
    (v : Survey α) (core : Core α) (s t : Session α) : Prop where
  surveyed : Surveyed p o v
  describes : core.Describes o v t.store
  policy : core.policy = policyFor o.policy core.fixedCount v.layout.isDistributed canRemove
  formulation : t.formulation = s.formulation
  reductions : ∃ first, LaidOut c v.size v.layout s.reductions first ∧
    c.Sums (s.reductions ++ first) (core.counts o v) ∧
    t.reductions =
      s.reductions ++ first ++ (core.counts o v).map fun (n, _) => ⟨c.name, .whole n⟩

theorem sumCounts_eq_ok {classes : BoundClasses α} {counts : BoundCounts}
    (h : sumCounts c classes s = (.ok counts, t)) :
    c.Sums s.reductions [(classes.lowerCount, counts.lower), (classes.upperCount, counts.upper),
        (classes.bothCount, counts.both)] ∧
      t = s.traced [.reduction ⟨c.name, .whole classes.lowerCount⟩,
        .reduction ⟨c.name, .whole classes.upperCount⟩,
        .reduction ⟨c.name, .whole classes.bothCount⟩] := by
  rw [sumCounts, bind_eq_ok] at h
  have ⟨lower, u₁, h₁, h⟩ := h
  have ⟨hl, hu₁⟩ := sumOverRanks_eq_ok.mp h₁
  have ⟨upper, u₂, h₂, h⟩ := bind_eq_ok.mp h
  have ⟨hu, hu₂⟩ := sumOverRanks_eq_ok.mp h₂
  have ⟨both, u₃, h₃, h⟩ := bind_eq_ok.mp h
  have ⟨hb, hu₃⟩ := sumOverRanks_eq_ok.mp h₃
  have ⟨hc, ht⟩ := ok_eq_ok.mp h
  subst hc ht hu₃ hu₂ hu₁
  constructor
  case left => exact ⟨hl, by simpa using hu, by simpa using hb, trivial⟩
  case right => simp [Session.traced_traced]

omit [Scalar α] in
theorem choosePolicy_eq_ok {requested chosen : FixedPolicy} {distributed canRemove : Bool}
    (h : choosePolicy requested count distributed canRemove s = (.ok chosen, t)) :
    chosen = policyFor requested count distributed canRemove ∧
      ∃ events, t = { s with events := events } := by
  simp only [choosePolicy, ite_run] at h
  split at h
  case isTrue =>
    have ⟨_, u, he, h⟩ := bind_eq_ok.mp h
    have ⟨_, hu⟩ := ok_eq_ok.mp he
    have ⟨hc, ht⟩ := ok_eq_ok.mp h
    subst hc ht hu
    exact ⟨rfl, _, rfl⟩
  case isFalse =>
    have ⟨hc, ht⟩ := ok_eq_ok.mp h
    subst hc ht
    exact ⟨rfl, _, rfl⟩

-- Nothing is eliminated where variables are spread over ranks.
omit [Scalar α] in
theorem policyFor_of_distributed {requested : FixedPolicy} {canRemove : Bool} (hc : 0 < count) :
    policyFor requested count true canRemove ≠ .remove := by
  cases requested <;> simp [policyFor, hc]

-- A core is built from a survey, with a chain for the variables that turn out to be fixed.
theorem survey_of_build {canRemove : Bool} (h : build p o c canRemove s = (.ok core, t)) :
    ∃ v u, survey p o c s = (.ok v, u) ∧ Built p o c canRemove v core s t ∧
      MadeFor core.chain core.policy core.fixedCount := by
  rw [build, bind_eq_ok] at h
  have ⟨v, u₁, h₁, h⟩ := h
  have ⟨hs, calls, hu₁, hl⟩ := survey_eq_ok h₁
  have ⟨fixedCount, u₂, h₂, h⟩ := bind_eq_ok.mp h
  have ⟨hf, hu₂⟩ := sumOverRanks_eq_ok.mp h₂
  have ⟨policy, u₃, h₃, h⟩ := bind_eq_ok.mp h
  have ⟨hp, events, hu₃⟩ := choosePolicy_eq_ok h₃
  have ⟨treated, u₄, h₄, h⟩ := bind_eq_ok.mp h
  have hm : (v.fixed o).length = v.layout.localSize.toNat := fixedVariables_fits hs.variables_fit
  have hfit : v.variableData.Fits (v.fixed o).length := hm ▸ hs.variables_fit
  have hn := hs.localSize
  have ⟨ht, st, events', hu₄⟩ := treat_eq_ok hfit (by omega) h₄
  have ⟨make, st', ha, hd⟩ := assemble_run (c := c) hfit hs.constraints_fit ht
  rw [ha] at h
  have ⟨counts, u₅, h₅, h⟩ := bind_eq_ok.mp h
  have ⟨hsum, hu₅⟩ := sumCounts_eq_ok h₅
  have ⟨hc, ht'⟩ := ok_eq_ok.mp h
  have ⟨hdesc, hpol, hcount, hlow, hupp, hboth, hchain⟩ := hd counts
  have hmade := ht.chain
  subst hu₁ hu₂ hu₃ hu₄ hu₅ ht'
  rw [hc] at hdesc hpol hcount hlow hupp hboth hchain
  subst hpol hcount
  refine ⟨v, _, h₁, ⟨hs, hdesc, hp, rfl, _, hl, ⟨?_, ?_⟩, ?_⟩, hchain ▸ hmade⟩
  · simpa [Survey.fixed] using hf
  · rw [hlow, hupp, hboth]
    simpa [Session.reductions, Session.traced, List.filterMap_cons, Survey.bounds, Survey.fixed]
      using hsum
  · simp [Session.reductions, Session.traced, Core.counts, Survey.bounds,
      Survey.fixed]

end Core
end NonlinearProgram
