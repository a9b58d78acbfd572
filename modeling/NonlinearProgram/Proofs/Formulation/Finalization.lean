import NonlinearProgram.Formulation.Finalization
import NonlinearProgram.Proofs.Formulation.Build

namespace NonlinearProgram

open Program FormulationM

variable {α : Type}

namespace StoreM

theorem zeros_eq_ok [Zero α] {axes : List Int} {s t : Store α} {v : View}
    (h : zeros axes s = (.ok v, t)) :
    t.Owns v (axes.map Int.toNat) ∧ s.buffers.length ≤ v.buffer ∧ s.Writes (fun _ => False) t := by
  rw [zeros] at h
  cases ha : allocationFault? Tensor.scalarWidth axes
  case some fault => simp [ha, bind_run] at h
  case none =>
    simp only [ha] at h
    have ⟨hv, ht⟩ := ok_eq_ok.mp h
    subst hv ht
    exact ⟨.alloc (by simp), Nat.le_refl _, .alloc _⟩

end StoreM

namespace FormulationM

theorem onStore_eq_ok {β : Type} {act : StoreM α β} {s t : Session α} {b : β}
    (h : onStore act s = (.ok b, t)) :
    ∃ st, act s.store = (.ok b, st) ∧ t = { s with store := st } := by
  cases ha : act s.store
  case mk r st =>
    cases r
    case ok a =>
      rw [onStore_of_ok ha] at h
      have ⟨hb, ht⟩ := ok_eq_ok.mp h
      exact ⟨st, hb ▸ rfl, ht.symm⟩
    case error e =>
      simp only [onStore, ha] at h
      exact (error_ne_ok h).elim

theorem attempt_run {β : Type} {act : FormulationM α β} {s t : Session α}
    {r : Except (Failure α) β} (h : act s = (r, t)) : attempt act s = (.ok r, t) := by
  simp only [attempt, h]

-- A new array comes behind all that there are.
theorem onStore_zeros_eq_ok [Zero α] {axes : List Int} {s t : Session α} {v : View}
    (h : onStore (StoreM.zeros axes) s = (.ok v, t)) :
    t.store.Owns v (axes.map Int.toNat) ∧ s.store.buffers.length ≤ v.buffer ∧
      s.store.Writes (fun _ => False) t.store ∧ t = { s with store := t.store } := by
  have ⟨st, hz, ht⟩ := onStore_eq_ok h
  subst ht
  have ⟨ho, hf, hw⟩ := StoreM.zeros_eq_ok hz
  exact ⟨ho, hf, hw, rfl⟩

-- A problem is asked for things, and nothing else happens.
def Asks (s t : Session α) : Prop :=
  ∃ queries : List (Query α), t = s.traced (queries.map .query)

theorem Asks.refl (s : Session α) : Asks s s :=
  ⟨[], Session.traced_nil.symm⟩

theorem Asks.trans {s t u : Session α} (h₁ : Asks s t) (h₂ : Asks t u) : Asks s u := by
  have ⟨qs₁, h₁⟩ := h₁
  have ⟨qs₂, h₂⟩ := h₂
  exact ⟨qs₁ ++ qs₂, by rw [h₂, h₁, Session.traced_traced, List.map_append]⟩

theorem Asks.reductions {s t : Session α} (h : Asks s t) : t.reductions = s.reductions := by
  have ⟨qs, h⟩ := h
  have hq : (qs.map Call.query).filterMap Call.reduction? = [] := by
    simp [List.filterMap_map, Function.comp_def]
  rw [h, Session.reductions_traced, hq, List.append_nil]

theorem Asks.ofExcept {β ε : Type} (reason : ε → Failure α) (r : Except ε β) :
    Keeps Asks (FormulationM.ofExcept reason r) := by
  intro s
  rw [ofExcept_run]
  exact .refl s

theorem Asks.ask {β : Type} (q : Query α) (answer : Except Fault β) :
    Keeps Asks (ask q answer) := by
  intro s
  rw [ask_run]
  exact ⟨[q], rfl⟩

theorem Asks.guard {β γ : Type} {c : Prop} [Decidable c] {m : Malformed α}
    {f : γ → FormulationM α β} {x : FormulationM α β} (h : Keeps Asks x) :
    Keeps Asks (if c then reject m >>= f else x) := by
  intro s
  rw [ite_run, reject_bind_run]
  split
  · exact .refl s
  · exact h s

theorem Asks.unless {β γ : Type} {c : Prop} [Decidable c] {m : Malformed α}
    {f : γ → FormulationM α β} {x : FormulationM α β} (h : Keeps Asks x) :
    Keeps Asks (if c then x else reject m >>= f) := by
  intro s
  rw [ite_run, reject_bind_run]
  split
  · exact h s
  · exact .refl s

theorem Asks.bind {β γ : Type} {x : FormulationM α β} {f : β → FormulationM α γ}
    (hx : Keeps Asks x) (hf : ∀ b, Keeps Asks (f b)) : Keeps Asks (x >>= f) :=
  .bind .trans hx hf

end FormulationM

namespace RawValue

variable [Scalar α]

theorem isBelow_integer (m n : Int) :
    (integer m : RawValue α).isBelow n = .ok (decide (m < n)) := rfl

theorem anyNegative_integers (m n : Int) : anyNegative [(integer m : RawValue α), integer n] =
    .ok (decide (m < 0) || decide (n < 0)) := by
  simp only [anyNegative, isBelow_integer]
  cases decide (m < 0) <;> cases decide (n < 0) <;> rfl

end RawValue

-- Declared blocks that go together with a core: they part its variables, nothing is counted below
-- zero, and nothing couples them.
structure BlockSizes.Admissible [Scalar α] (b : BlockSizes α) (core : Core α) : Prop where
  groups : RawValue.anyNegative [b.sparse, b.dense] = .ok false
  total : ∃ total, b.sparse.plus b.dense = .ok total ∧ total.isNumber core.size
  equalities : b.equalityCount.isBelow 0 = .ok false
  inequalities : b.inequalityCount.isBelow 0 = .ok false
  hessian : b.hessianCount.isBelow 0 = .ok false
  coupling : b.couplingCount.isNumber 0

namespace BlockSizes.Admissible

variable [Scalar α] {b : BlockSizes α} {core : Core α}

theorem sizes (h : b.Admissible core) {m n : Int} (hm : b.sparse = .integer m)
    (hn : b.dense = .integer n) : 0 ≤ m ∧ 0 ≤ n ∧ m + n = core.size := by
  have hneg := h.groups
  have ⟨total, hsum, htotal⟩ := h.total
  rw [hm, hn, RawValue.anyNegative_integers, Except.ok.injEq, Bool.or_eq_false_iff,
    decide_eq_false_iff_not, decide_eq_false_iff_not] at hneg
  rw [hm, hn] at hsum
  have hsum : total = .integer (m + n) := by cases hsum; rfl
  have hsize : m + n = core.size := by
    simpa [hsum, RawValue.isNumber, RawValue.isSame, RawValue.toQuantity, Quantity.isEqual]
      using htotal
  exact ⟨by omega, by omega, hsize⟩

end BlockSizes.Admissible

inductive Derivatives (α : Type) where
  -- Scratch rows over the user's variables, one array for each group of constraints.
  | dense (equalityRows inequalityRows : View)
  -- The declared blocks, and a scratch array for multipliers in the user's order.
  | mixed (blocks : BlockSizes α) (multipliers : View)

-- All that a formulation of either kind holds once it is finalized.
structure Finalized (α : Type) where
  core : Core α
  point : View
  gradient : View
  derivatives : Derivatives α

def Derivatives.kind : Derivatives α → FormulationKind
  | .dense _ _ => .dense
  | .mixed _ _ => .mixed

def Derivatives.blocks? : Derivatives α → Option (BlockSizes α)
  | .dense _ _ => none
  | .mixed blocks _ => some blocks

namespace Formulation

variable {f : Formulation α} {d : Finalized α}

def derivatives (f : Formulation α) : Option (Derivatives α) :=
  match f.kind with
  | .dense => do return .dense (← f.equalityScratch) (← f.inequalityScratch)
  | .mixed => do return .mixed (← f.blocks) (← f.multiplierScratch)

-- What is spread over a formulation, put together where nothing is missing.
def finalized (f : Formulation α) : Option (Finalized α) := do
  return ⟨← f.core, ← f.pointScratch, ← f.gradientScratch, ← f.derivatives⟩

-- The formulation after the parts were set.
def withDerivatives (f : Formulation α) : Derivatives α → Formulation α
  | .dense equalityRows inequalityRows => { f with
    equalityScratch := some equalityRows
    inequalityScratch := some inequalityRows }
  | .mixed _ multipliers => { f with multiplierScratch := some multipliers }

def holding (f : Formulation α) (d : Finalized α) : Formulation α :=
  let f := { f with
    core := some d.core
    blocks := d.derivatives.blocks?
    pointScratch := some d.point
    gradientScratch := some d.gradient }
  f.withDerivatives d.derivatives

theorem finalized_eq_some : f.finalized = some d ↔ f.core = some d.core ∧
    f.pointScratch = some d.point ∧ f.gradientScratch = some d.gradient ∧
    f.derivatives = some d.derivatives := by
  obtain ⟨core, point, gradient, derivatives⟩ := d
  simp only [finalized, bind, pure, Option.bind_eq_some_iff, Option.some.injEq, Finalized.mk.injEq]
  constructor
  case mp =>
    rintro ⟨_, hc, _, hp, _, hg, _, hd, rfl, rfl, rfl, rfl⟩
    exact ⟨hc, hp, hg, hd⟩
  case mpr =>
    intro ⟨hc, hp, hg, hd⟩
    exact ⟨_, hc, _, hp, _, hg, _, hd, rfl, rfl, rfl, rfl⟩

theorem derivatives_eq_dense {equalityRows inequalityRows : View} :
    f.derivatives = some (.dense equalityRows inequalityRows) ↔ f.kind = .dense ∧
      f.equalityScratch = some equalityRows ∧ f.inequalityScratch = some inequalityRows := by
  cases hk : f.kind <;> simp [derivatives, hk, Option.bind_eq_some_iff]

theorem derivatives_eq_mixed {blocks : BlockSizes α} {multipliers : View} :
    f.derivatives = some (.mixed blocks multipliers) ↔ f.kind = .mixed ∧
      f.blocks = some blocks ∧ f.multiplierScratch = some multipliers := by
  cases hk : f.kind <;> simp [derivatives, hk, Option.bind_eq_some_iff]

-- A formulation holds the derivatives that its kind is for.
theorem kind_of_finalized (h : f.finalized = some d) : d.derivatives.kind = f.kind := by
  have ⟨_, _, _, hd⟩ := finalized_eq_some.mp h
  cases hd' : d.derivatives
  case dense => exact (derivatives_eq_dense.mp (hd' ▸ hd)).left.symm
  case mixed => exact (derivatives_eq_mixed.mp (hd' ▸ hd)).left.symm

@[simp]
theorem kind_holding (f : Formulation α) (d : Finalized α) : (f.holding d).kind = f.kind := by
  rw [holding]
  cases d.derivatives <;> rfl

@[simp]
theorem options_holding (f : Formulation α) (d : Finalized α) :
    (f.holding d).options = f.options := by
  rw [holding]
  cases d.derivatives <;> rfl

theorem core_holding (f : Formulation α) (d : Finalized α) : (f.holding d).core = some d.core := by
  rw [holding]
  cases d.derivatives <;> rfl

theorem finalized_holding (h : d.derivatives.kind = f.kind) :
    (f.holding d).finalized = some d := by
  rw [finalized_eq_some, holding]
  cases hd : d.derivatives
  case dense => exact ⟨rfl, rfl, rfl, derivatives_eq_dense.mpr ⟨(hd ▸ h).symm, rfl, rfl⟩⟩
  case mixed => exact ⟨rfl, rfl, rfl, derivatives_eq_mixed.mpr ⟨(hd ▸ h).symm, rfl, rfl⟩⟩

end Formulation

namespace Derivatives

def scratch : Derivatives α → List View
  | .dense equalityRows inequalityRows => [equalityRows, inequalityRows]
  | .mixed _ multipliers => [multipliers]

-- Scratch arrays of the sizes that a core asks for.
def Fit (core : Core α) (s : Store α) : Derivatives α → Prop
  | .dense equalityRows inequalityRows =>
    s.Owns equalityRows [core.equalityCount, core.userLayout.localSize.toNat] ∧
      s.Owns inequalityRows [core.inequalityCount, core.userLayout.localSize.toNat]
  | .mixed _ multipliers => s.Owns multipliers [core.constraintCount]

theorem Fit.owns {d : Derivatives α} {core : Core α} {s t : Store α} (h : d.Fit core s)
    (ht : ∀ w ∈ d.scratch, ∀ shape, s.Owns w shape → t.Owns w shape) : d.Fit core t := by
  cases d
  case dense =>
    exact ⟨ht _ (by simp [scratch]) _ h.left, ht _ (by simp [scratch]) _ h.right⟩
  case mixed => exact ht _ (by simp [scratch]) _ h

end Derivatives

namespace Finalized

-- The scratch arrays of a formulation, beside those of its transformations.
def arrays (d : Finalized α) : List View := d.point :: d.gradient :: d.derivatives.scratch

def scratch (d : Finalized α) : List View := d.arrays ++ d.core.chain.scratch

variable [Scalar α] {d : Finalized α} {o : Options α} {v : Core.Survey α}

-- What a formulation knows describes the surveyed problem, and its scratch arrays are its own.
structure Intact (d : Finalized α) (o : Options α) (v : Core.Survey α) (s : Store α) : Prop where
  describes : d.core.Describes o v s
  point : s.Owns d.point [v.layout.localSize.toNat]
  gradient : s.Owns d.gradient [v.layout.localSize.toNat]
  derivatives : d.derivatives.Fit d.core s
  distinct : (d.arrays.map View.buffer).Nodup
  separate : ∀ w ∈ d.arrays, ∀ w' ∈ d.core.chain.scratch, w.buffer ≠ w'.buffer

end Finalized

namespace Formulation

variable [Scalar α] {p : Problem α} {s t : Session α} {d : Finalized α} {o : Options α}
  {v : Core.Survey α} {core : Core α}

-- A new array is kept as a part of the formulation.
theorem onStore_zeros_set_eq_ok {axes : List Int} {change : View → Formulation α → Formulation α}
    (h : (do
      let v ← onStore (StoreM.zeros axes)
      setFormulation (change v) : FormulationM α Unit) s = (.ok ⟨⟩, t)) :
    ∃ v, t.store.Owns v (axes.map Int.toNat) ∧ s.store.buffers.length ≤ v.buffer ∧
      s.store.Writes (fun _ => False) t.store ∧
      t = { s with store := t.store, formulation := change v s.formulation } := by
  have ⟨v, u, hz, h⟩ := bind_eq_ok.mp h
  have ⟨ho, hf, hw, hu⟩ := onStore_zeros_eq_ok hz
  have ⟨_, ht⟩ := ok_eq_ok.mp h
  subst ht
  refine ⟨v, ho, hf, hw, ?_⟩
  rw [hu]

theorem allocateDerivatives_eq_ok {kind : FormulationKind}
    (hk : kind = if s.formulation.blocks.isSome then .mixed else .dense)
    (h : allocateDerivatives core kind s = (.ok ⟨⟩, t)) :
    ∃ derivatives : Derivatives α, derivatives.blocks? = s.formulation.blocks ∧
      derivatives.Fit core t.store ∧ s.store.MadeSince derivatives.scratch ∧
      s.store.Writes (fun _ => False) t.store ∧
      t = { s with
        store := t.store
        formulation := s.formulation.withDerivatives derivatives } := by
  cases hb : s.formulation.blocks
  case none =>
    rw [hb] at hk
    subst hk
    have h : allocateDerivatives core .dense s = (.ok ⟨⟩, t) := h
    rw [allocateDerivatives, ← bind_assoc, bind_eq_ok] at h
    have ⟨_, u, h₁, h₂⟩ := h
    have ⟨rows₁, ho₁, hf₁, hw₁, hu⟩ := onStore_zeros_set_eq_ok h₁
    have ⟨rows₂, ho₂, hf₂, hw₂, ht⟩ := onStore_zeros_set_eq_ok h₂
    have hmade : s.store.MadeSince [rows₁, rows₂] :=
      (Store.MadeSince.singleton hf₂).cons hf₁ ho₁.valid.lt_length
    refine ⟨.dense rows₁ rows₂, rfl, ⟨ho₁.writes hw₂, ho₂⟩, hmade, hw₁.and_then hw₂, ?_⟩
    rw [ht, hu]
    rfl
  case some blocks =>
    rw [hb] at hk
    subst hk
    have ⟨multipliers, ho, hf, hw, ht⟩ := onStore_zeros_set_eq_ok h
    exact ⟨.mixed blocks multipliers, rfl, ho, .singleton hf, hw, ht⟩

theorem allocate_eq_ok (hc : core.Describes o v s.store) (hcore : s.formulation.core = some core)
    (hk : s.formulation.kind = if s.formulation.blocks.isSome then .mixed else .dense)
    (h : allocate core s = (.ok ⟨⟩, t)) :
    ∃ d : Finalized α, d.core = core ∧ d.derivatives.blocks? = s.formulation.blocks ∧
      d.Intact o v t.store ∧ (∀ w ∈ d.arrays, s.store.buffers.length ≤ w.buffer) ∧
      s.store.Writes (fun _ => False) t.store ∧
      t = { s with store := t.store, formulation := s.formulation.holding d } := by
  rw [allocate, ← bind_assoc, bind_eq_ok] at h
  obtain ⟨_, u₁, h₁, h⟩ := h
  obtain ⟨point, ho₁, hf₁, hw₁, hu₁⟩ := onStore_zeros_set_eq_ok h₁
  rw [← bind_assoc, bind_eq_ok] at h
  obtain ⟨_, u₂, h₂, h⟩ := h
  obtain ⟨gradient, ho₂, hf₂, hw₂, hu₂⟩ := onStore_zeros_set_eq_ok h₂
  rw [bind_of_ok (rfl : getFormulation u₂ = (.ok u₂.formulation, u₂))] at h
  have hblocks : u₂.formulation.blocks = s.formulation.blocks := by rw [hu₂, hu₁]
  have hk₂ : u₂.formulation.kind = if u₂.formulation.blocks.isSome then .mixed else .dense := by
    rw [hblocks, ← hk, hu₂, hu₁]
  obtain ⟨derivatives, hb₃, ho₃, hm₃, hw₃, hu₃⟩ := allocateDerivatives_eq_ok hk₂ h
  rw [hblocks] at hb₃
  have hw₂₃ := hw₂.and_then hw₃
  have hw := hw₁.and_then hw₂₃
  have hmade : s.store.MadeSince (point :: gradient :: derivatives.scratch) :=
    (hm₃.cons hf₂ ho₂.valid.lt_length).cons hf₁ ho₁.valid.lt_length
  refine ⟨⟨core, point, gradient, derivatives⟩, rfl, hb₃, ?_, hmade.fresh, hw, ?_⟩
  case refine_2 =>
    rw [hu₃, hu₂, hu₁, holding, hb₃, ← hcore]
  constructor
  case describes =>
    exact hc.same hw.sameConstants_of_none (hc.eliminates.writes hw fun _ _ => id)
  case point => exact hc.userLayout ▸ ho₁.writes hw₂₃
  case gradient => exact hc.userLayout ▸ ho₂.writes hw₃
  case derivatives => exact ho₃
  case distinct => exact hmade.distinct
  case separate =>
    intro w hw w' hw'
    have hlt := (hc.eliminates.scratch_valid hw').left.lt_length
    have hle := hmade.fresh w hw
    omega

theorem askBlockSizes_asks (p : Problem α) (core : Core α) :
    Keeps Asks (askBlockSizes p core) := by
  rw [askBlockSizes]
  refine Asks.guard (Asks.bind (Asks.ask _ _) fun b => ?_)
  refine Asks.bind (Asks.ofExcept _ _) fun _ => Asks.guard ?_
  refine Asks.bind (Asks.ofExcept _ _) fun _ => Asks.unless ?_
  refine Asks.bind (Asks.ofExcept _ _) fun _ => Asks.guard ?_
  refine Asks.bind (Asks.ofExcept _ _) fun _ => Asks.guard ?_
  refine Asks.bind (Asks.ofExcept _ _) fun _ => Asks.guard ?_
  exact Asks.unless (.pure .refl b)

theorem askBlockSizes_eq_ok {b : BlockSizes α} (h : askBlockSizes p core s = (.ok b, t)) :
    b.Admissible core := by
  obtain ⟨_, h⟩ := reject_unless.mp h
  obtain ⟨b', _, _, h⟩ := bind_eq_ok.mp h
  obtain ⟨negative, _, hgroups, h⟩ := bind_eq_ok.mp h
  obtain ⟨hnegative, h⟩ := reject_unless.mp h
  obtain ⟨total, _, htotal, h⟩ := bind_eq_ok.mp h
  obtain ⟨hsize, h⟩ := reject_else.mp h
  obtain ⟨fewer, _, hequalities, h⟩ := bind_eq_ok.mp h
  obtain ⟨hfewer, h⟩ := reject_unless.mp h
  obtain ⟨fewer', _, hinequalities, h⟩ := bind_eq_ok.mp h
  obtain ⟨hfewer', h⟩ := reject_unless.mp h
  obtain ⟨fewer'', _, hhessian, h⟩ := bind_eq_ok.mp h
  obtain ⟨hfewer'', h⟩ := reject_unless.mp h
  obtain ⟨hcoupling, h⟩ := reject_else.mp h
  obtain ⟨rfl, _⟩ := ok_eq_ok.mp h
  rw [Bool.not_eq_true] at hnegative hfewer hfewer' hfewer''
  subst hnegative hfewer hfewer' hfewer''
  exact {
    groups := (ofExcept_eq_ok.mp hgroups).left
    total := ⟨total, (ofExcept_eq_ok.mp htotal).left, hsize⟩
    equalities := (ofExcept_eq_ok.mp hequalities).left
    inequalities := (ofExcept_eq_ok.mp hinequalities).left
    hessian := (ofExcept_eq_ok.mp hhessian).left
    coupling := hcoupling }

theorem derive_eq_ok {blocks : Option (BlockSizes α)}
    (h : derive p s = (.ok (core, blocks), t)) :
    (s.formulation.kind = if blocks.isSome then .mixed else .dense) ∧
    ∃ u, Core.build p s.formulation.options s.formulation.communicator
        (canRemove s.formulation.kind) s = (.ok core, u) ∧ Asks u t := by
  rw [derive, bind_eq_ok] at h
  have ⟨f, u, hf, h⟩ := h
  have ⟨hf, hu⟩ := ok_eq_ok.mp hf
  subst hf hu
  have ⟨c, u, hb, h⟩ := bind_eq_ok.mp h
  cases hk : s.formulation.kind
  case dense =>
    simp only [hk] at h hb
    have ⟨hc, ht⟩ := ok_eq_ok.mp h
    cases hc
    exact ⟨rfl, u, hb, ht ▸ .refl u⟩
  case mixed =>
    simp only [hk] at h hb
    have ⟨b, w, ha, h⟩ := bind_eq_ok.mp h
    have ⟨hc, ht⟩ := ok_eq_ok.mp h
    cases hc
    exact ⟨rfl, u, hb, ht ▸ (askBlockSizes_asks p core).of_run ha⟩

theorem derive_admissible {b : BlockSizes α} (h : derive p s = (.ok (core, some b), t)) :
    b.Admissible core := by
  obtain ⟨f, _, _, h⟩ := bind_eq_ok.mp h
  obtain ⟨c, _, _, h⟩ := bind_eq_ok.mp h
  cases hk : f.kind
  case dense =>
    simp only [hk] at h
    cases (ok_eq_ok.mp h).left
  case mixed =>
    simp only [hk] at h
    obtain ⟨b', _, hb, h⟩ := bind_eq_ok.mp h
    cases (ok_eq_ok.mp h).left
    exact askBlockSizes_eq_ok hb

-- The three ways out of a finalization: rejected data, another fault, and new parts.
theorem finalize_cases (p : Problem α) (s : Session α) :
    (∃ m u, derive p s = (.error (.malformed m), u) ∧ finalize p s = (.ok false, { u with
      formulation := { u.formulation with core := none }
      events := u.events ++ [.rejected m] })) ∨
    (∃ e u, (∀ m, e ≠ .malformed m) ∧ derive p s = (.error e, u) ∧
      finalize p s = (.error e, u)) ∨
    ∃ core blocks u, derive p s = (.ok (core, blocks), u) ∧ finalize p s = (do
      allocate core
      emit (.finalized (← getFormulation).text)
      return true : FormulationM α Bool) { u with
        formulation := { u.formulation with core := some core, blocks := blocks } } := by
  cases hd : derive p s
  case mk r u =>
    rw [finalize, bind_of_ok (attempt_run hd)]
    cases r
    case error e =>
      cases e
      case malformed m => exact .inl ⟨m, u, rfl, rfl⟩
      all_goals
        refine .inr (.inl ⟨_, u, ?_, rfl, rfl⟩)
        intro m hm
        cases hm
    case ok derived => exact .inr (.inr ⟨derived.1, derived.2, u, rfl, rfl⟩)

theorem finalize_eq_false (h : finalize p s = (.ok false, t)) :
    ∃ m u, derive p s = (.error (.malformed m), u) ∧
      t = { u with
        formulation := { u.formulation with core := none }
        events := u.events ++ [.rejected m] } := by
  obtain ⟨m, u, hd, hf⟩ | ⟨e, u, _, _, hf⟩ | ⟨core, blocks, u, _, hf⟩ := finalize_cases p s
  case inl => exact ⟨m, u, hd, (ok_eq_ok.mp (hf.symm.trans h)).right.symm⟩
  case inr.inl => exact (error_ne_ok (hf.symm.trans h)).elim
  case inr.inr =>
    obtain ⟨_, _, _, h⟩ := bind_eq_ok.mp (hf.symm.trans h)
    cases (ok_eq_ok.mp h).left

-- What a finalization leaves if it succeeds.
structure Finalizes (p : Problem α) (v : Core.Survey α) (d : Finalized α) (s t : Session α) :
    Prop where
  formulation : t.formulation = s.formulation.holding d
  kind : d.derivatives.kind = s.formulation.kind
  intact : d.Intact s.formulation.options v t.store
  built : ∃ u, Core.Built p s.formulation.options s.formulation.communicator
    (canRemove s.formulation.kind) v d.core s u ∧ t.reductions = u.reductions

theorem Finalizes.finalized {v : Core.Survey α} (h : Finalizes p v d s t) :
    t.formulation.finalized = some d := by
  rw [h.formulation]
  exact finalized_holding h.kind

-- The core and the blocks are derived before anything is kept, and the arrays come after that.
theorem parts_of_finalize (h : finalize p s = (.ok true, t)) :
    ∃ v d u₀ u₁ u, Core.survey p s.formulation.options s.formulation.communicator s = (.ok v, u₀) ∧
      Core.build p s.formulation.options s.formulation.communicator
        (canRemove s.formulation.kind) s = (.ok d.core, u₁) ∧
      derive p s = (.ok (d.core, d.derivatives.blocks?), u) ∧
      (∀ w ∈ d.arrays, u.store.buffers.length ≤ w.buffer) ∧ Finalizes p v d s t ∧
      Core.MadeFor d.core.chain d.core.policy d.core.fixedCount := by
  obtain ⟨m, u, _, hf⟩ | ⟨e, u, _, _, hf⟩ | ⟨core, blocks, u, hd, hf⟩ := finalize_cases p s
  case inl => cases (ok_eq_ok.mp (hf.symm.trans h)).left
  case inr.inl => exact (error_ne_ok (hf.symm.trans h)).elim
  case inr.inr =>
    rw [hf, bind_eq_ok] at h
    obtain ⟨_, w, ha, h⟩ := h
    obtain ⟨_, ht⟩ := ok_eq_ok.mp h
    obtain ⟨hk, u', hb, qs, hu⟩ := derive_eq_ok hd
    obtain ⟨v, u₀, hsurvey, hbuilt, hchain⟩ := Core.survey_of_build hb
    have hfu : u.formulation = s.formulation := hu ▸ hbuilt.formulation
    have hdesc : core.Describes s.formulation.options v u.store := hu ▸ hbuilt.describes
    obtain ⟨d, hc, hblocks, hi, hnew, _, hw⟩ := allocate_eq_ok (s := { u with
      formulation := { u.formulation with core := some core, blocks := blocks } })
      hdesc rfl (hfu ▸ hk) ha
    subst ht hc
    change d.derivatives.blocks? = blocks at hblocks
    subst hblocks
    refine ⟨v, d, u₀, u', u, hsurvey, hb, hd, hnew, ⟨?_, ?_, hi, u', hbuilt, ?_⟩, hchain⟩
    case refine_1 =>
      rw [hw, ← hfu]
      rfl
    case refine_2 =>
      rw [hk]
      cases d.derivatives <;> rfl
    case refine_3 =>
      have hr : w.reductions = u.reductions := hw ▸ rfl
      exact hr.trans (Asks.reductions ⟨qs, hu⟩)

theorem survey_of_finalize (h : finalize p s = (.ok true, t)) :
    ∃ v d u, Core.survey p s.formulation.options s.formulation.communicator s = (.ok v, u) ∧
      Finalizes p v d s t ∧ Core.MadeFor d.core.chain d.core.policy d.core.fixedCount :=
  have ⟨v, d, u, _, _, hs, _, _, _, hF, hm⟩ := parts_of_finalize h
  ⟨v, d, u, hs, hF, hm⟩

theorem finalize_eq_true (h : finalize p s = (.ok true, t)) : ∃ v d, Finalizes p v d s t :=
  have ⟨v, d, _, _, hF, _⟩ := survey_of_finalize h
  ⟨v, d, hF⟩

theorem finalizes_of_finalized {d : Finalized α} (hf : finalize p s = (.ok true, t))
    (hd : t.formulation.finalized = some d) : ∃ v, Finalizes p v d s t := by
  have ⟨v, d', hF⟩ := finalize_eq_true hf
  have hdd : d' = d := Option.some.inj (hF.finalized.symm.trans hd)
  exact ⟨v, hdd ▸ hF⟩

def succeeds (p : Problem α) (s : Session α) : Bool :=
  match (finalize p s).1 with
  | .ok b => b
  | .error _ => false

theorem finalize_of_succeeds (h : succeeds p s) : finalize p s = (.ok true, (finalize p s).2) := by
  refine Prod.ext ?_ rfl
  rw [succeeds] at h
  split at h
  case h_1 b hb => rw [hb, h]
  case h_2 => cases h

-- Nothing was finalized anew since `s`, and of what was in the store then, arrays that cannot be
-- written are as they were. Scratch arrays hold anything, except for the fixed values in the user's
-- point.
structure Undisturbed (d : Finalized α) (s t : Session α) : Prop where
  formulation : ∃ stats, t.formulation = { s.formulation with stats := stats }
  constants : s.store.SameConstants t.store
  scratch : ∀ w ∈ d.scratch, ∀ shape, s.store.Owns w shape → t.store.Owns w shape
  held : ∀ r, .remover r ∈ d.core.chain.items → ∀ i ∈ r.fixedIndices,
    (t.store.entries r.userPoint)[i]? = (s.store.entries r.userPoint)[i]?

namespace Undisturbed

omit [Scalar α] in
theorem refl (d : Finalized α) (s : Session α) : Undisturbed d s s where
  formulation := ⟨_, rfl⟩
  constants := fun h _ => h
  scratch := fun _ _ _ h => h
  held := fun _ _ _ _ => rfl

omit [Scalar α] in
theorem trans {s t u : Session α} (h₁ : Undisturbed d s t) (h₂ : Undisturbed d t u) :
    Undisturbed d s u where
  formulation := by
    have ⟨_, h₁⟩ := h₁.formulation
    have ⟨_, h₂⟩ := h₂.formulation
    exact ⟨_, by rw [h₂, h₁]⟩
  constants := Store.SameConstants.trans h₁.constants h₂.constants
  scratch w hw shape h := h₂.scratch w hw shape (h₁.scratch w hw shape h)
  held r hr i hi := (h₂.held r hr i hi).trans (h₁.held r hr i hi)

omit [Scalar α] in
theorem eliminates {mask : List Bool} {values : List α} (hu : Undisturbed d s t)
    (h : d.core.chain.Eliminates mask values s.store) :
    d.core.chain.Eliminates mask values t.store := by
  cases h
  case kept hi hm hv => exact .kept hi hm hv
  case removed r hi hr =>
    have mem {w : View} (hw : w ∈ r.scratch) : w ∈ d.scratch := by
      simp only [Finalized.scratch, Chain.scratch, hi, List.mem_append]
      exact .inr (by simpa [Transformation.scratch] using hw)
    refine .removed r hi { hr with
      userPoint := hu.scratch _ (mem (by simp [Remover.scratch])) _ hr.userPoint
      internalPoint := hu.scratch _ (mem (by simp [Remover.scratch])) _ hr.internalPoint
      userMultipliers := hu.scratch _ (mem (by simp [Remover.scratch])) _ hr.userMultipliers
      held := fun i hi' => ?_ }
    rw [hu.held r (by simp [hi]) i (hr.fixedIndices ▸ hi'), hr.held i hi']

theorem intact (hu : Undisturbed d s t) (h : d.Intact o v s.store) : d.Intact o v t.store := by
  have mem {w : View} (hw : w ∈ d.arrays) : w ∈ d.scratch := List.mem_append_left _ hw
  exact { h with
    describes := h.describes.same hu.constants (hu.eliminates h.describes.eliminates)
    point := hu.scratch _ (mem (by simp [Finalized.arrays])) _ h.point
    gradient := hu.scratch _ (mem (by simp [Finalized.arrays])) _ h.gradient
    derivatives := h.derivatives.owns fun w hw shape =>
      hu.scratch w (mem (by simp [Finalized.arrays, hw])) shape }

end Undisturbed

end Formulation
end NonlinearProgram
