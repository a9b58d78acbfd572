import NonlinearProgram.Formulation.Report
import NonlinearProgram.Formulation.Derivative
import NonlinearProgram.Proofs.Callback
import NonlinearProgram.Proofs.Formulation.Finalization
import NonlinearProgram.Proofs.Problem

namespace NonlinearProgram

open Program FormulationM

variable {α : Type}

namespace Chain

variable {c : Chain α} {mask : List Bool} {values : List α} {s : Store α}

theorem Eliminates.held (h : c.Eliminates mask values s) {r : Remover α}
    (hr : .remover r ∈ c.items) {i : Nat} (hi : i ∈ r.fixedIndices) :
    (s.entries r.userPoint)[i]? = values[i]? := by
  cases h
  case kept hc _ _ =>
    cases hc
    case inl hc => simp [hc] at hr
    case inr hc =>
      have ⟨_, hc⟩ := hc
      simp [hc] at hr
  case removed r' hc hr' =>
    have hrr : r = r' := by simpa [hc] using hr
    subst hrr
    exact hr'.held i (hr'.fixedIndices ▸ hi)

theorem Identical.objective [Scalar α] (h : c.Identical) (f : α) :
    c.objectiveToInternal f = f ∧ c.objectiveToUser f = .ok f := by
  cases h
  case inl h => simp [objectiveToInternal, objectiveToUser, h, pure, Except.pure]
  case inr h =>
    have ⟨_, h⟩ := h
    simp [objectiveToInternal, objectiveToUser, h, Transformation.objectiveToInternal,
      Transformation.objectiveToUser, bind, Except.bind, pure, Except.pure]

-- What happens to variables leaves the objective alone.
theorem Eliminates.objective [Scalar α] (h : c.Eliminates mask values s) (f : α) :
    c.objectiveToInternal f = f ∧ c.objectiveToUser f = .ok f := by
  cases h
  case kept hc _ _ => exact hc.objective f
  case removed _ hc _ =>
    simp [objectiveToInternal, objectiveToUser, hc, Transformation.objectiveToInternal,
      Transformation.objectiveToUser, bind, Except.bind, pure, Except.pure]

-- A callback that is not handed the arrays of the transformations leaves them alone.
theorem Eliminates.after_run {ρ : Type} (h : c.Eliminates mask values s) (f : Callback α ρ)
    {arrays : Slot → Option View} (workspace : Workspace α)
    (hfar : ∀ slot k, arrays slot = some k → ∀ u ∈ c.scratch, k.buffer ≠ u.buffer) :
    c.Eliminates mask values (f.run arrays ⟨s, workspace⟩).2.store := by
  refine h.writes (f.run_writes arrays ⟨s, workspace⟩) fun u hu => ?_
  rintro ⟨slot, k, hk, he, _⟩
  exact hfar slot k hk u hu he

end Chain

-- The array of an argument that has one already.
def Argument.view? : Argument α → Option View
  | .array v => some v
  | .vector v => some v.view
  | _ => none

namespace Finalized

-- A vector that a solver hands over, outside of the scratch arrays.
structure Lent (d : Finalized α) (s : Store α) (x : Argument α) (w : View) (xs : List α) :
    Prop where
  view : x.view? = some w
  shape : w.shape = [xs.length]
  valid : s.Valid w
  entries : s.entries w = xs
  apart : ∀ u ∈ d.scratch, w.buffer ≠ u.buffer

-- The buffers of the scratch arrays, and of those among them that the user's points are put in.
def IsScratch (d : Finalized α) (k : Nat) : Prop := ∃ u ∈ d.scratch, u.buffer = k

def HoldsPoint (d : Finalized α) (k : Nat) : Prop :=
  ∃ u ∈ d.point :: d.core.chain.scratch, u.buffer = k

variable {d : Finalized α} {s t : Store α} {x : Argument α} {w : View} {xs : List α}

theorem Lent.writes {touched : Nat → Prop} (h : d.Lent s x w xs) (hw : s.Writes touched t)
    (hk : ¬touched w.buffer) : d.Lent t x w xs :=
  ⟨h.view, h.shape, hw.valid h.valid, (hw.entries h.valid hk).trans h.entries, h.apart⟩

theorem Lent.writes_scratch (h : d.Lent s x w xs) (hw : s.Writes d.IsScratch t) :
    d.Lent t x w xs :=
  h.writes hw fun ⟨u, hu, he⟩ => h.apart u hu he.symm

theorem chain_holdsPoint {d : Finalized α} {u : View} (hu : u ∈ d.core.chain.scratch) :
    d.HoldsPoint u.buffer :=
  ⟨u, List.mem_cons_of_mem _ hu, rfl⟩

theorem HoldsPoint.isScratch {d : Finalized α} {k : Nat} (h : d.HoldsPoint k) : d.IsScratch k := by
  have ⟨u, hu, hk⟩ := h
  cases hu
  case head => exact ⟨d.point, by simp [scratch, arrays], hk⟩
  case tail hu => exact ⟨u, List.mem_append_right _ hu, hk⟩

theorem chain_scratch {d : Finalized α} {u : View} (hu : u ∈ d.core.chain.scratch) :
    d.IsScratch u.buffer :=
  (chain_holdsPoint hu).isScratch

end Finalized

namespace Derivatives

theorem Fit.scratch_valid {derivatives : Derivatives α} {core : Core α} {s : Store α}
    (h : derivatives.Fit core s) {w : View} (hw : w ∈ derivatives.scratch) :
    s.Valid w ∧ s.writable w := by
  cases derivatives
  case dense equalityRows inequalityRows =>
    have hw : w = equalityRows ∨ w = inequalityRows := by simpa [scratch] using hw
    cases hw
    case inl hw => exact hw ▸ ⟨h.left.valid, h.left.writable⟩
    case inr hw => exact hw ▸ ⟨h.right.valid, h.right.writable⟩
  case mixed blocks multipliers =>
    have hw : w = multipliers := by simpa [scratch] using hw
    exact hw ▸ ⟨Store.Owns.valid h, Store.Owns.writable h⟩

end Derivatives

-- The session after a block of work that is counted and timed; only the statistics change.
def Session.counted [Zero α] [Add α] [Sub α] (op : Operation) (s t : Session α) : Session α :=
  { t with formulation := { t.formulation with
    stats := t.formulation.stats.record op.text (t.clock - s.clock) } }

theorem Session.formulation_counted [Zero α] [Add α] [Sub α] {s t : Session α}
    (h : t.formulation = s.formulation) (op : Operation) :
    ∃ stats, (s.counted op t).formulation = { s.formulation with stats := stats } :=
  ⟨t.formulation.stats.record op.text (t.clock - s.clock), by rw [counted, h]⟩

namespace FormulationM

variable {β : Type} {s t : Session α} {x : Argument α} {w : View}

theorem getFormulation_run (s : Session α) : getFormulation s = (.ok s.formulation, s) := rfl

theorem getCore_run {d : Finalized α} (h : s.formulation.finalized = some d) :
    getCore s = (.ok d.core, s) := by
  rw [getCore, bind_of_ok (getFormulation_run s)]
  simp only [(Formulation.finalized_eq_some.mp h).left]
  rfl

theorem getPart_run {part : Formulation α → Option β} {b : β} (h : part s.formulation = some b) :
    getPart part s = (.ok b, s) := by
  rw [getPart, bind_of_ok (getFormulation_run s)]
  simp only [h]
  rfl

theorem onStore_read_run (w : View) (s : Session α) :
    onStore (StoreM.read w) s = (.ok (s.store.read w), s) :=
  onStore_of_ok (StoreM.read_run w s.store)

variable [Scalar α]

theorem localPart_run (h : x.view? = some w) (s : Session α) : localPart x s = (.ok w, s) := by
  cases x <;> cases h <;> rfl

theorem timed_run {op : Operation} {act : FormulationM α β} {r : Except (Failure α) β}
    (h : act s = (r, t)) : timed op act s = (r, s.counted op t) := by
  simp only [timed, h]
  rfl

end FormulationM

namespace Formulation

variable {s t : Session α}

theorem pointAt_run {d : Finalized α} (h : s.formulation.finalized = some d) (w : View)
    (isNew : RawValue α) :
    pointAt w isNew s = (.ok ⟨d.core.userSize, s.store.read w, isNew⟩, s) := by
  rw [pointAt, bind_of_ok (getCore_run h), bind_of_ok (onStore_of_ok (StoreM.read_run w _))]
  rfl

theorem invoke_run {p : Problem α} {e : Evaluation α} {arrays : Slot → Option View}
    {w w' : Workspace α} {r : Except Fault (RawValue α)} {st : Store α}
    (h : (p.evaluate e).run arrays ⟨s.store, w⟩ = (r, ⟨st, w'⟩)) :
    invoke p e arrays w s = (.ok (r, w'), { s.traced [.evaluation e] with store := st }) := by
  rw [invoke, bind_of_ok (record_run _ s), bind_of_ok (get_run _)]
  simp only [Session.store_traced, h]
  rfl

theorem judge_run {answer : RawValue α} (h : answer.isRefusal = false) (op : Operation)
    (s : Session α) : judge op (.ok answer) s = (.ok (some answer), s) := by
  simp [judge, h]

end Formulation

namespace Core.Survey

variable [Scalar α]

-- The user's point at an internal one, and the other way round.
def pointToUser (v : Survey α) (o : Options α) (core : Core α) (ys : List α) : List α :=
  expand (v.eliminated o core) (midpoints v.variableData) ys

def pointToInternal (v : Survey α) (o : Options α) (core : Core α) (xs : List α) : List α :=
  restrict (v.eliminated o core) xs

-- Multipliers of bounds for the user; those of eliminated variables are zero.
def multipliersToUser (v : Survey α) (o : Options α) (core : Core α) (zs : List α) : List α :=
  expand (v.eliminated o core) (List.replicate (v.eliminated o core).length 0) zs

-- The number of internal variables stored here.
def internalSize (v : Survey α) (o : Options α) (core : Core α) : Nat :=
  (clearPositions (v.eliminated o core)).length

end Core.Survey

namespace Formulation

variable [Scalar α] {p : Problem α} {s t : Session α} {d : Finalized α} {o : Options α}
  {v : Core.Survey α} {x : Argument α} {a : View} {ys : List α}

-- A session with a finalized formulation of the surveyed problem.
structure Ready (p : Problem α) (d : Finalized α) (o : Options α) (v : Core.Survey α)
    (s : Session α) : Prop where
  surveyed : Core.Surveyed p o v
  finalized : s.formulation.finalized = some d
  intact : d.Intact o v s.store

theorem Finalizes.ready (h : Finalizes p v d s t) : Ready p d s.formulation.options v t where
  surveyed := by
    have ⟨_, hb, _⟩ := h.built
    exact hb.surveyed
  finalized := h.finalized
  intact := h.intact

namespace Ready

theorem undisturbed (h : Ready p d o v s) (hu : Undisturbed d s t) : Ready p d o v t where
  surveyed := h.surveyed
  finalized := by
    have ⟨_, hf⟩ := hu.formulation
    rw [hf]
    exact h.finalized
  intact := hu.intact h.intact

theorem eliminates (h : Ready p d o v s) :
    d.core.chain.Eliminates (v.eliminated o d.core) (Core.midpoints v.variableData) s.store :=
  h.intact.describes.eliminates

theorem length_eliminated (h : Ready p d o v s) :
    (v.eliminated o d.core).length = v.layout.localSize.toNat :=
  (Core.length_eliminatedMask _ _ _).trans (Core.fixedVariables_fits h.surveyed.variables_fit)

theorem variables_fit (h : Ready p d o v s) :
    v.variableData.Fits (v.eliminated o d.core).length :=
  h.length_eliminated ▸ h.surveyed.variables_fit

theorem localSize (h : Ready p d o v s) : d.core.localSize = v.internalSize o d.core :=
  h.intact.describes.localSize

theorem length_eq (h : Ready p d o v s) (hl : (ys.length : Int) = d.core.localSize) :
    ys.length = v.internalSize o d.core :=
  Int.natCast_inj.mp (hl.trans h.localSize)

theorem scratch_valid (h : Ready p d o v s) {u : View} (hu : u ∈ d.scratch) :
    s.store.Valid u ∧ s.store.writable u := by
  rcases List.mem_append.mp hu with hu | hu
  · simp only [Finalized.arrays, List.mem_cons] at hu
    rcases hu with rfl | rfl | hu
    · exact ⟨h.intact.point.valid, h.intact.point.writable⟩
    · exact ⟨h.intact.gradient.valid, h.intact.gradient.writable⟩
    · exact h.intact.derivatives.scratch_valid hu
  · exact h.eliminates.scratch_valid hu

theorem writable (h : Ready p d o v s) {k : Nat} {b : Buffer α}
    (hb : s.store.buffers[k]? = some b) (hk : d.IsScratch k) : b.writable := by
  have ⟨w, hw, he⟩ := hk
  subst he
  rw [← Store.writable_of_buffer hb]
  exact (h.scratch_valid hw).right

-- An array that is handed to a callback as the point.
theorem point_apart {w : View} (h : Ready p d o v s) (hx : d.Lent s.store x a ys)
    (hw : w = a ∨ w = d.point) : ∀ u ∈ d.core.chain.scratch, w.buffer ≠ u.buffer := by
  intro u hu
  obtain rfl | rfl := hw
  · exact hx.apart u (List.mem_append_right _ hu)
  · exact h.intact.separate d.point (by simp [Finalized.arrays]) u hu

-- Writes into arrays that can be written disturb nothing if the fixed values stay where they are.
theorem writes {touched : Nat → Prop} (h : Ready p d o v s)
    (hf : ∃ stats, t.formulation = { s.formulation with stats := stats })
    (hw : s.store.Writes touched t.store)
    (ht : ∀ {k b}, s.store.buffers[k]? = some b → touched k → b.writable)
    (he : d.core.chain.Eliminates (v.eliminated o d.core) (Core.midpoints v.variableData) t.store) :
    Undisturbed d s t where
  formulation := hf
  constants := hw.sameConstants ht
  scratch _ _ _ h := h.writes hw
  held _ hr _ hi := (he.held hr hi).trans (h.eliminates.held hr hi).symm

end Ready

-- A point of the right size is mapped, and copied to the scratch point if that made another array.
theorem pointToUser_mapped {w : View} {st : Store α} (h : Ready p d o v s)
    (hx : d.Lent s.store x a ys) (hl : ys.length = v.internalSize o d.core)
    (hw : d.core.chain.pointToUser a s.store = (.ok w, st)) :
    pointToUser x s = (if w = a then pure w else do
      onStore do StoreM.assign d.point (← StoreM.read w)
      return d.point) { s with store := st } := by
  have hsize : (a.size : Int) = d.core.localSize := by
    rw [View.size_of_shape hx.shape, hl, h.localSize]
  have hscratch : getPart Formulation.pointScratch { s with store := st } =
      (.ok d.point, { s with store := st }) :=
    getPart_run (finalized_eq_some.mp h.finalized).right.left
  rw [pointToUser, bind_of_ok (localPart_run hx.view s), bind_of_ok (getCore_run h.finalized)]
  simp only [hsize, ne_eq, not_true_eq_false, if_false]
  rw [bind_of_ok (onStore_of_ok hw), ite_run, ite_run, bind_of_ok hscratch]

-- The point that a problem is given is the solver's own array or the scratch point.
theorem pointToUser_run (h : Ready p d o v s) (hx : d.Lent s.store x a ys)
    (hl : ys.length = v.internalSize o d.core) :
    ∃ w t, pointToUser x s = (.ok w, t) ∧ t = { s with store := t.store } ∧
      w.shape = [v.layout.localSize.toNat] ∧ t.store.Valid w ∧
      t.store.entries w = v.pointToUser o d.core ys ∧ s.store.Writes d.HoldsPoint t.store ∧
      d.core.chain.Eliminates (v.eliminated o d.core) (Core.midpoints v.variableData) t.store ∧
      (w = a ∨ w = d.point) := by
  have ⟨w, st, hw, hs, hv, he, hwr, hel, hor⟩ := Chain.pointToUser_run h.eliminates
    (hx.shape.trans (congrArg (List.cons · []) hl)) hx.valid
  rw [hx.entries] at he
  rw [h.length_eliminated] at hs
  replace hwr : s.store.Writes d.HoldsPoint st := hwr.mono fun k hk => by
    have ⟨u, hu, hk⟩ := List.mem_map.mp hk
    exact hk ▸ Finalized.chain_holdsPoint hu
  have hrun := pointToUser_mapped h hx hl hw
  by_cases hwa : w = a
  case pos =>
    rw [if_pos hwa] at hrun
    exact ⟨w, _, hrun, rfl, hs, hv, he, hwr, hel, .inl hwa⟩
  case neg =>
    have hp := h.intact.point.writes hwr
    have hne (u : View) (hu : u ∈ d.core.chain.scratch) : u.buffer ≠ d.point.buffer :=
      Ne.symm (h.intact.separate d.point (by simp [Finalized.arrays]) u hu)
    have hwr' : st.Writes (· = d.point.buffer) (st.setEntries d.point (st.entries w)) :=
      .setEntries rfl
    have ha : (do StoreM.assign d.point (← StoreM.read w) : StoreM α Unit) st =
        (.ok ⟨⟩, st.setEntries d.point (st.entries w)) := by
      rw [bind_of_ok (StoreM.read_run w st)]
      exact StoreM.assign_run hp.writable (hs.trans hp.left.symm) (by simp [hp.left])
    refine ⟨d.point, { s with store := st.setEntries d.point (st.entries w) }, ?_, rfl, hp.left,
      hwr'.valid hp.valid, ?_, ?_, hel.writes hwr' hne, .inr rfl⟩
    · rw [hrun, if_neg hwa, bind_of_ok (onStore_of_ok ha)]
      rfl
    · rw [Store.entries_setEntries hp.valid, he]
      · rfl
      · rw [Store.length_entries hv, View.size_of_shape hs, View.size_of_shape hp.left]
    · exact hwr.trans hwr' fun k _ hk => ⟨d.point, List.mem_cons_self, hk.symm⟩

end Formulation

namespace Formulation

variable [Scalar α] {p : Problem α} {s t : Session α} {d : Finalized α} {o : Options α}
  {v : Core.Survey α} {x out : Argument α} {a b : View} {ys zs : List α}

theorem Ready.indices_lt (h : Ready p d o v s) (group : ConstraintGroup) :
    ∀ i ∈ d.core.indices group, i < d.core.constraintCount := by
  have hm : (List.zipWith (ConstraintSplit.isEquality o.infinity) v.constraintData.lower
      v.constraintData.upper).length = d.core.constraintCount := by
    simp [h.surveyed.constraints_fit.lower, h.surveyed.constraints_fit.upper,
      h.intact.describes.constraintCount]
  intro i hi
  rw [← hm]
  cases group <;> rw [Core.indices, h.intact.describes.split] at hi
  case equalities => exact setPositions_lt hi
  case inequalities => exact clearPositions_lt hi

theorem values_run {g : List α → Nat → α} {group : ConstraintGroup} (h : Ready p d o v s)
    (hg : p.HasConstraints d.core.userSize v.layout.localSize.toNat d.core.constraintCount g)
    (hx : d.Lent s.store x a ys) (hl : ys.length = v.internalSize o d.core)
    (hout : d.Lent s.store out b zs) (hz : zs.length = (d.core.indices group).length)
    (hw : s.store.writable b) (hne : a.buffer ≠ b.buffer) (isNew : RawValue α) :
    ∃ t, values p group x isNew out s = (.ok true, t) ∧
      d.Lent t.store out b ((d.core.indices group).map (g (v.pointToUser o d.core ys))) ∧
      s.store.Writes (fun k => d.IsScratch k ∨ k = b.buffer) t.store ∧ Undisturbed d s t := by
  obtain ⟨w, u, hp, hu, hs, hv, he, hwr, hel, hor⟩ := pointToUser_run h hx hl
  replace hwr := hwr.mono fun _ => Finalized.HoldsPoint.isScratch
  have hf : u.formulation = s.formulation := by rw [hu]
  have hout' := hout.writes_scratch hwr
  have hlb : b.shape = [(d.core.indices group).length] := hz ▸ hout.shape
  have hwb : w.buffer ≠ b.buffer := by
    cases hor
    case inl hor => exact hor ▸ hne
    case inr hor =>
      exact hor ▸ Ne.symm (hout.apart _ (by simp [Finalized.scratch, Finalized.arrays]))
  obtain ⟨answer, hrun, hans⟩ := hg ⟨u.store, {}⟩ w b isNew (d.core.indices group) hs hv hlb
    hout'.valid (hwr.writable hout.valid ▸ hw) hwb (h.indices_lt group)
  simp only [he] at hrun
  generalize hvals : (d.core.indices group).map (g (v.pointToUser o d.core ys)) = vals at hrun
  have hlv : vals.length = (d.core.indices group).length := by rw [← hvals, List.length_map]
  have hwr' : u.store.Writes (· = b.buffer) (u.store.setEntries b vals) := .setEntries rfl
  have hw' : s.store.Writes (fun k => d.IsScratch k ∨ k = b.buffer) (u.store.setEntries b vals) :=
    (hwr.mono fun _ => .inl).trans hwr' fun _ _ => .inr
  have hel' := hel.writes hwr' fun u hu hub =>
    hout.apart u (List.mem_append_right _ hu) hub.symm
  constructor
  refine ⟨?run, ⟨hout.view, ?shape, ?valid, ?entries, hout.apart⟩, ?writes, ?undisturbed⟩
  case run =>
    rw [values, bind_of_ok (getCore_run h.finalized)]
    dsimp only
    rw [bind_of_ok (localPart_run hout.view s), if_neg (by simp [View.size_of_shape hlb])]
    refine timed_run (t := { u.traced [.evaluation (.constraints
      ⟨d.core.userSize, u.store.read w, isNew⟩ d.core.constraintCount (d.core.indices group)
      (u.store.read b))] with store := u.store.setEntries b vals }) ?_
    rw [bind_of_ok hp, bind_of_ok (onStore_read_run b u),
      bind_of_ok (pointAt_run (hf ▸ h.finalized) w isNew), bind_of_ok (invoke_run hrun)]
    exact bind_of_ok (judge_run hans _ _) _
  case shape => rw [hlb, hlv]
  case valid => exact hwr'.valid hout'.valid
  case entries =>
    exact Store.entries_setEntries hout'.valid (hlv.trans (View.size_of_shape hlb).symm)
  case writes => exact hw'
  case undisturbed =>
    refine h.writes (Session.formulation_counted hf _) hw' ?_ hel'
    intro k c hc hk
    cases hk
    case inl hk => exact h.writable hc hk
    case inr hk => exact Store.writable_of_buffer (hk ▸ hc) ▸ hw

-- A point of the right size has an objective, which is delivered if it is finite.
theorem objective_run {f : List α → α} (h : Ready p d o v s)
    (hf : p.HasObjective d.core.userSize v.layout.localSize.toNat f)
    (hx : d.Lent s.store x a ys) (hl : ys.length = v.internalSize o d.core)
    (isNew : RawValue α) :
    ∃ t, objective p x isNew s = (.ok (if Scalar.isFinite (f (v.pointToUser o d.core ys)) then
        some (f (v.pointToUser o d.core ys)) else none), t) ∧
      s.store.Writes d.IsScratch t.store ∧ Undisturbed d s t := by
  obtain ⟨w, u, hp, hu, hs, hv, he, hwr, hel, _⟩ := pointToUser_run h hx hl
  replace hwr := hwr.mono fun _ => Finalized.HoldsPoint.isScratch
  have hu' : u.formulation = s.formulation := by rw [hu]
  obtain ⟨answer, hrun, hans, hval⟩ := hf ⟨u.store, {}⟩ w isNew hs hv
  rw [he] at hval
  generalize f (v.pointToUser o d.core ys) = y at hval
  have hst := Session.formulation_counted (s := s) hu' .objective
  rw [objective, bind_of_ok (getCore_run h.finalized),
    bind_of_ok (timed_run (r := .ok (some answer)) (t := u.traced [.evaluation (.objective
      ⟨d.core.userSize, u.store.read w, isNew⟩)]) ?body)]
  case body =>
    rw [bind_of_ok hp, bind_of_ok (pointAt_run (hu' ▸ h.finalized) w isNew),
      bind_of_ok (invoke_run hrun)]
    exact judge_run hans _ _
  dsimp only
  rw [bind_of_ok (ofExcept_eq_ok.mpr ⟨hval, rfl⟩), (h.eliminates.objective y).left, ite_run]
  split
  case isTrue =>
    exact ⟨_, rfl, hwr, h.writes hst hwr h.writable hel⟩
  case isFalse =>
    exact ⟨_, rfl, hwr, h.writes hst hwr h.writable hel⟩

theorem userPoint_run (h : Ready p d o v s) (hx : d.Lent s.store x a ys)
    (hl : ys.length = v.internalSize o d.core) :
    ∃ point t, userPoint x s = (.ok point, t) ∧ point.entries = v.pointToUser o d.core ys ∧
      t = { s with store := t.store } ∧ s.store.Writes d.IsScratch t.store ∧
      Undisturbed d s t := by
  have ⟨w, t, hp, ht, _, _, he, hwr, hel, _⟩ := pointToUser_run h hx hl
  replace hwr := hwr.mono fun _ => Finalized.HoldsPoint.isScratch
  have hf : t.formulation = s.formulation := by rw [ht]
  refine ⟨t.store.read w, t, ?_, he, ht, hwr, h.writes ⟨_, hf⟩ hwr h.writable hel⟩
  rw [userPoint, bind_of_ok hp]
  exact onStore_read_run w t

end Formulation
end NonlinearProgram
