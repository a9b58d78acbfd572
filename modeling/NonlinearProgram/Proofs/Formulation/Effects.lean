import NonlinearProgram.Formulation.Allocation
import NonlinearProgram.Formulation.StartingPoint
import NonlinearProgram.Proofs.Callback
import NonlinearProgram.Proofs.Formulation.Evaluation
import NonlinearProgram.Proofs.Formulation.Sparing

-- What a solver can do with a formulation, other than to finalize it, is followed through all its
-- steps and whatever becomes of it. It leaves the parts of the formulation alone, it changes no
-- array that cannot be written, and as long as the solver keeps out of the arrays of the
-- transformations, the fixed values stay where they are.

namespace NonlinearProgram

open Program FormulationM

variable {α β γ : Type}

namespace Chain

variable [Scalar α]

-- Only bounds are mapped to arrays that are not the chain's own.
theorem Use.writes (c : Chain α) (use : Use) (h : ∀ bounds, use ≠ .boundsToInternal bounds) :
    Keeps (Store.Writes fun k => ∃ u ∈ c.scratch, u.buffer = k) (use.run c) := by
  have hrun {β : Type} {x : StoreM α β}
      (h : Keeps (Store.Writes fun k => ∃ u ∈ c.scratch, u.buffer = k) x) :
      Keeps (Store.Writes fun k => ∃ u ∈ c.scratch, u.buffer = k) (do let _ ← x) :=
    StoreM.bind_writes h fun _ => StoreM.pure_writes _
  have hmem {r : Remover α} (hr : .remover r ∈ c.items) {u : View} (hu : u ∈ r.scratch) :
      u ∈ c.scratch := List.mem_flatMap.mpr ⟨.remover r, hr, hu⟩
  cases use
  case boundsToInternal bounds => exact absurd rfl (h bounds)
  all_goals
    refine hrun (Keeps.foldlM (Store.Writes.refl _) .and_then (fun item hi v => ?_) _)
    cases item
    case relaxer => exact StoreM.pure_writes v
    case objective => exact StoreM.pure_writes v
  case pointToInternal.remover r =>
    have hu := hmem hi (u := r.internalPoint) (by simp [Remover.scratch])
    exact fun s => (r.toInternal_writes v s).mono fun _ hk => ⟨_, hu, hk.symm⟩
  case pointToUser.remover r =>
    have hu := hmem (List.mem_reverse.mp hi) (u := r.userPoint) (by simp [Remover.scratch])
    exact fun s => (r.toUser_writes v s).mono fun _ hk => ⟨_, hu, hk.symm⟩
  case gradientToInternal.remover r =>
    exact fun s => (r.gatherNew_writes v s).mono fun _ => False.elim
  case jacobianToInternal.remover r =>
    exact fun s => (r.jacobianToInternal_writes v s).mono fun _ => False.elim
  case multipliersToUser.remover r =>
    have hu := hmem (List.mem_reverse.mp hi) (u := r.userMultipliers) (by simp [Remover.scratch])
    exact fun s => (r.multipliersToUser_writes v s).mono fun _ hk => ⟨_, hu, hk.symm⟩

-- However a use turns out, the eliminated variables keep their values.
theorem Eliminates.used {c : Chain α} {mask : List Bool} {values : List α} {s : Store α}
    (h : c.Eliminates mask values s) (use : Use) : c.Eliminates mask values (use.run c s).2 := by
  cases h
  case kept hi hm hv => exact .kept hi hm hv
  case removed r hi hr =>
    have hs : Transformation.Separate [Transformation.remover r] := by
      constructor
      case apart =>
        intro item item' hm hm' _ _ _ _ _
        rw [List.mem_singleton.mp hm, List.mem_singleton.mp hm']
      case within =>
        intro r' hr'
        cases List.mem_singleton.mp hr'
        exact hr.distinct
    have hp := use.preserves (c := c) hs (fun item hm => hi ▸ hm) s
    exact .removed r hi (hp.intact List.mem_cons_self hr)

end Chain

namespace Formulation

-- The scratch arrays that a formulation of its kind has, as far as there are any.
def arrays (f : Formulation α) : List View :=
  let rest := match f.kind with
    | .dense => [f.equalityScratch, f.inequalityScratch]
    | .mixed => [f.multiplierScratch]
  (f.pointScratch :: f.gradientScratch :: rest).filterMap id

theorem arrays_of_finalized {f : Formulation α} {d : Finalized α} (h : f.finalized = some d) :
    f.arrays = d.arrays := by
  obtain ⟨_, hp, hg, hd⟩ := finalized_eq_some.mp h
  rw [arrays, Finalized.arrays, hp, hg]
  cases hder : d.derivatives
  case dense =>
    obtain ⟨hk, he, hi⟩ := derivatives_eq_dense.mp (hder ▸ hd)
    simp [hk, he, hi, Derivatives.scratch]
  case mixed =>
    obtain ⟨hk, _, hm⟩ := derivatives_eq_mixed.mp (hder ▸ hd)
    simp [hk, hm, Derivatives.scratch]

end Formulation

-- What work with a formulation may do. The solver hands over some arrays, and the first `n` arrays
-- were there before.
structure Effect [Scalar α] (handed : List View) (n : Nat) (s t : Session α) : Prop where
  formulation : ∃ stats, t.formulation = { s.formulation with stats := stats }
  store : s.store.Writes (fun _ => True) t.store
  undisturbed : ∀ {p : Problem α} {d : Finalized α} {o : Options α} {v : Core.Survey α},
    Formulation.Ready p d o v s →
    (∀ w ∈ handed, ∀ u ∈ d.core.chain.scratch, w.buffer ≠ u.buffer) →
    (∀ u ∈ d.core.chain.scratch, u.buffer < n) → Formulation.Undisturbed d s t

namespace Effect

variable [Scalar α] {handed : List View} {n : Nat} {s t u : Session α}

theorem refl (handed : List View) (n : Nat) (s : Session α) : Effect handed n s s where
  formulation := ⟨_, rfl⟩
  store := .refl _ _
  undisturbed _ _ _ := .refl _ s

theorem trans (h₁ : Effect handed n s t) (h₂ : Effect handed n t u) : Effect handed n s u where
  formulation := by
    have ⟨_, h₁⟩ := h₁.formulation
    have ⟨_, h₂⟩ := h₂.formulation
    exact ⟨_, by rw [h₂, h₁]⟩
  store := h₁.store.and_then h₂.store
  undisturbed hr hh hn :=
    have hu := h₁.undisturbed hr hh hn
    hu.trans (h₂.undisturbed (hr.undisturbed hu) hh hn)

-- Writes into the formulation's own scratch arrays, and into arrays that the solver handed over or
-- that are new.
theorem of_writes {touched : Nat → Prop}
    (hf : ∃ stats, t.formulation = { s.formulation with stats := stats })
    (hw : s.store.Writes touched t.store)
    (ht : ∀ {k b}, s.store.buffers[k]? = some b → touched k →
      (∃ w ∈ s.formulation.arrays, w.buffer = k) ∨
        b.writable ∧ (n ≤ k ∨ ∃ w ∈ handed, w.buffer = k)) :
    Effect handed n s t where
  formulation := hf
  store := hw.mono fun _ _ => trivial
  undisturbed {p d o v} hr hh hn := by
    have harrays := Formulation.arrays_of_finalized hr.finalized
    refine hr.writes hf hw (fun hb hk => ?_) (hr.eliminates.writes hw fun u hu hk => ?_)
    · obtain ⟨w, hw, hk⟩ | ⟨hb, _⟩ := ht hb hk
      · refine hr.writable ‹_› ⟨w, List.mem_append_left _ (harrays ▸ hw), hk⟩
      · exact hb
    · have ⟨b, hb, _⟩ := (hr.eliminates.scratch_valid hu).left
      obtain ⟨w, hw, he⟩ | ⟨_, hlt | ⟨w, hw, he⟩⟩ := ht hb hk
      · exact hr.intact.separate w (harrays ▸ hw) u hu he
      · exact Nat.lt_irrefl _ (Nat.lt_of_lt_of_le (hn u hu) hlt)
      · exact hh w hw u hu he

-- Nothing is written, and there may be new arrays.
theorem of_unwritten (hf : ∃ stats, t.formulation = { s.formulation with stats := stats })
    (hw : s.store.Writes (fun _ => False) t.store) : Effect handed n s t :=
  .of_writes hf hw fun _ => False.elim

theorem of_aside (hf : t.formulation = s.formulation) (hs : t.store = s.store) :
    Effect handed n s t :=
  .of_unwritten ⟨_, hf⟩ (hs ▸ .refl _ _)

theorem of_use {core : Core α} (hc : s.formulation.core = some core) (use : Chain.Use)
    (h : ∀ bounds, use ≠ .boundsToInternal bounds) :
    Effect handed n s { s with store := (use.run core.chain s.store).2 } where
  formulation := ⟨_, rfl⟩
  store := (use.writes core.chain h s.store).mono fun _ _ => trivial
  undisturbed {p d o v} hr _ _ := by
    have hd := (Formulation.finalized_eq_some.mp hr.finalized).left
    cases hc.symm.trans hd
    refine hr.writes ⟨_, rfl⟩ (use.writes d.core.chain h s.store) (fun hb hk => ?_)
      (hr.eliminates.used use)
    have ⟨u, hu, hk⟩ := hk
    exact hr.writable hb (hk ▸ Finalized.chain_scratch hu)

end Effect

-- What there is when work begins: the formulation, arrays that are handed over to it, and the
-- number of arrays.
structure Setting (α : Type) where
  formulation : Formulation α
  handed : List View
  arrays : Nat

namespace Setting

def Has (c : Setting α) (s : Session α) : Prop :=
  (∃ stats, s.formulation = { c.formulation with stats := stats }) ∧
    c.arrays ≤ s.store.buffers.length

-- Arrays to work in.
def Within (c : Setting α) (w : View) : Prop :=
  w ∈ c.formulation.arrays ∨ c.arrays ≤ w.buffer ∨ w ∈ c.handed

theorem Has.effect [Scalar α] {c : Setting α} {s t : Session α} (h : c.Has s)
    (he : Effect c.handed c.arrays s t) : c.Has t := by
  obtain ⟨⟨_, hf⟩, hn⟩ := h
  have ⟨_, hf'⟩ := he.formulation
  exact ⟨⟨_, by rw [hf', hf]⟩, Nat.le_trans hn he.store.length_le⟩

theorem Has.arrays {c : Setting α} {s : Session α} (h : c.Has s) :
    s.formulation.arrays = c.formulation.arrays := by
  have ⟨_, hf⟩ := h.left
  rw [hf]
  rfl

end Setting

namespace FormulationM

-- Steps on the store one by one.
theorem onStore_bind (x : StoreM α β) (f : β → StoreM α γ) :
    onStore (x >>= f) = (onStore x >>= fun b => onStore (f b)) := by
  funext s
  simp only [onStore, bind_run]
  rcases x s.store with ⟨_ | _, _⟩ <;> rfl

-- Work that has such effects only, and gives what is expected of it if it succeeds.
def Affects [Scalar α] (c : Setting α) (x : FormulationM α β) (post : β → Prop) : Prop :=
  ∀ s : Session α, c.Has s →
    Effect c.handed c.arrays s (x s).2 ∧ ∀ b, (x s).1 = .ok b → post b

namespace Affects

variable [Scalar α] {c : Setting α} {x : FormulationM α β} {f : β → FormulationM α γ}
  {mid : β → Prop} {post : γ → Prop}

theorem bind (hx : Affects c x mid) (hf : ∀ b, mid b → Affects c (f b) post) :
    Affects c (x >>= f) post := by
  intro s hs
  have ⟨he, hmid⟩ := hx s hs
  cases hxs : x s
  case mk r t =>
    rw [hxs] at he hmid
    cases r
    case error e =>
      rw [bind_of_error hxs]
      exact ⟨he, fun _ h => by cases h⟩
    case ok b =>
      rw [bind_of_ok hxs]
      have ⟨he', hpost⟩ := hf b (hmid b rfl) t (hs.effect he)
      exact ⟨he.trans he', hpost⟩

-- A result of which nothing more is known.
theorem next (hx : Affects c x fun _ => True) (hf : ∀ b, Affects c (f b) post) :
    Affects c (x >>= f) post :=
  hx.bind fun b _ => hf b

theorem mono {post' : β → Prop} (hx : Affects c x mid) (h : ∀ b, mid b → post' b) :
    Affects c x post' :=
  fun s hs => ⟨(hx s hs).left, fun b hb => h b ((hx s hs).right b hb)⟩

theorem of_aside (hf : ∀ s, (x s).2.formulation = s.formulation)
    (hs : ∀ s, (x s).2.store = s.store) : Affects c x fun _ => True :=
  fun s _ => ⟨.of_aside (hf s) (hs s), fun _ _ => trivial⟩

theorem of_same (h : ∀ s, (x s).2 = s) : Affects c x fun _ => True :=
  .of_aside (fun s => by rw [h]) (fun s => by rw [h])

theorem pure {b : β} (h : mid b) : Affects c (pure b : FormulationM α β) mid :=
  fun s _ => ⟨.refl _ _ s, fun _ hb => by cases hb; exact h⟩

theorem done (b : β) : Affects c (Pure.pure b : FormulationM α β) fun _ => True :=
  .pure trivial

theorem throw (e : Failure α) : Affects c (throw e : FormulationM α β) mid :=
  fun s _ => ⟨.refl _ _ s, fun _ hb => by cases hb⟩

theorem ite {p : Prop} [Decidable p] {y : FormulationM α β} (hx : p → Affects c x mid)
    (hy : ¬p → Affects c y mid) : Affects c (if p then x else y) mid := by
  split
  case isTrue h => exact hx h
  case isFalse h => exact hy h

theorem getFormulation : Affects c getFormulation fun f =>
    ∃ stats, f = { c.formulation with stats := stats } :=
  fun s hs => ⟨.refl _ _ s, fun _ hb => by cases hb; exact hs.left⟩

theorem get : Affects c (get : FormulationM α (Session α)) fun _ => True :=
  .of_same fun _ => rfl

theorem emit (e : Event α) : Affects c (emit e) fun _ => True :=
  .of_aside (fun _ => rfl) fun _ => rfl

theorem record (call : Call α) : Affects c (record call) fun _ => True :=
  .of_aside (fun _ => rfl) fun _ => rfl

theorem setMatrix (k : Nat) (a : AnyMatrix α) :
    Affects c (modify (·.setMatrix k a)) fun _ => True :=
  .of_aside (fun _ => rfl) fun _ => rfl

theorem ofExcept {ε : Type} (reason : ε → Failure α) (r : Except ε β) :
    Affects c (ofExcept reason r) fun _ => True :=
  .of_same fun s => by rw [ofExcept_run]

theorem timed (op : Operation) (hx : Affects c x mid) : Affects c (timed op x) mid := by
  intro s hs
  have ⟨he, hmid⟩ := hx s hs
  exact ⟨he.trans (.of_unwritten ⟨_, rfl⟩ (.refl _ _)), hmid⟩

theorem onStore_writes {act : StoreM α β} {touched : Nat → Prop}
    (h : Keeps (Store.Writes touched) act)
    (ht : ∀ k, touched k → ∃ w ∈ c.formulation.arrays, w.buffer = k) :
    Affects c (onStore act) fun _ => True := by
  intro s hs
  refine ⟨.of_writes ⟨_, rfl⟩ (h s.store) fun {k b} _ hk => .inl ?_, fun _ _ => trivial⟩
  exact hs.arrays ▸ ht k hk

theorem onStore_reads {act : StoreM α β} (h : Keeps (Store.Writes fun _ => False) act) :
    Affects c (onStore act) fun _ => True :=
  .onStore_writes h fun _ => False.elim

theorem read (w : View) : Affects c (onStore (StoreM.read w)) fun _ => True :=
  .onStore_reads (StoreM.read_writes w)

theorem entries (w : View) : Affects c (onStore (StoreM.entries w)) fun _ => True :=
  .onStore_reads (StoreM.entries_writes w)

theorem onStore_assign {w : View} (h : c.Within w) (x : Tensor α) :
    Affects c (onStore (StoreM.assign w x)) fun _ => True := by
  intro s hs
  refine ⟨.of_writes ⟨_, rfl⟩ (StoreM.assign_writes_writable w x s.store) ?_, fun _ _ => trivial⟩
  rintro k b hb ⟨rfl, hw⟩
  rw [Store.writable_of_buffer hb] at hw
  obtain h | h | h := h
  · exact .inl (hs.arrays ▸ ⟨w, h, rfl⟩)
  · exact .inr ⟨hw, .inl h⟩
  · exact .inr ⟨hw, .inr ⟨w, h, rfl⟩⟩

theorem alloc (x : Tensor α) :
    Affects c (onStore (StoreM.alloc x)) fun w => c.arrays ≤ w.buffer := by
  intro s hs
  refine ⟨.of_unwritten ⟨_, rfl⟩ (.alloc x), fun w hw => ?_⟩
  cases hw
  exact hs.right

theorem use {core : Core α} (hc : c.formulation.core = some core) {act : StoreM α β}
    (use : Chain.Use) (hu : ∀ s, (act s).2 = (use.run core.chain s).2)
    (h : ∀ bounds, use ≠ .boundsToInternal bounds) :
    Affects c (onStore act) fun _ => True := by
  intro s hs
  refine ⟨?_, fun _ _ => trivial⟩
  have ⟨_, hf⟩ := hs.left
  have he : (onStore act s).2 = { s with store := (use.run core.chain s.store).2 } := by
    rw [← hu]
    rfl
  exact he ▸ .of_use (by rw [hf]; exact hc) use h

theorem onStore_next {x : StoreM α β} {f : β → StoreM α γ}
    (hx : Affects c (onStore x) fun _ => True) (hf : ∀ b, Affects c (onStore (f b)) post) :
    Affects c (onStore (x >>= f)) post :=
  onStore_bind x f ▸ .next hx hf

theorem throw_bind (e : Failure α) (f : β → FormulationM α γ) :
    Affects c (MonadExcept.throw e >>= f) post :=
  fun s _ => ⟨.refl _ _ s, fun _ hb => by cases hb⟩

theorem guard {p : Prop} [Decidable p] {e : Failure α} {g : PUnit → FormulationM α β}
    (hx : ¬p → Affects c x mid) :
    Affects c (if p then MonadExcept.throw e >>= g else x) mid :=
  .ite (fun _ => .throw_bind e g) hx

theorem ensure {p : Prop} [Decidable p] {e : Failure α} {g : PUnit → FormulationM α β}
    (hx : Affects c x mid) :
    Affects c (if p then x else MonadExcept.throw e >>= g) mid :=
  .ite (fun _ => hx) fun _ => .throw_bind e g

theorem getCore : Affects c getCore fun core => c.formulation.core = some core := by
  refine .bind .getFormulation fun f hf => ?_
  obtain ⟨_, rfl⟩ := hf
  dsimp only
  split
  case h_1 core h => exact .pure h
  case h_2 => exact .throw _

theorem getPart {part : Formulation α → Option β}
    (h : ∀ (f : Formulation α) stats, part { f with stats := stats } = part f) :
    Affects c (getPart part) fun b => part c.formulation = some b := by
  refine .bind .getFormulation fun f hf => ?_
  obtain ⟨stats, rfl⟩ := hf
  dsimp only
  split
  case h_1 b hb => exact .pure (h c.formulation stats ▸ hb)
  case h_2 => exact .throw _

theorem localPart {y : Argument α} (h : ∀ w ∈ y.view?, w ∈ c.handed) :
    Affects c (localPart y) c.Within := by
  cases y
  case absent => exact .mono (.alloc _) fun w hw => .inr (.inl hw)
  case array w => exact .pure (.inr (.inr (h w rfl)))
  case vector v => exact .pure (.inr (.inr (h v.view rfl)))
  case matrix => exact .throw _

end Affects
end FormulationM

namespace Formulation

section

variable {c : Setting α} {w : View}

theorem within_point (h : c.formulation.pointScratch = some w) : c.Within w :=
  .inl (by simp [arrays, h])

theorem within_gradient (h : c.formulation.gradientScratch = some w) : c.Within w :=
  .inl (by simp [arrays, h])

theorem mem_rows {f : Formulation α} {group : ConstraintGroup} (hk : f.kind = .dense)
    (h : f.rowScratch group = some w) : w ∈ f.arrays := by
  cases group
  all_goals
    rw [rowScratch] at h
    simp [arrays, hk, h]

theorem mem_multipliers {f : Formulation α} (hk : f.kind = .mixed)
    (h : f.multiplierScratch = some w) : w ∈ f.arrays := by
  simp [arrays, hk, h]

end

theorem within_slots {c : Setting α} {point : View} {output multipliers : Option View}
    (hp : c.Within point) (ho : ∀ v ∈ output, c.Within v) (hm : ∀ v ∈ multipliers, c.Within v) :
    ∀ slot v, slots point output multipliers slot = some v → c.Within v := by
  intro slot v hv
  cases slot
  case point => cases hv; exact hp
  case output => exact ho v hv
  case multipliers => exact hm v hv

variable [Scalar α] {p : Problem α} {c : Setting α} {x y out : Argument α} {w : View}

theorem pointToUser_affects (hx : ∀ w ∈ x.view?, w ∈ c.handed) :
    Affects c (pointToUser x) c.Within := by
  refine .bind (.localPart hx) fun v hv => .bind .getCore fun core hcore => .guard fun _ => ?_
  refine .next (.use hcore (.pointToUser v) (fun s => (discard_run _ s).symm) nofun) fun u => ?_
  refine .ite (fun hu => .pure (hu ▸ hv)) fun _ => ?_
  refine .bind (.getPart fun _ _ => rfl) fun scratch hscratch => ?_
  have hw := within_point hscratch
  exact .next (.onStore_next (.read u) fun ys => .onStore_assign hw ys) fun _ => .pure hw

theorem pointAt_affects (w : View) (isNew : RawValue α) :
    Affects c (pointAt w isNew) fun _ => True :=
  .bind .getCore fun _ _ => .next (.read w) fun _ => .done _

theorem invoke_affects {e : Evaluation α} {arrays : Slot → Option View} {w : Workspace α}
    (h : ∀ slot v, arrays slot = some v → c.Within v) :
    Affects c (invoke p e arrays w) fun _ => True := by
  intro s hs
  rw [invoke_run rfl]
  refine ⟨.of_writes ⟨_, rfl⟩ ((p.evaluate e).run_writes arrays ⟨s.store, w⟩) ?_,
    fun _ _ => trivial⟩
  rintro k b hb ⟨slot, v, hv, rfl, hw⟩
  rw [Store.writable_of_buffer hb] at hw
  obtain h | h | h := h slot v hv
  · exact .inl (hs.arrays ▸ ⟨v, h, rfl⟩)
  · exact .inr ⟨hw, .inl h⟩
  · exact .inr ⟨hw, .inr ⟨v, h, rfl⟩⟩

theorem judge_affects (op : Operation) (r : Except Fault (RawValue α)) :
    Affects c (judge op r) fun _ => True := by
  cases r
  case error fault =>
    exact .ite (fun _ => .next (.emit _) fun _ => .done _) fun _ => .throw _
  case ok answer =>
    exact .ite (fun _ => .next (.emit _) fun _ => .done _) fun _ => .done _

theorem objective_affects (isNew : RawValue α) (hx : ∀ w ∈ x.view?, w ∈ c.handed) :
    Affects c (objective p x isNew) fun _ => True := by
  refine .bind .getCore fun core _ => .next (.timed _ ?body) fun answer => ?_
  case body =>
    exact .bind (pointToUser_affects hx) fun w hw => .next (pointAt_affects w isNew) fun _ =>
      .next (invoke_affects (within_slots hw nofun nofun)) fun _ => judge_affects _ _
  cases answer
  case none => exact .done _
  case some a =>
    refine .next (.ofExcept _ _) fun f => .ite (fun _ => .done _) fun _ => ?_
    exact .next (.emit _) fun _ => .done _

theorem gradient_affects (isNew : RawValue α) (hx : ∀ w ∈ x.view?, w ∈ c.handed)
    (ho : ∀ w ∈ out.view?, w ∈ c.handed) :
    Affects c (gradient p x isNew out) fun _ => True := by
  refine .bind .getCore fun core hcore => .bind (.localPart ho) fun target htarget =>
    .guard fun _ => .timed _ ?_
  refine .bind (pointToUser_affects hx) fun w hw =>
    .bind (.getPart fun _ _ => rfl) fun scratch hscratch => ?_
  have hs := within_gradient hscratch
  refine .next (.entries scratch) fun stale => .next (pointAt_affects w isNew) fun _ =>
    .next (invoke_affects (within_slots hw (by rintro _ ⟨⟩; exact hs) nofun)) fun _ =>
    .next (judge_affects _ _) fun answer => ?_
  cases answer
  case none => exact .done _
  case some =>
    refine .next (.onStore_next ?map fun g => ?_) fun _ => .done _
    case map =>
      exact .use hcore (.gradientToInternal scratch) (fun s => (discard_run _ s).symm) nofun
    exact .onStore_next (.read g) fun ys => .onStore_assign htarget ys

theorem values_affects (group : ConstraintGroup) (isNew : RawValue α)
    (hx : ∀ w ∈ x.view?, w ∈ c.handed) (ho : ∀ w ∈ out.view?, w ∈ c.handed) :
    Affects c (values p group x isNew out) fun _ => True := by
  refine .bind .getCore fun core _ => .bind (.localPart ho) fun target htarget =>
    .guard fun _ => .timed _ ?_
  exact .bind (pointToUser_affects hx) fun w hw => .next (.read target) fun _ =>
    .next (pointAt_affects w isNew) fun _ =>
    .next (invoke_affects (within_slots hw (by rintro _ ⟨⟩; exact htarget) nofun)) fun _ =>
    .next (judge_affects _ _) fun _ => .done _

theorem fillMatrix_affects {op : Operation} {core : Core α} {indices : List Nat} {k : Nat}
    {a : DenseMatrix α} (isNew : RawValue α) (hx : ∀ w ∈ x.view?, w ∈ c.handed) :
    Affects c (fillMatrix p op core indices x isNew k a) fun _ => True :=
  .bind (pointToUser_affects hx) fun w hw => .next (pointAt_affects w isNew) fun _ =>
    .next (invoke_affects (within_slots hw nofun nofun)) fun _ => .next (.setMatrix _ _) fun _ =>
    .next (judge_affects _ _) fun _ => .done _

theorem setEntries_affects (hw : w ∈ c.formulation.arrays) (xs : List α) :
    Affects c (modify fun s => { s with store := s.store.setEntries w xs }) fun _ => True := by
  intro s hs
  have hwr : s.store.Writes (· = w.buffer) (s.store.setEntries w xs) := .setEntries rfl
  refine ⟨.of_writes ⟨_, rfl⟩ hwr fun _ hk => ?_, fun _ _ => trivial⟩
  exact .inl (hs.arrays ▸ ⟨w, hw, hk.symm⟩)

theorem fillThroughScratch_affects {op : Operation} {core : Core α} {indices : List Nat} {k : Nat}
    {a : DenseMatrix α} (isNew : RawValue α) (hcore : c.formulation.core = some core)
    (hw : w ∈ c.formulation.arrays) (hx : ∀ w ∈ x.view?, w ∈ c.handed) :
    Affects c (fillThroughScratch p op core indices w x isNew k a) fun _ => True := by
  refine .bind (pointToUser_affects hx) fun u hu => .next (.entries w) fun stale =>
    .next (pointAt_affects u isNew) fun _ =>
    .next (invoke_affects (within_slots hu nofun nofun)) fun (_, contents) =>
    .next (setEntries_affects hw _) fun _ => .next (judge_affects _ _) fun answer => ?_
  cases answer
  case none => exact .done _
  case some =>
    refine .next (.onStore_next ?map fun g => .entries g) fun _ =>
      .next (.setMatrix _ _) fun _ => .done _
    case map => exact .use hcore (.jacobianToInternal w) (fun s => (discard_run _ s).symm) nofun

theorem denseJacobian_affects (group : ConstraintGroup) (isNew : RawValue α)
    (hk : c.formulation.kind = .dense) (hx : ∀ w ∈ x.view?, w ∈ c.handed) :
    Affects c (denseJacobian p group x isNew out) fun _ => True := by
  refine .bind .getCore fun core hcore => .bind (.getPart fun f _ => by cases group <;> rfl)
    fun scratch hscratch => .next .get fun s => ?_
  split
  case h_1 k a _ _ =>
    refine .ite (fun _ => .next (.emit _) fun _ => .done _) fun _ => .ite (fun _ => ?_) fun _ => ?_
    · exact .timed _ (fillMatrix_affects isNew hx)
    · exact .timed _ (fillThroughScratch_affects isNew hcore (mem_rows hk hscratch) hx)
  case h_2 => exact .next (.emit _) fun _ => .done _

theorem blockSizes_affects : Affects c (blockSizes : FormulationM α _) fun _ => True := by
  refine .of_same fun s => ?_
  rw [blockSizes, bind_of_ok (getFormulation_run s)]
  cases s.formulation.core <;> cases s.formulation.blocks <;> rfl

theorem blockJacobian_affects (group : ConstraintGroup) (isNew : RawValue α)
    (hx : ∀ w ∈ x.view?, w ∈ c.handed) :
    Affects c (blockJacobian p group x isNew out) fun _ => True := by
  refine .bind .getCore fun core _ => .next .get fun s => ?_
  split
  case h_1 k a _ _ =>
    refine .next blockSizes_affects fun b => .ensure (.timed _ ?_)
    exact .bind (pointToUser_affects hx) fun w hw => .next (pointAt_affects w isNew) fun _ =>
      .next (invoke_affects (within_slots hw nofun nofun)) fun _ => .next (.setMatrix _ _) fun _ =>
      .next (judge_affects _ _) fun _ => .done _
  case h_2 => exact .throw _

theorem jacobian_affects (group : ConstraintGroup) (isNew : RawValue α)
    (hx : ∀ w ∈ x.view?, w ∈ c.handed) :
    Affects c (jacobian p group x isNew out) fun _ => True := by
  refine .bind .getFormulation fun f hf => ?_
  obtain ⟨_, rfl⟩ := hf
  cases hk : c.formulation.kind
  case dense => simpa only [hk] using denseJacobian_affects group isNew hk hx
  case mixed => simpa only [hk] using blockJacobian_affects group isNew hx

theorem scatterMultipliers_affects {split : ConstraintSplit α} {scratch : View} (multipliers : View)
    (hw : scratch ∈ c.formulation.arrays) :
    Affects c (scatterMultipliers split scratch multipliers) fun _ => True := by
  have hassign (picks : List Nat) (ys : Tensor α) :
      Affects c (onStore (StoreM.assignAt scratch picks ys)) fun _ => True :=
    .onStore_writes (StoreM.assignAt_writes picks ys rfl) fun k hk => ⟨scratch, hw, hk⟩
  rw [scatterMultipliers]
  cases multipliers.length?
  case none => exact .throw _
  case some =>
    exact .onStore_next (.read _) fun ys => .onStore_next (hassign _ _) fun _ => hassign _ _

theorem hessian_affects (isNew : RawValue α) (factor : α) (isNewY : RawValue α)
    (hx : ∀ w ∈ x.view?, w ∈ c.handed) (hy : ∀ w ∈ y.view?, w ∈ c.handed) :
    Affects c (hessian p x isNew factor y isNewY out) fun _ => True := by
  refine .bind .getFormulation fun f hf => .guard fun hk => .next .get fun s => ?_
  obtain ⟨_, rfl⟩ := hf
  replace hk : c.formulation.kind = .mixed := by
    cases h : c.formulation.kind
    case dense => exact absurd h hk
    case mixed => rfl
  split
  case h_1 k a _ _ =>
    refine .next blockSizes_affects fun b => .ensure ?_
    refine .bind (.localPart hy) fun ys _ => .bind .getCore fun core _ => .guard fun _ =>
      .bind (.getPart fun _ _ => rfl) fun scratch hscratch => ?_
    have hmem := mem_multipliers hk hscratch
    refine .next (scatterMultipliers_affects ys hmem) fun _ => .next (.timed _ ?body)
      fun (answer, coupling) => .ensure (.done _)
    exact .bind (pointToUser_affects hx) fun w hw => .next (pointAt_affects w isNew) fun _ =>
      .next (.entries scratch) fun _ =>
      .next (invoke_affects (within_slots hw nofun (by rintro _ ⟨⟩; exact .inl hmem))) fun _ =>
      .next (.setMatrix _ _) fun _ => .next (judge_affects _ _) fun _ => .done _
  case h_2 => exact .throw _

theorem askStartingPoint_affects (core : Core α) :
    Affects c (askStartingPoint p core) fun _ => True := by
  refine .next (.record _) fun _ => ?_
  cases p.startingPoint core.userSize (List.replicate core.userLayout.localSize.toNat 0)
  case ok reply =>
    dsimp only
    exact .done _
  case error fault => exact .ite (fun _ => .next (.emit _) fun _ => .done _) fun _ => .throw _

theorem startingPoint_affects (ho : ∀ w ∈ out.view?, w ∈ c.handed) :
    Affects c (startingPoint p out) fun _ => True := by
  refine .bind .getCore fun core hcore => .bind (.localPart ho) fun target htarget =>
    .next (askStartingPoint_affects core) fun start => ?_
  cases start
  case some xs =>
    refine .ite (fun _ => .next ?_ fun _ => .done _) fun _ => .next (.emit _) fun _ => .done _
    refine .onStore_next (.mono (.alloc _) fun _ _ => trivial) fun v => .onStore_next ?map fun u =>
      .onStore_next (.read u) fun ys => .onStore_assign htarget ys
    case map => exact .use hcore (.pointToInternal v) (fun s => (discard_run _ s).symm) nofun
  case none =>
    refine .next ?_ fun _ => .next (.emit _) fun _ => .done _
    exact .onStore_next (.entries _) fun _ => .onStore_next (.entries _) fun _ =>
      .onStore_next (.entries _) fun _ => .onStore_next (.entries _) fun _ =>
      .onStore_assign htarget _

theorem userObjective_affects (f : α) : Affects c (userObjective f) fun _ => True :=
  .bind .getCore fun _ _ => .ofExcept _ _

theorem userPoint_affects (hx : ∀ w ∈ x.view?, w ∈ c.handed) :
    Affects c (userPoint x) fun _ => True :=
  .bind (pointToUser_affects hx) fun w _ => .read w

theorem userMultipliers_affects {core : Core α} (hcore : c.formulation.core = some core)
    (hx : ∀ w ∈ x.view?, w ∈ c.handed) : Affects c (userMultipliers core x) fun _ => True := by
  refine .bind (.localPart hx) fun v _ => .onStore_next ?map fun u => .read u
  case map => exact .use hcore (.multipliersToUser v) (fun s => (discard_run _ s).symm) nofun

end Formulation

-- The vectors of a report.
def InternalIterate.arguments (i : InternalIterate α) : List (Argument α) :=
  [i.point, i.lowerMultipliers, i.upperMultipliers, i.equalities, i.inequalities,
    i.equalityMultipliers, i.inequalityMultipliers]

namespace Formulation

variable [Scalar α] {p : Problem α} {c : Setting α} {i : InternalIterate α} {s t : Session α}

theorem merge_affects (split : ConstraintSplit α) (v w : View) :
    Affects c (onStore do split.merge? (← StoreM.read v) (← StoreM.read w)) fun _ => True := by
  refine .onStore_next (.read v) fun xs => .onStore_next (.read w) fun ys =>
    .onStore_reads fun s => ?_
  cases split.merge? xs ys <;> exact .refl _ s

theorem toUser_affects (hi : ∀ x ∈ i.arguments, ∀ w ∈ x.view?, w ∈ c.handed) :
    Affects c (toUser i) fun _ => True := by
  simp only [InternalIterate.arguments, List.forall_mem_cons] at hi
  obtain ⟨hx, hl, hu, heq, hineq, hyeq, hyineq, _⟩ := hi
  refine .bind .getCore fun core hcore => .next (userPoint_affects hx) fun _ =>
    .next (userMultipliers_affects hcore hl) fun _ =>
    .next (userMultipliers_affects hcore hu) fun _ => .bind (.localPart heq) fun eq _ =>
    .bind (.localPart hineq) fun ineq _ => .bind (.localPart hyeq) fun yEq _ =>
    .bind (.localPart hyineq) fun yIneq _ => .guard fun _ => ?_
  exact .next (merge_affects _ _ _) fun _ => .next (merge_affects _ _ _) fun _ =>
    .next (userObjective_affects _) fun _ => .done _

theorem reportSolution_affects (status : SolveStatus)
    (hi : ∀ x ∈ i.arguments, ∀ w ∈ x.view?, w ∈ c.handed) :
    Affects c (reportSolution p status i) fun _ => True :=
  .next (toUser_affects hi) fun _ => .next (.record _) fun _ => .ofExcept _ _

theorem reportIterate_affects (progress : Progress α)
    (hi : ∀ x ∈ i.arguments, ∀ w ∈ x.view?, w ∈ c.handed) :
    Affects c (reportIterate p progress i) fun _ => True :=
  .next (toUser_affects hi) fun _ => .next (.record _) fun _ => .next (.ofExcept _ _) fun _ =>
    .done _

theorem newVector_affects (layout : Layout) :
    Affects (α := α) c (newVector layout) fun _ => True := by
  refine .bind .getFormulation fun f _ =>
    .onStore_next (.onStore_reads fun s => ?_) fun _ => .done _
  rw [StoreM.zeros]
  cases allocationFault? Tensor.scalarWidth [layout.localSize]
  case none => exact .alloc _
  case some => exact .refl _ s

theorem newJacobian_affects (group : ConstraintGroup) :
    Affects (α := α) c (newJacobian group) fun _ => True := by
  refine .bind .getFormulation fun f _ => ?_
  cases f.kind
  case dense => exact .bind .getCore fun _ _ => .next (.ofExcept _ _) fun _ => .done _
  case mixed =>
    exact .next blockSizes_affects fun _ => .bind .getCore fun _ _ =>
      .next (.ofExcept _ _) fun _ => .done _

theorem newHessian_affects : Affects (α := α) c newHessian fun _ => True :=
  .bind .getFormulation fun _ _ => .guard fun _ => .next blockSizes_affects fun _ =>
    .next (.ofExcept _ _) fun _ => .done _

theorem newRows_affects (rows capacity : RawValue α) :
    Affects (α := α) c (newRows rows capacity) fun _ => True :=
  .bind .getFormulation fun _ _ => .guard fun _ => .bind .getCore fun _ _ => .ofExcept _ _

theorem summary_affects : Affects (α := α) c summary fun _ => True :=
  .bind .getFormulation fun _ _ => .bind .getCore fun _ _ => .done _

theorem printedSummary_affects (heading rank : RawValue α) :
    Affects (α := α) c (printedSummary heading rank) fun _ => True := by
  have hrest (heading : String) : Affects (α := α) c (do
      let text ← summary
      return (if heading.isEmpty then "" else heading ++ "\n") ++ text ++ "\n")
      fun _ => True := .next summary_affects fun _ => .done _
  refine .bind .getFormulation fun f _ => .ite (fun _ => ?_) fun _ => .done _
  cases heading
  case text heading => exact hrest heading
  all_goals
    exact .ite (fun _ => .next (.throw _) hrest) fun _ => hrest ""

-- A formulation that was never finalized, with the choices of another one.
def fresh (f : Formulation α) : Formulation α :=
  { kind := f.kind, options := f.options, communicator := f.communicator }

theorem clone_of_unfinalized (h : s.formulation.core = none) :
    clone p s = (.ok s.formulation.fresh, s) := by
  rw [clone, bind_of_ok (getFormulation_run s)]
  simp only [h, Option.isNone_none, if_true]
  rfl

-- A copy is finalized in place of the formulation, which then takes its place again.
theorem clone_of_finalized {core : Core α} {r : Except (Failure α) Bool}
    (h : s.formulation.core = some core)
    (hf : finalize p { s with formulation := s.formulation.fresh } = (r, t)) :
    clone p s = (r.bind fun b => if b then .ok t.formulation else .error .cloneUnfinalized,
      { t with formulation := s.formulation }) := by
  rw [clone, bind_of_ok (getFormulation_run s)]
  simp only [h, Option.isNone_some, Bool.false_eq_true, if_false]
  rw [fresh] at hf
  rw [bind_of_ok (modify_run _ s), bind_of_ok (attempt_run hf),
    bind_of_ok (getFormulation_run t), bind_of_ok (modify_run _ t)]
  cases r
  case error => rfl
  case ok b => cases b <;> rfl

theorem clone_effect (p : Problem α) (s : Session α) (handed : List View) (n : Nat) :
    Effect handed n s (clone p s).2 := by
  cases hc : s.formulation.core
  case none => exact clone_of_unfinalized hc ▸ .refl _ _ s
  case some core =>
    have hw := finalize_writes p { s with formulation := s.formulation.fresh }
    cases hf : finalize p { s with formulation := s.formulation.fresh }
    case mk r t =>
      rw [hf] at hw
      rw [clone_of_finalized hc hf]
      exact .of_unwritten ⟨_, rfl⟩ hw

end Formulation

-- What a solver asks about a point, with the vectors and matrices it hands over.
inductive Demand (α : Type) where
  | objective (x : Argument α) (isNew : RawValue α)
  | gradient (x : Argument α) (isNew : RawValue α) (out : Argument α)
  | values (group : ConstraintGroup) (x : Argument α) (isNew : RawValue α) (out : Argument α)
  | jacobian (group : ConstraintGroup) (x : Argument α) (isNew : RawValue α) (out : Argument α)
  | hessian (x : Argument α) (isNew : RawValue α) (factor : α) (multipliers : Argument α)
    (newMultipliers : RawValue α) (out : Argument α)

namespace Demand

def arguments : Demand α → List (Argument α)
  | .objective x _ => [x]
  | .gradient x _ out | .values _ x _ out | .jacobian _ x _ out => [x, out]
  | .hessian x _ _ multipliers _ out => [x, multipliers, out]

-- The answer that the solver gets: an objective or nothing, or whether its arrays were filled.
def run [Scalar α] (p : Problem α) : Demand α → FormulationM α (RawValue α)
  | .objective x isNew => return (← Formulation.objective p x isNew).elim .null .real
  | .gradient x isNew out => return .flag (← Formulation.gradient p x isNew out)
  | .values group x isNew out => return .flag (← Formulation.values p group x isNew out)
  | .jacobian group x isNew out => return .flag (← Formulation.jacobian p group x isNew out)
  | .hessian x isNew factor multipliers newMultipliers out =>
    return .flag (← Formulation.hessian p x isNew factor multipliers newMultipliers out)

end Demand

-- What a solver does with a formulation, apart from finalizing it: it evaluates, it asks for a
-- starting point, it reports, and it has new vectors, matrices and texts made.
inductive Usage (α : Type) where
  | demand (e : Demand α)
  | startingPoint (out : Argument α)
  | solution (status : SolveStatus) (i : InternalIterate α)
  | iterate (progress : Progress α) (i : InternalIterate α)
  | userObjective (f : α)
  | userPoint (x : Argument α)
  | newPrimal
  | newGroupDual (group : ConstraintGroup)
  | newDual
  | newJacobian (group : ConstraintGroup)
  | newHessian
  | newRows (rows capacity : RawValue α)
  | summary
  | printedSummary (heading rank : RawValue α)
  | clone

namespace Usage

def arguments : Usage α → List (Argument α)
  | .demand e => e.arguments
  | .startingPoint x | .userPoint x => [x]
  | .solution _ i | .iterate _ i => i.arguments
  | _ => []

-- The arrays that are handed over.
def handed (u : Usage α) : List View := u.arguments.filterMap Argument.view?

variable [Scalar α]

-- The work, without its result.
def run (p : Problem α) : Usage α → FormulationM α Unit
  | .demand e => do let _ ← e.run p
  | .startingPoint out => do let _ ← Formulation.startingPoint p out
  | .solution status i => Formulation.reportSolution p status i
  | .iterate progress i => do let _ ← Formulation.reportIterate p progress i
  | .userObjective f => do let _ ← Formulation.userObjective f
  | .userPoint x => do let _ ← Formulation.userPoint x
  | .newPrimal => do let _ ← Formulation.newPrimal
  | .newGroupDual group => do let _ ← Formulation.newGroupDual group
  | .newDual => do let _ ← Formulation.newDual
  | .newJacobian group => do let _ ← Formulation.newJacobian group
  | .newHessian => do let _ ← Formulation.newHessian
  | .newRows rows capacity => do let _ ← Formulation.newRows rows capacity
  | .summary => do let _ ← Formulation.summary
  | .printedSummary heading rank => do let _ ← Formulation.printedSummary heading rank
  | .clone => do let _ ← Formulation.clone p

end Usage

open Formulation in
theorem Demand.affects [Scalar α] {c : Setting α} (e : Demand α) (p : Problem α)
    (h : ∀ x ∈ e.arguments, ∀ w ∈ x.view?, w ∈ c.handed) :
    Affects c (e.run p) fun _ => True := by
  cases e
  all_goals
    simp only [arguments, List.forall_mem_cons] at h
    refine .next ?_ fun _ => .done _
  case objective x isNew => exact objective_affects isNew h.left
  case gradient x isNew out => exact gradient_affects isNew h.left h.right.left
  case values group x isNew out => exact values_affects group isNew h.left h.right.left
  case jacobian group x isNew out => exact jacobian_affects group isNew h.left
  case hessian x isNew factor y isNewY out =>
    exact hessian_affects isNew factor isNewY h.left h.right.left

open Formulation in
-- Whatever the solver does, and whatever becomes of it.
theorem Usage.effect [Scalar α] (u : Usage α) (p : Problem α) (s : Session α) :
    Effect u.handed s.store.buffers.length s (u.run p s).2 := by
  let c : Setting α := ⟨s.formulation, u.handed, s.store.buffers.length⟩
  have hs : c.Has s := ⟨⟨_, rfl⟩, Nat.le_refl _⟩
  have hh : ∀ x ∈ u.arguments, ∀ w ∈ x.view?, w ∈ c.handed :=
    fun x hx w hw => List.mem_filterMap.mpr ⟨x, hx, hw⟩
  have hrun {β : Type} {x : FormulationM α β} (h : Affects c x fun _ => True) :
      Effect u.handed s.store.buffers.length s ((do let _ ← x) s : _ × Session α).2 :=
    discard_run x s ▸ (h s hs).left
  cases u
  case demand e => exact hrun (e.affects p hh)
  case startingPoint out => exact hrun (startingPoint_affects (hh out (by simp [arguments])))
  case solution status i => exact ((reportSolution_affects status hh) s hs).left
  case iterate progress i => exact hrun (reportIterate_affects progress hh)
  case userObjective f => exact hrun (userObjective_affects f)
  case userPoint x => exact hrun (userPoint_affects (hh x (by simp [arguments])))
  case newPrimal => exact hrun (.bind .getCore fun _ _ => newVector_affects _)
  case newGroupDual group => exact hrun (.bind .getCore fun _ _ => newVector_affects _)
  case newDual => exact hrun (.bind .getCore fun _ _ => newVector_affects _)
  case newJacobian group => exact hrun (newJacobian_affects group)
  case newHessian => exact hrun newHessian_affects
  case newRows rows capacity => exact hrun (newRows_affects rows capacity)
  case summary => exact hrun summary_affects
  case printedSummary heading rank => exact hrun (printedSummary_affects heading rank)
  case clone => exact discard_run (Formulation.clone p) s ▸ clone_effect p s _ _

end NonlinearProgram
