import NonlinearProgram.Proofs.Formulation.History
import NonlinearProgram.Proofs.Workbench

-- A finalization works with new arrays. Those that were there before it are as they were, however
-- it ends.

namespace NonlinearProgram

open Program FormulationM

variable {α β γ : Type}

namespace Store

variable {s t u : Store α} {n k : Nat}

-- The first `n` arrays, if there are so many, stay as they are.
def Spares (n : Nat) (s t : Store α) : Prop :=
  n ≤ s.buffers.length → n ≤ t.buffers.length ∧ ∀ k < n, t.buffers[k]? = s.buffers[k]?

namespace Spares

theorem refl (n : Nat) (s : Store α) : s.Spares n s :=
  fun hn => ⟨hn, fun _ _ => rfl⟩

theorem trans (h₁ : s.Spares n t) (h₂ : t.Spares n u) : s.Spares n u := by
  intro hn
  have ⟨hn, h₁⟩ := h₁ hn
  have ⟨hn, h₂⟩ := h₂ hn
  exact ⟨hn, fun k hk => (h₂ k hk).trans (h₁ k hk)⟩

theorem of_writes (h : s.Writes (fun _ => False) t) : s.Spares n t := by
  intro hn
  refine ⟨Nat.le_trans hn h.length_le, fun k hk => ?_⟩
  have hb := List.getElem?_eq_getElem (Nat.lt_of_lt_of_le hk hn)
  rw [hb, h.rest hb id]

-- Later arrays may even change their form.
theorem modify (hk : n ≤ k) (f : Buffer α → Buffer α) :
    s.Spares n ⟨s.buffers.modify k f⟩ := by
  intro hn
  refine ⟨by simpa using hn, fun j hj => ?_⟩
  have hne : k ≠ j := by omega
  simp [hne]

-- Nothing is written into what was there.
theorem writes (h : s.Spares s.buffers.length t) : s.Writes (fun _ => False) t := by
  have ⟨_, h⟩ := h (Nat.le_refl _)
  have hb {k : Nat} {b : Buffer α} (hb : s.buffers[k]? = some b) : t.buffers[k]? = some b :=
    (h k (List.getElem?_eq_some_iff.mp hb |>.choose)).trans hb
  exact { form := fun h => ⟨_, hb h, rfl, rfl, rfl⟩, rest := fun h _ => hb h }

end Spares
end Store

namespace Relaxer

-- A relaxation replaces the widths that it produced the last time.
theorem relax_spares [Scalar α] {q : Relaxer α} {n : Nat} (h : n ≤ q.gaps.buffer) (l u : View) :
    Keeps (Store.Spares n) (q.relax l u) := by
  intro s
  rw [relax, bind_of_ok (StoreM.read_run l s), bind_of_ok (StoreM.read_run u s)]
  cases q.relaxed (s.read l) (s.read u)
  case error => exact .refl n s
  case ok relaxed =>
    have hw : s.Writes (fun _ => False) ((s.alloc relaxed.1).2.alloc relaxed.2.1).2 :=
      .and_then (.alloc _) (.alloc _)
    exact .trans (.of_writes hw) (.modify h _)

end Relaxer

namespace Chain

-- Bounds are mapped to new arrays, and the widths of relaxed ones are replaced.
theorem boundsToInternal_spares [Scalar α] {c : Chain α} {n : Nat}
    (h : ∀ item ∈ c.items, ∀ w ∈ item.arrays, n ≤ w.buffer) (bounds : View × View) :
    Keeps (Store.Spares n) (c.boundsToInternal bounds) := by
  refine Keeps.foldlM (.refl n) .trans (fun item hi bounds => ?_) bounds
  cases item
  case remover r =>
    have hg (v : View) : Keeps (Store.Spares n) (r.gatherNew v) :=
      fun s => .of_writes (r.gatherNew_writes v s)
    exact .bind .trans (hg _) fun _ => .bind .trans (hg _) fun _ => .pure (.refl n) _
  case relaxer q => exact q.relax_spares (h _ hi _ (by simp [Transformation.arrays])) _ _
  case objective => exact .pure (.refl n) _

end Chain

namespace FormulationM

-- Work in a session that leaves the first `n` arrays alone.
def Spares (n : Nat) (x : FormulationM α β) : Prop :=
  ∀ s : Session α, s.store.Spares n (x s).2.store

namespace Spares

variable {x : FormulationM α β} {f : β → FormulationM α γ} {n : Nat}

theorem bind (hx : Spares n x) (hf : ∀ b, Spares n (f b)) : Spares n (x >>= f) :=
  Keeps.bind (R := fun s t : Session α => s.store.Spares n t.store) Store.Spares.trans hx hf

theorem of_same (h : ∀ s, (x s).2.store = s.store) : Spares n x :=
  fun s => h s ▸ .refl n s.store

theorem pure (b : β) : Spares n (pure b : FormulationM α β) :=
  of_same fun _ => rfl

theorem of_traces (h : Traces x) : Spares n x := by
  intro s
  have ⟨calls, h⟩ := h s
  rw [h]
  exact .refl n s.store

theorem ofExcept {ε : Type} (reason : ε → Failure α) (r : Except ε β) :
    Spares n (ofExcept reason r) :=
  .of_traces (.ofExcept reason r)

theorem onStore {act : StoreM α β} (h : Keeps (Store.Spares n) act) : Spares n (onStore act) :=
  fun s => h s.store

theorem onStore_writes {act : StoreM α β} (h : Keeps (Store.Writes fun _ => False) act) :
    Spares n (FormulationM.onStore act) :=
  .onStore fun s => .of_writes (h s)

theorem ite {c : Prop} [Decidable c] {y : FormulationM α β} (hx : Spares n x) (hy : Spares n y) :
    Spares n (if c then x else y) := by
  split
  · exact hx
  · exact hy

end Spares
end FormulationM

namespace Core

variable [Scalar α] {p : Problem α} {o : Options α} {c : Communicator α} {n : Nat}
  {s t : Session α} {core : Core α} {treated : Treatment α}

omit [Scalar α] in
theorem create_spares
    (make : Store α → Except (TransformationError α) (Transformation α × Store α))
    (h : ∀ {s item t}, make s = .ok (item, t) → s.Writes (fun _ => False) t) :
    Spares n (create make) := by
  intro s
  rw [create, bind_of_ok (get_run s)]
  cases hm : make s.store
  case error => exact .refl n _
  case ok made => exact .of_writes (h hm)

theorem treat_spares (policy : FixedPolicy) (o : Options α) (layout : Layout) (d : Declared α)
    (mask : List Bool) (count : Int) : Spares n (treat policy o layout d mask count) := by
  rw [treat.eq_def]
  cases policy
  case keep => exact .pure _
  case remove =>
    have hc := create_spares (n := n) (Transformation.createRemover mask (midpoints d))
      fun h => (Transformation.createRemover_makes h).choose_spec.right.right.left
    exact .ite (.pure _) <| .bind hc fun _ => .bind (.ofExcept _ _) fun _ =>
      .bind (.ofExcept _ _) fun _ => .bind (.of_same fun _ => rfl) fun _ => .pure _
  case relax =>
    have hc := create_spares (n := n) (Transformation.createRelaxer mask o.tolerance)
      fun h => (Transformation.createRelaxer_makes h).choose_spec.right.left
    exact .ite (.pure _) <| .bind hc fun _ => .bind (.ofExcept _ _) fun _ =>
      .bind (.of_same fun _ => rfl) fun _ => .pure _

-- The arrays of the transformations are new.
theorem treat_fresh {policy : FixedPolicy} {layout : Layout} {d : Declared α} {mask : List Bool}
    {count : Int} (h : treat policy o layout d mask count s = (.ok treated, t)) :
    ∀ item ∈ treated.chain.items, ∀ w ∈ item.arrays, s.store.buffers.length ≤ w.buffer := by
  intro item hi w hw
  cases treat_run_iff.mp h
  case identity => simp at hi
  case removed hmake hchain _ =>
    obtain ⟨_, _, _, _, hnew⟩ := Transformation.createRemover_makes hmake
    rw [append_eq_ok hchain, List.nil_append, List.mem_singleton] at hi
    exact (hnew w (hi ▸ hw)).left
  case relaxed hmake hchain =>
    obtain ⟨_, _, _, hnew⟩ := Transformation.createRelaxer_makes hmake
    rw [append_eq_ok hchain, List.nil_append, List.mem_singleton] at hi
    exact (hnew w (hi ▸ hw)).left

omit [Scalar α] in
-- A vector that cannot be written is not an old one.
theorem constant_spares (layout : Layout) (xs : List α) : Spares n (constant c layout xs) := by
  intro s
  rw [constant, bind_of_ok (onStore_of_ok (StoreM.alloc_run _ _))]
  cases DistributedVector.ofView layout (s.store.alloc (Tensor.ofList xs)).1 (some c)
  case error => exact .of_writes (.alloc _)
  case ok v =>
    have hw : s.store.Writes (fun _ => False) (s.store.frozen xs) := .frozen xs
    rw [← Store.freeze_alloc] at hw
    exact .of_writes hw

omit [Scalar α] in
theorem boundVectors_spares (layout : Layout) (lower upper : List α) (classes : BoundClasses α) :
    Spares n (boundVectors c layout lower upper classes) := by
  rw [boundVectors]
  exact .bind (constant_spares _ _) fun _ => .bind (constant_spares _ _) fun _ =>
    .bind (constant_spares _ _) fun _ => .bind (constant_spares _ _) fun _ => .pure _

theorem internalBounds_spares {chain : Chain α} (d : Declared α)
    (h : ∀ item ∈ chain.items, ∀ w ∈ item.arrays, n ≤ w.buffer) :
    Spares n (internalBounds chain d) := by
  have halloc (x : Tensor α) : Keeps (Store.Spares n) (StoreM.alloc x) :=
    fun s => .of_writes (.alloc x)
  have hentries (v : View) : Keeps (Store.Spares n) (StoreM.entries v : StoreM α _) :=
    fun s => .refl n s
  exact .onStore <| .bind .trans (halloc _) fun _ => .bind .trans (halloc _) fun _ =>
    .bind .trans (Chain.boundsToInternal_spares h _) fun (l, u) =>
    .bind .trans (hentries l) fun _ => .bind .trans (hentries u) fun _ => .pure (.refl n) _

theorem assemble_spares (v : Survey α) (policy : FixedPolicy) (fixedCount : Int)
    (h : ∀ item ∈ treated.chain.items, ∀ w ∈ item.arrays, n ≤ w.buffer) :
    Spares n (assemble o c v policy fixedCount treated) := by
  have hp (s : Session α) : (partConstraints o v.constraintData s).2.store = s.store := by
    rw [partConstraints]
    cases ConstraintSplit.ofBounds? o.infinity v.constraintData.lower v.constraintData.upper
      v.constraintData.types <;> rfl
  exact .bind (internalBounds_spares _ h) fun _ => .bind (.of_same hp) fun split =>
    .bind (boundVectors_spares _ _ _ _) fun bounds => .bind (constant_spares _ _) fun rhs =>
    .bind (boundVectors_spares _ _ _ _) fun slacks =>
    .bind (.bind (.of_traces (.sumOverRanks _ _)) fun _ =>
      .bind (.of_traces (.sumOverRanks _ _)) fun _ =>
      .bind (.of_traces (.sumOverRanks _ _)) fun _ => .pure _) fun _ => .pure _

omit [Scalar α] in
theorem choosePolicy_store (requested : FixedPolicy) (count : Int) (distributed canRemove : Bool)
    (s : Session α) : (choosePolicy requested count distributed canRemove s).2.store = s.store := by
  simp only [choosePolicy, ite_run]
  split <;> rfl

theorem finish_spares (canRemove : Bool) (v : Survey α) (fixedCount : Int) :
    Spares n (finish o c canRemove v fixedCount) := by
  refine .bind (.of_same (choosePolicy_store _ _ _ _)) fun policy s hn => ?_
  have ht := treat_spares (n := n) policy o v.layout v.variableData
    (fixedVariables o v.variableData) fixedCount s
  -- The chain that bounds are mapped with was made just before.
  cases htr : treat policy o v.layout v.variableData (fixedVariables o v.variableData) fixedCount s
  case mk r u =>
    rw [htr] at ht
    cases r
    case error e => exact bind_of_error htr _ ▸ ht hn
    case ok treated =>
      have hfresh := treat_fresh htr
      rw [bind_of_ok htr]
      refine ht.trans (assemble_spares v policy fixedCount (fun item hi w hw => ?_) u) hn
      exact Nat.le_trans hn (hfresh item hi w hw)

theorem build_spares (p : Problem α) (o : Options α) (c : Communicator α) (canRemove : Bool) :
    Spares n (build p o c canRemove) :=
  .bind (.of_traces (survey_traces p o c)) fun v => .bind (.of_traces (.sumOverRanks _ _)) fun _ =>
    finish_spares canRemove v _

-- A core has transformations of its own.
theorem build_fresh {canRemove : Bool} (h : build p o c canRemove s = (.ok core, t)) :
    ∀ item ∈ core.chain.items, ∀ w ∈ item.arrays, s.store.buffers.length ≤ w.buffer := by
  obtain ⟨v, u₁, h₁, h⟩ := bind_eq_ok.mp h
  obtain ⟨count, u₂, h₂, h⟩ := bind_eq_ok.mp h
  obtain ⟨policy, u₃, h₃, h⟩ := bind_eq_ok.mp h
  obtain ⟨treated, u₄, h₄, h⟩ := bind_eq_ok.mp h
  have hu₁ : u₁.store = s.store := by
    have ⟨calls, ht⟩ := survey_traces p o c s
    rw [h₁] at ht
    have ht : u₁ = s.traced calls := ht
    rw [ht]
    rfl
  have hu₂ : u₂.store = u₁.store := by
    rw [(sumOverRanks_eq_ok.mp h₂).right]
    rfl
  have hu₃ : u₃.store = u₂.store := by
    have hs := choosePolicy_store o.policy count v.layout.isDistributed canRemove u₂
    rwa [h₃] at hs
  have hfresh := treat_fresh h₄
  rwa [← (treated_of_assemble h).left, hu₃, hu₂, hu₁] at hfresh

end Core

namespace Formulation

variable [Scalar α] {p : Problem α} {s t : Session α} {n : Nat}

theorem derive_spares (p : Problem α) : Spares n (derive p) := by
  intro s
  rw [derive_run]
  refine Spares.bind (Core.build_spares _ _ _ _) (fun core => ?_) s
  cases s.formulation.kind
  case dense => exact .pure _
  case mixed => exact .bind (.of_traces (.of_asks (askBlockSizes_asks p core))) fun _ => .pure _

theorem zeros_spares (axes : List Int) : Spares (α := α) n (onStore (StoreM.zeros axes)) := by
  refine .onStore_writes fun s => ?_
  rw [StoreM.zeros]
  cases allocationFault? Tensor.scalarWidth axes
  case none => exact .alloc _
  case some => exact .refl _ s

theorem allocate_spares (core : Core α) : Spares n (allocate core) := by
  rw [allocate]
  refine .bind (zeros_spares _) fun _ => .bind (.of_same fun _ => rfl) fun _ =>
    .bind (zeros_spares _) fun _ => .bind (.of_same fun _ => rfl) fun _ =>
    .bind (.of_same fun _ => rfl) fun f => ?_
  cases f.kind
  case dense =>
    exact .bind (zeros_spares _) fun _ => .bind (.of_same fun _ => rfl) fun _ =>
      .bind (zeros_spares _) fun _ => .of_same fun _ => rfl
  case mixed => exact .bind (zeros_spares _) fun _ => .of_same fun _ => rfl

theorem finalize_spares (p : Problem α) : Spares n (finalize p) := by
  intro s
  have hd := derive_spares (n := n) p s
  obtain ⟨_, _, h, hf⟩ | ⟨_, _, _, h, hf⟩ | ⟨core, blocks, u, h, hf⟩ := finalize_cases p s
  case inl => rw [hf]; rwa [h] at hd
  case inr.inl => rw [hf]; rwa [h] at hd
  case inr.inr =>
    have hd : s.store.Spares n u.store := by rwa [h] at hd
    have ha : FormulationM.Spares n (do
        allocate core
        emit (.finalized (← getFormulation).text)
        return true : FormulationM α Bool) :=
      .bind (allocate_spares core) fun _ => .of_same fun _ => rfl
    rw [hf]
    exact hd.trans (t := { u with
      formulation := { u.formulation with core := some core, blocks := blocks } }.store) (ha _)

-- However a finalization ends, nothing is written into the arrays that there were.
theorem finalize_writes (p : Problem α) (s : Session α) :
    s.store.Writes (fun _ => False) (finalize p s).2.store :=
  (finalize_spares p s).writes

-- A formulation is finalized with arrays that were not there before.
theorem finalize_fresh {d : Finalized α} (h : finalize p s = (.ok true, t))
    (hd : t.formulation.finalized = some d) :
    ∀ w ∈ d.scratch, s.store.buffers.length ≤ w.buffer := by
  obtain ⟨v, d', _, _, u, _, hb, hderive, hnew, hF, _⟩ := parts_of_finalize h
  cases hF.finalized.symm.trans hd
  have hle : s.store.buffers.length ≤ u.store.buffers.length := by
    have hw := (derive_spares p s).writes.length_le
    rwa [hderive] at hw
  intro w hw
  obtain hw | hw := List.mem_append.mp hw
  · exact Nat.le_trans hle (hnew w hw)
  · have ⟨item, hi, hw⟩ := List.mem_flatMap.mp hw
    refine Core.build_fresh hb item hi w ?_
    cases item
    case remover r => exact hw
    all_goals simp [Transformation.scratch] at hw

end Formulation
end NonlinearProgram
