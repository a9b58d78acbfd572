import NonlinearProgram.Proofs.Formulation.Exchange

-- Every evaluation that is given vectors of the right sizes, and a matrix that it takes, has one
-- exchange with the problem.

namespace NonlinearProgram

open Program FormulationM Session

variable {α : Type}

-- A gradient in the user's coordinates is brought to the internal ones.
theorem Chain.Eliminates.gradientToInternal_run {c : Chain α} {mask : List Bool} {values : List α}
    {s : Store α} {u : View} (h : c.Eliminates mask values s) (hu : u.shape = [mask.length])
    (hs : s.Valid u) :
    ∃ g t, c.gradientToInternal u s = (.ok g, t) ∧ g.shape = [(clearPositions mask).length] ∧
      s.Writes (fun _ => False) t := by
  cases h
  case kept hi hm _ =>
    refine ⟨u, s, (hi.foldlM (fun _ _ _ => rfl) u s).left, ?_, .refl _ s⟩
    rw [hu, length_clear_of_kept hm]
  case removed r hi hr =>
    let g := restrict mask (s.entries u)
    have hg : g.length = (clearPositions mask).length :=
      length_restrict (Store.length_entries_of_shape hs hu)
    refine ⟨(s.alloc (Tensor.ofList g)).1, (s.alloc (Tensor.ofList g)).2, ?_, ?_, .alloc _⟩
    · simp [Chain.gradientToInternal, hi, bind_run, Transformation.gradientToInternal,
        r.gatherNew_run hr hu hs, g]
    · exact congrArg (fun n => [n]) hg

namespace Formulation

variable [Scalar α] {p : Problem α} {d : Finalized α} {o : Options α} {v : Core.Survey α}
  {s t : Session α} {x y out : Argument α} {w wy wo : View} {xs ys zs : List α}

-- The user's point is made in the scratch arrays, and the formulation is ready as before.
theorem pointToUser_prepares (h : Ready p d o v s) (hx : d.Lent s.store x w xs)
    (hl : (xs.length : Int) = d.core.localSize) :
    ∃ u t, pointToUser x s = (.ok u, t) ∧ Prepares d s t ∧ Ready p d o v t ∧
      (u = w ∨ u = d.point) := by
  obtain ⟨u, t, hp, ht, _, _, _, hw, he, hor⟩ := pointToUser_run h hx (h.length_eq hl)
  replace hw := hw.mono fun _ => Finalized.HoldsPoint.isScratch
  have hf : t.formulation = s.formulation := by rw [ht]
  exact ⟨u, t, hp, ⟨ht, hw⟩, h.undisturbed (h.writes ⟨_, hf⟩ hw h.writable he), hor⟩

-- A point of a wrong size is rejected before anything has been done with it.
theorem pointToUser_rejects (h : Ready p d o v s) (hx : d.Lent s.store x w xs)
    (hl : (x.size : Int) ≠ d.core.localSize) :
    pointToUser x s = (.error (.breach (.pointSize x.size d.core.localSize)), s) := by
  rw [pointToUser, bind_of_ok (localPart_run hx.view s), bind_of_ok (getCore_run h.finalized),
    hx.view_size, if_pos hl]
  rfl

-- An objective that is a number, but not a finite one.
def IsNotFinite (r : Except Fault (RawValue α)) : Prop :=
  ∃ answer f, r = .ok answer ∧ answer.toScalar = .ok f ∧ Scalar.isFinite f = false

-- An answer that is no number is a fault of its own, and one that is not finite is a failure.
theorem finite_reports {c : Chain α} (hc : ∀ f, c.objectiveToInternal f = f) (answer : RawValue α)
    (s : Session α) :
    Reports .objective (∃ f, answer.toScalar = .ok f ∧ Scalar.isFinite f = false) none
      ((answer.toScalar.mapError .numeric).map some)
      (do
        let f ← ofExcept .numeric answer.toScalar
        if Scalar.isFinite f then return some (c.objectiveToInternal f)
        else
          emit (.objectiveNotFinite f)
          return none) s := by
  cases hf : answer.toScalar
  case error fault =>
    refine ⟨?_, fun _ => ⟨rfl, rfl⟩⟩
    rintro ⟨_, ⟨⟩, _⟩
  case ok f =>
    refine .after (ofExcept_eq_ok.mpr ⟨rfl, rfl⟩) rfl ?_
    cases hfin : Scalar.isFinite f
    case false =>
      exact ⟨fun _ => ⟨_, .objectiveNotFinite f, rfl, rfl⟩, fun h => absurd ⟨f, rfl, hfin⟩ h⟩
    case true =>
      refine ⟨?_, fun _ => ?_⟩
      · rintro ⟨f', ⟨⟩, hf'⟩
        cases hfin.symm.trans hf'
      · rw [hc]
        exact ⟨rfl, rfl⟩

theorem objective_consults (h : Ready p d o v s) (hx : d.Lent s.store x w xs)
    (hl : (xs.length : Int) = d.core.localSize) (q : Problem α) (isNew : RawValue α) :
    ∃ ex, Consults q d ex .objective [.objective]
      (BacksOff ex.outcome ∨ IsNotFinite ex.outcome) none
      (passedOn (fun answer => (answer.toScalar.mapError .numeric).map some) ex.outcome)
      (objective q x isNew) s := by
  obtain ⟨u, t, hp, hpt, ht, _⟩ := pointToUser_prepares h hx hl
  let e : Evaluation α := .objective ⟨d.core.userSize, t.store.read u, isNew⟩
  cases hcall : (q.evaluate e).run (slots u none none) ⟨t.store, {}⟩
  case mk r arena =>
    let ex : Exchange α := ⟨e, r, arena.workspace⟩
    have hbody : Consults q d ex .objective [.objective] (BacksOff r) none
        (passedOn (fun answer => .ok (some answer)) r) (timed .objective do
          let point ← pointToUser x
          let e := .objective (← pointAt point isNew)
          judge .objective (← invoke q e (slots point none none) {}).1) s := by
      refine .timed ?_
      refine .after hp hpt ?_
      refine .after (pointAt_run ht.finalized u isNew) (.refl d t) ?_
      exact invoke_consults ex (.objective ..) hcall (judge_ledger _ _) (judge_reports _ _ _)
    refine ⟨ex, ?_⟩
    refine .after (getCore_run h.finalized) (.refl d s) (hbody.bind ?tail ?reports)
    case tail =>
      rintro (_ | a)
      · exact fun s => .refl s
      · refine Ledger.keeps_bind (fun s => ?_) fun f s => ?_
        · rw [ofExcept_run]
          exact .refl s
        · rw [ite_run]
          split <;> exact .of_same rfl rfl
    case reports =>
      have hfails : BacksOff r ∨ IsNotFinite r ↔ BacksOff r ∨ ∃ b,
          passedOn (fun answer => .ok (some answer)) r = (.ok b : Except (Failure α) _) ∧
            ∃ answer f, b = some answer ∧ answer.toScalar = .ok f ∧
              Scalar.isFinite f = false := by
        cases r <;> simp [IsNotFinite, passedOn]
      have hgiven : passedOn (fun answer => (answer.toScalar.mapError .numeric).map some) r =
          (passedOn (fun answer => .ok (some answer)) r).bind fun a : Option (RawValue α) =>
            a.elim (.ok none) fun answer => (answer.toScalar.mapError .numeric).map some := by
        cases r <;> rfl
      refine .of_eq hfails hgiven (hbody.reports.bind (fun _ => rfl) fun b t _ hb => ?_)
      obtain ⟨answer, rfl⟩ : ∃ answer, b = some answer := by
        cases r
        case error => cases hb
        case ok answer => exact ⟨answer, (Except.ok.inj hb).symm⟩
      have hobjective (f : α) : d.core.chain.objectiveToInternal f = f :=
        (h.eliminates.objective f).left
      exact .of_eq (by simp) rfl (finite_reports hobjective answer t)

-- The last step of an evaluation of the gradient.
def deliverGradient (d : Finalized α) (out : View) : FormulationM α Bool := do
  onStore do
    let g ← d.core.chain.gradientToInternal d.gradient
    StoreM.assign out (← StoreM.read g)
  return true

-- The gradient is delivered unless the solver's array cannot be written.
theorem deliverGradient_run (he : d.core.chain.Eliminates (v.eliminated o d.core)
      (Core.midpoints v.variableData) s.store)
    (hg : s.store.Owns d.gradient [(v.eliminated o d.core).length]) (hv : s.store.Valid wo)
    (hw : wo.shape = [v.internalSize o d.core]) :
    ∃ st, deliverGradient d wo s =
      (if s.store.writable wo then .ok true else .error (.numeric .readOnly),
        { s with store := st }) ∧
      (s.store.writable wo = false → s.store.Writes (fun _ => False) st) := by
  obtain ⟨g, st, hrun, hshape, hwr⟩ := he.gradientToInternal_run hg.left hg.valid
  rw [deliverGradient, ← hwr.writable hv, bind_run, onStore, bind_of_ok hrun,
    bind_of_ok (StoreM.read_run g st)]
  cases hwo : st.writable wo
  case false =>
    refine ⟨st, ?_, fun _ => hwr⟩
    simp [StoreM.assign, bind_run, hwo, Except.mapError]
  case true =>
    rw [StoreM.assign_run hwo (hshape.trans hw.symm) (by simp [hw])]
    exact ⟨_, rfl, fun h => absurd h (by decide)⟩

-- Whatever a callback has done before.
theorem deliverGradient_after {u : View} {e : Evaluation α} {workspace : Workspace α}
    {r : Except Fault (RawValue α)} {arena : Arena α} {q : Problem α} (h : Ready p d o v s)
    (hx : d.Lent s.store x w xs) (hu : u = w ∨ u = d.point) (hout : d.Lent s.store out wo zs)
    (hz : (zs.length : Int) = d.core.localSize)
    (hcall : (q.evaluate e).run (slots u (some d.gradient) none) ⟨s.store, workspace⟩ =
      (r, arena)) :
    ∃ st, deliverGradient d wo { s.traced [.evaluation e] with store := arena.store } =
      (if s.store.writable wo then .ok true else .error (.numeric .readOnly),
        { s.traced [.evaluation e] with store := st }) ∧
      (s.store.writable wo = false → arena.store.Writes (fun _ => False) st) := by
  have hfar : ∀ slot k, slots u (some d.gradient) none slot = some k →
      ∀ c ∈ d.core.chain.scratch, k.buffer ≠ c.buffer := by
    rintro (_ | _ | _) k ⟨⟩
    · exact h.point_apart hx hu
    · exact h.intact.separate d.gradient (by simp [Finalized.arrays])
  have hcallee := h.eliminates.after_run (q.evaluate e) workspace hfar
  have hreach := (q.evaluate e).run_writes (slots u (some d.gradient) none) ⟨s.store, workspace⟩
  rw [hcall] at hcallee hreach
  have hwritable : arena.store.writable wo = s.store.writable wo := hreach.writable hout.valid
  obtain ⟨st, hd, hunwritten⟩ := deliverGradient_run
    (s := { s.traced [.evaluation e] with store := arena.store }) hcallee
    (h.length_eliminated ▸ h.intact.gradient.writes hreach) (hreach.valid hout.valid)
    (hout.shape.trans (congrArg (List.cons · []) (h.length_eq hz)))
  rw [← hwritable]
  exact ⟨st, hd, hunwritten⟩

theorem gradient_consults (h : Ready p d o v s) (hx : d.Lent s.store x w xs)
    (hl : (xs.length : Int) = d.core.localSize) (hout : d.Lent s.store out wo zs)
    (hz : (zs.length : Int) = d.core.localSize) (q : Problem α) (isNew : RawValue α) :
    ∃ ex, Consults q d ex .gradient [.gradient] (BacksOff ex.outcome) false
      (passedOn (fun _ => if s.store.writable wo then .ok true else .error (.numeric .readOnly))
        ex.outcome) (gradient q x isNew out) s := by
  obtain ⟨u, t, hp, hpt, ht, hor⟩ := pointToUser_prepares h hx hl
  have hx' := hx.writes_scratch hpt.writes
  have hout' := hout.writes_scratch hpt.writes
  let e : Evaluation α :=
    .gradient ⟨d.core.userSize, t.store.read u, isNew⟩ (t.store.entries d.gradient)
  cases hcall : (q.evaluate e).run (slots u (some d.gradient) none) ⟨t.store, {}⟩
  case mk r arena =>
    refine ⟨⟨e, r, arena.workspace⟩, ?_⟩
    refine .after (getCore_run h.finalized) (.refl d s) ?_
    refine .after (localPart_run hout.view s) (.refl d s) ?_
    refine .guard (by simpa [hout.view_size, hout.size] using hz) ?_
    refine .timed (.after hp hpt ?_)
    refine .after (getPart_run (finalized_eq_some.mp ht.finalized).right.right.left) (.refl d t) ?_
    refine .after (onStore_of_ok (StoreM.entries_run _ _)) (.refl d t) ?_
    refine .after (pointAt_run ht.finalized u isNew) (.refl d t) ?_
    refine invoke_consults ⟨e, r, arena.workspace⟩ (.gradient ..) hcall ?ledger ?reports
    case ledger =>
      refine Ledger.keeps_bind (judge_ledger _ _) ?_
      rintro (_ | _)
      · exact fun s => .refl s
      · exact Ledger.keeps_bind (fun s => .of_same rfl rfl) fun _ s => .refl s
    case reports =>
      refine judge_bind_reports (fun _ => rfl) fun answer _ => ?_
      obtain ⟨_, hd, _⟩ := deliverGradient_after ht hx' hor hout' hz hcall
      rw [hpt.writes.writable hout.valid] at hd
      exact ⟨congrArg Prod.fst hd, congrArg (fun r => r.2.events) hd⟩

theorem values_consults {group : ConstraintGroup} (h : Ready p d o v s)
    (hx : d.Lent s.store x w xs) (hl : (xs.length : Int) = d.core.localSize)
    (hout : d.Lent s.store out wo zs) (hz : zs.length = (d.core.indices group).length)
    (q : Problem α) (isNew : RawValue α) :
    ∃ ex, Consults q d ex (.values group) [.values group] (BacksOff ex.outcome) false
      (passedOn (fun _ => .ok true) ex.outcome) (values q group x isNew out) s := by
  obtain ⟨u, t, hp, hpt, ht, _⟩ := pointToUser_prepares h hx hl
  let e : Evaluation α := .constraints ⟨d.core.userSize, t.store.read u, isNew⟩
    d.core.constraintCount (d.core.indices group) (t.store.read wo)
  cases hcall : (q.evaluate e).run (slots u (some wo) none) ⟨t.store, {}⟩
  case mk r arena =>
    refine ⟨⟨e, r, arena.workspace⟩, ?_⟩
    refine .after (getCore_run h.finalized) (.refl d s) ?_
    refine .after (localPart_run hout.view s) (.refl d s) ?_
    refine .guard (by simpa [hout.view_size, hout.size] using hz) ?_
    refine .timed (.after hp hpt ?_)
    refine .after (onStore_read_run wo t) (.refl d t) ?_
    refine .after (pointAt_run ht.finalized u isNew) (.refl d t) ?_
    refine invoke_consults ⟨e, r, arena.workspace⟩ (.constraints ..) hcall ?_ ?_
    · exact Ledger.keeps_bind (judge_ledger _ _) fun _ s => .refl s
    · exact judge_bind_reports (fun _ => rfl) fun _ _ => ⟨rfl, rfl⟩

-- A matrix that the problem fills itself.
theorem fillMatrix_consults (h : Ready p d o v s) (hx : d.Lent s.store x w xs)
    (hl : (xs.length : Int) = d.core.localSize) (q : Problem α) (op : Operation)
    (indices : List Nat) (isNew : RawValue α) (k : Nat) (a : DenseMatrix α) :
    ∃ ex, Consults q d ex op [] (BacksOff ex.outcome) false
      (passedOn (fun _ => .ok true) ex.outcome)
      (fillMatrix q op d.core indices x isNew k a) s := by
  obtain ⟨u, t, hp, hpt, ht, _⟩ := pointToUser_prepares h hx hl
  let e : Evaluation α := .denseJacobian ⟨d.core.userSize, t.store.read u, isNew⟩
    d.core.constraintCount indices a.active
  cases hcall : (q.evaluate e).run (slots u none none) ⟨t.store, { dense := a.active }⟩
  case mk r arena =>
    refine ⟨⟨e, r, arena.workspace⟩, ?_⟩
    refine .after hp hpt ?_
    refine .after (pointAt_run ht.finalized u isNew) (.refl d t) ?_
    refine invoke_consults ⟨e, r, arena.workspace⟩ (.denseJacobian ..) hcall ?_ ?_
    · exact Ledger.keeps_bind (fun s => .of_same rfl rfl) fun _ =>
        Ledger.keeps_bind (judge_ledger _ _) fun _ s => .refl s
    · exact .after (modify_run _ _) rfl (judge_bind_reports (fun _ => rfl) fun _ _ => ⟨rfl, rfl⟩)

-- Scratch rows that the problem fills, of which the internal columns are copied.
theorem fillThroughScratch_consults {scratch : View} {indices : List Nat} (h : Ready p d o v s)
    (hx : d.Lent s.store x w xs) (hl : (xs.length : Int) = d.core.localSize)
    (hw : scratch ∈ d.arrays)
    (ho : s.store.Owns scratch [indices.length, v.layout.localSize.toNat]) (q : Problem α)
    (op : Operation) (isNew : RawValue α) (k : Nat) (a : DenseMatrix α) :
    ∃ ex, Consults q d ex op [] (BacksOff ex.outcome) false
      (passedOn (fun _ => .ok true) ex.outcome)
      (fillThroughScratch q op d.core indices scratch x isNew k a) s := by
  obtain ⟨u, t, hp, hpt, ht, hor⟩ := pointToUser_prepares h hx hl
  have ho' := ho.writes hpt.writes
  let stale := Rows.ofEntries indices.length d.core.userLayout.localSize.toNat
    (t.store.entries scratch)
  have hstale : stale.map List.length =
      List.replicate indices.length (v.eliminated o d.core).length := by
    rw [h.length_eliminated, ← h.intact.describes.userLayout]
    refine Rows.form_ofEntries ?_
    rw [Store.length_entries_of_shape_pair ho'.valid ho'.left, h.intact.describes.userLayout]
  let e : Evaluation α := .denseJacobian ⟨d.core.userSize, t.store.read u, isNew⟩
    d.core.constraintCount indices stale
  have hfar : ∀ slot k, slots u none none slot = some k →
      ∀ c ∈ d.core.chain.scratch, k.buffer ≠ c.buffer := by
    rintro (_ | _ | _) k ⟨⟩
    exact h.point_apart hx hor
  have hcallee := ht.eliminates.after_run (q.evaluate e) { dense := stale } hfar
  have hreach := (q.evaluate e).run_writes (slots u none none) ⟨t.store, { dense := stale }⟩
  have hform := (q.evaluate e).run_form (slots u none none) ⟨t.store, { dense := stale }⟩
  cases hcall : (q.evaluate e).run (slots u none none) ⟨t.store, { dense := stale }⟩
  case mk r arena =>
    rw [hcall] at hcallee hreach hform
    refine ⟨⟨e, r, arena.workspace⟩, ?_⟩
    refine .after hp hpt ?_
    refine .after (onStore_of_ok (StoreM.entries_run scratch _)) (.refl d t) ?_
    refine .after (pointAt_run ht.finalized u isNew) (.refl d t) ?_
    refine invoke_consults ⟨e, r, arena.workspace⟩ (.denseJacobian ..) hcall ?ledger ?reports
    case ledger =>
      refine Ledger.keeps_bind (fun s => .of_same rfl rfl) fun _ =>
        Ledger.keeps_bind (judge_ledger _ _) ?_
      rintro (_ | _)
      · exact fun s => .refl s
      · exact Ledger.keeps_bind (fun s => .of_same rfl rfl) fun _ =>
          Ledger.keeps_bind (fun s => .of_same rfl rfl) fun _ s => .refl s
    case reports =>
      refine .after (modify_run _ _) rfl (judge_bind_reports (fun _ => rfl) fun answer _ => ?_)
      have ho'' : arena.store.Owns scratch [indices.length, (v.eliminated o d.core).length] :=
        h.length_eliminated ▸ ho'.writes hreach
      obtain ⟨xs, st, hinner, _⟩ := Chain.Eliminates.rowsToInternal_run hcallee ho''
        (fun b hb => Ne.symm (h.intact.separate scratch hw b hb)) (hform.trans hstale)
      dsimp only
      rw [bind_of_ok (onStore_of_ok hinner), bind_of_ok (modify_run _ _)]
      exact ⟨rfl, rfl⟩

-- A matrix of the right kind for a Jacobian, with the right rows and columns.
def takesJacobian (d : Finalized α) (s : Session α) (group : ConstraintGroup) (out : Argument α) :
    Bool :=
  match s.matrix? out, d.derivatives with
  | some (.dense a), .dense _ _ =>
    a.rows = (d.core.indices group).length && (a.localColumns : Int) = d.core.localSize
  | some (.mixed a), .mixed blocks _ => a.rows = (d.core.indices group).length &&
    a.sparse.columnsGiven.isSame blocks.sparse && blocks.dense.isNumber a.denseColumns
  | _, _ => false

-- There are two kinds of matrices to take, one for each kind of formulation.
theorem takesJacobian_eq_true {group : ConstraintGroup}
    (hd : s.formulation.finalized = some d) (ht : takesJacobian d s group out) :
    (∃ k a, out = .matrix k ∧ s.formulation.kind = .dense ∧
      s.matrix? (.matrix k) = some (.dense a) ∧ a.rows = (d.core.indices group).length ∧
      (a.localColumns : Int) = d.core.localSize) ∨
    ∃ k a blocks scratch, out = .matrix k ∧ s.formulation.kind = .mixed ∧
      d.derivatives = .mixed blocks scratch ∧ s.matrix? (.matrix k) = some (.mixed a) ∧
      (a.rows = (d.core.indices group).length && a.sparse.columnsGiven.isSame blocks.sparse &&
        blocks.dense.isNumber a.denseColumns) := by
  have hkind := kind_of_finalized hd
  rw [takesJacobian] at ht
  split at ht
  case h_1 a _ _ hm hb =>
    cases out
    case matrix k =>
      rw [Bool.and_eq_true, decide_eq_true_iff, decide_eq_true_iff] at ht
      exact .inl ⟨k, a, rfl, by rw [← hkind, hb]; rfl, hm, ht.left, ht.right⟩
    all_goals cases hm
  case h_2 a blocks scratch hm hb =>
    cases out
    case matrix k =>
      exact .inr ⟨k, a, blocks, scratch, rfl, by rw [← hkind, hb]; rfl, hb, hm, ht⟩
    all_goals cases hm
  case h_3 => cases ht

theorem denseJacobian_consults {group : ConstraintGroup} {k : Nat} {a : DenseMatrix α}
    (h : Ready p d o v s) (hx : d.Lent s.store x w xs) (hl : (xs.length : Int) = d.core.localSize)
    (hk : s.formulation.kind = .dense) (hm : s.matrix? (.matrix k) = some (.dense a))
    (hr : a.rows = (d.core.indices group).length) (hc : (a.localColumns : Int) = d.core.localSize)
    (q : Problem α) (isNew : RawValue α) :
    ∃ ex, Consults q d ex (.jacobian group) [.jacobian group] (BacksOff ex.outcome) false
      (passedOn (fun _ => .ok true) ex.outcome) (denseJacobian q group x isNew (.matrix k)) s := by
  obtain ⟨scratch, hscratch, hmem, ho⟩ := h.rowScratch hk group
  have hrest : ∃ ex, Consults q d ex (.jacobian group) [.jacobian group] (BacksOff ex.outcome) false
      (passedOn (fun _ => .ok true) ex.outcome)
      (if d.core.chain.internalSize.isSame d.core.chain.userSize then
        timed (.jacobian group) (fillMatrix q (.jacobian group) d.core (d.core.indices group) x
          isNew k a)
      else timed (.jacobian group) (fillThroughScratch q (.jacobian group) d.core
        (d.core.indices group) scratch x isNew k a)) s := by
    split
    case isTrue =>
      obtain ⟨ex, hex⟩ := fillMatrix_consults h hx hl q (.jacobian group) (d.core.indices group)
        isNew k a
      exact ⟨ex, hex.timed⟩
    case isFalse =>
      obtain ⟨ex, hex⟩ := fillThroughScratch_consults h hx hl hmem ho q (.jacobian group) isNew k a
      exact ⟨ex, hex.timed⟩
  obtain ⟨ex, hex⟩ := hrest
  refine ⟨ex, ?_⟩
  refine .after (getCore_run h.finalized) (.refl d s) ?_
  refine .after (getPart_run hscratch) (.refl d s) ?_
  refine .after (get_run s) (.refl d s) ?_
  simp only [hm]
  rw [if_neg (by simp [hr, hc])]
  exact hex

theorem blockJacobian_consults {group : ConstraintGroup} {k : Nat} {a : MixedMatrix α}
    {blocks : BlockSizes α} {scratch : View}
    (h : Ready p d o v s) (hx : d.Lent s.store x w xs) (hl : (xs.length : Int) = d.core.localSize)
    (hb : d.derivatives = .mixed blocks scratch)
    (hm : s.matrix? (.matrix k) = some (.mixed a))
    (hf : a.rows = (d.core.indices group).length && a.sparse.columnsGiven.isSame blocks.sparse &&
      blocks.dense.isNumber a.denseColumns)
    (q : Problem α) (isNew : RawValue α) :
    ∃ ex, Consults q d ex (.jacobian group) [.jacobian group] (BacksOff ex.outcome) false
      (passedOn (fun _ => .ok true) ex.outcome) (blockJacobian q group x isNew (.matrix k)) s := by
  obtain ⟨u, t, hp, hpt, ht, _⟩ := pointToUser_prepares h hx hl
  let e : Evaluation α := .blockJacobian ⟨d.core.userSize, t.store.read u, isNew⟩
    d.core.constraintCount (d.core.indices group)
    ⟨a.sparse.columnsGiven, a.denseColumns, a.sparse.triplets, a.dense⟩
  cases hcall : (q.evaluate e).run (slots u none none)
    ⟨t.store, { triplets := a.sparse.triplets, dense := a.dense }⟩
  case mk r arena =>
    refine ⟨⟨e, r, arena.workspace⟩, ?_⟩
    refine .after (getCore_run h.finalized) (.refl d s) ?_
    refine .after (get_run s) (.refl d s) ?_
    simp only [hm]
    refine .after (blockSizes_run h.finalized hb) (.refl d s) ?_
    simp only [hf, if_true]
    refine .timed (.after hp hpt ?_)
    refine .after (pointAt_run ht.finalized u isNew) (.refl d t) ?_
    refine invoke_consults ⟨e, r, arena.workspace⟩ (.blockJacobian ..) hcall ?_ ?_
    · exact Ledger.keeps_bind (fun s => .of_same rfl rfl) fun _ =>
        Ledger.keeps_bind (judge_ledger _ _) fun _ s => .refl s
    · exact .after (modify_run _ _) rfl (judge_bind_reports (fun _ => rfl) fun _ _ => ⟨rfl, rfl⟩)

theorem jacobian_consults {group : ConstraintGroup} (h : Ready p d o v s)
    (hx : d.Lent s.store x w xs) (hl : (xs.length : Int) = d.core.localSize)
    (ht : takesJacobian d s group out) (q : Problem α) (isNew : RawValue α) :
    ∃ ex, Consults q d ex (.jacobian group) [.jacobian group] (BacksOff ex.outcome) false
      (passedOn (fun _ => .ok true) ex.outcome) (jacobian q group x isNew out) s := by
  obtain ⟨k, a, rfl, hk, hm, hr, hc⟩ | ⟨k, a, blocks, scratch, rfl, hk, hb, hm, hf⟩ :=
    takesJacobian_eq_true h.finalized ht
  case inl =>
    obtain ⟨ex, hex⟩ := denseJacobian_consults h hx hl hk hm hr hc q isNew
    refine ⟨ex, .after (getFormulation_run s) (.refl d s) ?_⟩
    simp only [hk]
    exact hex
  case inr =>
    obtain ⟨ex, hex⟩ := blockJacobian_consults h hx hl hb hm hf q isNew
    refine ⟨ex, .after (getFormulation_run s) (.refl d s) ?_⟩
    simp only [hk]
    exact hex

theorem scatterMultipliers_prepares {blocks : BlockSizes α} {scratch : View} (h : Ready p d o v s)
    (hb : d.derivatives = .mixed blocks scratch) (hy : d.Lent s.store y wy ys)
    (hm : ys.length = d.core.constraintCount) :
    ∃ t, scatterMultipliers d.core.split scratch wy s = (.ok ⟨⟩, t) ∧ Prepares d s t ∧
      Ready p d o v t := by
  have hlen : d.core.equalityCount + d.core.inequalityCount = ys.length :=
    h.parts.length.trans hm.symm
  have hys := (List.take_append_drop d.core.equalityCount ys).symm
  obtain ⟨t, hs, ht, _, _, hw, hu⟩ := scatterMultipliers_run h hb (hys ▸ hy)
    (List.length_take_of_le (by omega)) (by rw [List.length_drop]; omega)
  exact ⟨t, hs, ⟨ht, hw⟩, h.undisturbed hu⟩

theorem hessian_eq {k : Nat} {a : SymBlockMatrix α} {blocks : BlockSizes α} {scratch : View}
    (h : Ready p d o v s) (hb : d.derivatives = .mixed blocks scratch)
    (ha : s.matrices[k]? = some (.sym a))
    (hf : a.sparse.columnsGiven.isSame blocks.sparse && blocks.dense.isNumber a.denseSize)
    (hy : d.Lent s.store y wy ys) (hm : ys.length = d.core.constraintCount)
    (hs : scatterMultipliers d.core.split scratch wy s = (.ok ⟨⟩, t)) (q : Problem α)
    (isNew isNewY : RawValue α) (factor : α) :
    hessian q x isNew factor y isNewY (.matrix k) s =
      (fillHessian q d.core.constraintCount scratch x isNew factor isNewY k a >>=
        refuseCoupling) t := by
  have hsize := hy.view_size.trans (hy.size.trans hm)
  rw [hessian_of_fitting h (kind_of_mixed h.finalized hb) hb ha hf hy, if_neg (not_not.mpr hsize),
    bind_of_ok hs]

theorem fillHessian_consults (h : Ready p d o v s) (hx : d.Lent s.store x w xs)
    (hl : (xs.length : Int) = d.core.localSize) (q : Problem α) (m : Nat) (scratch : View)
    (isNew : RawValue α) (factor : α) (isNewY : RawValue α) (k : Nat) (a : SymBlockMatrix α) :
    ∃ ex, Consults q d ex .hessian [.hessian] (BacksOff ex.outcome) (none, ex.workspace.coupling)
      (passedOn (fun answer => .ok (some answer, ex.workspace.coupling)) ex.outcome)
      (fillHessian q m scratch x isNew factor isNewY k a) s := by
  obtain ⟨u, t, hp, hpt, ht, _⟩ := pointToUser_prepares h hx hl
  let e : Evaluation α := .hessian ⟨d.core.userSize, t.store.read u, isNew⟩ m factor
    (t.store.entries scratch) isNewY
    ⟨a.sparse.columnsGiven, a.denseSize, a.sparse.triplets, a.dense⟩
  cases hcall : (q.evaluate e).run (slots u none (some scratch))
    ⟨t.store, { triplets := a.sparse.triplets, dense := a.dense }⟩
  case mk r arena =>
    refine ⟨⟨e, r, arena.workspace⟩, ?_⟩
    refine .timed (.after hp hpt ?_)
    refine .after (pointAt_run ht.finalized u isNew) (.refl d t) ?_
    refine .after (onStore_of_ok (StoreM.entries_run scratch _)) (.refl d t) ?_
    refine invoke_consults ⟨e, r, arena.workspace⟩ (.hessian ..) hcall ?_ ?_
    · exact Ledger.keeps_bind (fun s => .of_same rfl rfl) fun _ =>
        Ledger.keeps_bind (judge_ledger _ _) fun _ s => .refl s
    · exact .after (modify_run _ _) rfl (judge_bind_reports (fun _ => rfl) fun _ _ => ⟨rfl, rfl⟩)

theorem refuseCoupling_ledger (b : Option (RawValue α) × RawValue α) :
    Keeps (Ledger [] []) (refuseCoupling b) := by
  intro s
  simp only [refuseCoupling, ite_run]
  split <;> exact .refl s

theorem refuseCoupling_run {b : Option (RawValue α) × RawValue α} (h : b.2.isNumber 0)
    (s : Session α) : refuseCoupling b s = (.ok b.1.isSome, s) := by
  simp only [refuseCoupling, h, if_true]
  rfl

-- What the callback reports of the block between both groups of variables is looked at last.
theorem hessian_consults (h : Ready p d o v s) (hx : d.Lent s.store x w xs)
    (hl : (xs.length : Int) = d.core.localSize) (hy : d.Lent s.store y wy ys)
    (hm : ys.length = d.core.constraintCount) (ht : takesHessian d s out) (q : Problem α)
    (isNew isNewY : RawValue α) (factor : α) :
    ∃ ex : Exchange α, ex.TakesPlace q d s.store ∧
      Ledger [.hessian] [ex.evaluation] s (hessian q x isNew factor y isNewY out s).2 ∧
      (ex.workspace.coupling.isNumber 0 → Reports .hessian (BacksOff ex.outcome) false
        (passedOn (fun _ => .ok true) ex.outcome) (hessian q x isNew factor y isNewY out) s) := by
  obtain ⟨k, a, blocks, scratch, rfl, ha, hb, hf⟩ := takesHessian_eq_true ht
  obtain ⟨t, hs, hpt, hr⟩ := scatterMultipliers_prepares h hb hy hm
  have hrun := hessian_eq (x := x) h hb ha hf hy hm hs q isNew isNewY factor
  obtain ⟨ex, hex⟩ := fillHessian_consults hr (hx.writes_scratch hpt.writes) hl q
    d.core.constraintCount scratch isNew factor isNewY k a
  obtain ⟨arrays, before, after, hshown, hw, hcall⟩ := hex.takesPlace
  refine ⟨ex, ⟨arrays, before, after, hshown, hpt.writes.and_then hw, hcall⟩, ?_, fun hc => ?_⟩
  · rw [hrun]
    exact hpt.ledger.trans (hex.ledger.bind refuseCoupling_ledger)
  · have hgiven : passedOn (fun _ => .ok true) ex.outcome =
        (passedOn (fun answer => .ok (some answer, ex.workspace.coupling)) ex.outcome).bind
          fun b : Option (RawValue α) × RawValue α => .ok b.1.isSome := by
      cases ex.outcome <;> rfl
    refine .congr hrun (by rw [hpt.rest]) (.of_eq Iff.rfl hgiven (hex.reports.carry ?_ ?_))
    · exact refuseCoupling_run hc
    · intro b t' _ hb
      have hcoupling : b.2 = ex.workspace.coupling := by
        cases hout : ex.outcome
        case error => rw [hout] at hb; cases hb
        case ok => rw [hout] at hb; cases hb; rfl
      rw [refuseCoupling_run (hcoupling ▸ hc)]
      exact ⟨rfl, rfl⟩

end Formulation
end NonlinearProgram
