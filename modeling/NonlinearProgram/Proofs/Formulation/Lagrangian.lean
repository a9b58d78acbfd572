import NonlinearProgram.Proofs.Formulation.Delivery
import NonlinearProgram.Proofs.Formulation.Report

namespace NonlinearProgram

open Program FormulationM

variable {α : Type}

theorem Tensor.slices_append {t : Tensor α} {xs ys : List α}
    (hs : t.shape = [(xs ++ ys).length]) (he : t.entries = xs ++ ys) :
    t.slices 0 xs.length = ofList xs ∧ t.slices xs.length (xs ++ ys).length = ofList ys := by
  have ht : (xs ++ ys).take (xs.length + ys.length) = xs ++ ys :=
    List.take_of_length_le (Nat.le_of_eq List.length_append)
  simp [slices, hs, he, sizeOf, ofList, ht]

-- Nothing was called.
def SameTrace (s t : Session α) : Prop := t.trace = s.trace

theorem SameTrace.trans {s t u : Session α} (h₁ : SameTrace s t) (h₂ : SameTrace t u) :
    SameTrace s u :=
  Eq.trans h₂ h₁

theorem SameTrace.of_bind {β γ : Type} {x : FormulationM α β} {f : β → FormulationM α γ}
    (hf : ∀ b, Keeps SameTrace (f b)) (s : Session α) : SameTrace (x s).2 ((x >>= f) s).2 := by
  rw [bind_run]
  cases hx : x s
  case mk r t =>
    cases r
    case ok b => exact hf b t
    case error e => rfl

theorem FormulationM.timed_trace [Scalar α] {β : Type} (op : Operation) (act : FormulationM α β)
    (s : Session α) : (timed op act s).2.trace = (act s).2.trace := rfl

namespace Formulation

theorem judge_keeps (op : Operation) (r : Except Fault (RawValue α)) :
    Keeps SameTrace (judge op r) := by
  intro s
  cases r
  case error fault =>
    simp only [judge, ite_run]
    split <;> rfl
  case ok answer =>
    simp only [judge, ite_run]
    split <;> rfl

theorem invoke_trace (p : Problem α) (e : Evaluation α) (arrays : Slot → Option View)
    (w : Workspace α) (s : Session α) :
    (invoke p e arrays w s).2.trace = s.trace ++ [.evaluation e] := by
  rw [invoke_run rfl]
  rfl

variable [Scalar α] {p : Problem α} {s t : Session α} {d : Finalized α} {o : Options α}
  {v : Core.Survey α} {x y : Argument α} {wx wy scratch : View} {ys yc yd : List α}
  {blocks : BlockSizes α}

-- Points are not put into the scratch arrays for derivatives.
theorem Ready.not_holdsPoint (h : Ready p d o v s) {w : View} (hw : w ∈ d.derivatives.scratch) :
    ¬d.HoldsPoint w.buffer := by
  intro ⟨u, hu, he⟩
  cases hu
  case head =>
    have hn := (List.nodup_cons.mp h.intact.distinct).left
    exact hn (he ▸ List.mem_map_of_mem (List.mem_cons_of_mem _ hw))
  case tail hu =>
    exact h.intact.separate w (by simp [Finalized.arrays, hw]) u hu he.symm

-- Whatever the scratch array holds, it then holds the multipliers in the user's order.
theorem scatterMultipliers_run (h : Ready p d o v s) (hd : d.derivatives = .mixed blocks scratch)
    (hy : d.Lent s.store y wy (yc ++ yd)) (hyc : yc.length = d.core.equalityCount)
    (hyd : yd.length = d.core.inequalityCount) :
    ∃ t, scatterMultipliers d.core.split scratch wy s = (.ok ⟨⟩, t) ∧
      t = { s with store := t.store } ∧ t.store.Valid scratch ∧
      t.store.entries scratch = d.core.split.merge yc yd ∧ s.store.Writes d.IsScratch t.store ∧
      Undisturbed d s t := by
  have ho : s.store.Owns scratch [d.core.constraintCount] := by
    have hf := h.intact.derivatives
    rwa [hd] at hf
  have ⟨hfirst, hsecond⟩ := Tensor.slices_append (t := s.store.read wy) hy.shape hy.entries
  have heq : d.core.split.equalities.length = yc.length := hyc.symm
  let first := s.store.scatter scratch d.core.split.equalities yc
  have hw₁ : s.store.Writes (· = scratch.buffer) first := .scatter rfl
  have hw₂ : first.Writes (· = scratch.buffer)
      (first.scatter scratch d.core.split.inequalities yd) := .scatter rfl
  have hrun : (do
      let ys ← StoreM.read wy
      StoreM.assignAt scratch d.core.split.equalities (ys.slices 0 d.core.split.equalities.length)
      StoreM.assignAt scratch d.core.split.inequalities
        (ys.slices d.core.split.equalities.length (yc ++ yd).length) : StoreM α Unit) s.store =
      (.ok ⟨⟩, first.scatter scratch d.core.split.inequalities yd) := by
    rw [bind_of_ok (StoreM.read_run wy _), heq, hfirst, hsecond,
      bind_of_ok (StoreM.assignAt_run ho.writable (congrArg (List.cons · []) hyc))]
    exact StoreM.assignAt_run (ho.writes hw₁).writable (congrArg (List.cons · []) hyd)
  have hw := hw₁.trans hw₂ fun _ _ => id
  have hmem : scratch ∈ d.derivatives.scratch := by simp [hd, Derivatives.scratch]
  have hscratch : d.IsScratch scratch.buffer :=
    ⟨scratch, by simp [Finalized.scratch, Finalized.arrays, hmem], rfl⟩
  have hw' : s.store.Writes d.IsScratch (first.scatter scratch d.core.split.inequalities yd) :=
    hw.mono fun _ hk => hk ▸ hscratch
  refine ⟨{ s with store := first.scatter scratch d.core.split.inequalities yd }, ?run, rfl,
    hw.valid ho.valid, ?entries, hw', h.writes ⟨_, rfl⟩ hw' h.writable ?eliminates⟩
  case run =>
    have hlen : wy.length? = some (yc ++ yd).length := by simp [View.length?, hy.shape]
    simp only [scatterMultipliers, hlen]
    exact onStore_of_ok hrun
  case entries =>
    have hold : (s.store.entries scratch).length = d.core.constraintCount :=
      Store.length_entries_of_shape ho.valid ho.left
    rw [Store.entries_scatter (ho.writes hw₁).valid, Store.entries_scatter ho.valid]
    exact h.parts.scatter_eq_merge hyc hyd hold
  case eliminates =>
    exact h.eliminates.writes hw fun u hu hk =>
      h.intact.separate scratch (by simp [Finalized.arrays, hmem]) u hu hk.symm

omit [Scalar α] in
theorem blockSizes_run (h : s.formulation.finalized = some d)
    (hd : d.derivatives = .mixed blocks scratch) : blockSizes s = (.ok blocks, s) := by
  have ⟨hc, _, _, hder⟩ := finalized_eq_some.mp h
  have ⟨_, hb, _⟩ := derivatives_eq_mixed.mp (hd ▸ hder)
  rw [blockSizes, bind_of_ok (getFormulation_run s)]
  simp only [hc, hb]
  rfl

omit [Scalar α] in
theorem multiplierScratch_of_mixed (h : s.formulation.finalized = some d)
    (hd : d.derivatives = .mixed blocks scratch) :
    s.formulation.multiplierScratch = some scratch := by
  have ⟨_, _, _, hder⟩ := finalized_eq_some.mp h
  exact (derivatives_eq_mixed.mp (hd ▸ hder)).right.right

-- The part of a Hessian within its block, and what is looked at afterwards.
def fillHessian (p : Problem α) (m : Nat) (scratch : View) (x : Argument α) (isNew : RawValue α)
    (factor : α) (isNewY : RawValue α) (k : Nat) (a : SymBlockMatrix α) :
    FormulationM α (Option (RawValue α) × RawValue α) :=
  timed .hessian do
    let point ← pointToUser x
    let contents : BlockContents α :=
      ⟨a.sparse.columnsGiven, a.denseSize, a.sparse.triplets, a.dense⟩
    let e := .hessian (← pointAt point isNew) m factor (← onStore (StoreM.entries scratch)) isNewY
      contents
    let (r, w) ← invoke p e (slots point none (some scratch))
      { triplets := a.sparse.triplets, dense := a.dense }
    modify (·.setMatrix k (.sym
      { a with sparse := { a.sparse with triplets := w.triplets }, dense := w.dense }))
    return (← judge .hessian r, w.coupling)

def refuseCoupling (b : Option (RawValue α) × RawValue α) : FormulationM α Bool := do
  unless b.2.isNumber 0 do throw (.breach (.coupling b.2.plain))
  return b.1.isSome

-- Of a matrix that fits, only the number of multipliers is left to be looked at.
theorem hessian_of_fitting {k : Nat} {a : SymBlockMatrix α} {zs : List α} (h : Ready p d o v s)
    (hk : s.formulation.kind = .mixed) (hd : d.derivatives = .mixed blocks scratch)
    (ha : s.matrices[k]? = some (.sym a))
    (hf : a.sparse.columnsGiven.isSame blocks.sparse && blocks.dense.isNumber a.denseSize)
    (hy : d.Lent s.store y wy zs) (q : Problem α) (isNew isNewY : RawValue α) (factor : α) :
    hessian q x isNew factor y isNewY (.matrix k) s =
      (if wy.size ≠ d.core.constraintCount then
        throw (.breach (.multipliersSize wy.size d.core.constraintCount))
      else do
        scatterMultipliers d.core.split scratch wy
        refuseCoupling (← fillHessian q d.core.constraintCount scratch x isNew factor isNewY k a) :
        FormulationM α Bool) s := by
  rw [hessian, bind_of_ok (getFormulation_run s), if_neg (by simp [hk])]
  dsimp only
  rw [bind_of_ok (get_run s)]
  simp only [Session.matrix?, ha]
  rw [bind_of_ok (blockSizes_run h.finalized hd)]
  simp only [hf, if_true]
  rw [bind_of_ok (localPart_run hy.view s), bind_of_ok (getCore_run h.finalized), ite_run, ite_run]
  split
  case isTrue => rfl
  case isFalse =>
    rw [bind_of_ok (getPart_run (multiplierScratch_of_mixed h.finalized hd))]
    rfl

-- The problem is given the multipliers in the user's order, whatever was in the scratch array.
theorem hessian_trace {k : Nat} {a : SymBlockMatrix α} (h : Ready p d o v s)
    (hk : s.formulation.kind = .mixed) (hd : d.derivatives = .mixed blocks scratch)
    (ha : s.matrices[k]? = some (.sym a))
    (hf : a.sparse.columnsGiven.isSame blocks.sparse && blocks.dense.isNumber a.denseSize)
    (hx : d.Lent s.store x wx ys) (hl : ys.length = v.internalSize o d.core)
    (hy : d.Lent s.store y wy (yc ++ yd)) (hyc : yc.length = d.core.equalityCount)
    (hyd : yd.length = d.core.inequalityCount) (isNew isNewY : RawValue α) (factor : α) :
    ∃ point contents, (hessian p x isNew factor y isNewY (.matrix k) s).2.trace = s.trace ++
        [.evaluation (.hessian ⟨d.core.userSize, point, isNew⟩ d.core.constraintCount factor
          (d.core.split.merge yc yd) isNewY contents)] ∧
      point.entries = v.pointToUser o d.core ys ∧ contents.triplets = a.sparse.triplets := by
  obtain ⟨t, hs, ht, hv, he, hw, hut⟩ := scatterMultipliers_run h hd hy hyc hyd
  have hmem : scratch ∈ d.derivatives.scratch := by simp [hd, Derivatives.scratch]
  have hr := h.undisturbed hut
  obtain ⟨w, u, hp, hu, _, _, hx', hwp, _⟩ := pointToUser_run hr (hx.writes_scratch hw) hl
  have hfu : u.formulation = s.formulation := by rw [hu, ht]
  have htu : u.trace = s.trace := by rw [hu, ht]
  have hent := (hwp.entries hv (h.not_holdsPoint hmem)).trans he
  have hsize : wy.size = d.core.constraintCount := by
    rw [View.size_of_shape hy.shape, List.length_append, hyc, hyd]
    exact h.parts.length
  refine ⟨u.store.read w, ⟨a.sparse.columnsGiven, a.denseSize, a.sparse.triplets, a.dense⟩, ?_,
    hx', rfl⟩
  rw [hessian_of_fitting h hk hd ha hf hy, if_neg (by simpa using hsize), bind_of_ok hs,
    SameTrace.of_bind]
  case hf =>
    intro answer s
    simp only [refuseCoupling, ite_run]
    split <;> rfl
  rw [fillHessian, timed_trace, bind_of_ok hp, bind_of_ok (pointAt_run (hfu ▸ h.finalized) w isNew),
    bind_of_ok (onStore_of_ok (StoreM.entries_run scratch u.store)), SameTrace.of_bind,
    invoke_trace]
  case hf =>
    rintro ⟨r, w⟩
    refine Keeps.bind SameTrace.trans (fun _ => rfl) fun _ => ?_
    exact Keeps.bind SameTrace.trans (judge_keeps _ r) fun _ _ => rfl
  rw [hent]
  exact congrArg (· ++ _) htu

-- A matrix for the Hessian whose blocks have the declared sizes.
def takesHessian (d : Finalized α) (s : Session α) (out : Argument α) : Bool :=
  match s.matrix? out, d.derivatives with
  | some (.sym a), .mixed blocks _ =>
    a.sparse.columnsGiven.isSame blocks.sparse && blocks.dense.isNumber a.denseSize
  | _, _ => false

theorem takesHessian_eq_true {out : Argument α} (h : takesHessian d s out) :
    ∃ k a blocks scratch, out = .matrix k ∧ s.matrices[k]? = some (.sym a) ∧
      d.derivatives = .mixed blocks scratch ∧
      (a.sparse.columnsGiven.isSame blocks.sparse && blocks.dense.isNumber a.denseSize) := by
  rw [takesHessian] at h
  split at h
  case h_1 a blocks scratch hm hd =>
    cases out
    case matrix k => exact ⟨k, a, blocks, scratch, rfl, hm, hd, h⟩
    all_goals cases hm
  case h_2 => cases h

-- Values of constraints and multipliers survive the split: what was parted comes back in the
-- user's order and complete, the multipliers are the same in reports and in the Hessian, and the
-- Lagrangian is that of the solver.
theorem constraints_round_trip {g : List α → Nat → α} (hf : finalize p s = (.ok true, t))
    (hd : t.formulation.finalized = some d)
    (hg : p.HasConstraints d.core.userSize d.core.userLayout.localSize.toNat d.core.constraintCount
      g) (hl : (ys.length : Int) = d.core.localSize) :
    ∃ xs cs ds, (∀ u isNew, Undisturbed d t u → (userPointAt ys u).1 = .ok xs ∧
        (valuesAt p .equalities ys isNew u).1 = .ok (some cs) ∧
        (valuesAt p .inequalities ys isNew u).1 = .ok (some ds)) ∧
      (∀ base : List α, base.length = d.core.constraintCount →
        scatter d.core.split.inequalities ds (scatter d.core.split.equalities cs base) =
          (List.range d.core.constraintCount).map (g xs)) ∧
      ∀ yc yd, yc.length = d.core.equalityCount → yd.length = d.core.inequalityCount → ∃ ms,
        (∀ u i e, Undisturbed d t u → i.Holds d d.core.localSize.toNat u.store e →
          e.equalities = cs → e.inequalities = ds → e.equalityMultipliers = yc →
          e.inequalityMultipliers = yd →
          (∀ status, ∃ r u', reportSolution p status i u =
              ((p.solution status r).mapError .raised, u') ∧
            u'.trace = u.trace ++ [.solution status r] ∧
            r.constraints = (List.range d.core.constraintCount).map (g xs) ∧
            r.multipliers = ms) ∧
          ∀ progress, ∃ r u', reportIterate p progress i u =
              (((p.iterate progress r).map RawValue.isTrue).mapError .raised, u') ∧
            u'.trace = u.trace ++ [.iterate progress r] ∧
            r.constraints = (List.range d.core.constraintCount).map (g xs) ∧
            r.multipliers = ms) ∧
        (∀ u x y out wx wy xs' isNew isNewY factor, Undisturbed d t u →
          u.formulation.kind = .mixed → takesHessian d u out → d.Lent u.store x wx xs' →
          (xs'.length : Int) = d.core.localSize → d.Lent u.store y wy (yc ++ yd) →
          ∃ point contents, (hessian p x isNew factor y isNewY out u).2.trace = u.trace ++
            [.evaluation (.hessian ⟨d.core.userSize, point, isNew⟩ d.core.constraintCount factor ms
              isNewY contents)]) ∧
        (ExactScalar α → (List.zipWith (· * ·) ms
            ((List.range d.core.constraintCount).map (g xs))).sum =
          (List.zipWith (· * ·) yc cs).sum + (List.zipWith (· * ·) yd ds).sum) := by
  have ⟨v, hF⟩ := finalizes_of_finalized hf hd
  have hparts := hF.ready.parts
  have hsize : v.internalSize s.formulation.options d.core = d.core.localSize.toNat := by
    rw [hF.ready.localSize, Int.toNat_natCast]
  rw [hF.intact.describes.userLayout] at hg
  let xs := v.pointToUser s.formulation.options d.core ys
  have hmerge := hparts.merge_map (g xs)
  refine ⟨xs, (d.core.indices .equalities).map (g xs), (d.core.indices .inequalities).map (g xs),
    fun u isNew hu => ?delivered, fun base hb => ?complete,
    fun yc yd hyc hyd => ⟨d.core.split.merge yc yd, ?reports, ?hessian, ?sum⟩⟩
  case delivered =>
    have hr := hF.ready.undisturbed hu
    exact ⟨userPointAt_run hr (hF.ready.length_eq hl),
      valuesAt_run hr hg (hF.ready.length_eq hl) .equalities isNew,
      valuesAt_run hr hg (hF.ready.length_eq hl) .inequalities isNew⟩
  case complete =>
    exact (hparts.scatter_eq_merge (List.length_map _) (List.length_map _) hb).trans hmerge
  case reports =>
    intro u i e hu hi hcs hds hms hms'
    have hr := hF.ready.undisturbed hu
    rw [← hsize] at hi
    constructor
    case left =>
      intro status
      have ⟨r, u', h, ht, htr, _⟩ := reportSolution_run hr hi status
      refine ⟨r, u', h, htr, ?_, ?_⟩
      · rw [ht.constraints, hcs, hds]
        exact hmerge
      · rw [ht.multipliers, hms, hms']
    case right =>
      intro progress
      have ⟨r, u', h, ht, htr, _⟩ := reportIterate_run hr hi progress
      refine ⟨r, u', h, htr, ?_, ?_⟩
      · rw [ht.constraints, hcs, hds]
        exact hmerge
      · rw [ht.multipliers, hms, hms']
  case hessian =>
    intro u x y out wx wy xs' isNew isNewY factor hu hk hout hx hxs hy
    have ⟨k, a, blocks, scratch, ho, ha, hder, hfit⟩ := takesHessian_eq_true hout
    subst ho
    have ⟨point, contents, ht, _⟩ := hessian_trace (hF.ready.undisturbed hu) hk hder ha hfit hx
      (hF.ready.length_eq hxs) hy hyc hyd isNew isNewY factor
    exact ⟨point, contents, ht⟩
  case sum =>
    intro _
    exact hparts.sum_products _ hyc hyd

-- Two variables in two groups, and three constraints, of which the second is an equality.
def mixedConstraints (x : List Exact) : Nat → Exact
  | 0 => x[0]?.getD 0
  | 1 => x[0]?.getD 0 + x[1]?.getD 0
  | _ => x[1]?.getD 0

def mixedSample : Problem Exact :=
  { Problem.ofFunctions 2 3 (fun _ => 0) mixedConstraints with
    constraintBounds := fun _ _ => .ok {
      lower := [.finite 0, .finite 4, .finite 0]
      upper := [.finite 9, .finite 4, .finite 9]
      answer := .flag true }
    blockSizes := .ok ⟨.integer 1, .integer 1, .integer 0, .integer 0, .integer 0, .integer 0⟩ }

-- A session with a matrix for the Hessian.
def mixedStart : Session Exact where
  formulation := {
    kind := .mixed
    options := ⟨.keep, .finite (1 / 100), .finite 1000⟩
    communicator := .serial "alone" }
  matrices := [.sym ⟨⟨1, 1, [], .integer 1⟩, 1, [[0]]⟩]
  clock := 0

theorem constraints_round_trip_sample : ∃ t d u wx wy xs cs ds ms point contents,
    finalize mixedSample mixedStart = (.ok true, t) ∧ t.formulation.finalized = some d ∧
    (userPointAt [.finite 1, .finite 3] t).1 = .ok xs ∧
    (valuesAt mixedSample .equalities [.finite 1, .finite 3] .null t).1 = .ok (some cs) ∧
    (valuesAt mixedSample .inequalities [.finite 1, .finite 3] .null t).1 = .ok (some ds) ∧
    (hessian mixedSample (.array wx) .null 1 (.array wy) .null (.matrix 0) u).2.trace = u.trace ++
      [.evaluation (.hessian ⟨2, point, .null⟩ 3 1 ms .null contents)] ∧
    (List.zipWith (· * ·) ms ((List.range 3).map (mixedConstraints xs))).sum =
      (List.zipWith (· * ·) [.finite 2] cs).sum +
        (List.zipWith (· * ·) [.finite 5, .finite 7] ds).sum := by
  have hf := finalize_of_succeeds (p := mixedSample) (s := mixedStart) (by decide +kernel)
  have hdata : ((finalize mixedSample mixedStart).2.formulation.finalized.map fun d =>
      (d.core.userSize, d.core.constraintCount, d.core.localSize, d.core.equalityCount,
        d.core.inequalityCount)) = some (2, 3, 2, 1, 2) := by decide +kernel
  have hout : ((finalize mixedSample mixedStart).2.formulation.finalized.any fun d =>
      takesHessian d (finalize mixedSample mixedStart).2 (.matrix 0)) = true := by decide +kernel
  generalize (finalize mixedSample mixedStart).2 = t at hf hdata hout
  have ⟨v, d, hF⟩ := finalize_eq_true hf
  have hd := hF.finalized
  simp only [hd, Option.map_some, Option.some.injEq, Prod.mk.injEq] at hdata
  have ⟨hn, hm, hl, heq, hineq⟩ := hdata
  rw [hd, Option.any_some] at hout
  have hr := hF.ready
  have ⟨wx, u₁, _, hx, ht₁, _, hu₁⟩ := lend_run hr [.finite 1, .finite 3]
  have ⟨wy, u, _, hy, ht, hw, hu⟩ := lend_run (hr.undisturbed hu₁) [.finite 2, .finite 5, .finite 7]
  have hu := hu₁.trans hu
  have hout' : takesHessian d u (.matrix 0) := by
    rw [ht, ht₁]
    exact hout
  have hk : u.formulation.kind = .mixed := by
    rw [ht, ht₁, hF.formulation, kind_holding]
    rfl
  have hl' : (([.finite 1, .finite 3] : List Exact).length : Int) = d.core.localSize := hl.symm
  have ⟨xs, cs, ds, hdel, _, hsplit⟩ := constraints_round_trip hf hd
    (Problem.hasConstraints_of_evaluate (f := fun _ => 0) rfl) hl'
  have ⟨ms, _, hhess, hsum⟩ := hsplit [.finite 2] [.finite 5, .finite 7] heq.symm hineq.symm
  have ⟨point, contents, htrace⟩ := hhess u (.array wx) (.array wy) (.matrix 0) wx wy _ .null
    .null 1 hu hk hout' (hx.writes hw id) hl.symm hy
  have ⟨hxs, hcs, hds⟩ := hdel _ .null (.refl d _)
  rw [hn, hm] at htrace
  exact ⟨_, d, u, wx, wy, xs, cs, ds, ms, point, contents, hf, hd, hxs, hcs, hds, htrace,
    hm ▸ hsum inferInstance⟩

end Formulation
end NonlinearProgram
