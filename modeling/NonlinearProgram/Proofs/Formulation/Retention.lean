import NonlinearProgram.Proofs.Formulation.Counters

-- What a solver still holds when an evaluation fails. A gradient, and a Jacobian over fewer
-- variables than the user's, is written to scratch arrays first, and reaches the solver last.

namespace NonlinearProgram

open Program FormulationM Session

variable {α β : Type}

namespace FormulationM

-- Unless the work gives true, it leaves alone what is the solver's, except the array of a point.
def Withholds (d : Finalized α) (w : View) (act : FormulationM α Bool) (s : Session α) : Prop :=
  (act s).1 ≠ .ok true → Retains (fun k => d.IsScratch k ∨ k = w.buffer) s (act s).2

namespace Withholds

variable {d : Finalized α} {w : View} {act act' : FormulationM α Bool} {s t : Session α}

theorem congr (hx : act s = act' t)
    (hr : Retains (fun k => d.IsScratch k ∨ k = w.buffer) s t) (h : Withholds d w act' t) :
    Withholds d w act s := by
  intro hne
  rw [hx] at hne ⊢
  exact hr.trans (h hne)

theorem after {x : FormulationM α β} {f : β → FormulationM α Bool} {b : β} (hx : x s = (.ok b, t))
    (hr : Retains (fun k => d.IsScratch k ∨ k = w.buffer) s t) (h : Withholds d w (f b) t) :
    Withholds d w (x >>= f) s :=
  .congr (bind_of_ok hx f) hr h

-- Own arrays are made ready.
theorem prepared {x : FormulationM α β} {f : β → FormulationM α Bool} {b : β}
    (hx : x s = (.ok b, t)) (hp : Prepares d s t) (h : Withholds d w (f b) t) :
    Withholds d w (x >>= f) s :=
  .after hx (hp.retains.mono fun _ => .inl) h

theorem of_misplaces {x : Argument α} {blocks : List Operation}
    (h : Misplaces x d blocks act s) : Withholds d w act s := by
  obtain ⟨t, hact, _, hr⟩ := h
  rw [Withholds, hact]
  exact fun _ => hr.mono fun _ => .inl

theorem timed [Scalar α] {op : Operation} (h : Withholds d w act s) :
    Withholds d w (timed op act) s := by
  intro hne
  have hr := h hne
  exact ⟨hr.writes, hr.matrices⟩

-- A callback from which one backs off, or whose fault ends the evaluation, delivers nothing.
theorem judge [Scalar α] {op : Operation} {r : Except Fault (RawValue α)}
    {f : Option (RawValue α) → FormulationM α Bool} (hf : ∀ t, f none t = (.ok false, t))
    (hd : ∀ answer, Withholds d w (f (some answer)) s) :
    Withholds d w (Formulation.judge op r >>= f) s := by
  have hnone (e : Event α) : Withholds d w (f none) { s with events := s.events ++ [e] } := by
    rw [Withholds, hf]
    exact fun _ => .refl _ _
  cases r
  case error fault =>
    cases hr : fault.isRecoverable
    case false =>
      rw [Withholds, bind_of_error (Formulation.judge_raised hr op s)]
      exact fun _ => .refl _ _
    case true => exact .after (Formulation.judge_backsOff hr op s) (.of_same rfl rfl) (hnone _)
  case ok answer =>
    cases hr : answer.isRefusal
    case false => exact .after (Formulation.judge_run hr op s) (.refl _ s) (hd answer)
    case true => exact .after (Formulation.judge_refuses hr op s) (.of_same rfl rfl) (hnone _)

-- Work on the store that only makes new arrays.
theorem onStore {x : StoreM α β} {f : β → FormulationM α Bool}
    (hx : Keeps (Store.Writes fun _ => False) x) (hf : ∀ b t, Withholds d w (f b) t) :
    Withholds d w (onStore x >>= f) s := by
  have hr : Retains (fun k => d.IsScratch k ∨ k = w.buffer) s
      { s with store := (x s.store).2 } :=
    ⟨(hx s.store).mono fun _ => False.elim, rfl⟩
  cases hrun : x s.store
  case mk r st =>
    rw [hrun] at hr
    cases r
    case error e =>
      have herr : FormulationM.onStore x s = (.error (.numeric e), { s with store := st }) := by
        simp [FormulationM.onStore, hrun, Except.mapError]
      rw [Withholds, bind_of_error herr]
      exact fun _ => hr
    case ok b => exact .after (onStore_of_ok hrun) hr (hf b _)

end Withholds

-- The problem was asked once in this block, and answered with something other than a refusal.
def Accepts (q : Problem α) (d : Finalized α) (op : Operation) (s t : Session α) : Prop :=
  ∃ ex : Exchange α, ∃ answer, ex.TakesPlace q d s.store ∧ Ledger [op] [ex.evaluation] s t ∧
    ex.outcome = .ok answer ∧ answer.isRefusal = false

theorem Consults.accepts [Scalar α] {q : Problem α} {d : Finalized α} {ex : Exchange α}
    {op : Operation} {deliver : RawValue α → Except (Failure α) Bool} {act : FormulationM α Bool}
    {s : Session α}
    (h : Consults q d ex op [op] (BacksOff ex.outcome) false (passedOn deliver ex.outcome) act s)
    (ht : (act s).1 = .ok true) : Accepts q d op s (act s).2 := by
  have hb : ¬BacksOff ex.outcome := by
    intro hb
    obtain ⟨_, _, hr, _⟩ := h.reports.failed hb
    cases hr.symm.trans ht
  cases ho : ex.outcome
  case error fault =>
    have hr := (h.reports.passed hb).left.symm.trans ht
    rw [ho] at hr
    cases hr
  case ok answer =>
    rw [ho, backsOff_ok, Bool.not_eq_true] at hb
    exact ⟨ex, answer, h.takesPlace, h.ledger, ho, hb⟩

end FormulationM

namespace Chain

theorem jacobianToInternal_writes (c : Chain α) (jac : View) :
    Keeps (Store.Writes fun _ => False) (c.jacobianToInternal jac) := by
  refine Keeps.foldlM (Store.Writes.refl _) .and_then (fun item hi jac => ?_) jac
  clear hi
  cases item
  case remover r => exact r.jacobianToInternal_writes jac
  all_goals exact .pure (.refl _) jac

end Chain

namespace Formulation

variable [Scalar α] {p : Problem α} {d : Finalized α} {o : Options α} {v : Core.Survey α}
  {s t u : Session α} {x out : Argument α} {w wo : View} {xs zs : List α}

omit [Scalar α] in
-- A callback can write to the point, which may be the solver's own array, and to scratch arrays.
theorem invoke_retains {q : Problem α} {e : Evaluation α} {point : View} {output : Option View}
    {workspace : Workspace α} {r : Except Fault (RawValue α)} {arena : Arena α}
    (hp : point = w ∨ point = d.point) (ho : ∀ k ∈ output, k ∈ d.scratch)
    (hcall : (q.evaluate e).run (slots point output none) ⟨s.store, workspace⟩ = (r, arena)) :
    Retains (fun k => d.IsScratch k ∨ k = w.buffer) s
      { s.traced [.evaluation e] with store := arena.store } := by
  have hreach := (q.evaluate e).run_writes (slots point output none) ⟨s.store, workspace⟩
  rw [hcall] at hreach
  refine ⟨hreach.mono ?_, rfl⟩
  rintro _ ⟨slot, k, hk, rfl, _⟩
  cases slot
  case point =>
    cases hk
    obtain rfl | rfl := hp
    · exact .inr rfl
    · exact .inl ⟨d.point, by simp [Finalized.scratch, Finalized.arrays], rfl⟩
  case output => exact .inl ⟨k, ho k hk, rfl⟩
  case multipliers => cases hk

theorem gradient_withholds (h : Ready p d o v s) (hx : d.Lent s.store x w xs)
    (hout : d.Lent s.store out wo zs) (q : Problem α) (isNew : RawValue α) :
    Withholds d w (gradient q x isNew out) s := by
  by_cases hs : (out.size : Int) = d.core.localSize
  case neg =>
    rw [Withholds, gradient_unsuited h hout hs]
    exact fun _ => .refl _ s
  case pos =>
    by_cases hl : (x.size : Int) = d.core.localSize
    case neg => exact .of_misplaces (gradient_misplaces h hx hl hout hs q isNew)
    case pos =>
      obtain ⟨u, t, hp, hpt, ht, hor⟩ := pointToUser_prepares h hx (hx.size ▸ hl)
      have hx' := hx.writes_scratch hpt.writes
      have hout' := hout.writes_scratch hpt.writes
      let e : Evaluation α :=
        .gradient ⟨d.core.userSize, t.store.read u, isNew⟩ (t.store.entries d.gradient)
      cases hcall : (q.evaluate e).run (slots u (some d.gradient) none) ⟨t.store, {}⟩
      case mk r arena =>
        refine .prepared (getCore_run h.finalized) (.refl d s) ?_
        refine .prepared (localPart_run hout.view s) (.refl d s) ?_
        dsimp only
        rw [hout.view_size, if_neg (not_not_intro hs)]
        refine .timed (.prepared hp hpt ?_)
        refine .prepared (getPart_run (finalized_eq_some.mp ht.finalized).right.right.left)
          (.refl d t) ?_
        refine .prepared (onStore_of_ok (StoreM.entries_run _ _)) (.refl d t) ?_
        refine .prepared (pointAt_run ht.finalized u isNew) (.refl d t) ?_
        have hgradient : ∀ k ∈ some d.gradient, k ∈ d.scratch := by
          simp [Finalized.scratch, Finalized.arrays]
        refine .after (invoke_run hcall) (invoke_retains hor hgradient hcall) ?_
        refine .judge (fun _ => rfl) fun answer => ?_
        obtain ⟨st, hd, hunwritten⟩ :=
          deliverGradient_after ht hx' hor hout' (hout.size ▸ hs) hcall
        intro hne
        change (deliverGradient d wo _).1 ≠ _ at hne
        change Retains _ _ (deliverGradient d wo _).2
        rw [hd] at hne ⊢
        cases hw : t.store.writable wo
        case true => exact absurd (if_pos hw) hne
        case false => exact ⟨(hunwritten hw).mono fun _ => False.elim, rfl⟩

theorem gradient_accepts (h : Ready p d o v s) (hx : d.Lent s.store x w xs)
    (hout : d.Lent s.store out wo zs) {q : Problem α} {isNew : RawValue α}
    (ht : (gradient q x isNew out s).1 = .ok true) :
    Accepts q d .gradient s (gradient q x isNew out s).2 := by
  by_cases hs : (out.size : Int) = d.core.localSize
  case neg =>
    rw [gradient_unsuited h hout hs] at ht
    cases ht
  case pos =>
    by_cases hl : (x.size : Int) = d.core.localSize
    case neg =>
      obtain ⟨_, hrun, _⟩ := gradient_misplaces h hx hl hout hs q isNew
      rw [hrun] at ht
      cases ht
    case pos =>
      obtain ⟨ex, hex⟩ := gradient_consults h hx (hx.size ▸ hl) hout (hout.size ▸ hs) q isNew
      exact hex.accepts ht

-- The rows that the problem fills are scratch rows. The matrix is set only after the last step that
-- can fail.
theorem fillThroughScratch_withholds {scratch : View} (h : Ready p d o v s)
    (hx : d.Lent s.store x w xs) (hl : (x.size : Int) = d.core.localSize) (hw : scratch ∈ d.arrays)
    (q : Problem α) (op : Operation) (indices : List Nat) (isNew : RawValue α) (k : Nat)
    (a : DenseMatrix α) :
    Withholds d w (fillThroughScratch q op d.core indices scratch x isNew k a) s := by
  obtain ⟨u, t, hp, hpt, ht, hor⟩ := pointToUser_prepares h hx (hx.size ▸ hl)
  let stale := Rows.ofEntries indices.length d.core.userLayout.localSize.toNat
    (t.store.entries scratch)
  let e : Evaluation α := .denseJacobian ⟨d.core.userSize, t.store.read u, isNew⟩
    d.core.constraintCount indices stale
  cases hcall : (q.evaluate e).run (slots u none none) ⟨t.store, { dense := stale }⟩
  case mk r arena =>
    refine .prepared hp hpt ?_
    refine .prepared (onStore_of_ok (StoreM.entries_run scratch _)) (.refl d t) ?_
    refine .prepared (pointAt_run ht.finalized u isNew) (.refl d t) ?_
    refine .after (invoke_run hcall) (invoke_retains hor (fun _ hk => absurd hk (by simp)) hcall) ?_
    refine .after (modify_run _ _) ?rows (.judge (fun _ => rfl) fun answer => ?_)
    case rows =>
      have hscratch : d.IsScratch scratch.buffer := ⟨scratch, List.mem_append_left _ hw, rfl⟩
      exact ⟨.setEntries (.inl hscratch), rfl⟩
    refine .onStore (StoreM.bind_writes (d.core.chain.jacobianToInternal_writes scratch)
      StoreM.entries_writes) fun entries t => ?_
    exact fun hne => absurd rfl hne

-- Where a variable is eliminated, the chain ends with fewer variables than it starts with.
theorem Ready.isSame_of_eliminated (h : Ready p d o v s)
    (hu : d.core.chain.userSize = .integer (v.eliminated o d.core).length)
    (he : d.core.chain.eliminated ≠ []) :
    d.core.chain.internalSize.isSame d.core.chain.userSize = false := by
  by_contra hs
  have hclear := h.length_clear hu (by simpa using hs)
  have hall := length_positions (v.eliminated o d.core)
  rw [hclear, Nat.add_eq_right, List.length_eq_zero_iff] at hall
  exact he (h.eliminates.eliminated.trans hall)

theorem jacobian_withholds {group : ConstraintGroup} (h : Ready p d o v s)
    (hk : s.formulation.kind = .dense) (hx : d.Lent s.store x w xs)
    (hs : d.core.chain.internalSize.isSame d.core.chain.userSize = false ∨
      takesJacobian d s group out = false) (q : Problem α) (isNew : RawValue α) :
    Withholds d w (jacobian q group x isNew out) s := by
  cases htakes : takesJacobian d s group out
  case false =>
    obtain ⟨_, hrun⟩ := denseJacobian_unsuited h hk htakes q isNew
    rw [Withholds, hrun]
    exact fun _ => .of_same rfl rfl
  case true =>
    replace hs := hs.resolve_right (by simp [htakes])
    by_cases hl : (x.size : Int) = d.core.localSize
    case neg => exact .of_misplaces (jacobian_misplaces h hx hl htakes q isNew)
    case pos =>
      obtain ⟨scratch, hscratch, hmem, _⟩ := h.rowScratch hk group
      obtain ⟨k, a, rfl, _, hm, hr, hc⟩ | ⟨_, _, _, _, _, hk', _⟩ :=
        takesJacobian_eq_true h.finalized htakes
      case inr => cases hk.symm.trans hk'
      refine .prepared (getFormulation_run s) (.refl d s) ?_
      simp only [hk]
      refine .prepared (getCore_run h.finalized) (.refl d s) ?_
      refine .prepared (getPart_run hscratch) (.refl d s) ?_
      refine .prepared (get_run s) (.refl d s) ?_
      simp only [hm, hs]
      rw [if_neg (by simp [hr, hc])]
      exact .timed (fillThroughScratch_withholds h hx hl hmem q _ _ isNew k a)

theorem jacobian_accepts {group : ConstraintGroup} (h : Ready p d o v s)
    (hk : s.formulation.kind = .dense) (hx : d.Lent s.store x w xs) {q : Problem α}
    {isNew : RawValue α} (ht : (jacobian q group x isNew out s).1 = .ok true) :
    Accepts q d (.jacobian group) s (jacobian q group x isNew out s).2 := by
  cases htakes : takesJacobian d s group out
  case false =>
    obtain ⟨_, hrun⟩ := denseJacobian_unsuited h hk htakes q isNew
    rw [hrun] at ht
    cases ht
  case true =>
    by_cases hl : (x.size : Int) = d.core.localSize
    case neg =>
      obtain ⟨_, hrun, _⟩ := jacobian_misplaces h hx hl htakes q isNew
      rw [hrun] at ht
      cases ht
    case pos =>
      obtain ⟨ex, hex⟩ := jacobian_consults h hx (hx.size ▸ hl) htakes q isNew
      exact hex.accepts ht

-- A failed derivative leaves the solver's output alone. True is given only after the problem has
-- accepted, and unless it is given, whatever a callback has written, no matrix is changed, and no
-- array other than scratch arrays and that of the point. This is so for all gradients; for dense
-- Jacobians it is so if a variable is eliminated, or if the matrix is of a wrong kind or shape, in
-- which case the problem is not asked at all.
theorem derivatives_retained (hf : finalize p s = (.ok true, t))
    (hd : t.formulation.finalized = some d) (hu : Relation.ReflTransGen (Used d) t u)
    (hx : d.Lent u.store x w xs) (q : Problem α) (isNew : RawValue α) :
    (∀ out wo zs, d.Lent u.store out wo zs → wo.buffer ≠ w.buffer →
      ((gradient q x isNew out u).1 = .ok true →
        Accepts q d .gradient u (gradient q x isNew out u).2) ∧
      ((gradient q x isNew out u).1 ≠ .ok true →
        (gradient q x isNew out u).2.store.buffers[wo.buffer]? = u.store.buffers[wo.buffer]? ∧
        Retains (fun k => d.IsScratch k ∨ k = w.buffer) u (gradient q x isNew out u).2)) ∧
    ∀ group out, s.formulation.kind = .dense →
      (d.core.chain.eliminated ≠ [] ∨ takesJacobian d u group out = false →
        ((jacobian q group x isNew out u).1 = .ok true →
          Accepts q d (.jacobian group) u (jacobian q group x isNew out u).2) ∧
        ((jacobian q group x isNew out u).1 ≠ .ok true →
          Retains (fun k => d.IsScratch k ∨ k = w.buffer) u (jacobian q group x isNew out u).2)) ∧
      (takesJacobian d u group out = false → ∃ e,
        jacobian q group x isNew out u = (.ok false, { u with events := u.events ++ [e] })) := by
  obtain ⟨v, hF, hsize⟩ := chain_userSize hf hd
  have hr := hF.ready.undisturbed (hF.ready.history hu)
  constructor
  case left =>
    intro out wo zs hout hne
    refine ⟨gradient_accepts hr hx hout, fun hfails => ?_⟩
    have hretains := gradient_withholds hr hx hout q isNew hfails
    refine ⟨?_, hretains⟩
    obtain ⟨b, hb, _⟩ := hout.valid
    rw [hb, hretains.writes.rest hb]
    rintro (⟨k, hk, he⟩ | he)
    · exact hout.apart k hk he.symm
    · exact hne he
  case right =>
    intro group out hkind
    have hk : u.formulation.kind = .dense := by
      rw [← kind_of_finalized hr.finalized, hF.kind, hkind]
    refine ⟨fun hs => ⟨jacobian_accepts hr hk hx, ?_⟩, fun ht =>
      denseJacobian_unsuited hr hk ht q isNew⟩
    exact jacobian_withholds hr hk hx (hs.imp_left (hr.isSame_of_eliminated hsize)) q isNew

-- A problem that writes wherever it can, and then refuses.
def vandal : Problem Exact :=
  { sloped with
    evaluate := fun _ => .write .point 0 (.finite 7) (.write .output 0 (.finite 9)
      (.setDense 0 0 (.finite 9) (.done (.flag false)))) }

theorem not_accepts_vandal {d : Finalized Exact} {op : Operation} {s t : Session Exact} :
    ¬Accepts vandal d op s t := by
  rintro ⟨ex, answer, ⟨arrays, before, after, _, _, hrun⟩, _, ho, ha⟩
  rw [ho] at hrun
  replace hrun := congrArg Prod.fst hrun
  simp only [vandal, Callback.run] at hrun
  repeat' split at hrun
  all_goals cases hrun
  all_goals cases ha

theorem derivatives_retained_vandal : ∃ t u x out, ∃ wo : View,
    finalize sloped (slopedStart .remove) = (.ok true, t) ∧
    (gradient vandal x .null out u).1 ≠ .ok true ∧
    (gradient vandal x .null out u).2.store.buffers[wo.buffer]? = u.store.buffers[wo.buffer]? ∧
    (jacobian vandal .equalities x .null (.matrix 0) u).1 ≠ .ok true ∧
    (jacobian vandal .equalities x .null (.matrix 0) u).2.matrices = u.matrices := by
  have hs : succeeds sloped (slopedStart .remove) := by decide +kernel
  have hdata : ((finalize sloped (slopedStart .remove)).2.formulation.finalized.map fun d =>
      d.core.chain.eliminated) = some [1] := by decide +kernel
  obtain ⟨d, hd, hdata⟩ := Option.map_eq_some_iff.mp hdata
  have hf := finalize_of_succeeds hs
  have hu : Handed d [.finite 1, .finite 1] _ _ _ 0 _ :=
    handed_sloped hs hd rfl (staleMatrix_wellFormed 2 2)
  obtain ⟨v, hF⟩ := finalizes_of_finalized hf hd
  have hr := hF.ready.undisturbed (hF.ready.history hu.used)
  obtain ⟨w, hx⟩ := hu.point
  obtain ⟨wo, u, _, hout, _, hb, hu', hw, _⟩ := alloc_lent hr [.finite 5, .finite 6]
  have hused := hu.used.tail (.elsewhere (by rw [hu']) (hw.mono fun _ => False.elim))
  have hne : wo.buffer ≠ w.buffer := (Nat.ne_of_lt (hb ▸ hx.valid.lt_length)).symm
  obtain ⟨hgradient, hjacobian⟩ :=
    derivatives_retained hf hd hused (hx.writes hw id) vandal .null
  obtain ⟨hg, hg'⟩ := hgradient _ _ _ hout hne
  obtain ⟨hj, hj'⟩ := (hjacobian .equalities (.matrix 0) rfl).left (.inl (by simp [hdata]))
  replace hg : (gradient vandal _ .null (.array wo) u).1 ≠ .ok true :=
    fun ht => not_accepts_vandal (hg ht)
  replace hj : (jacobian vandal .equalities _ .null (.matrix 0) u).1 ≠ .ok true :=
    fun ht => not_accepts_vandal (hj ht)
  exact ⟨_, u, _, _, wo, hf, hg, (hg' hg).left, hj, (hj' hj).matrices⟩

end Formulation
end NonlinearProgram
