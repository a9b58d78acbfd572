import NonlinearProgram.Proofs.Formulation.Outcome

-- The statistics count the blocks that evaluations enter. Outputs, multipliers and matrices are
-- looked at before a block is entered, but points only within it.

namespace NonlinearProgram

open Program FormulationM Session

variable {α β γ : Type}

namespace FormulationM

-- The work is rejected for the size of its point, after it has entered these blocks. Apart from
-- scratch arrays everything is as before.
def Misplaces (x : Argument α) (d : Finalized α) (blocks : List Operation) (act : FormulationM α β)
    (s : Session α) : Prop :=
  ∃ t, act s = (.error (.breach (.pointSize x.size d.core.localSize)), t) ∧ Ledger blocks [] s t ∧
    Retains d.IsScratch s t

namespace Misplaces

variable {x : Argument α} {d : Finalized α} {blocks : List Operation} {act : FormulationM α β}
  {s t : Session α} {b : β}

theorem bind (h : Misplaces x d blocks act s) (f : β → FormulationM α γ) :
    Misplaces x d blocks (act >>= f) s := by
  obtain ⟨t, hact, ht⟩ := h
  exact ⟨t, bind_of_error hact f, ht⟩

theorem after {f : β → FormulationM α γ} (hx : act s = (.ok b, t)) (hp : Prepares d s t)
    (h : Misplaces x d blocks (f b) t) : Misplaces x d blocks (act >>= f) s := by
  obtain ⟨u, hact, hu, hr⟩ := h
  exact ⟨u, (bind_of_ok hx f).trans hact, hp.ledger.trans hu, hp.retains.trans hr⟩

theorem timed [Scalar α] {op : Operation} (h : Misplaces x d [] act s) :
    Misplaces x d [op] (timed op act) s := by
  obtain ⟨t, hact, ht, hr⟩ := h
  exact ⟨_, timed_run hact, ht.counted op, hr.writes, hr.matrices⟩

theorem guard {p : Prop} [Decidable p] {e : Failure α} {g : PUnit → FormulationM α β} (hp : ¬p)
    (h : Misplaces x d blocks act s) :
    Misplaces x d blocks (if p then throw e >>= g else act) s := by
  rwa [if_neg hp]

end Misplaces
end FormulationM

namespace Formulation

variable [Scalar α] {p : Problem α} {d : Finalized α} {o : Options α} {v : Core.Survey α}
  {s t : Session α} {x y out : Argument α} {w wy wo : View} {xs ys zs : List α}

theorem pointToUser_misplaces (h : Ready p d o v s) (hx : d.Lent s.store x w xs)
    (hl : (x.size : Int) ≠ d.core.localSize) : Misplaces x d [] (pointToUser x) s :=
  ⟨s, pointToUser_rejects h hx hl, .refl s, .refl _ s⟩

theorem gradient_misplaces (h : Ready p d o v s) (hx : d.Lent s.store x w xs)
    (hl : (x.size : Int) ≠ d.core.localSize) (hout : d.Lent s.store out wo zs)
    (hs : (out.size : Int) = d.core.localSize) (q : Problem α) (isNew : RawValue α) :
    Misplaces x d [.gradient] (gradient q x isNew out) s := by
  refine .after (getCore_run h.finalized) (.refl d s) ?_
  refine .after (localPart_run hout.view s) (.refl d s) ?_
  refine .guard (by simpa [hout.view_size] using hs) ?_
  exact .timed ((pointToUser_misplaces h hx hl).bind _)

theorem jacobian_misplaces {group : ConstraintGroup} (h : Ready p d o v s)
    (hx : d.Lent s.store x w xs) (hl : (x.size : Int) ≠ d.core.localSize)
    (ht : takesJacobian d s group out) (q : Problem α) (isNew : RawValue α) :
    Misplaces x d [.jacobian group] (jacobian q group x isNew out) s := by
  have hpoint := pointToUser_misplaces h hx hl
  refine .after (getFormulation_run s) (.refl d s) ?_
  obtain ⟨k, a, rfl, hk, hm, hr, hc⟩ | ⟨k, a, blocks, scratch, rfl, hk, hb, hm, hf⟩ :=
    takesJacobian_eq_true h.finalized ht
  case inl =>
    obtain ⟨scratch, hscratch, _⟩ := h.rowScratch hk group
    simp only [hk]
    refine .after (getCore_run h.finalized) (.refl d s) ?_
    refine .after (getPart_run hscratch) (.refl d s) ?_
    refine .after (get_run s) (.refl d s) ?_
    simp only [hm]
    rw [if_neg (by simp [hr, hc])]
    split <;> exact .timed (hpoint.bind _)
  case inr =>
    simp only [hk]
    refine .after (getCore_run h.finalized) (.refl d s) ?_
    refine .after (get_run s) (.refl d s) ?_
    simp only [hm]
    refine .after (blockSizes_run h.finalized hb) (.refl d s) ?_
    simp only [hf, if_true]
    exact .timed (hpoint.bind _)

theorem hessian_misplaces (h : Ready p d o v s) (hx : d.Lent s.store x w xs)
    (hl : (x.size : Int) ≠ d.core.localSize) (hy : d.Lent s.store y wy ys)
    (hm : ys.length = d.core.constraintCount) (ht : takesHessian d s out) (q : Problem α)
    (isNew isNewY : RawValue α) (factor : α) :
    Misplaces x d [.hessian] (hessian q x isNew factor y isNewY out) s := by
  obtain ⟨k, a, blocks, scratch, rfl, ha, hb, hf⟩ := takesHessian_eq_true ht
  obtain ⟨t, hs, hpt, hr⟩ := scatterMultipliers_prepares h hb hy hm
  have hbody : Misplaces x d [.hessian]
      (fillHessian q d.core.constraintCount scratch x isNew factor isNewY k a) t :=
    .timed ((pointToUser_misplaces hr (hx.writes_scratch hpt.writes) hl).bind _)
  obtain ⟨u, hu, hledger, hretains⟩ := hbody.bind refuseCoupling
  have hrun := hessian_eq (x := x) h hb ha hf hy hm hs q isNew isNewY factor
  exact ⟨u, hrun.trans hu, hpt.ledger.trans hledger, hpt.retains.trans hretains⟩

-- A point of a wrong size is rejected, but not before the block has been entered.
theorem demand_misplaces (h : Ready p d o v s) {e : Demand α} (hl : e.Lends d s.store)
    (hs : e.Suits d s) (hp : (e.point.size : Int) ≠ d.core.localSize) (q : Problem α) :
    Misplaces e.point d [e.operation] (e.run q) s := by
  obtain ⟨w, xs, hx⟩ := hl.vectors e.point (by cases e <;> simp [Demand.vectors, Demand.point])
  have hpoint := pointToUser_misplaces h hx hp
  cases e
  all_goals refine Misplaces.bind ?_ _
  case objective x isNew =>
    refine .after (getCore_run h.finalized) (.refl d s) ?_
    exact (Misplaces.timed (hpoint.bind _)).bind _
  case gradient x isNew out =>
    obtain ⟨wo, zs, hout⟩ := hl.vectors out (by simp [Demand.vectors])
    exact gradient_misplaces h hx hp hout hs q isNew
  case values group x isNew out =>
    obtain ⟨wo, zs, hout⟩ := hl.vectors out (by simp [Demand.vectors])
    refine .after (getCore_run h.finalized) (.refl d s) ?_
    refine .after (localPart_run hout.view s) (.refl d s) ?_
    replace hs : out.size = (d.core.indices group).length := hs
    refine .guard (by simpa [hout.view_size] using hs) ?_
    exact .timed (hpoint.bind _)
  case jacobian group x isNew out => exact jacobian_misplaces h hx hp hs q isNew
  case hessian x isNew factor y isNewY out =>
    obtain ⟨wy, ys, hy⟩ := hl.vectors y (by simp [Demand.vectors])
    exact hessian_misplaces h hx hp hy (hy.size ▸ hs.right) hs.left q isNew isNewY factor

theorem gradient_unsuited (h : Ready p d o v s) (hout : d.Lent s.store out wo zs)
    (hs : (out.size : Int) ≠ d.core.localSize) (q : Problem α) (isNew : RawValue α) :
    gradient q x isNew out s =
      (.error (.breach (.gradientSize out.size d.core.localSize)), s) := by
  rw [gradient, bind_of_ok (getCore_run h.finalized), bind_of_ok (localPart_run hout.view s),
    hout.view_size, if_pos hs]
  rfl

-- A matrix that is not taken ends an evaluation before its block. That a dense one is not taken is
-- logged, and a false flag given.
theorem denseJacobian_unsuited {group : ConstraintGroup} (h : Ready p d o v s)
    (hk : s.formulation.kind = .dense) (ht : takesJacobian d s group out = false) (q : Problem α)
    (isNew : RawValue α) :
    ∃ e, jacobian q group x isNew out s = (.ok false, { s with events := s.events ++ [e] }) := by
  obtain ⟨scratch, hscratch, _⟩ := h.rowScratch hk group
  rw [jacobian, bind_of_ok (getFormulation_run s)]
  simp only [hk]
  rw [denseJacobian, bind_of_ok (getCore_run h.finalized), bind_of_ok (getPart_run hscratch),
    bind_of_ok (get_run s)]
  have hkind := kind_of_finalized h.finalized
  rcases out with _ | _ | _ | k
  case matrix =>
    rcases hm : s.matrix? (.matrix k) with _ | a | a | a
    case some.dense =>
      cases hb : d.derivatives
      case mixed => simp [hb, hk, Derivatives.kind] at hkind
      case dense =>
        rw [takesJacobian, hm, hb] at ht
        dsimp only at ht ⊢
        rw [if_pos (not_and_or.mp (by simpa using ht))]
        exact ⟨_, rfl⟩
    all_goals exact ⟨_, rfl⟩
  all_goals exact ⟨_, rfl⟩

theorem jacobian_unsuited {group : ConstraintGroup} (h : Ready p d o v s)
    (ht : takesJacobian d s group out = false) (q : Problem α) (isNew : RawValue α) :
    Ledger [] [] s (jacobian q group x isNew out s).2 := by
  have hkind := kind_of_finalized h.finalized
  cases hb : d.derivatives
  case mixed blocks scratch =>
    have ht' : (BlockEvaluation.jacobian group x isNew).takes d s out = false := by
      rw [takesJacobian, hb] at ht
      rw [BlockEvaluation.takes, hb]
      split
      case h_1 a _ _ hm heq =>
        cases heq
        simpa only [hm] using ht
      case h_2 => rfl
    obtain ⟨b, hrun⟩ := jacobian_declines (p := q) h.finalized hb ht'
    rw [hrun]
    exact .refl s
  case dense =>
    have hk : s.formulation.kind = .dense := by rw [← hkind, hb]; rfl
    obtain ⟨e, hrun⟩ := denseJacobian_unsuited h hk ht q isNew
    rw [hrun]
    exact .of_same rfl rfl

theorem hessian_unsuited (h : Ready p d o v s) (hy : d.Lent s.store y wy ys)
    (hs : ¬(takesHessian d s out ∧ y.size = d.core.constraintCount)) (q : Problem α)
    (isNew isNewY : RawValue α) (factor : α) :
    (hessian q x isNew factor y isNewY out s).2 = s := by
  have hkind := kind_of_finalized h.finalized
  cases hb : d.derivatives
  case dense =>
    have hk : s.formulation.kind = .dense := by rw [← hkind, hb]; rfl
    rw [hessian, bind_of_ok (getFormulation_run s), if_pos hk]
    rfl
  case mixed blocks scratch =>
    by_cases ht : takesHessian d s out
    case neg =>
      have hdeclines : Declines (hessian q x isNew factor y isNewY out) s :=
        hessian_declines h.finalized hb (Bool.eq_false_iff.mpr ht)
      obtain ⟨b, hrun⟩ := hdeclines
      rw [hrun]
    case pos =>
      have hk : s.formulation.kind = .mixed := by rw [← hkind, hb]; rfl
      obtain ⟨k, a, blocks', scratch', rfl, ha, hb', hf⟩ := takesHessian_eq_true ht
      cases hb.symm.trans hb'
      rw [hessian_of_fitting h hk hb ha hf hy, if_pos (by simpa [hy.view_size, ht] using hs)]
      rfl

-- What does not fit is rejected before anything is counted, and does not reach the problem.
theorem demand_unsuited (h : Ready p d o v s) {e : Demand α} (hl : e.Lends d s.store)
    (hs : ¬e.Suits d s) (q : Problem α) : Ledger [] [] s (e.run q s).2 := by
  cases e
  case objective => exact absurd trivial hs
  all_goals rw [Demand.run, return_run]
  case gradient x isNew out =>
    obtain ⟨wo, zs, hout⟩ := hl.vectors out (by simp [Demand.vectors])
    rw [gradient_unsuited h hout hs q isNew]
    exact .refl s
  case values group x isNew out =>
    obtain ⟨wo, zs, hout⟩ := hl.vectors out (by simp [Demand.vectors])
    replace hs : out.size ≠ (d.core.indices group).length := hs
    rw [values, bind_of_ok (getCore_run h.finalized)]
    dsimp only
    rw [bind_of_ok (localPart_run hout.view s), if_pos (by simpa [hout.view_size] using hs)]
    exact .refl s
  case jacobian group x isNew out => exact jacobian_unsuited h (Bool.eq_false_iff.mpr hs) q isNew
  case hessian x isNew factor y isNewY out =>
    obtain ⟨wy, ys, hy⟩ := hl.vectors y (by simp [Demand.vectors])
    rw [hessian_unsuited h hy hs q isNew isNewY factor]
    exact .refl s

end Formulation

def Call.isEvaluation : Call α → Bool
  | .evaluation _ => true
  | _ => false

-- How often a problem has been asked to evaluate.
def Session.callbacks (s : Session α) : Nat := s.trace.countP Call.isEvaluation

theorem Session.Ledger.callbacks {blocks : List Operation} {asked : List (Evaluation α)}
    {s t : Session α} (h : Ledger blocks asked s t) : t.callbacks = s.callbacks + asked.length := by
  have hall : (asked.map Call.evaluation).countP Call.isEvaluation = asked.length := by
    rw [List.countP_map]
    exact List.countP_eq_length.mpr fun _ _ => rfl
  rw [Session.callbacks, h.trace, List.countP_append, hall, Session.callbacks]

-- One evaluation that a solver asks for, of whatever problem is behind the formulation by then.
structure Turn (α : Type) where
  session : Session α
  problem : Problem α
  demand : Demand α

namespace Turn

variable [Scalar α]

def after (c : Turn α) : Session α := (c.demand.run c.problem c.session).2

-- How often the callback was invoked.
def callbacks (c : Turn α) : Nat := c.after.callbacks - c.session.callbacks

-- Everything fits except for the size of the point.
def Misplaced (d : Finalized α) (c : Turn α) : Prop :=
  c.demand.Suits d c.session ∧ (c.demand.point.size : Int) ≠ d.core.localSize

instance (d : Finalized α) (c : Turn α) : Decidable (c.Misplaced d) :=
  inferInstanceAs (Decidable (_ ∧ _))

end Turn

namespace Formulation

variable [Scalar α] {p : Problem α} {d : Finalized α} {o : Options α} {v : Core.Survey α}
  {s t u w : Session α} {cs : List (Turn α)}

-- Evaluations one after the other. In between, the solver may do anything with the formulation that
-- is not counted, and anything with its own arrays and matrices.
inductive Turns (d : Finalized α) : Session α → List (Turn α) → Session α → Prop
  | refl (s : Session α) : Turns d s [] s
  | turn {s t : Session α} {cs : List (Turn α)} (q : Problem α) (e : Demand α)
    (hl : e.Lends d s.store) (h : Turns d (e.run q s).2 cs t) : Turns d s (⟨s, q, e⟩ :: cs) t
  | between {s s' t : Session α} {cs : List (Turn α)} (hu : Used d s s')
    (hs : s'.formulation.stats = s.formulation.stats) (h : Turns d s' cs t) : Turns d s cs t

-- A turn counts its callback, and itself where just the point does not fit.
theorem turn_counts (h : Ready p d o v s) {e : Demand α} (hl : e.Lends d s.store)
    (q : Problem α) (op : Operation) :
    (e.run q s).2.formulation.stats.count op.text = s.formulation.stats.count op.text +
      if e.operation = op then
        Turn.callbacks ⟨s, q, e⟩ + if Turn.Misplaced d ⟨s, q, e⟩ then 1 else 0
      else 0 := by
  have hcallbacks {blocks : List Operation} {asked : List (Evaluation α)}
      (ht : Ledger blocks asked s (e.run q s).2) :
      Turn.callbacks ⟨s, q, e⟩ = asked.length := by
    rw [Turn.callbacks, Turn.after, ht.callbacks, Nat.add_sub_cancel_left]
  by_cases hs : e.Suits d s
  case neg =>
    have ht := demand_unsuited h hl hs q
    have hm : ¬Turn.Misplaced d ⟨s, q, e⟩ := fun hm => hs hm.left
    rw [ht.counts, hcallbacks ht]
    simp [hm]
  case pos =>
    by_cases hp : (e.point.size : Int) = d.core.localSize
    case neg =>
      obtain ⟨t, hrun, ht, _⟩ := demand_misplaces h hl hs hp q
      have hm : Turn.Misplaced d ⟨s, q, e⟩ := ⟨hs, hp⟩
      replace ht : Ledger [e.operation] [] s (e.run q s).2 := by rwa [hrun]
      rw [ht.counts, hcallbacks ht]
      simp [hm, List.count_singleton]
    case pos =>
      obtain ⟨ex, _, ht, _⟩ := demand_consults h hl hs hp q
      have hm : ¬Turn.Misplaced d ⟨s, q, e⟩ := fun hm => hm.right hp
      rw [ht.counts, hcallbacks ht]
      simp [hm, List.count_singleton]

-- What holds of one turn holds of them all; the induction is on the turns, which leave the
-- formulation ready.
theorem turns_count (h : Ready p d o v s) (hc : Turns d s cs t) (op : Operation) :
    t.formulation.stats.count op.text = s.formulation.stats.count op.text +
      ((cs.filter (·.demand.operation = op)).map Turn.callbacks).sum +
      cs.countP fun c => c.demand.operation = op ∧ c.Misplaced d := by
  induction hc
  case refl => rfl
  case turn s t cs q e hl _ ih =>
    rw [ih (h.undisturbed (h.used (demand_used hl q))), turn_counts h hl q op, List.filter_cons,
      List.countP_cons]
    by_cases hop : e.operation = op
    case pos =>
      by_cases hm : Turn.Misplaced d ⟨s, q, e⟩
      all_goals simp [hop, hm]; omega
    case neg => simp [hop]
  case between hu hs _ ih => rw [ih (h.undisturbed (h.used hu)), hs]

-- The statistics count the callbacks that were invoked, and beside them the turns in which just the
-- point did not fit. So they count the callbacks exactly if there is no such turn.
theorem callbacks_counted_iff (hf : finalize p s = (.ok true, t))
    (hd : t.formulation.finalized = some d) (hu : Relation.ReflTransGen (Used d) t u)
    (hc : Turns d u cs w) :
    t.formulation.stats = s.formulation.stats ∧
      (∀ op : Operation, w.formulation.stats.count op.text = u.formulation.stats.count op.text +
        ((cs.filter (·.demand.operation = op)).map Turn.callbacks).sum +
        cs.countP fun c => c.demand.operation = op ∧ c.Misplaced d) ∧
      ((∀ op : Operation, w.formulation.stats.count op.text =
        u.formulation.stats.count op.text +
          ((cs.filter (·.demand.operation = op)).map Turn.callbacks).sum) ↔
        ∀ c ∈ cs, ¬c.Misplaced d) := by
  have ⟨v, hF⟩ := finalizes_of_finalized hf hd
  have hr := hF.ready.undisturbed (hF.ready.history hu)
  have hcount := fun op => turns_count hr hc op
  refine ⟨?stats, hcount, ?_, ?_⟩
  case stats =>
    rw [hF.formulation, holding]
    cases d.derivatives <;> rfl
  case refine_1 =>
    intro h c hmem hm
    have hzero := (hcount c.demand.operation).symm.trans (h c.demand.operation)
    rw [Nat.add_eq_left, List.countP_eq_zero] at hzero
    exact hzero c hmem (by simp [hm])
  case refine_2 =>
    intro h op
    rw [hcount op, Nat.add_eq_left, List.countP_eq_zero]
    intro c hmem hm
    exact h c hmem (of_decide_eq_true hm).right

-- At a point of the right size the objective is counted as often as it is asked for.
theorem callbacks_counted_iff_fitting : ∃ t u w,
    finalize sample sampleStart = (.ok true, t) ∧
    (Turn.after ⟨u, sample, .objective (.array w) .null⟩).formulation.stats.count
        Operation.objective.text =
      u.formulation.stats.count Operation.objective.text +
        Turn.callbacks ⟨u, sample, .objective (.array w) .null⟩ := by
  obtain ⟨t, d, _, u, w, hf, hd, _, hu, hsize, hx⟩ := lend_sample
  have hl : (Demand.objective (.array w) .null).Lends d u.store :=
    .of_vectors rfl fun x hx' => List.mem_singleton.mp hx' ▸ ⟨w, _, hx⟩
  have hall := (callbacks_counted_iff hf hd hu (.turn sample _ hl (.refl _))).right.right.mpr
  refine ⟨t, u, w, hf, (hall ?_ .objective).trans ?_⟩
  case refine_1 =>
    intro c hc
    cases List.mem_singleton.mp hc
    exact fun hm => hm.right (hx.size.symm ▸ hsize.symm)
  case refine_2 => simp [Demand.operation]

-- A point of two entries for the one variable is rejected, and all the same there is one gradient
-- more in the statistics.
theorem rejected_point_counted : ∃ t d u w out, ∃ c : Turn Exact,
    c = ⟨u, sample, .gradient (.array w) .null (.array out)⟩ ∧
    finalize sample sampleStart = (.ok true, t) ∧ t.formulation.finalized = some d ∧
    Relation.ReflTransGen (Used d) t u ∧ c.demand.Lends d u.store ∧
    (c.demand.run sample u).1 = .error (.breach (.pointSize 2 1)) ∧ c.callbacks = 0 ∧
    c.after.formulation.stats.count Operation.gradient.text =
      u.formulation.stats.count Operation.gradient.text + 1 := by
  obtain ⟨t, d, _, u₁, out, hf, hd, hr, hu₁, hsize, hone⟩ := lend_sample
  have ⟨w, u, _, htwo, hu, hw, hund⟩ := lend_run hr [.finite 3, .finite 4]
  have hone' := hone.writes hw id
  have hused := hu₁.tail (.elsewhere (by rw [hu]) (hw.mono fun _ => False.elim))
  have hl : (Demand.gradient (.array w) .null (.array out)).Lends d u.store := by
    refine .of_vectors rfl fun x hx => ?_
    obtain rfl | hx := List.mem_cons.mp hx
    · exact ⟨w, _, htwo⟩
    · exact List.mem_singleton.mp hx ▸ ⟨out, _, hone'⟩
  have hs : (Demand.gradient (.array w) .null (.array out)).Suits d u :=
    (congrArg Nat.cast hone'.size).trans hsize.symm
  have hp : ((Argument.array w : Argument Exact).size : Int) ≠ d.core.localSize := by
    rw [htwo.size, hsize]
    decide
  obtain ⟨u', hrun, hledger, _⟩ := demand_misplaces (hr.undisturbed hund) hl hs hp sample
  refine ⟨t, d, u, w, out, _, rfl, hf, hd, hused, hl, ?rejected, ?callbacks, ?count⟩
  case rejected =>
    rw [hrun, Demand.point, htwo.size, hsize]
    rfl
  case callbacks =>
    rw [Turn.callbacks, Turn.after, hrun, hledger.callbacks]
    exact Nat.sub_self _
  case count =>
    rw [Turn.after, hrun, hledger.counts]
    rfl

end Formulation
end NonlinearProgram
