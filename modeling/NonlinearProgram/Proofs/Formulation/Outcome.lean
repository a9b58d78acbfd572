import NonlinearProgram.Proofs.Formulation.Consultation

-- What becomes of an evaluation is decided by what comes of the callback.

namespace NonlinearProgram

open Program FormulationM Session

variable {α : Type}

namespace Demand

def operation : Demand α → Operation
  | .objective _ _ => .objective
  | .gradient _ _ _ => .gradient
  | .values group _ _ _ => .values group
  | .jacobian group _ _ _ => .jacobian group
  | .hessian _ _ _ _ _ _ => .hessian

def point : Demand α → Argument α
  | .objective x _ | .gradient x _ _ | .values _ x _ _ | .jacobian _ x _ _
  | .hessian x _ _ _ _ _ => x

-- The vectors among the arguments; Jacobians and Hessians are matrices.
def vectors : Demand α → List (Argument α)
  | .objective x _ | .jacobian _ x _ _ => [x]
  | .gradient x _ out | .values _ x _ out => [x, out]
  | .hessian x _ _ multipliers _ _ => [x, multipliers]

-- The vectors are there, and whatever is handed over is outside of the scratch arrays.
structure Lends (d : Finalized α) (s : Store α) (e : Demand α) : Prop where
  vectors : ∀ x ∈ e.vectors, ∃ w xs, d.Lent s x w xs
  apart : ∀ w ∈ (Usage.demand e).handed, ∀ k ∈ d.scratch, w.buffer ≠ k.buffer

theorem Lends.writes {d : Finalized α} {s t : Store α} {touched : Nat → Prop} {e : Demand α}
    (h : e.Lends d s) (hw : s.Writes touched t) : e.Lends d t where
  vectors x hx := by
    obtain ⟨w, xs, hw'⟩ := h.vectors x hx
    have hl : (t.entries w).length = xs.length :=
      Store.length_entries_of_shape (hw.valid hw'.valid) hw'.shape
    exact ⟨w, t.entries w, hw'.view, hl ▸ hw'.shape, hw.valid hw'.valid, rfl, hw'.apart⟩
  apart := h.apart

theorem Lends.of_vectors {d : Finalized α} {s : Store α} {e : Demand α}
    (he : e.arguments = e.vectors) (h : ∀ x ∈ e.vectors, ∃ w xs, d.Lent s x w xs) :
    e.Lends d s where
  vectors := h
  apart w hw k hk := by
    obtain ⟨x, hx, hv⟩ := List.mem_filterMap.mp hw
    obtain ⟨_, _, hx'⟩ := h x (he ▸ hx)
    cases hx'.view.symm.trans hv
    exact hx'.apart k hk

-- What tells the solver to back off: no objective, or a false flag.
def failure : Demand α → RawValue α
  | .objective _ _ => .null
  | _ => .flag false

variable [Scalar α]

-- All arguments but the point have the right sizes, and a matrix is of the right kind.
def Suits (d : Finalized α) (s : Session α) : Demand α → Prop
  | .objective _ _ => True
  | .gradient _ _ out => (out.size : Int) = d.core.localSize
  | .values group _ _ out => out.size = (d.core.indices group).length
  | .jacobian group _ _ out => Formulation.takesJacobian d s group out
  | .hessian _ _ _ multipliers _ out =>
    Formulation.takesHessian d s out ∧ multipliers.size = d.core.constraintCount

-- The outcomes of a callback with which an evaluation fails.
def Fails (r : Except Fault (RawValue α)) : Demand α → Prop
  | .objective _ _ => BacksOff r ∨ Formulation.IsNotFinite r
  | _ => BacksOff r

-- What the solver gets for an answer with which it does not fail.
def given (s : Store α) (answer : RawValue α) : Demand α → Except (Failure α) (RawValue α)
  | .objective _ _ => (answer.toScalar.mapError .numeric).map .real
  | .gradient _ _ out =>
    if out.view?.all s.writable then .ok (.flag true) else .error (.numeric .readOnly)
  | _ => .ok (.flag true)

-- A Hessian is about both groups of variables on their own; nothing else is looked at for this.
def Uncoupled (ex : Exchange α) (e : Demand α) : Prop :=
  e.operation = .hessian → ex.workspace.coupling.isNumber 0

instance (d : Finalized α) (s : Session α) (e : Demand α) : Decidable (e.Suits d s) :=
  match e with
  | .objective _ _ => .isTrue trivial
  | .gradient _ _ _ => inferInstanceAs (Decidable (_ = _))
  | .values _ _ _ _ => inferInstanceAs (Decidable (_ = _))
  | .jacobian _ _ _ _ => inferInstanceAs (Decidable (_ = _))
  | .hessian _ _ _ _ _ _ => inferInstanceAs (Decidable (_ ∧ _))

theorem given_ne_failure (s : Store α) (answer : RawValue α) (e : Demand α) :
    e.given s answer ≠ .ok e.failure := by
  intro h
  cases e
  case objective =>
    simp only [given] at h
    cases hf : answer.toScalar <;> simp [hf, failure, Except.map, Except.mapError] at h
  case gradient x isNew out =>
    simp only [given, failure] at h
    split at h <;> cases h
  all_goals cases h

end Demand

namespace Formulation

variable [Scalar α] {p : Problem α} {d : Finalized α} {o : Options α} {v : Core.Survey α}
  {s t u : Session α}

-- Whatever is asked, the problem is asked once, and its callback decides.
theorem demand_consults (h : Ready p d o v s) {e : Demand α} (hl : e.Lends d s.store)
    (hs : e.Suits d s) (hp : (e.point.size : Int) = d.core.localSize) (q : Problem α) :
    ∃ ex : Exchange α, ex.TakesPlace q d s.store ∧
      Ledger [e.operation] [ex.evaluation] s (e.run q s).2 ∧
      (e.Uncoupled ex → Reports e.operation (e.Fails ex.outcome) e.failure
        (passedOn (fun answer => e.given s.store answer) ex.outcome) (e.run q) s) := by
  cases e
  case objective x isNew =>
    obtain ⟨w, xs, hx⟩ := hl.vectors x (by simp [Demand.vectors])
    obtain ⟨ex, hc⟩ := objective_consults h hx (hx.size ▸ hp) q isNew
    have hm := hc.map fun f => f.elim .null RawValue.real
    have hgiven : (fun answer => ((answer.toScalar.mapError Failure.numeric).map some).map
        fun f => f.elim .null RawValue.real) =
          fun answer => (Demand.objective x isNew).given s.store answer := by
      funext answer
      simp only [Demand.given]
      cases answer.toScalar <;> rfl
    exact ⟨ex, hm.takesPlace, hm.ledger, fun _ => hgiven ▸ hm.reports⟩
  case gradient x isNew out =>
    obtain ⟨w, xs, hx⟩ := hl.vectors x (by simp [Demand.vectors])
    obtain ⟨wo, zs, hout⟩ := hl.vectors out (by simp [Demand.vectors])
    obtain ⟨ex, hc⟩ := gradient_consults h hx (hx.size ▸ hp) hout (hout.size ▸ hs) q isNew
    have hm := hc.map fun b => (.flag b : RawValue α)
    have hgiven : (fun _ : RawValue α =>
        (if s.store.writable wo then Except.ok true else .error (.numeric .readOnly)).map
          RawValue.flag) = fun answer => (Demand.gradient x isNew out).given s.store answer := by
      funext answer
      simp only [Demand.given, hout.view, Option.all_some]
      split <;> rfl
    exact ⟨ex, hm.takesPlace, hm.ledger, fun _ => hgiven ▸ hm.reports⟩
  case values group x isNew out =>
    obtain ⟨w, xs, hx⟩ := hl.vectors x (by simp [Demand.vectors])
    obtain ⟨wo, zs, hout⟩ := hl.vectors out (by simp [Demand.vectors])
    obtain ⟨ex, hc⟩ := values_consults h hx (hx.size ▸ hp) hout (hout.size.symm.trans hs) q isNew
    have hm := hc.map fun b => (.flag b : RawValue α)
    exact ⟨ex, hm.takesPlace, hm.ledger, fun _ => hm.reports⟩
  case jacobian group x isNew out =>
    obtain ⟨w, xs, hx⟩ := hl.vectors x (by simp [Demand.vectors])
    obtain ⟨ex, hc⟩ := jacobian_consults h hx (hx.size ▸ hp) hs q isNew
    have hm := hc.map fun b => (.flag b : RawValue α)
    exact ⟨ex, hm.takesPlace, hm.ledger, fun _ => hm.reports⟩
  case hessian x isNew factor y isNewY out =>
    obtain ⟨w, xs, hx⟩ := hl.vectors x (by simp [Demand.vectors])
    obtain ⟨wy, ys, hy⟩ := hl.vectors y (by simp [Demand.vectors])
    obtain ⟨ex, htakes, hledger, hreports⟩ := hessian_consults h hx (hx.size ▸ hp) hy
      (hy.size ▸ hs.right) hs.left q isNew isNewY factor
    refine ⟨ex, htakes, hledger.bind fun _ s => .refl s, fun hc => ?_⟩
    have hm := (hreports (hc rfl)).map fun b => (.flag b : RawValue α)
    rwa [map_passedOn] at hm

theorem demand_used {e : Demand α} (hl : e.Lends d s.store) (q : Problem α) :
    Used d s (e.run q s).2 := by
  rw [← discard_run]
  exact .work q (.demand e) fun w hw k hk => hl.apart w hw k (List.mem_append_right _ hk)

-- What becomes of an evaluation after its exchange with the problem.
structure Classified (q : Problem α) (e : Demand α) (s : Session α) (ex : Exchange α) : Prop where
  failure_iff : (e.run q s).1 = .ok e.failure ↔ e.Fails ex.outcome
  warned : e.Fails ex.outcome → ∃ event : Event α, event.Warns e.operation ∧
    (e.run q s).2.events = s.events ++ [event]
  silent : ¬e.Fails ex.outcome → (e.run q s).2.events = s.events
  raised : ∀ fault, ex.outcome = .error fault → ¬e.Fails ex.outcome →
    (e.run q s).1 = .error (.raised fault)
  given : ∀ answer, ex.outcome = .ok answer → ¬e.Fails ex.outcome →
    (e.run q s).1 = e.given s.store answer

theorem Classified.of_reports {q : Problem α} {e : Demand α} {ex : Exchange α}
    (h : Reports e.operation (e.Fails ex.outcome) e.failure
      (passedOn (fun answer => e.given s.store answer) ex.outcome) (e.run q) s) :
    Classified q e s ex where
  failure_iff := by
    constructor
    case mp =>
      intro hr
      by_contra hfails
      have hr' := (h.passed hfails).left.symm.trans hr
      cases ho : ex.outcome
      case error fault => rw [ho] at hr'; cases hr'
      case ok answer => rw [ho] at hr'; exact e.given_ne_failure s.store answer hr'
    case mpr =>
      intro hfails
      obtain ⟨_, _, hr, _⟩ := h.failed hfails
      exact hr
  warned hfails := by
    obtain ⟨event, hw, _, hev⟩ := h.failed hfails
    exact ⟨event, hw, hev⟩
  silent hfails := (h.passed hfails).right
  raised fault ho hfails := (h.passed hfails).left.trans (by rw [ho, passedOn])
  given answer ho hfails := (h.passed hfails).left.trans (by rw [ho, passedOn])

-- Evaluation outcomes are classified completely. With arguments of the right sizes, whatever comes
-- of the callback, the evaluation is counted once and the core stays as it is. It fails exactly if
-- the solver is to back off; then there is one warning that names the operation, and otherwise
-- there is none. Every other fault is passed on, and what is given in all other cases is known.
theorem evaluation_outcomes_classified (hf : finalize p s = (.ok true, t))
    (hd : t.formulation.finalized = some d) (hu : Relation.ReflTransGen (Used d) t u)
    {e : Demand α} (hl : e.Lends d u.store) (hs : e.Suits d u)
    (hp : (e.point.size : Int) = d.core.localSize) (q : Problem α) :
    ∃ ex : Exchange α, ex.TakesPlace q d u.store ∧
      Ledger [e.operation] [ex.evaluation] u (e.run q u).2 ∧
      (e.run q u).2.formulation.core = u.formulation.core ∧ Undisturbed d u (e.run q u).2 ∧
      (e.Uncoupled ex → Classified q e u ex) := by
  have ⟨v, hF⟩ := finalizes_of_finalized hf hd
  have hr := hF.ready.undisturbed (hF.ready.history hu)
  have hund := hr.used (demand_used hl q)
  obtain ⟨ex, htakes, hledger, hreports⟩ := demand_consults hr hl hs hp q
  have ⟨_, hform⟩ := hund.formulation
  exact ⟨ex, htakes, hledger, by rw [hform], hund, fun hc => .of_reports (hreports hc)⟩

-- One variable is left of the two, and there is a point to hand over.
theorem lend_sample : ∃ t d v u w, finalize sample sampleStart = (.ok true, t) ∧
    t.formulation.finalized = some d ∧ Ready sample d sampleStart.formulation.options v u ∧
    Relation.ReflTransGen (Used d) t u ∧ d.core.localSize = 1 ∧
    d.Lent u.store (.array w) w [.finite 3] := by
  have hf := finalize_of_succeeds (p := sample) (s := sampleStart) (by decide +kernel)
  have hsize : ((finalize sample sampleStart).2.formulation.finalized.map fun d =>
      d.core.localSize) = some 1 := by decide +kernel
  have ⟨v, d, hF⟩ := finalize_eq_true hf
  rw [hF.finalized, Option.map_some, Option.some.injEq] at hsize
  have ⟨w, u, _, hx, hu, hw, hund⟩ := lend_run hF.ready [.finite 3]
  exact ⟨_, d, v, u, w, hf, hF.finalized, hF.ready.undisturbed hund,
    .single (.elsewhere (by rw [hu]) (hw.mono fun _ => False.elim)), hsize, hx⟩

-- A problem whose callbacks do nothing but come out with the same each time.
def answering (r : Except Fault (RawValue Exact)) : Problem Exact :=
  { sample with evaluate := fun _ => .ofExcept r }

theorem outcome_answering {r : Except Fault (RawValue Exact)} {ex : Exchange Exact}
    {d : Finalized Exact} {s : Store Exact} (h : ex.TakesPlace (answering r) d s) :
    ex.outcome = r := by
  obtain ⟨_, _, _, _, _, hrun⟩ := h
  cases r <;> exact (congrArg Prod.fst hrun).symm

-- An objective of zero is delivered, one that is infinite is not, and a fault of another kind ends
-- the evaluation.
theorem evaluation_outcomes_classified_sample : ∃ t u w,
    finalize sample sampleStart = (.ok true, t) ∧
    ((Demand.objective (.array w) .null).run (answering (.ok (.real 0))) u).1 = .ok (.real 0) ∧
    ((Demand.objective (.array w) .null).run (answering (.ok (.real .infinity))) u).1 = .ok .null ∧
    ((Demand.objective (.array w) .null).run (answering (.error .noNumber)) u).1 =
      .error (.raised .noNumber) := by
  obtain ⟨t, d, _, u, w, hf, hd, _, hu, hsize, hx⟩ := lend_sample
  have hl : (Demand.objective (.array w) .null).Lends d u.store :=
    .of_vectors rfl fun x hx' => List.mem_singleton.mp hx' ▸ ⟨w, _, hx⟩
  have hall (q : Problem Exact) := evaluation_outcomes_classified hf hd hu hl trivial
    (hx.size ▸ hsize.symm) q
  refine ⟨t, u, w, hf, ?_, ?_, ?_⟩
  · obtain ⟨ex, htakes, _, _, _, hc⟩ := hall (answering (.ok (.real 0)))
    have ho := outcome_answering htakes
    refine (hc nofun).given _ ho ?_
    rw [ho]
    rintro (hb | ⟨_, f, ⟨⟩, ⟨⟩, hfin⟩)
    · exact absurd (backsOff_ok.mp hb) (by decide)
    · exact absurd hfin (by decide)
  · obtain ⟨ex, htakes, _, _, _, hc⟩ := hall (answering (.ok (.real .infinity)))
    refine (hc nofun).failure_iff.mpr ?_
    rw [outcome_answering htakes]
    exact .inr ⟨_, .infinity, rfl, rfl, rfl⟩
  · obtain ⟨ex, htakes, _, _, _, hc⟩ := hall (answering (.error .noNumber))
    have ho := outcome_answering htakes
    refine (hc nofun).raised _ ho ?_
    rw [ho]
    rintro (hb | ⟨_, _, ⟨⟩, _⟩)
    exact absurd (backsOff_error.mp hb) (by decide)

end Formulation
end NonlinearProgram
