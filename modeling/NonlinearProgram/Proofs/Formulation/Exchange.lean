import NonlinearProgram.Proofs.Stats
import NonlinearProgram.Proofs.Formulation.BlockShapes
import NonlinearProgram.Proofs.Formulation.Jacobians

-- An evaluation whose arguments have the right sizes asks the problem exactly once, within a block
-- that is counted. What comes of the callback decides what becomes of the evaluation: it fails with
-- a warning, it ends with the fault that was raised, or it delivers.

namespace NonlinearProgram

open Program FormulationM

variable {α β γ : Type}

-- The outcomes of a callback from which a solver can back off: no answer or a false flag, and
-- faults of arithmetic, of a value or of linear algebra. Malformed data are faults of a value.
inductive BacksOff : Except Fault (RawValue α) → Prop
  | nothing : BacksOff (.ok .null)
  | refused : BacksOff (.ok (.flag false))
  | raised {fault : Fault} (h : fault.family ∈
    [FaultFamily.arithmetic, .value, .linearAlgebra, .malformedData]) : BacksOff (.error fault)

theorem backsOff_ok {answer : RawValue α} : BacksOff (.ok answer) ↔ answer.isRefusal := by
  constructor
  case mp => rintro (_ | _) <;> rfl
  case mpr =>
    intro h
    rw [RawValue.isRefusal.eq_def] at h
    split at h
    case h_1 => exact .nothing
    case h_2 => exact .refused
    case h_3 => cases h

theorem backsOff_error {fault : Fault} :
    BacksOff (.error fault : Except Fault (RawValue α)) ↔ fault.isRecoverable := by
  rw [Fault.isRecoverable]
  constructor
  case mp =>
    rintro (_ | _ | h)
    revert h
    cases fault.family <;> decide
  case mpr =>
    intro h
    refine .raised ?_
    revert h
    cases fault.family <;> decide

-- A warning that names an operation.
def Event.Warns [Scalar α] (op : Operation) (e : Event α) : Prop :=
  e.level = Log.warning ∧ ∃ rest, e.message = op.text ++ ": " ++ rest

namespace Event.Warns

variable [Scalar α]

theorem callbackRaised (op : Operation) (fault : Fault) :
    (Event.callbackRaised op.text fault : Event α).Warns op := by
  have hm : (Event.callbackRaised op.text fault : Event α).message =
    op.text ++ ": user callback raised " ++ fault.name ++ ": " ++ fault.message := rfl
  have hs : ": user callback raised " = ": " ++ "user callback raised " := by decide
  refine ⟨rfl, "user callback raised " ++ fault.name ++ ": " ++ fault.message, ?_⟩
  rw [hm, hs]
  simp only [String.append_assoc]

theorem callbackRefused (op : Operation) :
    (Event.callbackRefused op.text : Event α).Warns op := by
  have hm : (Event.callbackRefused op.text : Event α).message =
    op.text ++ ": user callback reported failure" := rfl
  have hs : ": user callback reported failure" = ": " ++ "user callback reported failure" := by
    decide
  exact ⟨rfl, "user callback reported failure", by rw [hm, hs, String.append_assoc]⟩

theorem objectiveNotFinite (f : α) : (Event.objectiveNotFinite f).Warns .objective := by
  have hm : (Event.objectiveNotFinite f).message =
    Operation.objective.text ++ ": objective is not finite (" ++ Scalar.text f ++ ")" := rfl
  have hs : ": objective is not finite (" = ": " ++ "objective is not finite (" := by decide
  refine ⟨rfl, "objective is not finite (" ++ Scalar.text f ++ ")", ?_⟩
  rw [hm, hs]
  simp only [String.append_assoc]

end Event.Warns

namespace Evaluation

-- The parts of a matrix that come with an evaluation.
def workspace : Evaluation α → Workspace α
  | .denseJacobian _ _ _ rows => { dense := rows }
  | .blockJacobian _ _ _ blocks | .hessian _ _ _ _ _ blocks =>
    { triplets := blocks.triplets, dense := blocks.rows }
  | .objective _ | .gradient _ _ | .constraints _ _ _ _ => {}

-- The arrays that come with an evaluation hold what it says.
inductive ShownBy (s : Store α) : Evaluation α → (Slot → Option View) → Prop
  | objective (n : Int) (u : View) (isNew : RawValue α) :
    ShownBy s (.objective ⟨n, s.read u, isNew⟩) (Formulation.slots u none none)
  | gradient (n : Int) (u out : View) (isNew : RawValue α) :
    ShownBy s (.gradient ⟨n, s.read u, isNew⟩ (s.entries out))
      (Formulation.slots u (some out) none)
  | constraints (n : Int) (u out : View) (isNew : RawValue α) (m : Nat) (indices : List Nat) :
    ShownBy s (.constraints ⟨n, s.read u, isNew⟩ m indices (s.read out))
      (Formulation.slots u (some out) none)
  | denseJacobian (n : Int) (u : View) (isNew : RawValue α) (m : Nat) (indices : List Nat)
    (rows : Rows α) :
    ShownBy s (.denseJacobian ⟨n, s.read u, isNew⟩ m indices rows) (Formulation.slots u none none)
  | blockJacobian (n : Int) (u : View) (isNew : RawValue α) (m : Nat) (indices : List Nat)
    (blocks : BlockContents α) :
    ShownBy s (.blockJacobian ⟨n, s.read u, isNew⟩ m indices blocks)
      (Formulation.slots u none none)
  | hessian (n : Int) (u multipliers : View) (isNew : RawValue α) (m : Nat) (factor : α)
    (newMultipliers : RawValue α) (blocks : BlockContents α) :
    ShownBy s (.hessian ⟨n, s.read u, isNew⟩ m factor (s.entries multipliers) newMultipliers blocks)
      (Formulation.slots u none (some multipliers))

end Evaluation

-- What a problem was asked, what came of its callback, and the matrix that it left.
structure Exchange (α : Type) where
  evaluation : Evaluation α
  outcome : Except Fault (RawValue α)
  workspace : Workspace α

-- The exchange takes place on arrays that hold what the problem is asked, and before which only
-- scratch arrays were changed.
def Exchange.TakesPlace (ex : Exchange α) (p : Problem α) (d : Finalized α) (s : Store α) : Prop :=
  ∃ arrays before after, ex.evaluation.ShownBy before arrays ∧ s.Writes d.IsScratch before ∧
    (p.evaluate ex.evaluation).run arrays ⟨before, ex.evaluation.workspace⟩ =
      (ex.outcome, ⟨after, ex.workspace⟩)

-- What is made of a callback that is not backed off from.
def passedOn (deliver : RawValue α → Except (Failure α) β) :
    Except Fault (RawValue α) → Except (Failure α) β
  | .error fault => .error (.raised fault)
  | .ok answer => deliver answer

theorem map_passedOn (deliver : RawValue α → Except (Failure α) β) (g : β → γ)
    (r : Except Fault (RawValue α)) :
    (passedOn deliver r).map g = passedOn (fun answer => (deliver answer).map g) r := by
  cases r <;> rfl

namespace Session

-- In between, these blocks were entered and these evaluations reached the problem.
structure Ledger (blocks : List Operation) (asked : List (Evaluation α)) (s t : Session α) :
    Prop where
  counts : ∀ op : Operation, t.formulation.stats.count op.text =
    s.formulation.stats.count op.text + blocks.count op
  trace : t.trace = s.trace ++ asked.map Call.evaluation

namespace Ledger

variable {blocks blocks' : List Operation} {asked asked' : List (Evaluation α)}
  {s t u : Session α}

theorem of_same (hf : t.formulation = s.formulation) (ht : t.trace = s.trace) :
    Ledger [] [] s t where
  counts op := by rw [hf, List.count_nil, Nat.add_zero]
  trace := by rw [ht, List.map_nil, List.append_nil]

theorem refl (s : Session α) : Ledger [] [] s s :=
  .of_same rfl rfl

theorem trans (h₁ : Ledger blocks asked s t) (h₂ : Ledger blocks' asked' t u) :
    Ledger (blocks ++ blocks') (asked ++ asked') s u where
  counts op := by rw [h₂.counts, h₁.counts, List.count_append, Nat.add_assoc]
  trace := by rw [h₂.trace, h₁.trace, List.map_append, List.append_assoc]

theorem counted [Scalar α] (h : Ledger blocks asked s t) (op : Operation) :
    Ledger (blocks ++ [op]) asked s (s.counted op t) where
  counts other := by
    have hop : (op.text == other.text) = (op == other) := by
      by_cases ho : op = other
      case pos => simp [ho]
      case neg => simp [ho, mt Operation.text_injective ho]
    rw [List.count_append, List.count_singleton, ← Nat.add_assoc, ← h.counts, Session.counted,
      Stats.count_record, hop]
  trace := h.trace

-- Work that neither enters a block nor asks the problem.
theorem keeps_bind {act : FormulationM α β} {f : β → FormulationM α γ}
    (hx : Keeps (Ledger [] []) act) (hf : ∀ b, Keeps (Ledger [] []) (f b)) :
    Keeps (Ledger [] []) (act >>= f) :=
  .bind (fun h₁ h₂ => h₁.trans h₂) hx hf

theorem bind {act : FormulationM α β} {f : β → FormulationM α γ}
    (h : Ledger blocks asked s (act s).2) (hf : ∀ b, Keeps (Ledger [] []) (f b)) :
    Ledger blocks asked s ((act >>= f) s).2 := by
  cases hact : act s
  case mk r t =>
    rw [hact] at h
    cases r
    case error e => rwa [bind_of_error hact]
    case ok b =>
      rw [bind_of_ok hact]
      simpa using h.trans (hf b t)

end Ledger

-- Of the arrays that there were, only these were changed, and none of the matrices.
structure Retains (touched : Nat → Prop) (s t : Session α) : Prop where
  writes : s.store.Writes touched t.store
  matrices : t.matrices = s.matrices

namespace Retains

variable {touched touched' : Nat → Prop} {s t u : Session α}

theorem of_same (hs : t.store = s.store) (hm : t.matrices = s.matrices) : Retains touched s t :=
  ⟨hs ▸ .refl _ _, hm⟩

theorem refl (touched : Nat → Prop) (s : Session α) : Retains touched s s :=
  .of_same rfl rfl

theorem trans (h₁ : Retains touched s t) (h₂ : Retains touched t u) : Retains touched s u :=
  ⟨h₁.writes.and_then h₂.writes, h₂.matrices.trans h₁.matrices⟩

theorem mono (h : Retains touched s t) (ht : ∀ k, touched k → touched' k) : Retains touched' s t :=
  ⟨h.writes.mono ht, h.matrices⟩

end Retains

-- Only arrays were changed, and of those that there were only scratch arrays.
structure Prepares (d : Finalized α) (s t : Session α) : Prop where
  rest : t = { s with store := t.store }
  writes : s.store.Writes d.IsScratch t.store

theorem Prepares.refl (d : Finalized α) (s : Session α) : Prepares d s s :=
  ⟨rfl, .refl _ _⟩

theorem Prepares.ledger {d : Finalized α} {s t : Session α} (h : Prepares d s t) :
    Ledger [] [] s t := by
  rw [h.rest]
  exact .of_same rfl rfl

theorem Prepares.retains {d : Finalized α} {s t : Session α} (h : Prepares d s t) :
    Retains d.IsScratch s t :=
  ⟨h.writes, by rw [h.rest]⟩

end Session

namespace FormulationM

open Session

-- The work fails with one warning that names the operation, or it gives something else without one.
structure Reports [Scalar α] (op : Operation) (fails : Prop) (failure : β)
    (otherwise : Except (Failure α) β) (act : FormulationM α β) (s : Session α) : Prop where
  failed : fails → ∃ e : Event α, e.Warns op ∧ (act s).1 = .ok failure ∧
    (act s).2.events = s.events ++ [e]
  passed : ¬fails → (act s).1 = otherwise ∧ (act s).2.events = s.events

-- The work enters blocks and has one exchange with the problem, of which it reports.
structure Consults [Scalar α] (p : Problem α) (d : Finalized α) (ex : Exchange α) (op : Operation)
    (blocks : List Operation) (fails : Prop) (failure : β) (otherwise : Except (Failure α) β)
    (act : FormulationM α β) (s : Session α) : Prop where
  takesPlace : ex.TakesPlace p d s.store
  ledger : Ledger blocks [ex.evaluation] s (act s).2
  reports : Reports op fails failure otherwise act s

variable [Scalar α] {p : Problem α} {d : Finalized α} {ex : Exchange α} {op : Operation}
  {blocks : List Operation} {fails fails' : Prop} {failure : β} {failure' : γ}
  {otherwise : Except (Failure α) β} {otherwise' : Except (Failure α) γ} {act : FormulationM α β}
  {f : β → FormulationM α γ} {s t : Session α} {b : β}

namespace Reports

theorem congr {act' : FormulationM α β} (hx : act s = act' t) (he : t.events = s.events)
    (h : Reports op fails failure otherwise act' t) :
    Reports op fails failure otherwise act s where
  failed hf := by
    rw [hx, ← he]
    exact h.failed hf
  passed hf := by
    rw [hx, ← he]
    exact h.passed hf

theorem after (hx : act s = (.ok b, t)) (he : t.events = s.events)
    (h : Reports op fails failure' otherwise' (f b) t) :
    Reports op fails failure' otherwise' (act >>= f) s :=
  h.congr (bind_of_ok hx f) he

theorem of_eq {always : Except (Failure α) β} (hf : fails ↔ fails') (ho : otherwise = always)
    (h : Reports op fails' failure always act s) :
    Reports op fails failure otherwise act s := by
  rwa [hf, ho]

-- What follows passes a failure on, and may find one of its own in what was given instead.
theorem bind {deliver : β → Except (Failure α) γ} {later : β → Prop}
    (h : Reports op fails failure otherwise act s)
    (hf : ∀ t, f failure t = (.ok failure', t))
    (hd : ∀ b t, act s = (.ok b, t) → otherwise = .ok b →
      Reports op (later b) failure' (deliver b) (f b) t) :
    Reports op (fails ∨ ∃ b, otherwise = .ok b ∧ later b) failure' (otherwise.bind deliver)
      (act >>= f) s where
  failed hfails := by
    by_cases hfirst : fails
    case pos =>
      obtain ⟨e, he, hr, hev⟩ := h.failed hfirst
      have hact : act s = (.ok failure, (act s).2) := Prod.ext hr rfl
      refine ⟨e, he, ?_⟩
      rw [bind_of_ok hact, hf]
      exact ⟨rfl, hev⟩
    case neg =>
      obtain ⟨b, hb, hl⟩ := hfails.resolve_left hfirst
      obtain ⟨hr, hev⟩ := h.passed hfirst
      have hact : act s = (.ok b, (act s).2) := Prod.ext (hr.trans hb) rfl
      rw [bind_of_ok hact, ← hev]
      exact (hd b _ hact hb).failed hl
  passed hfails := by
    rw [not_or] at hfails
    obtain ⟨hr, hev⟩ := h.passed hfails.left
    cases otherwise
    case error e =>
      have hact : act s = (.error e, (act s).2) := Prod.ext hr rfl
      rw [bind_of_error hact]
      exact ⟨rfl, hev⟩
    case ok b =>
      have hact : act s = (.ok b, (act s).2) := Prod.ext hr rfl
      rw [bind_of_ok hact, ← hev]
      exact (hd b _ hact rfl).passed fun hl => hfails.right ⟨b, rfl, hl⟩

-- What follows has no failure of its own.
theorem carry {deliver : β → Except (Failure α) γ}
    (h : Reports op fails failure otherwise act s)
    (hf : ∀ t, f failure t = (.ok failure', t))
    (hd : ∀ b t, act s = (.ok b, t) → otherwise = .ok b →
      (f b t).1 = deliver b ∧ (f b t).2.events = t.events) :
    Reports op fails failure' (otherwise.bind deliver) (act >>= f) s := by
  have hb : Reports op (fails ∨ ∃ b, otherwise = .ok b ∧ False) failure' (otherwise.bind deliver)
    (act >>= f) s := h.bind hf fun b t hact ho => ⟨False.elim, fun _ => hd b t hact ho⟩
  simpa using hb

theorem map (h : Reports op fails failure otherwise act s) (g : β → γ) :
    Reports op fails (g failure) (otherwise.map g) (do return g (← act)) s := by
  have hm : otherwise.map g = otherwise.bind fun b => .ok (g b) := by cases otherwise <;> rfl
  exact hm ▸ h.carry (fun _ => rfl) fun _ _ _ _ => ⟨rfl, rfl⟩

end Reports

namespace Consults

theorem after (hx : act s = (.ok b, t)) (hp : Prepares d s t)
    (h : Consults p d ex op blocks fails failure' otherwise' (f b) t) :
    Consults p d ex op blocks fails failure' otherwise' (act >>= f) s where
  takesPlace := by
    obtain ⟨arrays, before, after, hs, hw, hrun⟩ := h.takesPlace
    exact ⟨arrays, before, after, hs, hp.writes.and_then hw, hrun⟩
  ledger := by
    rw [bind_of_ok hx]
    exact hp.ledger.trans h.ledger
  reports := h.reports.after hx (by rw [hp.rest])

theorem guard {c : Prop} [Decidable c] {e : Failure α} {g : PUnit → FormulationM α β} (hc : ¬c)
    (h : Consults p d ex op blocks fails failure otherwise act s) :
    Consults p d ex op blocks fails failure otherwise (if c then throw e >>= g else act) s := by
  rwa [if_neg hc]

theorem timed (h : Consults p d ex op [] fails failure otherwise act s) :
    Consults p d ex op [op] fails failure otherwise (timed op act) s where
  takesPlace := h.takesPlace
  ledger := h.ledger.counted op
  reports := ⟨h.reports.failed, h.reports.passed⟩

-- What follows an exchange neither enters a block nor asks the problem.
theorem bind (h : Consults p d ex op blocks fails failure otherwise act s)
    (hf : ∀ b, Keeps (Ledger [] []) (f b))
    (hr : Reports op fails' failure' otherwise' (act >>= f) s) :
    Consults p d ex op blocks fails' failure' otherwise' (act >>= f) s where
  takesPlace := h.takesPlace
  ledger := h.ledger.bind hf
  reports := hr

theorem map {deliver : RawValue α → Except (Failure α) β}
    (h : Consults p d ex op blocks fails failure (passedOn deliver ex.outcome) act s) (g : β → γ) :
    Consults p d ex op blocks fails (g failure)
      (passedOn (fun answer => (deliver answer).map g) ex.outcome) (do return g (← act)) s :=
  map_passedOn deliver g ex.outcome ▸ h.bind (fun _ _ => .refl _) (h.reports.map g)

end Consults
end FormulationM

namespace Formulation

open Session

variable [Scalar α] {q : Problem α} {d : Finalized α} {op : Operation} {s : Session α}

omit [Scalar α] in
theorem judge_ledger (op : Operation) (r : Except Fault (RawValue α)) :
    Keeps (Ledger [] []) (judge op r) := by
  intro s
  refine .of_same ?_ (judge_keeps op r s)
  cases r <;>
  · simp only [judge, ite_run]
    split <;> rfl

-- What becomes of a callback from which the solver does not get an answer.
omit [Scalar α] in
theorem judge_raised {fault : Fault} (h : fault.isRecoverable = false) (op : Operation)
    (s : Session α) : judge op (.error fault) s = (.error (.raised fault), s) := by
  simp [judge, h]

omit [Scalar α] in
theorem judge_backsOff {fault : Fault} (h : fault.isRecoverable) (op : Operation)
    (s : Session α) : judge op (.error fault) s =
      (.ok none, { s with events := s.events ++ [.callbackRaised op.text fault] }) := by
  simp only [judge, h]
  rfl

omit [Scalar α] in
theorem judge_refuses {answer : RawValue α} (h : answer.isRefusal) (op : Operation)
    (s : Session α) : judge op (.ok answer) s =
      (.ok none, { s with events := s.events ++ [.callbackRefused op.text] }) := by
  simp only [judge, h]
  rfl

-- A callback is judged right after it has come out.
theorem judge_bind_reports {r : Except Fault (RawValue α)}
    {f : Option (RawValue α) → FormulationM α β} {failure : β}
    {deliver : RawValue α → Except (Failure α) β}
    (hf : ∀ t, f none t = (.ok failure, t))
    (hd : ∀ answer, r = .ok answer →
      (f (some answer) s).1 = deliver answer ∧ (f (some answer) s).2.events = s.events) :
    Reports op (BacksOff r) failure (passedOn deliver r) (judge op r >>= f) s := by
  cases r
  case error fault =>
    rw [backsOff_error]
    cases hr : fault.isRecoverable
    case false =>
      refine ⟨fun h => absurd h (by decide), fun _ => ?_⟩
      rw [bind_of_error (judge_raised hr op s)]
      exact ⟨rfl, rfl⟩
    case true =>
      refine ⟨fun _ => ⟨_, .callbackRaised op fault, ?_⟩, fun h => absurd rfl h⟩
      rw [bind_of_ok (judge_backsOff hr op s), hf]
      exact ⟨rfl, rfl⟩
  case ok answer =>
    rw [backsOff_ok]
    cases hr : answer.isRefusal
    case false =>
      refine ⟨fun h => absurd h (by decide), fun _ => ?_⟩
      rw [bind_of_ok (judge_run hr op s)]
      exact hd answer rfl
    case true =>
      refine ⟨fun _ => ⟨_, .callbackRefused op, ?_⟩, fun h => absurd rfl h⟩
      rw [bind_of_ok (judge_refuses hr op s), hf]
      exact ⟨rfl, rfl⟩

theorem judge_reports (op : Operation) (r : Except Fault (RawValue α)) (s : Session α) :
    Reports op (BacksOff r) none (passedOn (fun answer => .ok (some answer)) r) (judge op r) s := by
  have h : Reports op (BacksOff r) none (passedOn (fun answer => .ok (some answer)) r)
    (judge op r >>= pure) s := judge_bind_reports (fun _ => rfl) fun _ _ => ⟨rfl, rfl⟩
  rwa [bind_pure] at h

-- The exchange itself, after the arrays are in place.
theorem invoke_consults (ex : Exchange α) {arrays : Slot → Option View} {after : Store α}
    {fails : Prop} {failure : β} {otherwise : Except (Failure α) β}
    {f : Except Fault (RawValue α) × Workspace α → FormulationM α β}
    (hs : ex.evaluation.ShownBy s.store arrays)
    (hrun : (q.evaluate ex.evaluation).run arrays ⟨s.store, ex.evaluation.workspace⟩ =
      (ex.outcome, ⟨after, ex.workspace⟩))
    (hf : Keeps (Ledger [] []) (f (ex.outcome, ex.workspace)))
    (hr : Reports op fails failure otherwise (f (ex.outcome, ex.workspace))
      { s.traced [.evaluation ex.evaluation] with store := after }) :
    Consults q d ex op [] fails failure otherwise
      (invoke q ex.evaluation arrays ex.evaluation.workspace >>= f) s where
  takesPlace := ⟨arrays, s.store, after, hs, .refl _ _, hrun⟩
  ledger := by
    rw [bind_of_ok (invoke_run hrun)]
    have hasked : Ledger [] [ex.evaluation] s
        { s.traced [.evaluation ex.evaluation] with store := after } :=
      ⟨fun _ => rfl, rfl⟩
    exact hasked.trans (hf _)
  reports := hr.after (invoke_run hrun) rfl

end Formulation
end NonlinearProgram
