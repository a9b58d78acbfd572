import NonlinearProgram.Proofs.Formulation.History
import NonlinearProgram.Proofs.Formulation.Lagrangian

namespace NonlinearProgram

open Program FormulationM

variable {α β γ : Type}

-- Calls that hand vectors to a problem: evaluations and reports, unlike queries.
def Call.isDelivery : Call α → Bool
  | .evaluation _ | .solution _ _ | .iterate _ _ => true
  | .query _ | .reduction _ => false

def Session.deliveries (s : Session α) : List (Call α) := s.trace.filter Call.isDelivery

theorem SameTrace.deliveries {s t : Session α} (h : SameTrace s t) : t.deliveries = s.deliveries :=
  congrArg (List.filter Call.isDelivery) h

namespace FormulationM

variable {x : FormulationM α β} {f : β → FormulationM α γ} {s t : Session α} {b : β}
  {misfit : Prop}

-- The work ends in a breach of contract, and nothing was delivered to the problem.
def Breached (x : FormulationM α β) (s : Session α) : Prop :=
  ∃ b t, x s = (.error (.breach b), t) ∧ t.deliveries = s.deliveries

-- Something was delivered to the problem, whatever the outcome.
def Delivers (x : FormulationM α β) (s : Session α) : Prop :=
  ∃ c, (x s).2.deliveries = s.deliveries ++ [c]

theorem Delivers.not_breached (h : Delivers x s) : ¬Breached x s := by
  intro ⟨b, t, hx, ht⟩
  have ⟨c, hc⟩ := h
  rw [hx] at hc
  have hl := congrArg List.length (hc.symm.trans ht)
  simp at hl

namespace Delivers

theorem bind (hx : Delivers x s) (hf : ∀ b, Keeps SameTrace (f b)) : Delivers (x >>= f) s := by
  have ⟨c, hc⟩ := hx
  exact ⟨c, Eq.trans (SameTrace.of_bind hf s).deliveries hc⟩

theorem after (hx : x s = (.ok b, t)) (ht : SameTrace s t) (hf : Delivers (f b) t) :
    Delivers (x >>= f) s := by
  have ⟨c, hc⟩ := hf
  refine ⟨c, ?_⟩
  rw [bind_of_ok hx, hc, ht.deliveries]

theorem of_trace {c : Call α} (hc : c.isDelivery) (h : (x s).2.trace = s.trace ++ [c]) :
    Delivers x s := by
  refine ⟨c, ?_⟩
  rw [Session.deliveries, h, List.filter_append, List.filter_singleton, hc]
  rfl

theorem record {c : Call α} (hc : c.isDelivery) (s : Session α) : Delivers (record c) s :=
  .of_trace hc rfl

theorem discard : Delivers (do let _ ← x) s ↔ Delivers x s := by
  rw [Delivers, discard_run, Delivers]

end Delivers

namespace Breached

theorem of_throw (b : Breach) (s : Session α) : Breached (throw (.breach b) : FormulationM α β) s :=
  ⟨b, s, rfl, rfl⟩

theorem bind (h : Breached x s) (f : β → FormulationM α γ) : Breached (x >>= f) s := by
  have ⟨b, t, hx, ht⟩ := h
  exact ⟨b, t, bind_of_error hx f, ht⟩

theorem after (hx : x s = (.ok b, t)) (ht : SameTrace s t) (hf : Breached (f b) t) :
    Breached (x >>= f) s := by
  have ⟨reason, u, h, hu⟩ := hf
  exact ⟨reason, u, (bind_of_ok hx f).trans h, hu.trans ht.deliveries⟩

theorem timed [Scalar α] {op : Operation} (h : Breached x s) : Breached (timed op x) s := by
  have ⟨reason, t, h, ht⟩ := h
  exact ⟨reason, _, timed_run h, ht⟩

theorem discard : Breached (do let _ ← x) s ↔ Breached x s := by
  constructor
  case mp =>
    intro ⟨b, t, h, ht⟩
    rw [bind_run] at h
    cases hx : x s
    case mk r u =>
      rw [hx] at h
      cases r <;> cases h
      exact ⟨b, t, hx, ht⟩
  case mpr => exact fun h => h.bind _

end Breached

-- The work checks what it is given: it ends in a breach of contract before anything is delivered
-- where something does not fit, and delivers otherwise.
structure Checks (misfit : Prop) (x : FormulationM α β) (s : Session α) : Prop where
  breached : misfit → Breached x s
  delivers : ¬misfit → Delivers x s

namespace Checks

theorem breached_iff (h : Checks misfit x s) : Breached x s ↔ misfit :=
  ⟨fun hb => Classical.byContradiction fun hm => (h.delivers hm).not_breached hb, h.breached⟩

theorem delivers_iff (h : Checks misfit x s) : Delivers x s ↔ ¬misfit :=
  ⟨fun hd hm => hd.not_breached (h.breached hm), h.delivers⟩

theorem discard_iff (h : Checks misfit x s) :
    (Breached (do let _ ← x) s ↔ misfit) ∧ (Delivers (do let _ ← x) s ↔ ¬misfit) :=
  ⟨Breached.discard.trans h.breached_iff, Delivers.discard.trans h.delivers_iff⟩

theorem after (hx : x s = (.ok b, t)) (ht : SameTrace s t) (hf : Checks misfit (f b) t) :
    Checks misfit (x >>= f) s where
  breached hm := .after hx ht (hf.breached hm)
  delivers hm := .after hx ht (hf.delivers hm)

theorem bind (hx : Checks misfit x s) (hf : ∀ b, Keeps SameTrace (f b)) :
    Checks misfit (x >>= f) s where
  breached hm := (hx.breached hm).bind f
  delivers hm := (hx.delivers hm).bind hf

theorem timed [Scalar α] {op : Operation} (h : Checks misfit x s) :
    Checks misfit (timed op x) s where
  breached hm := (h.breached hm).timed
  delivers := h.delivers

theorem guard {c : Prop} [Decidable c] {b : Breach} {f : PUnit → FormulationM α β}
    {x : FormulationM α β} (h : ¬c → Checks misfit x s) :
    Checks (c ∨ misfit) (if c then throw (.breach b) >>= f else x) s := by
  split
  case isTrue hc => exact ⟨fun _ => (Breached.of_throw b s).bind f, fun hm => absurd (.inl hc) hm⟩
  case isFalse hc =>
    exact ⟨fun hm => (h hc).breached (hm.resolve_left hc), fun hm =>
      (h hc).delivers fun hb => hm (.inr hb)⟩

end Checks

-- Work that fails for another reason, before anything is delivered.
theorem neither_of_error {e : Failure α} (hx : x s = (.error e, t)) (ht : SameTrace s t)
    (he : ∀ b, e ≠ .breach b) : ¬Breached x s ∧ ¬Delivers x s := by
  constructor
  case left =>
    intro ⟨b, u, h, _⟩
    cases hx.symm.trans h
    exact he b rfl
  case right =>
    intro ⟨c, h⟩
    rw [hx, ht.deliveries] at h
    simp at h

-- Work that neither ends in a breach of contract nor delivers anything.
def Abstains (x : FormulationM α β) : Prop :=
  ∀ s, (x s).2.deliveries = s.deliveries ∧ ∀ b, (x s).1 ≠ .error (.breach b)

namespace Abstains

theorem not_breached (h : Abstains x) (s : Session α) : ¬Breached x s := by
  intro ⟨b, t, hx, _⟩
  exact (h s).right b (congrArg Prod.fst hx)

theorem not_delivers (h : Abstains x) (s : Session α) : ¬Delivers x s := by
  intro ⟨c, hc⟩
  rw [(h s).left] at hc
  simp at hc

theorem pure (b : β) : Abstains (pure b : FormulationM α β) :=
  fun _ => ⟨rfl, nofun⟩

theorem throw {e : Failure α} (he : ∀ b, e ≠ .breach b) : Abstains (throw e : FormulationM α β) :=
  fun _ => ⟨rfl, fun b h => he b (Except.error.inj h)⟩

theorem bind (hx : Abstains x) (hf : ∀ b, Abstains (f b)) : Abstains (x >>= f) := by
  intro s
  have ⟨hd, hb⟩ := hx s
  rw [bind_run]
  cases hs : x s
  case mk r t =>
    rw [hs] at hd hb
    cases r
    case ok b => exact ⟨(hf b t).left.trans hd, (hf b t).right⟩
    case error e => exact ⟨hd, fun b h => hb b (congrArg Except.error (Except.error.inj h))⟩

theorem ite {c : Prop} [Decidable c] {y : FormulationM α β} (hx : Abstains x) (hy : Abstains y) :
    Abstains (if c then x else y) := by
  split
  · exact hx
  · exact hy

theorem onStore (act : StoreM α β) : Abstains (onStore act) := by
  intro s
  refine ⟨rfl, fun b h => ?_⟩
  rw [FormulationM.onStore] at h
  cases ha : act s.store
  case mk r st =>
    rw [ha] at h
    cases r <;> cases h

theorem emit (e : Event α) : Abstains (emit e) :=
  fun _ => ⟨rfl, nofun⟩

theorem record {c : Call α} (hc : c.isDelivery = false) : Abstains (record c) := by
  intro s
  refine ⟨?_, nofun⟩
  rw [record_run, Session.deliveries, Session.traced, List.filter_append,
    List.filter_singleton, hc]
  exact List.append_nil _

theorem getCore : Abstains (getCore : FormulationM α (Core α)) := by
  refine .bind (fun _ => ⟨rfl, nofun⟩) fun f => ?_
  cases f.core
  case none => exact .throw nofun
  case some c => exact .pure c

theorem localPart [Scalar α] (x : Argument α) : Abstains (localPart x) := by
  cases x
  case absent => exact Abstains.onStore (StoreM.alloc _)
  case array => exact .pure _
  case vector => exact .pure _
  case matrix => exact .throw nofun

end Abstains
end FormulationM

-- The number of entries of an argument that has an array.
def Argument.size (x : Argument α) : Nat := x.view?.elim 0 View.size

namespace Finalized.Lent

variable {d : Finalized α} {s : Store α} {x : Argument α} {w : View} {xs : List α}

theorem size (h : d.Lent s x w xs) : x.size = xs.length := by
  rw [Argument.size, h.view]
  exact View.size_of_shape h.shape

theorem view_size (h : d.Lent s x w xs) : w.size = x.size := by
  rw [h.size, View.size_of_shape h.shape]

end Finalized.Lent

namespace Formulation

variable [Scalar α] {p : Problem α} {s t : Session α} {d : Finalized α} {o : Options α}
  {v : Core.Survey α} {x y out : Argument α} {w wy wo : View} {xs ys zs : List α}

theorem pointToUser_breached (h : Ready p d o v s) (hx : d.Lent s.store x w xs)
    (hl : (x.size : Int) ≠ d.core.localSize) : Breached (pointToUser x) s := by
  rw [pointToUser]
  refine .after (localPart_run hx.view s) rfl <| .after (getCore_run h.finalized) rfl ?_
  rw [hx.view_size, if_pos hl]
  exact (Breached.of_throw _ s).bind _

-- What delivers something at a point checks the size of the point first.
theorem checks_point {f : View → FormulationM α β} (h : Ready p d o v s)
    (hx : d.Lent s.store x w xs)
    (hf : ∀ u t, t.formulation.finalized = some d → Delivers (f u) t) :
    Checks ((x.size : Int) ≠ d.core.localSize) (pointToUser x >>= f) s where
  breached hl := (pointToUser_breached h hx hl).bind f
  delivers hl := by
    have ⟨u, t, hu, ht, _⟩ :=
      pointToUser_run h hx (h.length_eq (hx.size ▸ Decidable.not_not.mp hl))
    have hft : t.formulation.finalized = some d := by
      rw [ht]
      exact h.finalized
    refine .after hu ?_ (hf u t hft)
    rw [ht]
    rfl

omit [Scalar α] in
theorem invoke_delivers (e : Evaluation α) (arrays : Slot → Option View) (a : Workspace α)
    (s : Session α) : Delivers (invoke p e arrays a) s :=
  .of_trace rfl (invoke_trace p e arrays a s)

theorem objective_checks (h : Ready p d o v s) (hx : d.Lent s.store x w xs) (isNew : RawValue α) :
    Checks ((x.size : Int) ≠ d.core.localSize) (objective p x isNew) s := by
  refine .after (getCore_run h.finalized) rfl (.bind (.timed ?body) fun answer => ?tail)
  case body =>
    refine checks_point h hx fun u t ht => ?_
    exact .after (pointAt_run ht u isNew) rfl <| (invoke_delivers _ _ _ t).bind fun (r, _) =>
      judge_keeps _ r
  case tail =>
    cases answer
    case none => exact fun _ => rfl
    case some a =>
      refine .bind SameTrace.trans (fun s => ?_) fun f s => ?_
      · rw [ofExcept_run]
        rfl
      · rw [ite_run]
        split <;> rfl

theorem gradient_checks (h : Ready p d o v s) (hx : d.Lent s.store x w xs)
    (hout : d.Lent s.store out wo zs) (isNew : RawValue α) :
    Checks ((out.size : Int) ≠ d.core.localSize ∨ (x.size : Int) ≠ d.core.localSize)
      (gradient p x isNew out) s := by
  rw [gradient]
  refine .after (getCore_run h.finalized) rfl <| .after (localPart_run hout.view s) rfl ?_
  rw [hout.view_size]
  refine .guard fun _ => .timed (checks_point h hx fun u t ht => ?_)
  refine .after (getPart_run (finalized_eq_some.mp ht).right.right.left) rfl <|
    .after (onStore_of_ok (StoreM.entries_run _ _)) rfl <|
    .after (pointAt_run ht u isNew) rfl <| (invoke_delivers _ _ _ _).bind fun (r, _) => ?_
  refine .bind SameTrace.trans (judge_keeps _ r) fun answer => ?_
  cases answer
  case none => exact fun _ => rfl
  case some => exact .bind SameTrace.trans (fun _ => rfl) fun _ _ => rfl

theorem values_checks {group : ConstraintGroup} (h : Ready p d o v s)
    (hx : d.Lent s.store x w xs) (hout : d.Lent s.store out wo zs) (isNew : RawValue α) :
    Checks (out.size ≠ (d.core.indices group).length ∨ (x.size : Int) ≠ d.core.localSize)
      (values p group x isNew out) s := by
  refine .after (getCore_run h.finalized) rfl <| .after (localPart_run hout.view s) rfl ?_
  rw [hout.view_size]
  refine .guard fun _ => .timed (checks_point h hx fun u t ht => ?_)
  refine .after (onStore_read_run _ _) rfl <|
    .after (pointAt_run ht u isNew) rfl <| (invoke_delivers _ _ _ _).bind fun (r, _) => ?_
  exact .bind SameTrace.trans (judge_keeps _ r) fun _ _ => rfl

-- Multipliers of the right number are brought into the user's order, whatever their values are.
theorem scatterMultipliers_ready {blocks : BlockSizes α} {scratch : View} (h : Ready p d o v s)
    (hd : d.derivatives = .mixed blocks scratch) (hx : d.Lent s.store x w xs)
    (hy : d.Lent s.store y wy ys) (hm : y.size = d.core.constraintCount) :
    ∃ t, scatterMultipliers d.core.split scratch wy s = (.ok ⟨⟩, t) ∧ SameTrace s t ∧
      Ready p d o v t ∧ d.Lent t.store x w xs := by
  have hlen : d.core.equalityCount + d.core.inequalityCount = ys.length :=
    h.parts.length.trans (hm.symm.trans hy.size)
  have hys := (List.take_append_drop d.core.equalityCount ys).symm
  have ⟨t, hs, ht, _, _, hw, hu⟩ := scatterMultipliers_run h hd (hys ▸ hy)
    (List.length_take_of_le (by omega)) (by rw [List.length_drop]; omega)
  refine ⟨t, hs, ?_, h.undisturbed hu, hx.writes_scratch hw⟩
  rw [ht]
  rfl

-- A matrix that is none for this Hessian is refused before anything else.
theorem hessian_breached (h : Ready p d o v s) (hk : d.derivatives.kind = s.formulation.kind)
    (ht : takesHessian d s out = false) (isNew isNewY : RawValue α) (factor : α) :
    Breached (hessian p x isNew factor y isNewY out) s := by
  rw [hessian]
  refine .after (getFormulation_run s) rfl ?_
  cases hder : d.derivatives
  case dense =>
    rw [hder] at hk
    have hkind : s.formulation.kind = .dense := hk.symm
    rw [if_pos hkind]
    exact (Breached.of_throw _ s).bind _
  case mixed blocks scratch =>
    rw [hder] at hk
    rw [if_neg (by simp [← hk, Derivatives.kind])]
    refine .after (get_run s) rfl ?_
    split
    case h_1 k a hm =>
      refine .after (blockSizes_run h.finalized hder) rfl ?_
      simp only [takesHessian, hm, hder] at ht
      simp only [ht, Bool.false_eq_true, if_false]
      exact (Breached.of_throw _ s).bind _
    case h_2 => exact .of_throw _ s

theorem hessian_checks (h : Ready p d o v s) (hk : d.derivatives.kind = s.formulation.kind)
    (hx : d.Lent s.store x w xs) (hy : d.Lent s.store y wy ys) (isNew isNewY : RawValue α)
    (factor : α) :
    Checks (takesHessian d s out = false ∨ y.size ≠ d.core.constraintCount ∨
      (x.size : Int) ≠ d.core.localSize) (hessian p x isNew factor y isNewY out) s := by
  by_cases ht : takesHessian d s out
  case neg =>
    rw [Bool.not_eq_true] at ht
    exact ⟨fun _ => hessian_breached h hk ht isNew isNewY factor, fun hm => absurd (.inl ht) hm⟩
  case pos =>
    obtain ⟨k, a, blocks, scratch, ho, ha, hder, hfit⟩ := takesHessian_eq_true ht
    subst ho
    rw [hder] at hk
    simp only [ht, Bool.true_eq_false, false_or]
    rw [hessian]
    refine .after (getFormulation_run s) rfl ?_
    rw [if_neg (by simp [← hk, Derivatives.kind])]
    refine .after (get_run s) rfl ?_
    simp only [Session.matrix?, ha]
    refine .after (blockSizes_run h.finalized hder) rfl ?_
    simp only [hfit, if_true]
    refine .after (localPart_run hy.view s) rfl <| .after (getCore_run h.finalized) rfl ?_
    rw [hy.view_size]
    refine .guard fun hm => .after (getPart_run (multiplierScratch_of_mixed h.finalized hder)) rfl ?_
    obtain ⟨t, hs, hst, hr, hx'⟩ := scatterMultipliers_ready h hder hx hy (Decidable.not_not.mp hm)
    refine .after hs hst (.bind (.timed (checks_point hr hx' fun u t ht => ?body)) ?tail)
    case body =>
      refine .after (pointAt_run ht u isNew) rfl <|
        .after (onStore_of_ok (StoreM.entries_run _ _)) rfl <|
        (invoke_delivers _ _ _ _).bind ?_
      rintro ⟨r, _⟩
      refine .bind SameTrace.trans (fun _ => rfl) fun _ => ?_
      exact .bind SameTrace.trans (judge_keeps _ r) fun _ _ => rfl
    case tail =>
      rintro ⟨answer, coupling⟩ s
      simp only [ite_run]
      split <;> rfl

end Formulation
end NonlinearProgram
