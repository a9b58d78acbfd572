import NonlinearProgram.Proofs.Formulation.Finalization

namespace NonlinearProgram

open Program FormulationM

variable {α β γ : Type}

namespace FormulationM

-- Work that enters calls into the history, and does nothing else to the session.
def Traces (x : FormulationM α β) : Prop :=
  ∀ s, ∃ calls, (x s).2 = s.traced calls

namespace Traces

variable {x : FormulationM α β} {f : β → FormulationM α γ}

theorem of_same (h : ∀ s, (x s).2 = s) : Traces x :=
  fun s => ⟨[], (h s).trans Session.traced_nil.symm⟩

theorem bind (hx : Traces x) (hf : ∀ b, Traces (f b)) : Traces (x >>= f) := by
  let R (s t : Session α) : Prop := ∃ calls, t = s.traced calls
  refine Keeps.bind (R := R) ?_ hx hf
  intro s t u ⟨calls₁, h₁⟩ ⟨calls₂, h₂⟩
  exact ⟨calls₁ ++ calls₂, by rw [h₂, h₁, Session.traced_traced]⟩

theorem pure (b : β) : Traces (pure b : FormulationM α β) :=
  of_same fun _ => rfl

theorem throw (e : Failure α) : Traces (throw e : FormulationM α β) :=
  of_same fun _ => rfl

theorem of_asks (h : Keeps Asks x) : Traces x := by
  intro s
  have ⟨queries, h⟩ := h s
  exact ⟨_, h⟩

theorem ofExcept {ε : Type} (reason : ε → Failure α) (r : Except ε β) :
    Traces (ofExcept reason r) :=
  of_asks (.ofExcept reason r)

theorem ask (q : Query α) (answer : Except Fault β) : Traces (ask q answer) :=
  of_asks (.ask q answer)

theorem ite {c : Prop} [Decidable c] {y : FormulationM α β} (hx : Traces x) (hy : Traces y) :
    Traces (if c then x else y) := by
  split
  · exact hx
  · exact hy

theorem guard {c : Prop} [Decidable c] {m : Malformed α} {f : γ → FormulationM α β}
    (h : Traces x) : Traces (if c then reject m >>= f else x) :=
  .ite (of_same fun s => congrArg Prod.snd (reject_bind_run m f s)) h

theorem arrayLength (n : Int) : Traces (arrayLength n : FormulationM α Nat) := by
  rw [FormulationM.arrayLength]
  split
  · exact .throw _
  · exact .pure _

theorem sumOverRanks [Scalar α] (c : Communicator α) (n : Int) : Traces (sumOverRanks c n) := by
  intro s
  rw [sumOverRanks_run]
  exact ⟨_, rfl⟩

end Traces
end FormulationM

namespace Session

-- The session after work that only adds to its history and to its log, and no error to the log.
structure Grows (s t : Session α) : Prop where
  formulation : t.formulation = s.formulation
  trace : s.trace <+: t.trace
  events : ∃ quiet, t.events = s.events ++ quiet ∧ ∀ e ∈ quiet, e.level < Log.error

namespace Grows

theorem of_same {s t : Session α} (hf : t.formulation = s.formulation) (ht : s.trace <+: t.trace)
    (he : t.events = s.events) : s.Grows t :=
  ⟨hf, ht, [], by rw [he, List.append_nil], by simp⟩

theorem refl (s : Session α) : s.Grows s :=
  of_same rfl List.prefix_rfl rfl

theorem trans {s t u : Session α} (h₁ : s.Grows t) (h₂ : t.Grows u) : s.Grows u where
  formulation := h₂.formulation.trans h₁.formulation
  trace := List.IsPrefix.trans h₁.trace h₂.trace
  events := by
    have ⟨first, h₁, hq₁⟩ := h₁.events
    have ⟨second, h₂, hq₂⟩ := h₂.events
    refine ⟨first ++ second, by rw [h₂, h₁, List.append_assoc], fun e he => ?_⟩
    exact (List.mem_append.mp he).elim (hq₁ e) (hq₂ e)

theorem traced (s : Session α) (calls : List (Call α)) : s.Grows (s.traced calls) :=
  of_same rfl (List.prefix_append ..) rfl

theorem reductions {s t : Session α} (h : s.Grows t) : s.reductions <+: t.reductions :=
  h.trace.filterMap _

end Grows
end Session

namespace FormulationM

-- Work in a session that only adds to it.
def Adds (x : FormulationM α β) : Prop :=
  ∀ s : Session α, s.Grows (x s).2

namespace Adds

variable {x : FormulationM α β} {f : β → FormulationM α γ}

theorem bind (hx : Adds x) (hf : ∀ b, Adds (f b)) : Adds (x >>= f) :=
  Keeps.bind Session.Grows.trans hx hf

theorem pure (b : β) : Adds (pure b : FormulationM α β) :=
  .refl

theorem throw (e : Failure α) : Adds (throw e : FormulationM α β) :=
  .refl

theorem get : Adds (get : FormulationM α (Session α)) :=
  .refl

theorem setStore (f : Store α → Store α) :
    Adds (modify fun s => { s with store := f s.store } : FormulationM α PUnit) :=
  fun _ => .of_same rfl List.prefix_rfl rfl

theorem onStore (act : StoreM α β) : Adds (onStore act) :=
  fun _ => .of_same rfl List.prefix_rfl rfl

theorem emit {e : Event α} (h : e.level < Log.error) : Adds (emit e) :=
  fun _ => ⟨rfl, List.prefix_rfl, [e], rfl, by simpa using h⟩

theorem of_traces (h : Traces x) : Adds x := by
  intro s
  have ⟨calls, h⟩ := h s
  exact h ▸ .traced s calls

theorem ofExcept {ε : Type} (reason : ε → Failure α) (r : Except ε β) :
    Adds (ofExcept reason r) :=
  .of_traces (.ofExcept reason r)

theorem ite {c : Prop} [Decidable c] {y : FormulationM α β} (hx : Adds x) (hy : Adds y) :
    Adds (if c then x else y) := by
  split
  · exact hx
  · exact hy

theorem sumOverRanks [Scalar α] (c : Communicator α) (n : Int) : Adds (sumOverRanks c n) :=
  .of_traces (.sumOverRanks c n)

end Adds

-- Work in a session that leaves the sums over ranks so far in the history.
def Appends (x : FormulationM α β) : Prop :=
  ∀ s, s.reductions <+: (x s).2.reductions

namespace Appends

variable {x : FormulationM α β} {f : β → FormulationM α γ}

theorem bind (hx : Appends x) (hf : ∀ b, Appends (f b)) : Appends (x >>= f) :=
  Keeps.bind (R := fun s t : Session α => s.reductions <+: t.reductions) List.IsPrefix.trans hx hf

-- What comes later finds everything in the history.
theorem run_bind (hf : ∀ b, Appends (f b)) (s : Session α) :
    (x s).2.reductions <+: ((x >>= f) s).2.reductions := by
  cases hx : x s
  case mk r t =>
    cases r
    case ok b =>
      rw [bind_of_ok hx]
      exact hf b t
    case error e => rw [bind_of_error hx]

theorem of_adds (h : Adds x) : Appends x :=
  fun s => (h s).reductions

theorem of_same (h : ∀ s, (x s).2.reductions = s.reductions) : Appends x :=
  fun s => h s ▸ List.prefix_rfl

theorem pure (b : β) : Appends (pure b : FormulationM α β) :=
  .of_adds (.pure b)

theorem sumOverRanks [Scalar α] (c : Communicator α) (n : Int) : Appends (sumOverRanks c n) :=
  .of_adds (.sumOverRanks c n)

end Appends
end FormulationM

namespace Core

variable [Scalar α] {p : Problem α} {o : Options α} {c : Communicator α}

theorem pairOf_traces (given : RawValue α) : Traces (pairOf given) :=
  .of_same (pairOf_keeps given)

theorem askSizes_traces (p : Problem α) : Traces (askSizes p) := by
  exact .bind (.ask _ _) fun given => .bind (pairOf_traces given) fun (n, m) => .guard (.pure _)

theorem askLayout_traces (p : Problem α) (n : Int) (c : Communicator α) :
    Traces (askLayout p n c) := by
  rw [askLayout]
  refine .bind (.ofExcept _ _) fun count => .bind (.arrayLength _) fun k =>
    .bind (.ask _ _) fun reply => ?_
  refine .ite (.bind (.throw _) fun _ => ?_) ?_
  all_goals
    refine .ite (.ofExcept _ _) (.bind (.ofExcept _ _) fun layout => .guard ?_)
    exact .bind (.sumOverRanks _ _) fun total => .guard (.pure _)

theorem askBounds_traces (q : Declared α → Query α)
    (answer : Declared α → Except Fault (BoundsReply α)) (refused : Malformed α)
    (mistyped : Nat → Nat → Malformed α) (count : Nat) :
    Traces (askBounds q answer refused mistyped count) := by
  rw [askBounds]
  exact .bind (.ask _ _) fun reply => .guard (.guard (.pure _))

theorem checkBounds_traces (o : Options α) (allowFixed : Bool)
    (report : Nat → Nat → α → α → Malformed α) (d : Declared α) :
    Traces (checkBounds o allowFixed report d) := by
  rw [checkBounds.eq_def]
  split
  · exact .pure _
  · exact .throw _

-- What is asked once the layout is known.
def surveyIn (p : Problem α) (o : Options α) (n m : Int) (layout : Layout) :
    FormulationM α (Survey α) := do
  let variableData ← askVariables p n (← arrayLength layout.localSize)
  let m ← arrayLength m
  let constraintData ← askConstraints p m
  checkVariables o layout variableData
  checkConstraints o constraintData
  return ⟨n, layout, variableData, m, constraintData⟩

theorem surveyIn_traces (p : Problem α) (o : Options α) (n m : Int) (layout : Layout) :
    Traces (surveyIn p o n m layout) :=
  .bind (.arrayLength _) fun _ => .bind (askBounds_traces _ _ _ _ _) fun _ =>
    .bind (.arrayLength _) fun _ => .bind (askBounds_traces _ _ _ _ _) fun _ =>
    .bind (checkBounds_traces _ _ _ _) fun _ => .bind (checkBounds_traces _ _ _ _) fun _ => .pure _

theorem survey_traces (p : Problem α) (o : Options α) (c : Communicator α) :
    Traces (survey p o c) :=
  .bind (askSizes_traces p) fun (n, m) => .bind (askLayout_traces p n c) (surveyIn_traces p o n m)

omit [Scalar α] in
theorem choosePolicy_adds (requested : FixedPolicy) (count : Int)
    (distributed canRemove : Bool) :
    Adds (choosePolicy requested count distributed canRemove : FormulationM α _) := by
  rw [choosePolicy]
  exact .ite (.bind (.emit (show Log.warning < Log.error by decide)) fun _ => .pure _) (.pure _)

omit [Scalar α] in
theorem create_adds
    (make : Store α → Except (TransformationError α) (Transformation α × Store α)) :
    Adds (create make) := by
  exact .bind .get fun s => .bind (.ofExcept _ _) fun (t, st) =>
    .bind (.setStore fun _ => st) fun _ => .pure t

theorem treat_adds (policy : FixedPolicy) (layout : Layout) (d : Declared α)
    (mask : List Bool) (count : Int) : Adds (treat policy o layout d mask count) := by
  rw [treat.eq_def]
  cases policy
  case keep => exact .pure _
  case remove =>
    exact .ite (.pure _) <| .bind (create_adds _) fun t => .bind (.ofExcept _ _) fun chain =>
      .bind (.ofExcept _ _) fun reduced =>
      .bind (.emit (show Log.info < Log.error by decide)) fun _ => .pure _
  case relax =>
    exact .ite (.pure _) <| .bind (create_adds _) fun t => .bind (.ofExcept _ _) fun chain =>
      .bind (.emit (show Log.info < Log.error by decide)) fun _ => .pure _

theorem partConstraints_adds (d : Declared α) : Adds (partConstraints o d) := by
  rw [partConstraints]
  split
  · exact .pure _
  · exact .throw _

omit [Scalar α] in
theorem constant_adds (layout : Layout) (xs : List α) : Adds (constant c layout xs) := by
  rw [constant]
  exact .bind (.onStore _) fun view => .bind (.ofExcept _ _) fun v =>
    .bind (.setStore (·.freeze view)) fun _ => .pure v

omit [Scalar α] in
theorem boundVectors_adds (layout : Layout) (lower upper : List α)
    (classes : BoundClasses α) : Adds (boundVectors c layout lower upper classes) := by
  rw [boundVectors]
  exact .bind (constant_adds _ _) fun _ => .bind (constant_adds _ _) fun _ =>
    .bind (constant_adds _ _) fun _ => .bind (constant_adds _ _) fun _ => .pure _

theorem sumCounts_adds (classes : BoundClasses α) : Adds (sumCounts c classes) := by
  rw [sumCounts]
  exact .bind (.sumOverRanks _ _) fun _ => .bind (.sumOverRanks _ _) fun _ =>
    .bind (.sumOverRanks _ _) fun _ => .pure _

theorem assemble_adds (v : Survey α) (policy : FixedPolicy) (fixedCount : Int)
    (treated : Treatment α) : Adds (assemble o c v policy fixedCount treated) := by
  exact .bind (.onStore _) fun (lower, upper) => .bind (partConstraints_adds _) fun split =>
    .bind (boundVectors_adds _ _ _ _) fun bounds => .bind (constant_adds _ _) fun rhs =>
    .bind (boundVectors_adds _ _ _ _) fun slacks => .bind (sumCounts_adds _) fun _ => .pure _

-- What is done once the number of fixed variables on all ranks is known.
def finish (o : Options α) (c : Communicator α) (canRemove : Bool) (v : Survey α)
    (fixedCount : Int) : FormulationM α (Core α) := do
  let policy ← choosePolicy o.policy fixedCount v.layout.isDistributed canRemove
  let treated ← treat policy o v.layout v.variableData (fixedVariables o v.variableData) fixedCount
  assemble o c v policy fixedCount treated

theorem finish_adds (canRemove : Bool) (v : Survey α) (fixedCount : Int) :
    Adds (finish o c canRemove v fixedCount) :=
  .bind (choosePolicy_adds _ _ _ _) fun _ => .bind (treat_adds _ _ _ _ _) fun _ =>
    assemble_adds _ _ _ _

theorem finish_appends (canRemove : Bool) (v : Survey α) (fixedCount : Int) :
    Appends (finish o c canRemove v fixedCount) :=
  .of_adds (finish_adds canRemove v fixedCount)

theorem build_adds (p : Problem α) (o : Options α) (c : Communicator α) (canRemove : Bool) :
    Adds (build p o c canRemove) :=
  .bind (.of_traces (survey_traces p o c)) fun v => .bind (.sumOverRanks _ _) fun _ => finish_adds canRemove v _

-- A survey does not take back the sums that were entered for the layout.
theorem askLayout_prefix_survey {n m : Int} {s t : Session α}
    (h : askSizes p s = (.ok (n, m), t)) :
    (askLayout p n c t).2.reductions <+: (survey p o c s).2.reductions := by
  rw [survey, bind_of_ok h]
  exact Appends.run_bind (fun l => .of_adds (.of_traces (surveyIn_traces p o n m l))) t

theorem survey_prefix_build (canRemove : Bool) (s : Session α) :
    (survey p o c s).2.reductions <+: (build p o c canRemove s).2.reductions := by
  rw [build]
  exact Appends.run_bind (fun v =>
    .bind (.sumOverRanks _ _) fun _ => finish_appends canRemove v _) s

end Core

namespace Formulation

variable [Scalar α]

omit [Scalar α] in
theorem setFormulation_appends (change : Formulation α → Formulation α) :
    Appends (setFormulation change) :=
  .of_same fun _ => rfl

theorem allocateDerivatives_appends (c : Core α) (kind : FormulationKind) :
    Appends (allocateDerivatives c kind) := by
  have zeros (axes : List Int) : Appends (FormulationM.onStore (StoreM.zeros (α := α) axes)) :=
    .of_adds (.onStore _)
  cases kind
  case dense =>
    exact .bind (zeros _) fun _ => .bind (setFormulation_appends _) fun _ =>
      .bind (zeros _) fun _ => setFormulation_appends _
  case mixed => exact .bind (zeros _) fun _ => setFormulation_appends _

theorem allocate_appends (c : Core α) : Appends (allocate c) := by
  rw [allocate]
  exact .bind (.of_adds (.onStore _)) fun _ => .bind (setFormulation_appends _) fun _ =>
    .bind (.of_adds (.onStore _)) fun _ => .bind (setFormulation_appends _) fun _ =>
    .bind (.of_same fun _ => rfl) fun _ => allocateDerivatives_appends c _

-- What a problem is asked for beside its core.
def askExtras (p : Problem α) (kind : FormulationKind) (c : Core α) :
    FormulationM α (Core α × Option (BlockSizes α)) :=
  match kind with
  | .dense => return (c, none)
  | .mixed => return (c, some (← askBlockSizes p c))

theorem askExtras_adds (p : Problem α) (kind : FormulationKind) (c : Core α) :
    Adds (askExtras p kind c) := by
  cases kind
  case dense => exact .pure _
  case mixed => exact .bind (.of_traces (.of_asks (askBlockSizes_asks p c))) fun _ => .pure _

theorem derive_run (p : Problem α) (s : Session α) :
    derive p s = (Core.build p s.formulation.options s.formulation.communicator
      (canRemove s.formulation.kind) >>= askExtras p s.formulation.kind) s := by
  rw [derive, bind_of_ok (rfl : getFormulation s = (.ok s.formulation, s))]
  rfl

theorem derive_adds (p : Problem α) : Adds (derive p) := by
  intro s
  rw [derive_run]
  exact Adds.bind (Core.build_adds _ _ _ _) (askExtras_adds p _) s

-- A finalization does not take back the sums that were entered for the core.
theorem build_prefix_finalize (p : Problem α) (s : Session α) :
    (Core.build p s.formulation.options s.formulation.communicator
      (canRemove s.formulation.kind) s).2.reductions <+: (finalize p s).2.reductions := by
  have hd : (Core.build p s.formulation.options s.formulation.communicator
      (canRemove s.formulation.kind) s).2.reductions <+: (derive p s).2.reductions := by
    rw [derive_run]
    exact Appends.run_bind (fun c => .of_adds (askExtras_adds p _ c)) s
  refine List.IsPrefix.trans hd ?_
  have ha : (derive p s).2 = (attempt (derive p) s).2 := rfl
  rw [ha, finalize]
  refine Appends.run_bind (fun r => ?_) s
  cases r
  case error e =>
    cases e
    case malformed m =>
      exact .bind (.of_same fun _ => rfl) fun _ => .bind (setFormulation_appends _) fun _ =>
        .pure _
    all_goals exact .of_same fun _ => rfl
  case ok derived =>
    exact .bind (setFormulation_appends _) fun _ => .bind (allocate_appends _) fun _ =>
      .of_same fun _ => rfl

end Formulation
end NonlinearProgram
