import NonlinearProgram.Proofs.Formulation.History

namespace NonlinearProgram

open Program FormulationM

variable {α β γ : Type}

namespace FormulationM

-- Work that enters no sums, and that gives a result where a condition holds, but rejects the
-- problem where it does not.
def Decides (condition : Prop) (b : β) (x : FormulationM α β) : Prop :=
  ∀ s, ∃ t, t.reductions = s.reductions ∧
    (condition ∧ x s = (.ok b, t) ∨ ¬condition ∧ Rejects x s t)

namespace Decides

variable {x : FormulationM α β} {f : β → FormulationM α γ} {b : β} {c : γ} {P Q : Prop}

theorem of_run (h : ∀ s, ∃ t, t.reductions = s.reductions ∧ x s = (.ok b, t)) :
    Decides True b x := by
  intro s
  have ⟨t, ht, hx⟩ := h s
  exact ⟨t, ht, .inl ⟨trivial, hx⟩⟩

theorem pure (b : β) : Decides True b (pure b : FormulationM α β) :=
  of_run fun s => ⟨s, rfl, rfl⟩

theorem bind (hx : Decides P b x) (hf : Decides Q c (f b)) : Decides (P ∧ Q) c (x >>= f) := by
  intro s
  have ⟨t, ht, hx⟩ := hx s
  have ⟨u, hu, hf⟩ := hf t
  rcases hx with ⟨hp, hx⟩ | ⟨hp, hx⟩
  case inr => exact ⟨t, ht, .inr ⟨fun h => hp h.left, hx.bind f⟩⟩
  case inl =>
    refine ⟨u, hu.trans ht, ?_⟩
    rcases hf with ⟨hq, hf⟩ | ⟨hq, hf⟩
    case inl => exact .inl ⟨⟨hp, hq⟩, by rw [bind_of_ok hx, hf]⟩
    case inr => exact .inr ⟨fun h => hq h.right, .after hx hf⟩

theorem congr (h : Decides P b x) (hpq : P ↔ Q) : Decides Q b x :=
  propext hpq ▸ h

theorem arrayLength {n : Int} (h : allocationFault? Tensor.scalarWidth [n] = none) :
    Decides True n.toNat (arrayLength n : FormulationM α Nat) :=
  of_run fun s => ⟨s, rfl, arrayLength_eq_ok.mpr ⟨h, rfl, rfl⟩⟩

end Decides
end FormulationM

variable [Scalar α]

-- What a problem with `n` variables, spread over ranks, answers to a rank that owns the slice of a
-- layout.
structure Problem.Answers (p : Problem α) (n m : Nat) (l : Layout)
    (bounds constraints : BoundsReply α) : Prop where
  sizes : ∃ given items, p.sizes = .ok given ∧ given.elements? = some items ∧
    (items.take 3).mapM RawValue.toInteger = .ok [(n : Int), (m : Int)]
  distribution : ∃ reply, p.distribution n (List.replicate l.boundaries.length 0) = .ok reply ∧
    reply.answer.isTrue ∧
    overlay reply.boundaries (List.replicate l.boundaries.length 0) = l.boundaries
  variableBounds : p.variableBounds n (Core.undeclared l.localSize.toNat) = .ok bounds
  constraintBounds : p.constraintBounds m (Core.undeclared m) = .ok constraints

-- The layout parts so many variables among the ranks, and its slice is the one of this rank.
structure Layout.Owned (l : Layout) (c : Communicator α) (n ranks : Nat) : Prop where
  number : c.rank = .integer l.rank
  size : c.size = .integer ranks
  boundaries : Layout.ranksOf l.boundaries = .ok ranks
  rank_lt : l.rank < ranks
  globalSize : l.globalSize = n

-- There is memory for the arrays of a rank.
structure Layout.Affordable (l : Layout) (m : Nat) : Prop where
  boundaries : allocationFault? Tensor.scalarWidth [(l.boundaries.length : Int)] = none
  entries : allocationFault? Tensor.scalarWidth [l.localSize] = none
  constraints : allocationFault? Tensor.scalarWidth [(m : Int)] = none
  rows : ∀ k ≤ m, allocationFault? Tensor.scalarWidth [(k : Int), l.localSize] = none

-- A reply with bounds for so many entries, each of which describes an interval.
structure BoundsReply.Usable (reply : BoundsReply α) (tolerance : α) (allowFixed : Bool)
    (count : Nat) : Prop where
  accepted : reply.Accepted count
  consistent : inconsistentPositions tolerance allowFixed
    (reply.onto (Core.undeclared count)).lower (reply.onto (Core.undeclared count)).upper = []

instance (reply : BoundsReply α) (tolerance : α) (allowFixed : Bool) (count : Nat) :
    Decidable (reply.Usable tolerance allowFixed count) :=
  decidable_of_iff (_ ∧ _) ⟨fun ⟨ha, hc⟩ => ⟨ha, hc⟩, fun ⟨ha, hc⟩ => ⟨ha, hc⟩⟩

-- There is memory for the scratch arrays of a core.
structure Core.Affordable (core : Core α) (blocks : Option (BlockSizes α)) : Prop where
  point : allocationFault? Tensor.scalarWidth [core.userLayout.localSize] = none
  rows : blocks.isNone → ∀ {k}, k = core.equalityCount ∨ k = core.inequalityCount →
    allocationFault? Tensor.scalarWidth [(k : Int), core.userLayout.localSize] = none
  multipliers : blocks.isSome →
    allocationFault? Tensor.scalarWidth [(core.constraintCount : Int)] = none

namespace Core

omit [Scalar α] in
theorem Affordable.of_layout {core : Core α} {m : Nat} (h : core.userLayout.Affordable m)
    (he : core.equalityCount ≤ m) (hi : core.inequalityCount ≤ m) : core.Affordable none where
  point := h.entries
  rows _ _ hk := h.rows _ (hk.elim (· ▸ he) (· ▸ hi))
  multipliers h := by cases h

variable {p : Problem α} {o : Options α} {c : Communicator α} {n m ranks : Nat}
  {l : Layout} {bounds constraints : BoundsReply α} {s : Session α}

-- Bounds of variables and constraints that make sense.
structure Accepts (o : Options α) (m : Nat) (l : Layout) (bounds constraints : BoundsReply α) :
    Prop where
  bounds : bounds.Usable o.tolerance (o.policy != .keep) l.localSize.toNat
  constraints : constraints.Usable o.tolerance false m

instance : Decidable (Accepts o m l bounds constraints) :=
  decidable_of_iff (_ ∧ _) ⟨fun ⟨hb, hc⟩ => ⟨hb, hc⟩, fun ⟨hb, hc⟩ => ⟨hb, hc⟩⟩

theorem pairOf_run {given : RawValue α} {items : List (RawValue α)} {n m : Int}
    (hg : given.elements? = some items)
    (h : (items.take 3).mapM RawValue.toInteger = .ok [n, m]) (s : Session α) :
    pairOf given s = (.ok (n, m), s) := by
  simp only [pairOf, hg, h]
  rfl

theorem askSizes_decides (h : p.Answers n m l bounds constraints) :
    Decides True ((n : Int), (m : Int)) (askSizes p) := by
  refine .of_run fun s => ⟨s.traced [.query .sizes], by simp, ?_⟩
  have ⟨given, items, hg, hi, hp⟩ := h.sizes
  rw [askSizes, bind_of_ok (ask_eq_ok.mpr ⟨hg, rfl⟩), bind_of_ok (pairOf_run hi hp _)]
  have hs : ¬((n : Int) < 0 ∨ (m : Int) < 0) := by omega
  simp only [hs, if_false]
  rfl

theorem askBounds_decides {q : Declared α → Query α}
    {answer : Declared α → Except Fault (BoundsReply α)} {refused : Malformed α}
    {mistyped : Nat → Nat → Malformed α} {count : Nat} {reply : BoundsReply α}
    (h : answer (undeclared count) = .ok reply) :
    Decides (reply.Accepted count) (reply.onto (undeclared count))
      (askBounds q answer refused mistyped count) := by
  intro s
  refine ⟨s.traced [.query (q (undeclared count))], by simp, ?_⟩
  by_cases ha : reply.Accepted count
  case pos => exact .inl ⟨ha, askBounds_of_accepted h ha s⟩
  case neg => exact .inr ⟨ha, askBounds_of_not_accepted h ha s⟩

theorem checkBounds_decides {allowFixed : Bool} {report : Nat → Nat → α → α → Malformed α}
    {d : Declared α} :
    Decides (inconsistentPositions o.tolerance allowFixed d.lower d.upper = []) ⟨⟩
      (checkBounds o allowFixed report d) := by
  intro s
  refine ⟨s, rfl, ?_⟩
  by_cases hc : inconsistentPositions o.tolerance allowFixed d.lower d.upper = []
  case pos => exact .inl ⟨hc, checkBounds_of_nil hc s⟩
  case neg => exact .inr ⟨hc, checkBounds_of_ne_nil hc s⟩

-- A layout with given boundaries counts if the slices of all ranks make up so many variables.
def acceptLayout (c : Communicator α) (n : Int) (boundaries : List Int) :
    FormulationM α Layout := do
  let layout ← ofExcept (fun
    | .value fault => .numeric fault
    | e => .malformed (.boundaries boundaries e)) (Layout.seenFrom c.rank boundaries)
  if layout.globalSize ≠ n then reject (.coverage layout.globalSize n)
  let total ← sumOverRanks c layout.localSize
  if total ≠ n then reject (.localSizes total n)
  return layout

theorem askLayout_of_reply {n : Int} {count : Nat} {reply : DistributionReply α}
    (hc : (c.size.plus (.integer 1) >>= RawValue.exactInteger) = .ok (count : Int))
    (ha : allocationFault? Tensor.scalarWidth [(count : Int)] = none)
    (hr : p.distribution n (List.replicate count 0) = .ok reply)
    (hv : (overlay reply.boundaries (List.replicate count 0)).any (!isInt64 ·) = false)
    (s : Session α) :
    askLayout p n c s =
      (if reply.answer.isTrue then
        acceptLayout c n (overlay reply.boundaries (List.replicate count 0))
      else ofExcept .layout (Layout.serial n))
      (s.traced [.query (.distribution n (List.replicate count 0))]) := by
  rw [askLayout, bind_of_ok (ofExcept_eq_ok.mpr ⟨hc, rfl⟩),
    bind_of_ok (arrayLength_eq_ok.mpr ⟨ha, rfl, rfl⟩)]
  dsimp only
  rw [Int.toNat_natCast, bind_of_ok (ask_eq_ok.mpr ⟨hr, rfl⟩)]
  simp only [hv, Bool.false_eq_true, if_false]
  cases reply.answer.isTrue <;> rfl

-- A rank that owns a slice tells the others its size.
theorem askLayout_run (h : p.Answers n m l bounds constraints) (ha : l.Affordable m)
    (ho : l.Owned c n ranks) (s : Session α) :
    askLayout p n c s =
      (do
        let total ← sumOverRanks c l.localSize
        if total ≠ n then reject (.localSizes total n)
        return l : FormulationM α Layout)
      (s.traced [.query (.distribution n (List.replicate l.boundaries.length 0))]) := by
  have ⟨reply, hq, ht, hb⟩ := h.distribution
  have hlen := (Layout.ranksOf_eq_ok ho.boundaries).left
  have hcount : (c.size.plus (.integer 1) >>= RawValue.exactInteger) =
      .ok (l.boundaries.length : Int) := by
    rw [ho.size, hlen]
    rfl
  have hv : (overlay reply.boundaries (List.replicate l.boundaries.length 0)).any (!isInt64 ·) =
      false := by
    rw [hb]
    exact Layout.isInt64_of_ranksOf ho.boundaries
  have hseen : Layout.seenFrom c.rank l.boundaries = .ok l := by
    rw [ho.number, Layout.seenFrom_integer, Layout.ofBoundaries_rank ho.boundaries ho.rank_lt]
  rw [askLayout_of_reply hcount ha.boundaries hq hv, if_pos ht, hb, acceptLayout,
    bind_of_ok (ofExcept_eq_ok.mpr ⟨hseen, rfl⟩)]
  simp only [ho.globalSize, ne_eq, not_true_eq_false, if_false]

theorem askLayout_of_total (h : p.Answers n m l bounds constraints) (ha : l.Affordable m)
    (ho : l.Owned c n ranks)
    (ht : c.sum (c.position s.reductions) (.whole l.localSize) = .ok (.whole n)) :
    askLayout p n c s = (.ok l, s.traced
      [.query (.distribution n (List.replicate l.boundaries.length 0)),
        .reduction ⟨c.name, .whole l.localSize⟩]) := by
  have hsum : c.sum (c.position (s.traced
      [.query (.distribution n (List.replicate l.boundaries.length 0))]).reductions)
      (.whole l.localSize) = .ok (.whole n) := by
    simpa [List.filterMap_cons] using ht
  rw [askLayout_run h ha ho, bind_of_ok (sumOverRanks_of_total hsum),
    Session.traced_traced]
  simp

-- What a rank knows after its survey.
def surveyOf (n m : Nat) (l : Layout) (bounds constraints : BoundsReply α) : Survey α where
  size := n
  layout := l
  variableData := bounds.onto (undeclared l.localSize.toNat)
  constraintCount := m
  constraintData := constraints.onto (undeclared m)

-- In a layout with a place for the variables, a survey rejects bounds that make no sense.
theorem surveyIn_decides (hn : allocationFault? Tensor.scalarWidth [l.localSize] = none)
    (hm : allocationFault? Tensor.scalarWidth [(m : Int)] = none)
    (hb : p.variableBounds n (undeclared l.localSize.toNat) = .ok bounds)
    (hc : p.constraintBounds m (undeclared m) = .ok constraints) :
    Decides (Accepts o m l bounds constraints) (surveyOf n m l bounds constraints)
      (surveyIn p o n m l) := by
  refine .congr (.bind (.arrayLength hn) <| .bind (askBounds_decides hb) <|
    .bind (.arrayLength hm) <| .bind (askBounds_decides hc) <|
    .bind checkBounds_decides <| .bind checkBounds_decides <| .pure _) ?_
  constructor
  case mp =>
    intro ⟨_, hb, _, hc, hbc, hcc, _⟩
    exact ⟨⟨hb, hbc⟩, ⟨hc, hcc⟩⟩
  case mpr =>
    intro ⟨⟨hb, hbc⟩, ⟨hc, hcc⟩⟩
    exact ⟨trivial, hb, trivial, hc, hbc, hcc, trivial⟩

-- Once the slices are found to fit, the survey enters no more sums, and rejects bounds that make no
-- sense.
theorem survey_of_total (h : p.Answers n m l bounds constraints) (ha : l.Affordable m)
    (ho : l.Owned c n ranks)
    (ht : c.sum (c.position s.reductions) (.whole l.localSize) = .ok (.whole n)) :
    ∃ t, t.reductions = s.reductions ++ [⟨c.name, .whole l.localSize⟩] ∧
      (Accepts o m l bounds constraints ∧
          survey p o c s = (.ok (surveyOf n m l bounds constraints), t) ∨
        ¬Accepts o m l bounds constraints ∧ Rejects (survey p o c) s t) := by
  have ⟨u, hu, hsizes⟩ := askSizes_decides h s
  have ⟨_, hsizes⟩ := hsizes.resolve_right fun h => h.left trivial
  rw [← hu] at ht
  have hlayout := askLayout_of_total h ha ho ht
  have ⟨t, ht', hout⟩ :=
    surveyIn_decides (o := o) ha.entries ha.constraints h.variableBounds h.constraintBounds <|
      u.traced [.query (.distribution n (List.replicate l.boundaries.length 0)),
        .reduction ⟨c.name, .whole l.localSize⟩]
  refine ⟨t, ht'.trans ?_, ?_⟩
  · simp [hu, List.filterMap_cons]
  · rcases hout with ⟨hacc, hout⟩ | ⟨hacc, hout⟩
    case inl =>
      refine .inl ⟨hacc, ?_⟩
      rw [survey, bind_of_ok hsizes]
      dsimp only
      rw [bind_of_ok hlayout]
      exact hout
    case inr => exact .inr ⟨hacc, .after hsizes (.after hlayout hout)⟩

theorem identity_append {t : Transformation α} {k : Nat} (h : t.userSize = .integer k) :
    ∃ chain, Chain.append { userSize := .integer k } t = .ok chain := by
  rw [Chain.append, if_pos (by simp [h, Chain.internalSize, RawValue.isSame, RawValue.toQuantity,
    Quantity.isEqual])]
  exact ⟨_, rfl⟩

omit [Scalar α] in
theorem userSize_remover {values : List α} {st : Store α} {r : Remover α}
    (h : r.Intact mask values st) : (Transformation.remover r).userSize = .integer mask.length := by
  rw [Transformation.userSize, Remover.userSize, View.size_of_shape h.userPoint.left]

-- The treatment of the fixed variables succeeds, as long as the layout can do without those that
-- are eliminated.
theorem treat_run {policy : FixedPolicy} {d : Declared α} {mask : List Bool} {count : Int}
    (layout : Layout) (hd : d.Fits mask.length) (ht : 0 < o.tolerance)
    (hr : policy = .remove → 0 < count → ∃ reduced, layout.reduced (mask.map not) = .ok reduced)
    (s : Session α) :
    ∃ treated t, treat policy o layout d mask count s = (.ok treated, t) ∧
      t.reductions = s.reductions := by
  by_cases hc : count ≤ 0
  case pos => exact ⟨_, s, treat_run_iff.mpr (.identity (.inl hc)), rfl⟩
  case neg =>
    have hpos : 0 < count := by omega
    cases policy
    case keep => exact ⟨_, s, treat_run_iff.mpr (.identity (.inr rfl)), rfl⟩
    case remove =>
      obtain ⟨reduced, hreduced⟩ := hr rfl hpos
      have hv := length_midpoints hd
      have hmake : Transformation.createRemover mask (midpoints d) s.store =
          .ok (.remover (Remover.create mask (midpoints d) s.store).1,
            (Remover.create mask (midpoints d) s.store).2) := by
        rw [Transformation.createRemover, if_pos hv]
      obtain ⟨chain, hchain⟩ :=
        identity_append (userSize_remover (Remover.create_intact s.store hv))
      rw [← hd.lower] at hchain
      exact ⟨_, _, treat_run_iff.mpr (.removed hpos hmake hchain hreduced), rfl⟩
    case relax =>
      have hmake : Transformation.createRelaxer mask o.tolerance s.store =
          .ok (.relaxer ⟨mask, o.tolerance, (s.store.alloc (Tensor.ofList [])).1⟩,
            (s.store.alloc (Tensor.ofList [])).2) := by
        rw [Transformation.createRelaxer, Relaxer.create?, if_pos ht]
      obtain ⟨chain, hchain⟩ := identity_append
        (t := .relaxer ⟨mask, o.tolerance, (s.store.alloc (Tensor.ofList [])).1⟩)
        (congrArg (fun n : Nat => RawValue.integer (n : Int)) hd.lower.symm)
      exact ⟨_, _, treat_run_iff.mpr (.relaxed hpos hmake hchain), rfl⟩

omit [Scalar α] in
theorem choosePolicy_run (requested : FixedPolicy) (count : Int) (distributed canRemove : Bool)
    (s : Session α) :
    ∃ t, choosePolicy requested count distributed canRemove s =
      (.ok (policyFor requested count distributed canRemove), t) ∧ t.reductions = s.reductions := by
  simp only [choosePolicy, ite_run]
  split
  · exact ⟨_, rfl, rfl⟩
  · exact ⟨_, rfl, rfl⟩

theorem Accepts.fits (h : Accepts o m l bounds constraints) (hl : 0 ≤ l.localSize) (n : Nat) :
    let v := surveyOf n m l bounds constraints
    v.variableData.Fits (v.fixed o).length ∧ v.constraintData.Fits m ∧
      l.localSize = (v.fixed o).length := by
  have hf : (surveyOf n m l bounds constraints).variableData.Fits l.localSize.toNat :=
    onto_fits h.bounds.accepted.right
  intro v
  rw [show (v.fixed o).length = l.localSize.toNat from fixedVariables_fits hf]
  exact ⟨hf, onto_fits h.constraints.accepted.right, by omega⟩

theorem Accepts.surveyOf_fits (h : Accepts o m l bounds constraints) (ha : l.Affordable m)
    (n : Nat) :
    let v := surveyOf n m l bounds constraints
    v.variableData.Fits (v.fixed o).length ∧ v.constraintData.Fits m ∧
      l.localSize = (v.fixed o).length :=
  h.fits (nonneg_of_allocationFault? ha.entries) n

-- Once the number of fixed variables is known, the bounds are counted.
theorem build_of_survey {v : Survey α} {count : Int} {canRemove : Bool} {t : Session α}
    (hs : survey p o c s = (.ok v, t)) (hv : v.variableData.Fits (v.fixed o).length)
    (hc : v.constraintData.Fits v.constraintCount) (hl : v.layout.localSize = (v.fixed o).length)
    (htol : 0 < o.tolerance)
    (hr : policyFor o.policy count v.layout.isDistributed canRemove = .remove → 0 < count →
      ∃ reduced, v.layout.reduced ((v.fixed o).map not) = .ok reduced)
    (ht : (c.sum (c.position t.reductions) (.whole ((v.fixed o).count true))).bind
      Quantity.toInteger = .ok count) :
    ∃ (core : BoundCounts → Core α) (classes : BoundClasses α) (u : Session α),
      u.reductions = t.reductions ++ [⟨c.name, .whole ((v.fixed o).count true)⟩] ∧
      build p o c canRemove s = (do
        let counts ← sumCounts c classes
        return core counts : FormulationM α (Core α)) u ∧
      ∀ counts, (core counts).Describes o v u.store ∧ (core counts).fixedCount = count ∧
        (core counts).policy = policyFor o.policy count v.layout.isDistributed canRemove := by
  obtain ⟨u₁, h₁, hu₁⟩ := choosePolicy_run o.policy count v.layout.isDistributed canRemove
    (t.traced [.reduction ⟨c.name, .whole ((v.fixed o).count true)⟩])
  obtain ⟨treated, u₂, h₂, hu₂⟩ := treat_run v.layout hv htol hr u₁
  obtain ⟨htreats, _⟩ := treat_eq_ok hv hl h₂
  obtain ⟨core, st, h₃, hcore⟩ := assemble_run (c := c) hv hc htreats
  let treated := treatedBounds (policyFor o.policy count v.layout.isDistributed canRemove) o
    v.variableData (v.fixed o) count
  refine ⟨core, classifyBounds o.infinity treated.1 treated.2, { u₂ with store := st }, ?_, ?_,
    fun counts => ?_⟩
  case refine_2 =>
    rw [build, bind_of_ok hs, ← Survey.fixed, bind_of_ok (sumOverRanks_eq_ok.mpr ⟨ht, rfl⟩),
      bind_of_ok h₁, bind_of_ok h₂, h₃]
  case refine_1 =>
    have : ({ u₂ with store := st } : Session α).reductions = u₂.reductions := rfl
    rw [this, hu₂, hu₁, Session.reductions_traced]
    rfl
  case refine_3 =>
    obtain ⟨hdesc, hpolicy, hcount, _⟩ := hcore counts
    exact ⟨hdesc, hcount, hpolicy⟩

-- Nothing is eliminated from variables that are spread over ranks.
theorem build_of_fixed {v : Survey α} {count : Int} (canRemove : Bool) {t : Session α}
    (hs : survey p o c s = (.ok v, t)) (hv : v.variableData.Fits (v.fixed o).length)
    (hc : v.constraintData.Fits v.constraintCount) (hl : v.layout.localSize = (v.fixed o).length)
    (hd : v.layout.isDistributed) (htol : 0 < o.tolerance)
    (ht : c.sum (c.position t.reductions) (.whole ((v.fixed o).count true)) = .ok (.whole count)) :
    ∃ (core : BoundCounts → Core α) (classes : BoundClasses α) (u : Session α),
      u.reductions = t.reductions ++ [⟨c.name, .whole ((v.fixed o).count true)⟩] ∧
      build p o c canRemove s = (do
        let counts ← sumCounts c classes
        return core counts : FormulationM α (Core α)) u ∧
      ∀ counts, (core counts).Describes o v u.store ∧ (core counts).layout = v.layout := by
  have hkept (h : 0 < count) :
      policyFor o.policy count v.layout.isDistributed canRemove ≠ .remove :=
    hd ▸ policyFor_of_distributed h
  have ⟨core, classes, u, hu, hb, hcore⟩ := build_of_survey hs hv hc hl htol
    (fun hp h => absurd hp (hkept h)) (congrArg (Except.bind · Quantity.toInteger) ht)
  refine ⟨core, classes, u, hu, hb, fun counts => ?_⟩
  have ⟨hdesc, hcount, hpolicy⟩ := hcore counts
  refine ⟨hdesc, hdesc.layout.resolve_left fun ⟨hp, h, _⟩ => ?_⟩
  exact hkept (hcount ▸ h) (hpolicy ▸ hp)

end Core
end NonlinearProgram

namespace NonlinearProgram.Formulation

open Program FormulationM

variable {α : Type} [Scalar α] {p : Problem α} {core : Core α} {s t : Session α} {m : Nat}

theorem onStore_zeros_run {axes : List Int} (h : allocationFault? Tensor.scalarWidth axes = none)
    (s : Session α) :
    ∃ v t, onStore (StoreM.zeros axes) s = (.ok v, t) ∧ t.reductions = s.reductions := by
  have hz : StoreM.zeros axes s.store = (.ok (s.store.alloc ⟨axes.map Int.toNat,
      List.replicate (Tensor.sizeOf (axes.map Int.toNat)) 0⟩).1, (s.store.alloc
        ⟨axes.map Int.toNat, List.replicate (Tensor.sizeOf (axes.map Int.toNat)) 0⟩).2) := by
    simp only [StoreM.zeros, h]
    rfl
  exact ⟨_, _, onStore_of_ok hz, rfl⟩

theorem onStore_zeros_set_run {axes : List Int} (h : allocationFault? Tensor.scalarWidth axes = none)
    (change : View → Formulation α → Formulation α) (s : Session α) :
    ∃ v t, (do
      let v ← onStore (StoreM.zeros axes)
      setFormulation (change v) : FormulationM α Unit) s = (.ok ⟨⟩, t) ∧
        t.reductions = s.reductions ∧ t.formulation = change v s.formulation := by
  have ⟨v, u, hz, hu⟩ := onStore_zeros_run h s
  have ⟨_, _, hf⟩ := onStore_eq_ok hz
  refine ⟨v, _, bind_of_ok hz _, hu, ?_⟩
  rw [hf]

theorem allocateDerivatives_run {blocks : Option (BlockSizes α)} (ha : core.Affordable blocks)
    (s : Session α) :
    ∃ t, allocateDerivatives core (if blocks.isSome then .mixed else .dense) s = (.ok ⟨⟩, t) ∧
      t.reductions = s.reductions := by
  cases blocks
  case none =>
    have ⟨_, s₁, h₁, hs₁, _⟩ := onStore_zeros_set_run (ha.rows rfl (.inl rfl))
      (fun v f => { f with equalityScratch := some v }) s
    have ⟨_, s₂, h₂, hs₂, _⟩ := onStore_zeros_set_run (ha.rows rfl (.inr rfl))
      (fun v f => { f with inequalityScratch := some v }) s₁
    refine ⟨s₂, ?_, hs₂.trans hs₁⟩
    exact (congrFun (bind_assoc ..).symm s).trans ((bind_of_ok h₁ _).trans h₂)
  case some blocks =>
    have ⟨_, s₁, h₁, hs₁, _⟩ := onStore_zeros_set_run (ha.multipliers rfl)
      (fun v f => { f with multiplierScratch := some v }) s
    exact ⟨s₁, h₁, hs₁⟩

theorem allocate_run {blocks : Option (BlockSizes α)} (ha : core.Affordable blocks)
    (hk : s.formulation.kind = if blocks.isSome then .mixed else .dense) :
    ∃ t, allocate core s = (.ok ⟨⟩, t) ∧ t.reductions = s.reductions := by
  have ⟨point, s₁, h₁, hs₁, hf₁⟩ := onStore_zeros_set_run ha.point
    (fun v f => { f with pointScratch := some v }) s
  have ⟨gradient, s₂, h₂, hs₂, hf₂⟩ := onStore_zeros_set_run ha.point
    (fun v f => { f with gradientScratch := some v }) s₁
  have ⟨s₃, h₃, hs₃⟩ := allocateDerivatives_run ha s₂
  refine ⟨s₃, ?_, hs₃.trans (hs₂.trans hs₁)⟩
  rw [allocate, ← bind_assoc, bind_of_ok h₁, ← bind_assoc, bind_of_ok h₂,
    bind_of_ok (rfl : getFormulation s₂ = (.ok s₂.formulation, s₂)), hf₂, hf₁, hk]
  exact h₃

theorem finalize_of_derived {blocks : Option (BlockSizes α)}
    (h : derive p s = (.ok (core, blocks), t)) (ha : core.Affordable blocks) :
    ∃ u, finalize p s = (.ok true, u) ∧ u.reductions = t.reductions := by
  have ⟨hk, _, _⟩ := derive_eq_ok h
  have hf : t.formulation = s.formulation := by
    have := (derive_adds p s).formulation
    rwa [h] at this
  have ⟨u, ha, hu⟩ := allocate_run (s := { t with
    formulation := { t.formulation with core := some core, blocks := blocks } }) ha (hf ▸ hk)
  rw [finalize, bind_of_ok (attempt_run h)]
  dsimp only
  rw [bind_of_ok (rfl : setFormulation _ t = (.ok ⟨⟩, _)), bind_of_ok ha]
  exact ⟨_, rfl, hu⟩

theorem finalize_of_rejects (h : Rejects (derive p) s t) :
    ∃ u, finalize p s = (.ok false, u) ∧ u.reductions = t.reductions := by
  have ⟨reason, h⟩ := h
  rw [finalize, bind_of_ok (attempt_run h)]
  exact ⟨_, rfl, rfl⟩

theorem derive_of_rejects (h : Rejects (Core.build p s.formulation.options
    s.formulation.communicator (canRemove s.formulation.kind)) s t) : Rejects (derive p) s t :=
  .after rfl (h.bind _)

theorem derive_of_dense (hk : s.formulation.kind = .dense)
    (h : Core.build p s.formulation.options s.formulation.communicator
      (canRemove s.formulation.kind) s = (.ok core, t)) : derive p s = (.ok (core, none), t) := by
  rw [derive, bind_of_ok (rfl : getFormulation s = (.ok s.formulation, s)), bind_of_ok h]
  simp only [hk]
  rfl

-- Blocks and variables that are spread over ranks do not go together.
theorem derive_of_mixed (hk : s.formulation.kind = .mixed)
    (h : Core.build p s.formulation.options s.formulation.communicator
      (canRemove s.formulation.kind) s = (.ok core, t)) (hd : core.layout.isDistributed) :
    Rejects (derive p) s t := by
  have ha : Rejects (askBlockSizes p core) t t := by
    rw [Rejects, askBlockSizes]
    simp only [hd, if_true]
    exact ⟨_, rfl⟩
  rw [derive]
  refine .after (rfl : getFormulation s = (.ok s.formulation, s)) <| .after h ?_
  simp only [hk]
  exact ha.bind _

theorem finalize_of_dense (hk : s.formulation.kind = .dense)
    (h : Core.build p s.formulation.options s.formulation.communicator
      (canRemove s.formulation.kind) s = (.ok core, t)) (ha : core.userLayout.Affordable m)
    (he : core.equalityCount ≤ m) (hi : core.inequalityCount ≤ m) :
    ∃ u, finalize p s = (.ok true, u) ∧ u.reductions = t.reductions :=
  finalize_of_derived (derive_of_dense hk h) (.of_layout ha he hi)

end NonlinearProgram.Formulation
