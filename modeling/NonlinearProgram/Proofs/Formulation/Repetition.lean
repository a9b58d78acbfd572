import NonlinearProgram.Proofs.Formulation.Progress
import NonlinearProgram.Proofs.Formulation.Sparing

-- A problem that answers the same questions again is finalized with the same result, in other
-- arrays, as long as the sums over ranks come out the same.

namespace NonlinearProgram

open Program FormulationM

variable {α β γ : Type}

namespace Communicator

-- So many sums from the second position on come out like those from the first one on.
def Repeats (c : Communicator α) (first second count : Nat) : Prop :=
  ∀ k < count, ∀ x, c.sum (second + k) x = c.sum (first + k) x

variable {c : Communicator α} {i j m n : Nat}

namespace Repeats

theorem left (h : c.Repeats i j (m + n)) : c.Repeats i j m :=
  fun k hk => h k (by omega)

theorem right (h : c.Repeats i j (m + n)) : c.Repeats (i + m) (j + m) n := by
  intro k hk x
  rw [Nat.add_assoc, Nat.add_assoc]
  exact h (m + k) (by omega) x

end Repeats

theorem position_append_add (c : Communicator α) (first second : List (Reduction α)) :
    c.position (first ++ second) = c.position first + c.position second :=
  List.countP_append

end Communicator

namespace FormulationM

-- Work that only calls, with the same calls and the same result wherever the sums are the same.
def Replays (c : Communicator α) (x : FormulationM α β) : Prop :=
  ∀ s, ∃ r calls, x s = (r, s.traced calls) ∧ ∀ s',
    c.Repeats (c.position s.reductions) (c.position s'.reductions)
      (c.position (calls.filterMap Call.reduction?)) → x s' = (r, s'.traced calls)

namespace Replays

variable {c : Communicator α} {x : FormulationM α β} {f : β → FormulationM α γ} {s t : Session α}
  {b : β}

theorem of_same (h : ∃ r, ∀ s, x s = (r, s)) : Replays c x := by
  obtain ⟨r, h⟩ := h
  intro s
  exact ⟨r, [], by rw [h, Session.traced_nil], fun s' _ => by rw [h, Session.traced_nil]⟩

theorem bind (hx : Replays c x) (hf : ∀ b, Replays c (f b)) : Replays c (x >>= f) := by
  intro s
  obtain ⟨r, calls, hs, hr⟩ := hx s
  cases r
  case error e =>
    exact ⟨.error e, calls, bind_of_error hs f, fun s' h => bind_of_error (hr s' h) f⟩
  case ok b =>
    obtain ⟨r, more, ht, hr'⟩ := hf b (s.traced calls)
    refine ⟨r, calls ++ more, by rw [bind_of_ok hs, ht, Session.traced_traced], fun s' h => ?_⟩
    rw [List.filterMap_append, Communicator.position_append_add] at h
    rw [bind_of_ok (hr s' h.left), hr', Session.traced_traced]
    simpa only [Session.reductions_traced, Communicator.position_append_add] using h.right

theorem pure (b : β) : Replays c (pure b : FormulationM α β) :=
  of_same ⟨_, fun _ => rfl⟩

theorem throw (e : Failure α) : Replays c (throw e : FormulationM α β) :=
  of_same ⟨_, fun _ => rfl⟩

theorem ofExcept {ε : Type} (reason : ε → Failure α) (r : Except ε β) :
    Replays c (ofExcept reason r) :=
  of_same ⟨_, ofExcept_run reason r⟩

theorem ask (q : Query α) (answer : Except Fault β) : Replays c (ask q answer) :=
  fun s => ⟨_, [.query q], ask_run q answer s, fun s' _ => ask_run q answer s'⟩

theorem ite {p : Prop} [Decidable p] {y : FormulationM α β} (hx : Replays c x) (hy : Replays c y) :
    Replays c (if p then x else y) := by
  split
  · exact hx
  · exact hy

theorem guard {p : Prop} [Decidable p] {m : Malformed α} {f : γ → FormulationM α β}
    (h : Replays c x) : Replays c (if p then reject m >>= f else x) :=
  .ite (of_same ⟨_, reject_bind_run m f⟩) h

theorem ensure {p : Prop} [Decidable p] {m : Malformed α} {f : γ → FormulationM α β}
    (h : Replays c x) : Replays c (if p then x else reject m >>= f) :=
  .ite h (of_same ⟨_, reject_bind_run m f⟩)

theorem arrayLength (n : Int) : Replays c (arrayLength n : FormulationM α Nat) := by
  rw [FormulationM.arrayLength]
  split
  · exact .throw _
  · exact .pure _

theorem sumOverRanks [Scalar α] (c : Communicator α) (n : Int) : Replays c (sumOverRanks c n) := by
  intro s
  refine ⟨_, _, sumOverRanks_run c n s, fun s' h => ?_⟩
  have hone : c.position [⟨c.name, .whole n⟩] = 1 := by simp [Communicator.position]
  have hsum := h 0 (by rw [List.filterMap_cons]; exact hone ▸ Nat.one_pos) (.whole n)
  rw [sumOverRanks_run, ← Nat.add_zero (c.position s'.reductions), hsum, Nat.add_zero]

-- What was given once is given again, after as many sums.
theorem again (hx : Replays c x) (h : x s = (.ok b, t)) :
    ∃ k, c.position t.reductions = c.position s.reductions + k ∧ ∀ s',
      c.Repeats (c.position s.reductions) (c.position s'.reductions) k →
      ∃ t', x s' = (.ok b, t') ∧ c.position t'.reductions = c.position s'.reductions + k := by
  obtain ⟨r, calls, hs, hr⟩ := hx s
  cases hs.symm.trans h
  refine ⟨_, by rw [Session.reductions_traced, Communicator.position_append_add], fun s' h => ?_⟩
  exact ⟨_, hr s' h, by rw [Session.reductions_traced, Communicator.position_append_add]⟩

end Replays
end FormulationM

namespace Transformation

-- Transformations that leave points as they are or do not, and that are for the same sizes.
structure Alike (a b : Transformation α) : Prop where
  relaxer : (∃ r, a = .relaxer r) ↔ ∃ r, b = .relaxer r
  userSize : a.userSize = b.userSize
  internalSize : a.internalSize = b.internalSize

variable [Scalar α] {mask : List Bool} {t : Transformation α} {s st : Store α}

theorem createRemover_again {values : List α} (h : createRemover mask values s = .ok (t, st))
    (s' : Store α) :
    ∃ t' st', createRemover mask values s' = .ok (t', st') ∧ t'.Alike t := by
  obtain ⟨r, rfl, hr⟩ := Core.createRemover_eq_ok h
  have hr' := Remover.create_intact s' hr.length_values
  refine ⟨_, _, createRemover_of_length hr.length_values s', by simp, ?_, ?_⟩
  · exact (Core.userSize_remover hr').trans (Core.userSize_remover hr).symm
  · simp only [internalSize, Remover.internalSize, hr'.freeIndices, hr.freeIndices]

theorem createRelaxer_again {tolerance : α} (h : createRelaxer mask tolerance s = .ok (t, st))
    (s' : Store α) :
    ∃ t' st', createRelaxer mask tolerance s' = .ok (t', st') ∧ t'.Alike t := by
  rw [createRelaxer, Relaxer.create?] at h ⊢
  by_cases ht : 0 < tolerance
  case neg => simp [ht] at h
  case pos =>
    simp only [ht, if_true] at h ⊢
    cases h
    exact ⟨_, _, rfl, by simp, rfl, rfl⟩

end Transformation

namespace Chain

-- Chains that leave every point as it is or do not, and that are for the same sizes.
structure Alike (a b : Chain α) : Prop where
  identical : a.Identical ↔ b.Identical
  userSize : a.userSize = b.userSize
  internalSize : a.internalSize = b.internalSize

theorem Alike.refl (a : Chain α) : a.Alike a :=
  ⟨.rfl, rfl, rfl⟩

theorem append_again [Scalar α] {c chain : Chain α} {t t' : Transformation α}
    (h : c.append t = .ok chain) (hi : c.items = []) (ht : t'.Alike t) :
    ∃ chain', c.append t' = .ok chain' ∧ chain'.Alike chain := by
  rw [append] at h
  split at h <;> cases h
  case isTrue hs =>
    refine ⟨{ c with items := c.items ++ [t'] }, by rw [append, ht.userSize, if_pos hs], ?_, rfl,
      ?_⟩
    · simpa [Identical, hi] using ht.relaxer
    · simp [internalSize, ht.internalSize]

end Chain

namespace Core

variable [Scalar α] {p : Problem α} {o : Options α} {c : Communicator α} {s s' t : Session α}
  {core : Core α}

theorem pairOf_replays (given : RawValue α) : Replays c (pairOf given) := by
  refine .of_same ?_
  rw [pairOf]
  cases given.elements?
  case none => exact ⟨_, fun _ => rfl⟩
  case some items =>
    dsimp only
    generalize (items.take 3).mapM RawValue.toInteger = r
    rcases r with e | _ | ⟨_, _ | ⟨_, _ | _⟩⟩
    case error => cases e <;> exact ⟨_, fun _ => rfl⟩
    all_goals exact ⟨_, fun _ => rfl⟩

theorem askSizes_replays (p : Problem α) : Replays c (askSizes p) :=
  .bind (.ask _ _) fun given => .bind (pairOf_replays given) fun _ => .guard (.pure _)

theorem askLayout_replays (p : Problem α) (n : Int) (c : Communicator α) :
    Replays c (askLayout p n c) := by
  rw [askLayout]
  refine .bind (.ofExcept _ _) fun count => .bind (.arrayLength _) fun k =>
    .bind (.ask _ _) fun reply => ?_
  refine .ite (.bind (.throw _) fun _ => ?_) ?_
  all_goals
    refine .ite (.ofExcept _ _) (.bind (.ofExcept _ _) fun layout => .guard ?_)
    exact .bind (.sumOverRanks _ _) fun total => .guard (.pure _)

theorem askBounds_replays (q : Declared α → Query α)
    (answer : Declared α → Except Fault (BoundsReply α)) (refused : Malformed α)
    (mistyped : Nat → Nat → Malformed α) (count : Nat) :
    Replays c (askBounds q answer refused mistyped count) := by
  rw [askBounds]
  exact .bind (.ask _ _) fun reply => .guard (.guard (.pure _))

theorem checkBounds_replays (o : Options α) (allowFixed : Bool)
    (report : Nat → Nat → α → α → Malformed α) (d : Declared α) :
    Replays c (checkBounds o allowFixed report d) := by
  rw [checkBounds.eq_def]
  split
  · exact .pure _
  · exact .throw _

theorem survey_replays (p : Problem α) (o : Options α) (c : Communicator α) :
    Replays c (survey p o c) :=
  .bind (askSizes_replays p) fun _ => .bind (askLayout_replays p _ c) fun _ =>
    .bind (.arrayLength _) fun _ => .bind (askBounds_replays _ _ _ _ _) fun _ =>
    .bind (.arrayLength _) fun _ => .bind (askBounds_replays _ _ _ _ _) fun _ =>
    .bind (checkBounds_replays _ _ _ _) fun _ => .bind (checkBounds_replays _ _ _ _) fun _ =>
    .pure _

theorem sumCounts_replays (classes : BoundClasses α) : Replays c (sumCounts c classes) :=
  .bind (.sumOverRanks _ _) fun _ => .bind (.sumOverRanks _ _) fun _ =>
    .bind (.sumOverRanks _ _) fun _ => .pure _

-- Fixed variables can be treated once more in the same way.
theorem treat_again {policy : FixedPolicy} {layout : Layout} {d : Declared α} {mask : List Bool}
    {count : Int} {treated : Treatment α}
    (h : treat policy o layout d mask count s = (.ok treated, t)) (s' : Session α) :
    ∃ treated' t', treat policy o layout d mask count s' = (.ok treated', t') ∧
      t'.reductions = s'.reductions ∧ treated'.layout = treated.layout ∧
      treated'.chain.Alike treated.chain := by
  -- What is made once more is made of the same numbers, wherever its arrays are.
  cases treat_run_iff.mp h
  case identity hc =>
    exact ⟨_, s', treat_run_iff.mpr (.identity hc), rfl, rfl, .refl _⟩
  case removed hc hmake hchain hreduced =>
    obtain ⟨item', st', hmake', hitem⟩ := Transformation.createRemover_again hmake s'.store
    obtain ⟨chain', hchain', halike⟩ := Chain.append_again hchain rfl hitem
    exact ⟨_, _, treat_run_iff.mpr (.removed hc hmake' hchain' hreduced), rfl, rfl, halike⟩
  case relaxed hc hmake hchain =>
    obtain ⟨item', st', hmake', hitem⟩ := Transformation.createRelaxer_again hmake s'.store
    obtain ⟨chain', hchain', halike⟩ := Chain.append_again hchain rfl hitem
    exact ⟨_, _, treat_run_iff.mpr (.relaxed hc hmake' hchain'), rfl, rfl, halike⟩

-- Cores that treat fixed variables in the same way.
structure Alike (a b : Core α) : Prop where
  policy : a.policy = b.policy
  fixedCount : a.fixedCount = b.fixedCount
  layout : a.layout = b.layout
  chain : a.chain.Alike b.chain

variable {v : Survey α} {count : Int} {canRemove : Bool}

-- Once the number of fixed variables is known, the rest can be done once more.
theorem finish_again (hv : v.variableData.Fits (v.fixed o).length)
    (hc : v.constraintData.Fits v.constraintCount) (hl : v.layout.localSize = (v.fixed o).length)
    (h : finish o c canRemove v count s = (.ok core, t)) :
    ∃ k, c.position t.reductions = c.position s.reductions + k ∧ ∀ s',
      c.Repeats (c.position s.reductions) (c.position s'.reductions) k →
      ∃ core' t', finish o c canRemove v count s' = (.ok core', t') ∧
        c.position t'.reductions = c.position s'.reductions + k ∧ core'.Alike core := by
  obtain ⟨policy, u₁, h₁, h⟩ := bind_eq_ok.mp h
  obtain ⟨rfl, _, hu₁⟩ := choosePolicy_eq_ok h₁
  obtain ⟨treated, u₂, h₂, h⟩ := bind_eq_ok.mp h
  obtain ⟨ht, _, _, hu₂⟩ := treat_eq_ok hv hl h₂
  obtain ⟨make, st, ha, hmake⟩ := assemble_run (c := c) hv hc ht
  obtain ⟨hchain, hlayout⟩ := treated_of_assemble h
  rw [ha] at h
  obtain ⟨counts, u₃, h₃, h⟩ := bind_eq_ok.mp h
  obtain ⟨rfl, rfl⟩ := ok_eq_ok.mp h
  obtain ⟨_, hpolicy, hcount, _⟩ := hmake counts
  obtain ⟨k, hk, hr⟩ := (sumCounts_replays _).again h₃
  have hred : ({ u₂ with store := st } : Session α).reductions = s.reductions := by
    rw [hu₂, hu₁]
    rfl
  rw [hred] at hk hr
  refine ⟨k, hk, fun s' hrep => ?_⟩
  obtain ⟨u₁', h₁', hu₁'⟩ := choosePolicy_run o.policy count v.layout.isDistributed canRemove s'
  obtain ⟨treated', u₂', h₂', hu₂', hlayout', halike⟩ := treat_again h₂ u₁'
  obtain ⟨ht', _⟩ := treat_eq_ok hv hl h₂'
  obtain ⟨make', st', ha', hmake'⟩ := assemble_run (c := c) hv hc ht'
  have hred' : ({ u₂' with store := st' } : Session α).reductions = s'.reductions :=
    hu₂'.trans hu₁'
  obtain ⟨u₃', h₃', hk'⟩ := hr { u₂' with store := st' } (hred' ▸ hrep)
  obtain ⟨_, hpolicy', hcount', _⟩ := hmake' counts
  rw [bind_of_ok h₃'] at ha'
  obtain ⟨hchain', hlayout''⟩ := treated_of_assemble ha'
  refine ⟨make' counts, u₃', ?_, hred' ▸ hk', ?_⟩
  · rw [finish, bind_of_ok h₁', bind_of_ok h₂', ha']
    rfl
  · constructor
    case policy => rw [hpolicy', hpolicy]
    case fixedCount => rw [hcount', hcount]
    case layout => rw [hlayout'', hlayout', hlayout]
    case chain =>
      rw [hchain', hchain]
      exact halike

-- A core can be built once more from the same survey.
theorem build_again (h : build p o c canRemove s = (.ok core, t)) :
    ∃ k, c.position t.reductions = c.position s.reductions + k ∧ ∀ s',
      c.Repeats (c.position s.reductions) (c.position s'.reductions) k →
      ∃ v u u' core' t', survey p o c s = (.ok v, u) ∧ survey p o c s' = (.ok v, u') ∧
        build p o c canRemove s' = (.ok core', t') ∧
        c.position t'.reductions = c.position s'.reductions + k ∧ core'.Alike core := by
  obtain ⟨v, u₁, h₁, h⟩ := bind_eq_ok.mp h
  obtain ⟨hs, _⟩ := survey_eq_ok h₁
  obtain ⟨count, u₂, h₂, h⟩ := bind_eq_ok.mp h
  have hlen : (v.fixed o).length = v.layout.localSize.toNat := fixedVariables_fits hs.variables_fit
  have hsize := hs.localSize
  obtain ⟨k₁, hk₁, hr₁⟩ := (survey_replays p o c).again h₁
  obtain ⟨k₂, hk₂, hr₂⟩ := (Replays.sumOverRanks c _).again h₂
  obtain ⟨k₃, hk₃, hr₃⟩ := finish_again (hlen ▸ hs.variables_fit) hs.constraints_fit (by omega) h
  refine ⟨k₁ + (k₂ + k₃), by omega, fun s' hr => ?_⟩
  have hrest := hr.right
  obtain ⟨u₁', h₁', hk₁'⟩ := hr₁ s' hr.left
  rw [← hk₁, ← hk₁'] at hrest
  obtain ⟨u₂', h₂', hk₂'⟩ := hr₂ u₁' hrest.left
  replace hrest := hrest.right
  rw [← hk₂, ← hk₂'] at hrest
  obtain ⟨core', t', h', hk₃', halike⟩ := hr₃ u₂' hrest
  refine ⟨v, u₁, u₁', core', t', h₁, h₁', ?_, by omega, halike⟩
  rw [build, bind_of_ok h₁', bind_of_ok h₂']
  exact h'

omit [Scalar α] in
theorem Affordable.congr {core' : Core α} {blocks : Option (BlockSizes α)}
    (h : core.Affordable blocks) (hl : core'.userLayout = core.userLayout)
    (hs : core'.split = core.split) (hc : core'.constraintCount = core.constraintCount) :
    core'.Affordable blocks where
  point := hl ▸ h.point
  rows hb k hk := by
    rw [hl]
    simp only [equalityCount, inequalityCount, hs] at hk
    exact h.rows hb hk
  multipliers hb := hc ▸ h.multipliers hb

end Core

namespace Formulation

variable [Scalar α] {p : Problem α} {s s' t : Session α} {core core' : Core α}
  {blocks : Option (BlockSizes α)} {c : Communicator α}

-- The sizes of blocks are checked against the size and the layout of a core.
theorem askBlockSizes_congr (p : Problem α) (hl : core'.layout = core.layout)
    (hs : core'.size = core.size) : askBlockSizes p core' = askBlockSizes p core := by
  simp only [askBlockSizes, hl, hs]

theorem askBlockSizes_replays (p : Problem α) (core : Core α) :
    Replays c (askBlockSizes p core) := by
  rw [askBlockSizes]
  refine .guard (.bind (.ask _ _) fun b => ?_)
  refine .bind (.ofExcept _ _) fun _ => .guard ?_
  refine .bind (.ofExcept _ _) fun _ => .ensure ?_
  refine .bind (.ofExcept _ _) fun _ => .guard ?_
  refine .bind (.ofExcept _ _) fun _ => .guard ?_
  refine .bind (.ofExcept _ _) fun _ => .guard ?_
  exact .ensure (.pure b)

theorem askExtras_again {kind : FormulationKind} {x : Core α}
    (h : askExtras p kind x s = (.ok (core, blocks), t)) :
    x = core ∧ ∃ k, c.position t.reductions = c.position s.reductions + k ∧ ∀ core' s',
      core'.layout = core.layout → core'.size = core.size →
      c.Repeats (c.position s.reductions) (c.position s'.reductions) k →
      ∃ t', askExtras p kind core' s' = (.ok (core', blocks), t') := by
  cases kind
  case dense =>
    obtain ⟨hx, rfl⟩ := ok_eq_ok.mp h
    cases hx
    exact ⟨rfl, 0, rfl, fun core' s' _ _ _ => ⟨s', rfl⟩⟩
  case mixed =>
    obtain ⟨b, u, hb, h⟩ := bind_eq_ok.mp h
    obtain ⟨hx, rfl⟩ := ok_eq_ok.mp h
    cases hx
    obtain ⟨k, hk, hr⟩ := (askBlockSizes_replays p core).again hb
    refine ⟨rfl, k, hk, fun core' s' hl hs h => ?_⟩
    obtain ⟨t', ht', _⟩ := hr s' h
    rw [← askBlockSizes_congr p hl hs] at ht'
    exact ⟨t', bind_of_ok ht' _⟩

-- Formulations with the same choices.
structure Alike (f g : Formulation α) : Prop where
  kind : f.kind = g.kind
  options : f.options = g.options
  communicator : f.communicator = g.communicator

theorem derive_again (h : derive p s = (.ok (core, blocks), t))
    (hc : c = s.formulation.communicator) :
    ∃ k, c.position t.reductions = c.position s.reductions + k ∧ ∀ s',
      s'.formulation.Alike s.formulation →
      c.Repeats (c.position s.reductions) (c.position s'.reductions) k →
      ∃ v u u' core' t', Core.survey p s.formulation.options c s = (.ok v, u) ∧
        Core.survey p s.formulation.options c s' = (.ok v, u') ∧
        derive p s' = (.ok (core', blocks), t') ∧ core'.Alike core := by
  rw [derive_run, ← hc] at h
  obtain ⟨x, u, hb, h⟩ := bind_eq_ok.mp h
  obtain ⟨k₁, hk₁, hr₁⟩ := Core.build_again hb
  obtain ⟨rfl, k₂, hk₂, hr₂⟩ := askExtras_again (c := c) h
  refine ⟨k₁ + k₂, by omega, fun s' hs' hr => ?_⟩
  have hrest := hr.right
  obtain ⟨v, w, w', core', u', hv, hv', hb', hk', halike⟩ := hr₁ s' hr.left
  rw [← hk₁, ← hk'] at hrest
  have hsize : core'.size = x.size := by
    obtain ⟨_, _, _, hB, _⟩ := Core.survey_of_build hb
    obtain ⟨_, _, _, hB', _⟩ := Core.survey_of_build hb'
    rw [hB'.describes.size, hB.describes.size, halike.layout]
  obtain ⟨t', ht'⟩ := hr₂ core' u' halike.layout hsize hrest
  refine ⟨v, w, w', core', t', hv, hv', ?_, halike⟩
  rw [derive_run, hs'.options, hs'.communicator, hs'.kind, ← hc, bind_of_ok hb', ht']

omit [Scalar α] in
theorem affordable_of_zeros [Zero α] {axes : List Int} {w : View}
    (h : onStore (StoreM.zeros axes) s = (.ok w, t)) :
    allocationFault? Tensor.scalarWidth axes = none := by
  obtain ⟨_, h, _⟩ := onStore_eq_ok h
  rw [StoreM.zeros] at h
  cases ha : allocationFault? Tensor.scalarWidth axes
  case none => rfl
  case some => simp [ha, bind_run] at h

-- There was memory for the arrays that were made.
theorem affordable_of_allocate
    (hk : s.formulation.kind = if blocks.isSome then .mixed else .dense)
    (h : allocate core s = (.ok ⟨⟩, t)) : core.Affordable blocks := by
  obtain ⟨_, u₁, h₁, h⟩ := bind_eq_ok.mp h
  obtain ⟨_, u₂, h₂, h⟩ := bind_eq_ok.mp h
  obtain ⟨_, u₃, h₃, h⟩ := bind_eq_ok.mp h
  obtain ⟨_, u₄, h₄, h⟩ := bind_eq_ok.mp h
  obtain ⟨f, u₅, h₅, h⟩ := bind_eq_ok.mp h
  have hf : f.kind = s.formulation.kind := by
    obtain ⟨_, _, rfl⟩ := onStore_eq_ok h₁
    obtain ⟨_, rfl⟩ := ok_eq_ok.mp h₂
    obtain ⟨_, _, rfl⟩ := onStore_eq_ok h₃
    obtain ⟨_, rfl⟩ := ok_eq_ok.mp h₄
    obtain ⟨rfl, _⟩ := ok_eq_ok.mp h₅
    rfl
  rw [hf, hk] at h
  refine ⟨affordable_of_zeros h₁, fun hb => ?rows, fun hb => ?multipliers⟩
  case rows =>
    simp only [Option.isNone_iff_eq_none.mp hb, Option.isSome_none, Bool.false_eq_true, if_false,
      allocateDerivatives] at h
    obtain ⟨_, _, h₁, h⟩ := bind_eq_ok.mp h
    obtain ⟨_, _, _, h⟩ := bind_eq_ok.mp h
    obtain ⟨_, _, h₂, _⟩ := bind_eq_ok.mp h
    rintro k (rfl | rfl)
    · exact affordable_of_zeros h₁
    · exact affordable_of_zeros h₂
  case multipliers =>
    simp only [hb, if_true, allocateDerivatives] at h
    obtain ⟨_, _, h₁, _⟩ := bind_eq_ok.mp h
    exact affordable_of_zeros h₁

theorem derive_of_finalize (h : finalize p s = (.ok true, t)) :
    ∃ core blocks u, derive p s = (.ok (core, blocks), u) ∧ core.Affordable blocks := by
  obtain ⟨m, u, _, hf⟩ | ⟨e, u, _, _, hf⟩ | ⟨core, blocks, u, hd, hf⟩ := finalize_cases p s
  case inl => cases (ok_eq_ok.mp (hf.symm.trans h)).left
  case inr.inl => exact (error_ne_ok (hf.symm.trans h)).elim
  case inr.inr =>
    obtain ⟨_, _, ha, _⟩ := bind_eq_ok.mp (hf.symm.trans h)
    obtain ⟨hk, _⟩ := derive_eq_ok hd
    have hu : u.formulation = s.formulation := by
      have hadds := (derive_adds p s).formulation
      rwa [hd] at hadds
    exact ⟨core, blocks, u, hd, affordable_of_allocate (hu ▸ hk) ha⟩

-- What is finalized once more, with the same sums over ranks, is as it was before.
theorem finalize_again (h : finalize p s = (.ok true, t)) (hc : c = s.formulation.communicator) :
    ∃ v d u, Core.survey p s.formulation.options c s = (.ok v, u) ∧ Finalizes p v d s t ∧
      ∀ s', s'.formulation.Alike s.formulation →
        c.Repeats (c.position s.reductions) (c.position s'.reductions)
          (c.position t.reductions - c.position s.reductions) →
        ∃ d' t', finalize p s' = (.ok true, t') ∧ Finalizes p v d' s' t' ∧
          d'.core.Alike d.core ∧ d'.derivatives.blocks? = d.derivatives.blocks? := by
  obtain ⟨v, d, u, _, w, hv, _, hd, _, hF, _⟩ := parts_of_finalize h
  obtain ⟨_, _, _, hd', ha⟩ := derive_of_finalize h
  cases hd.symm.trans hd'
  obtain ⟨_, ht, hred⟩ := finalize_of_derived hd ha
  cases h.symm.trans ht
  obtain ⟨k, hk, hr⟩ := derive_again hd hc
  refine ⟨v, d, u, hc ▸ hv, hF, fun s' hs' hrep => ?_⟩
  rw [hred, hk, Nat.add_sub_cancel_left] at hrep
  obtain ⟨v', _, u', core', w', hv₁, hv₂, hd', halike⟩ := hr s' hs' hrep
  cases (hc ▸ hv).symm.trans hv₁
  rw [← hs'.options, hc, ← hs'.communicator] at hv₂
  have ha' : core'.Affordable d.derivatives.blocks? := by
    obtain ⟨_, _, hb, _⟩ := derive_eq_ok hd'
    obtain ⟨v', _, hv', hB, _⟩ := Core.survey_of_build hb
    cases hv₂.symm.trans hv'
    have hdesc := hF.intact.describes
    refine ha.congr ?_ ?_ ?_
    · rw [hB.describes.userLayout, hdesc.userLayout]
    · rw [hB.describes.split, hdesc.split, hs'.options]
    · rw [hB.describes.constraintCount, hdesc.constraintCount]
  obtain ⟨t', ht', _⟩ := finalize_of_derived hd' ha'
  obtain ⟨_, d', _, _, _, hv', _, hd'', _, hF', _⟩ := parts_of_finalize ht'
  cases hv₂.symm.trans hv'
  obtain ⟨hcore, hblocks⟩ : core' = d'.core ∧ d.derivatives.blocks? = d'.derivatives.blocks? := by
    exact Prod.mk.inj (ok_eq_ok.mp (hd'.symm.trans hd'')).left
  exact ⟨d', t', ht', hF', hcore ▸ halike, hblocks.symm⟩

end Formulation
end NonlinearProgram
