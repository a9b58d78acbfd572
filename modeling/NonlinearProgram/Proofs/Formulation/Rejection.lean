import NonlinearProgram.Proofs.Formulation.Feasibility
import NonlinearProgram.Proofs.Formulation.Progress

namespace NonlinearProgram

open Program FormulationM

variable {α β γ : Type}

namespace FormulationM

-- The work gives a result with a property, or ends because the data of the problem are malformed.
def Settles (x : FormulationM α β) (s : Session α) (Q : β → Prop) : Prop :=
  (∃ b t, x s = (.ok b, t) ∧ Q b) ∨ ∃ t, Rejects x s t

namespace Settles

variable {x : FormulationM α β} {f : β → FormulationM α γ} {s t : Session α} {b : β}
  {P : β → Prop} {Q : γ → Prop}

theorem of_run (h : x s = (.ok b, t)) (hb : P b) : Settles x s P :=
  .inl ⟨b, t, h, hb⟩

theorem of_rejects (h : Rejects x s t) : Settles x s P :=
  .inr ⟨t, h⟩

theorem pure (hb : P b) : Settles (pure b) s P :=
  .of_run rfl hb

theorem of_decides {condition : Prop} (h : Decides condition b x) (s : Session α) :
    Settles x s fun b' => b' = b ∧ condition := by
  have ⟨t, _, h⟩ := h s
  rcases h with ⟨hc, h⟩ | ⟨_, h⟩
  case inl => exact .of_run h ⟨rfl, hc⟩
  case inr => exact .of_rejects h

theorem after (hx : x s = (.ok b, t)) (hf : Settles (f b) t Q) : Settles (x >>= f) s Q := by
  rcases hf with ⟨c, u, hf, hc⟩ | ⟨u, hf⟩
  case inl => exact .of_run ((bind_of_ok hx f).trans hf) hc
  case inr => exact .of_rejects (.after hx hf)

theorem bind (hx : Settles x s P)
    (hf : ∀ {b t}, x s = (.ok b, t) → P b → Settles (f b) t Q) : Settles (x >>= f) s Q := by
  rcases hx with ⟨b, t, hx, hb⟩ | ⟨t, hx⟩
  case inl => exact .after hx (hf hx hb)
  case inr => exact .of_rejects (hx.bind f)

-- Work that goes on as other work does.
theorem congr {y : FormulationM α β} (h : x s = y t) (hy : Settles y t P) : Settles x s P := by
  rcases hy with ⟨b, u, hy, hb⟩ | ⟨u, reason, hy⟩
  case inl => exact .of_run (h.trans hy) hb
  case inr => exact .of_rejects ⟨reason, h.trans hy⟩

theorem weaken {R : β → Prop} (h : Settles x s P) (hr : ∀ b, P b → R b) : Settles x s R := by
  rcases h with ⟨b, t, h, hb⟩ | ⟨t, h⟩
  case inl => exact .of_run h (hr b hb)
  case inr => exact .of_rejects h

theorem guard {c : Prop} [Decidable c] {m : Malformed α} {f : γ → FormulationM α β}
    (h : ¬c → Settles x s P) : Settles (if c then reject m >>= f else x) s P := by
  split
  case isTrue => exact .of_rejects (t := s) ⟨m, rfl⟩
  case isFalse hc => exact h hc

theorem guard_not {c : Prop} [Decidable c] {m : Malformed α} {f : γ → FormulationM α β}
    (h : c → Settles x s P) : Settles (if c then x else reject m >>= f) s P := by
  split
  case isTrue hc => exact h hc
  case isFalse => exact .of_rejects (t := s) ⟨m, rfl⟩

end Settles
end FormulationM

namespace RawValue

variable [Scalar α]

-- The first value that is no integer is infinite.
inductive Overflows : List (RawValue α) → Prop
  | here {x : α} {rest : List (RawValue α)} (hf : Scalar.isFinite x = false)
      (hu : Scalar.isUndefined x = false) : Overflows (.real x :: rest)
  | later {v : RawValue α} {n : Int} {rest : List (RawValue α)} (hv : v.toInteger = .ok n)
      (h : Overflows rest) : Overflows (v :: rest)

theorem toInteger_eq_integerRange {v : RawValue α} : v.toInteger = .error .integerRange ↔
    ∃ x, v = .real x ∧ Scalar.isFinite x = false ∧ Scalar.isUndefined x = false := by
  cases v
  case real x =>
    simp only [toInteger, toQuantity, Quantity.toInteger, bind, Except.bind, RawValue.real.injEq]
    cases hf : Scalar.isFinite x <;> cases hu : Scalar.isUndefined x <;> simp [hf, hu]
  case text t => cases h : Text.integer? t <;> simp [toInteger, h]
  all_goals simp [toInteger, toQuantity, Quantity.toInteger, bind, Except.bind]

theorem mapM_toInteger_eq_integerRange {items : List (RawValue α)} :
    items.mapM toInteger = .error .integerRange ↔ Overflows items := by
  induction items
  case nil =>
    constructor
    case mp => intro h; cases h
    case mpr => intro h; cases h
  case cons v rest hi =>
    rw [List.mapM_cons]
    cases hv : v.toInteger
    case error fault =>
      constructor
      case mp =>
        intro h
        cases h
        have ⟨x, hx, hf, hu⟩ := toInteger_eq_integerRange.mp hv
        exact hx ▸ .here hf hu
      case mpr =>
        intro h
        cases h
        case here hf hu =>
          rw [toInteger_eq_integerRange.mpr ⟨_, rfl, hf, hu⟩] at hv
          exact congrArg Except.error (Except.error.inj hv).symm
        case later hn _ =>
          rw [hn] at hv
          cases hv
    case ok n =>
      have hbind : (do let ns ← rest.mapM toInteger; Pure.pure (n :: ns) :
          Except ValueFault (List Int)) = .error .integerRange ↔
            rest.mapM toInteger = .error .integerRange := by
        cases rest.mapM toInteger <;> simp [Bind.bind, Except.bind, Pure.pure, Except.pure]
      refine Iff.trans hbind (hi.trans ⟨.later hv, fun h => ?_⟩)
      cases h
      case here hf hu =>
        rw [toInteger_eq_integerRange.mpr ⟨_, rfl, hf, hu⟩] at hv
        cases hv
      case later _ h => exact h

end RawValue

namespace Problem

variable [Scalar α]

-- The numbers of variables and of constraints that a problem gives.
def HasSizes (p : Problem α) (n m : Nat) : Prop :=
  ∃ given items, p.sizes = .ok given ∧ given.elements? = some items ∧
    (items.take 3).mapM RawValue.toInteger = .ok [(n : Int), (m : Int)]

def HasInfiniteSize (p : Problem α) : Prop :=
  ∃ given items, p.sizes = .ok given ∧ given.elements? = some items ∧
    RawValue.Overflows (items.take 3)

-- The boundaries that a problem gives for its variables on so many ranks.
def boundaries? (p : Problem α) (n : Int) (ranks : Nat) : Option (List Int) :=
  let blank := List.replicate (ranks + 1) 0
  match p.distribution n blank with
  | .ok reply => if reply.answer.isTrue then some (overlay reply.boundaries blank) else none
  | .error _ => none

-- The layout that a rank ought to get.
def layoutOn (p : Problem α) (n : Int) (rank : Int) (ranks : Nat) : Except LayoutError Layout :=
  match p.boundaries? n ranks with
  | some boundaries => Layout.ofBoundaries boundaries rank
  | none => Layout.serial n

-- No query raises a fault, boundaries are 64-bit integers, and block sizes are integers. Otherwise
-- the answers are any.
structure Responds (p : Problem α) : Prop where
  sizes : ∃ given, p.sizes = .ok given
  distribution : ∀ n blank, ∃ reply, p.distribution n blank = .ok reply ∧
    ∀ b ∈ reply.boundaries, isInt64 b
  variableBounds : ∀ n blank, ∃ reply, p.variableBounds n blank = .ok reply
  constraintBounds : ∀ m blank, ∃ reply, p.constraintBounds m blank = .ok reply
  blockSizes : ∃ sparse dense equalities inequalities hessian coupling : Int, p.blockSizes =
    .ok ⟨.integer sparse, .integer dense, .integer equalities, .integer inequalities,
      .integer hessian, .integer coupling⟩

-- There is memory for arrays of the sizes that a problem gives, unless they are negative.
structure Affordable (p : Problem α) (kind : FormulationKind) (rank : Int) (ranks : Nat) :
    Prop where
  boundaries : allocationFault? Tensor.scalarWidth [((ranks + 1 : Nat) : Int)] = none
  constraints : ∀ {n m}, p.HasSizes n m → allocationFault? Tensor.scalarWidth [(m : Int)] = none
  entries : ∀ {n m l}, p.HasSizes n m → p.layoutOn n rank ranks = .ok l → 0 ≤ l.localSize →
    allocationFault? Tensor.scalarWidth [l.localSize] = none
  rows : kind = .dense → ∀ {n m l k}, p.HasSizes n m → p.layoutOn n rank ranks = .ok l →
    0 ≤ l.localSize → k ≤ m → allocationFault? Tensor.scalarWidth [(k : Int), l.localSize] = none

end Problem

-- A communicator that says which rank of how many this is, and that gives sums.
structure Communicator.Serves [Scalar α] (c : Communicator α) (rank : Int) (ranks : Nat) :
    Prop where
  rank : c.rank = .integer rank
  size : c.size = .integer ranks
  total : ∀ k n, ∃ total, (c.sum k (.whole n)).bind Quantity.toInteger = .ok total

variable [Scalar α]

-- What no finalization rejects, although it fails on it: a size that is infinite, more variables
-- than 64 bits can count, and boundaries of which the differences wrap around.
inductive Problem.Overruns (p : Problem α) (c : Communicator α) (rank : Int) (ranks : Nat)
    (history : List (Reduction α)) : Failure α → Prop
  | infinite (h : p.HasInfiniteSize) : Overruns p c rank ranks history (.numeric .integerRange)
  | uncountable {n m : Nat} (hs : p.HasSizes n m) (hb : p.boundaries? n ranks = none)
      (hn : isInt64 n = false) : Overruns p c rank ranks history (.layout (.value .integerRange))
  | wrapped {n m : Nat} {boundaries : List Int} {l : Layout} (hs : p.HasSizes n m)
      (hb : p.boundaries? n ranks = some boundaries)
      (hl : Layout.ofBoundaries boundaries rank = .ok l) (hg : l.globalSize = n)
      (ht : (c.sum (c.position history) (.whole l.localSize)).bind Quantity.toInteger =
        .ok (n : Int))
      (hn : l.localSize < 0) : Overruns p c rank ranks history (.numeric .shapeMismatch)


namespace Core

variable {p : Problem α} {o : Options α} {c : Communicator α} {s t : Session α} {n m ranks : Nat}
  {rank : Int} {l : Layout} {e : Failure α}

theorem pairOf_settles {given : RawValue α}
    (h : ∀ items, given.elements? = some items → ¬RawValue.Overflows (items.take 3))
    (s : Session α) :
    Settles (pairOf given) s fun (n, m) => ∃ items, given.elements? = some items ∧
      (items.take 3).mapM RawValue.toInteger = .ok [n, m] := by
  have hreject : Rejects (reject (.sizes given) : FormulationM α (Int × Int)) s s := ⟨_, rfl⟩
  rw [pairOf]
  cases hg : given.elements?
  case none => exact .of_rejects hreject
  case some items =>
    dsimp only
    split
    case h_1 n m hi => exact .pure ⟨items, rfl, hi⟩
    case h_2 hi => exact (h items hg (RawValue.mapM_toInteger_eq_integerRange.mp hi)).elim
    all_goals exact .of_rejects hreject

theorem askSizes_run (h : p.HasSizes n m) (s : Session α) :
    askSizes p s = (.ok ((n : Int), (m : Int)), s.traced [.query .sizes]) := by
  have ⟨given, items, hg, hi, hp⟩ := h
  have hn : ¬((n : Int) < 0 ∨ (m : Int) < 0) := by omega
  rw [askSizes, bind_of_ok (ask_eq_ok.mpr ⟨hg, rfl⟩), bind_of_ok (pairOf_run hi hp _)]
  simp only [hn, if_false]
  rfl

theorem askSizes_of_infinite (h : p.HasInfiniteSize) (s : Session α) :
    askSizes p s = (.error (.numeric .integerRange), s.traced [.query .sizes]) := by
  have ⟨given, items, hg, hi, ho⟩ := h
  have hp : pairOf given (s.traced [.query .sizes]) =
      (.error (.numeric .integerRange), s.traced [.query .sizes]) := by
    simp only [pairOf, hi, RawValue.mapM_toInteger_eq_integerRange.mpr ho]
    rfl
  rw [askSizes, bind_of_ok (ask_eq_ok.mpr ⟨hg, rfl⟩), bind_of_error hp]

theorem askSizes_settles (hp : p.Responds) (hi : ¬p.HasInfiniteSize) (s : Session α) :
    Settles (askSizes p) s fun sizes => ∃ n m : Nat, sizes = (↑n, ↑m) ∧ p.HasSizes n m := by
  obtain ⟨given, hg⟩ := hp.sizes
  refine .after (ask_eq_ok.mpr ⟨hg, rfl⟩) ?_
  refine .bind (pairOf_settles (fun items h ho => hi ⟨given, items, hg, h, ho⟩) _) ?_
  intro (n, m) t _ ⟨items, hitems, hnm⟩
  refine .guard fun hneg => .pure ?_
  obtain ⟨n, rfl⟩ := Int.eq_ofNat_of_zero_le (show 0 ≤ n by omega)
  obtain ⟨m, rfl⟩ := Int.eq_ofNat_of_zero_le (show 0 ≤ m by omega)
  exact ⟨n, m, rfl, given, items, hg, hitems, hnm⟩

theorem overlay_isInt64 {boundaries : List Int} (h : ∀ b ∈ boundaries, isInt64 b) (count : Nat) :
    (overlay boundaries (List.replicate count 0)).any (!isInt64 ·) = false := by
  rw [List.any_eq_false]
  intro b hb
  rw [Bool.not_eq_true, Bool.not_eq_false']
  rcases List.mem_append.mp hb with hb | hb
  · exact h b (List.mem_of_mem_take hb)
  · rw [List.eq_of_mem_replicate (List.mem_of_mem_drop hb)]
    decide

-- A layout that is as the problem says, or that no rank has to give away a part of.
theorem acceptLayout_settles {boundaries : List Int} (hc : c.Serves rank ranks)
    (hb : boundaries.any (!isInt64 ·) = false) (n : Int) (s : Session α) :
    Settles (acceptLayout c n boundaries) s fun l =>
      Layout.ofBoundaries boundaries rank = .ok l ∧ l.globalSize = n ∧
        (c.sum (c.position s.reductions) (.whole l.localSize)).bind Quantity.toInteger =
          .ok n := by
  rw [acceptLayout, hc.rank, Layout.seenFrom_integer]
  cases hl : Layout.ofBoundaries boundaries rank
  case error e =>
    refine .of_rejects (t := s) (Rejects.bind ?_ _)
    cases e
    case value fault => exact (Layout.ofBoundaries_ne_value hb hl).elim
    all_goals exact ⟨_, rfl⟩
  case ok l =>
    obtain ⟨total, ht⟩ := hc.total (c.position s.reductions) l.localSize
    refine .after (ofExcept_eq_ok.mpr ⟨rfl, rfl⟩) (.guard fun hg => ?_)
    refine .after (sumOverRanks_eq_ok.mpr ⟨ht, rfl⟩) (.guard fun hn => .pure ?_)
    exact ⟨rfl, not_not.mp hg, not_not.mp hn ▸ ht⟩

theorem acceptLayout_run {boundaries : List Int} {n : Int} (hc : c.Serves rank ranks)
    (hl : Layout.ofBoundaries boundaries rank = .ok l) (hg : l.globalSize = n)
    (ht : (c.sum (c.position s.reductions) (.whole l.localSize)).bind Quantity.toInteger =
      .ok n) :
    acceptLayout c n boundaries s =
      (.ok l, s.traced [.reduction ⟨c.name, .whole l.localSize⟩]) := by
  rw [acceptLayout, hc.rank, Layout.seenFrom_integer, hl,
    bind_of_ok (ofExcept_eq_ok.mpr ⟨rfl, rfl⟩)]
  simp only [hg, ne_eq, not_true_eq_false, if_false]
  rw [bind_of_ok (sumOverRanks_eq_ok.mpr ⟨ht, rfl⟩)]
  simp

theorem askLayout_eq (hp : p.Responds) (hc : c.Serves rank ranks)
    (ha : allocationFault? Tensor.scalarWidth [((ranks + 1 : Nat) : Int)] = none) (n : Int)
    (s : Session α) :
    askLayout p n c s =
      (match p.boundaries? n ranks with
        | some boundaries => acceptLayout c n boundaries
        | none => ofExcept .layout (Layout.serial n))
      (s.traced [.query (.distribution n (List.replicate (ranks + 1) 0))]) := by
  have ⟨reply, hr, hv⟩ := hp.distribution n (List.replicate (ranks + 1) 0)
  have hcount : (c.size.plus (.integer 1) >>= RawValue.exactInteger) =
      .ok ((ranks + 1 : Nat) : Int) := by
    rw [hc.size]
    rfl
  rw [askLayout_of_reply hcount ha hr (overlay_isInt64 hv _)]
  simp only [Problem.boundaries?, hr]
  cases reply.answer.isTrue <;> rfl

-- A layout of which this rank has a slice is found, or the problem is rejected.
theorem askLayout_settles (hp : p.Responds) (hc : c.Serves rank ranks)
    (ha : allocationFault? Tensor.scalarWidth [((ranks + 1 : Nat) : Int)] = none)
    (hs : p.HasSizes n m) (ho : ∀ e, ¬p.Overruns c rank ranks s.reductions e) :
    Settles (askLayout p n c) s fun l => p.layoutOn n rank ranks = .ok l ∧ 0 ≤ l.localSize := by
  refine .congr (askLayout_eq hp hc ha n s) ?_
  rw [Problem.layoutOn]
  cases hb : p.boundaries? n ranks
  case some boundaries =>
    have ⟨reply, hr, hv⟩ := hp.distribution n (List.replicate (ranks + 1) 0)
    have hv : boundaries.any (!isInt64 ·) = false := by
      simp only [Problem.boundaries?, hr] at hb
      split at hb <;> cases hb
      exact overlay_isInt64 hv _
    refine (acceptLayout_settles hc hv n _).weaken fun l ⟨hl, hg, ht⟩ => ⟨hl, ?_⟩
    simp only [Session.reductions_traced, List.filterMap_cons, Call.reduction?_query,
      List.filterMap_nil, List.append_nil] at ht
    exact Int.not_lt.mp fun hneg => ho _ (.wrapped hs hb hl hg ht hneg)
  case none =>
    cases hn : isInt64 n
    case false => exact (ho _ (.uncountable hs hb hn)).elim
    case true =>
      have hl := Layout.serial_of_isInt64 (Int.natCast_nonneg n) hn
      refine .of_run (ofExcept_eq_ok.mpr ⟨hl, rfl⟩) ⟨hl, ?_⟩
      rw [Layout.localSize_whole]
      exact Int.natCast_nonneg n

-- What a rank knows after its survey, if the problem is not rejected by then.
structure Finds (p : Problem α) (o : Options α) (rank : Int) (ranks : Nat) (v : Survey α) :
    Prop where
  sizes : ∃ n : Nat, v.size = n ∧ p.HasSizes n v.constraintCount
  layout : p.layoutOn v.size rank ranks = .ok v.layout
  localSize : v.layout.localSize = (v.fixed o).length
  variables_fit : v.variableData.Fits (v.fixed o).length
  constraints_fit : v.constraintData.Fits v.constraintCount

theorem survey_settles {kind : FormulationKind} (hp : p.Responds) (hc : c.Serves rank ranks)
    (ha : p.Affordable kind rank ranks) (ho : ∀ e, ¬p.Overruns c rank ranks s.reductions e) :
    Settles (survey p o c) s (Finds p o rank ranks) := by
  have hi : ¬p.HasInfiniteSize := fun h => ho _ (.infinite h)
  refine .bind (askSizes_settles hp hi s) fun {_ t} hsizes ⟨n, m, he, hs⟩ => ?_
  subst he
  obtain ⟨_, _, ht⟩ := askSizes_eq_ok hsizes
  have ht : t.reductions = s.reductions := by simp [ht]
  dsimp only
  refine .bind (askLayout_settles hp hc ha.boundaries hs (ht ▸ ho)) fun {l _} _ ⟨hl, hnn⟩ => ?_
  obtain ⟨bounds, hb⟩ := hp.variableBounds n (undeclared l.localSize.toNat)
  obtain ⟨constraints, hcb⟩ := hp.constraintBounds m (undeclared m)
  refine (Settles.of_decides (surveyIn_decides (o := o) (ha.entries hs hl hnn) (ha.constraints hs)
    hb hcb) _).weaken fun v ⟨hv, hacc⟩ => ?_
  subst hv
  obtain ⟨hfit, hcfit, hlen⟩ := hacc.fits hnn n
  exact ⟨⟨n, rfl, hs⟩, hl, hlen, hfit, hcfit⟩

theorem exists_boundaries {n : Int} (h : p.layoutOn n rank ranks = .ok l) :
    ∃ boundaries r, Layout.ofBoundaries boundaries r = .ok l := by
  rw [Problem.layoutOn] at h
  split at h
  case h_1 boundaries _ => exact ⟨boundaries, rank, h⟩
  case h_2 =>
    rw [Layout.serial] at h
    split at h
    case isTrue => cases h
    case isFalse => exact ⟨_, _, h⟩

theorem sumCounts_run (hc : c.Serves rank ranks) (classes : BoundClasses α) (s : Session α) :
    ∃ counts t, sumCounts c classes s = (.ok counts, t) := by
  have hsum (n : Int) (s : Session α) : ∃ total t, sumOverRanks c n s = (.ok total, t) :=
    have ⟨total, ht⟩ := hc.total (c.position s.reductions) n
    ⟨total, _, sumOverRanks_eq_ok.mpr ⟨ht, rfl⟩⟩
  have ⟨lower, s₁, h₁⟩ := hsum classes.lowerCount s
  have ⟨upper, s₂, h₂⟩ := hsum classes.upperCount s₁
  have ⟨both, s₃, h₃⟩ := hsum classes.bothCount s₂
  refine ⟨⟨lower, upper, both⟩, s₃, ?_⟩
  rw [sumCounts, bind_of_ok h₁, bind_of_ok h₂, bind_of_ok h₃]
  rfl

-- Nothing that comes after a survey rejects the problem or fails.
theorem build_settles {kind : FormulationKind} (hp : p.Responds) (hc : c.Serves rank ranks)
    (ha : p.Affordable kind rank ranks) (ho : ∀ e, ¬p.Overruns c rank ranks s.reductions e)
    (ht : 0 < o.tolerance) (canRemove : Bool) :
    Settles (build p o c canRemove) s fun core =>
      ∃ v st, Finds p o rank ranks v ∧ core.Describes o v st := by
  rcases survey_settles (o := o) hp hc ha ho with ⟨v, t, hs, hv⟩ | ⟨t, hs⟩
  case inr =>
    rw [build]
    exact .of_rejects (hs.bind _)
  case inl =>
    obtain ⟨count, hcount⟩ := hc.total (c.position t.reductions) ((v.fixed o).count true)
    have hreduced (hpolicy : policyFor o.policy count v.layout.isDistributed canRemove = .remove)
        (hpos : 0 < count) : ∃ reduced, v.layout.reduced ((v.fixed o).map not) = .ok reduced := by
      obtain ⟨boundaries, r, hl⟩ := exists_boundaries hv.layout
      refine Layout.exists_reduced hl ?_ hv.localSize
      rw [Bool.eq_false_iff]
      intro hd
      rw [hd] at hpolicy
      exact policyFor_of_distributed hpos hpolicy
    obtain ⟨core, classes, u, _, hb, hcore⟩ :=
      build_of_survey hs hv.variables_fit hv.constraints_fit hv.localSize ht hreduced hcount
    obtain ⟨counts, w, hcounts⟩ := sumCounts_run hc classes u
    exact .congr hb (.after hcounts (.pure ⟨v, u.store, hv, (hcore counts).left⟩))

-- There is memory for the scratch arrays of a core that describes what was found.
theorem Describes.affordable {kind : FormulationKind} {core : Core α} {v : Survey α}
    {st : Store α} {blocks : Option (BlockSizes α)} (hd : core.Describes o v st)
    (hv : Finds p o rank ranks v) (ha : p.Affordable kind rank ranks)
    (hk : blocks.isNone → kind = .dense) : core.Affordable blocks := by
  have ⟨n, hn, hs⟩ := hv.sizes
  have hl := hn ▸ hv.layout
  have hnn : 0 ≤ v.layout.localSize := hv.localSize ▸ Int.natCast_nonneg _
  have hle := length_split_le hv.constraints_fit hd.split
  constructor
  case point => exact hd.userLayout ▸ ha.entries hs hl hnn
  case rows =>
    intro hb k hk'
    rw [hd.userLayout]
    apply ha.rows (hk hb) hs hl hnn
    exact hk'.elim (fun h => h ▸ hle.left) fun h => h ▸ hle.right
  case multipliers =>
    intro _
    rw [hd.constraintCount]
    exact ha.constraints hs

end Core

namespace Formulation

variable {p : Problem α} {s t : Session α} {ranks : Nat} {rank : Int} {e : Failure α}

theorem askBlockSizes_settles (hp : p.Responds) (core : Core α) (s : Session α) :
    Settles (askBlockSizes p core) s fun _ => True := by
  have ⟨sparse, dense, equalities, inequalities, hessian, coupling, hb⟩ := hp.blockSizes
  have hnegative (n : Int) (t : Session α) :
      isNegative (.integer n) t = (.ok (decide (n < 0)), t) := rfl
  have hgroups := RawValue.anyNegative_integers (α := α) sparse dense
  rw [askBlockSizes]
  refine .guard fun _ => .after (ask_eq_ok.mpr ⟨hb, rfl⟩) ?_
  refine .after (ofExcept_eq_ok.mpr ⟨hgroups, rfl⟩) (.guard fun _ => ?_)
  refine .after (b := .integer (sparse + dense)) (ofExcept_eq_ok.mpr ⟨rfl, rfl⟩)
    (.guard_not fun _ => ?_)
  refine .after (hnegative _ _) (.guard fun _ => ?_)
  refine .after (hnegative _ _) (.guard fun _ => ?_)
  refine .after (hnegative _ _) (.guard fun _ => ?_)
  exact .guard_not fun _ => .pure trivial

theorem derive_settles (hp : p.Responds) (hc : s.formulation.communicator.Serves rank ranks)
    (ha : p.Affordable s.formulation.kind rank ranks)
    (ho : ∀ e, ¬p.Overruns s.formulation.communicator rank ranks s.reductions e)
    (ht : 0 < s.formulation.options.tolerance) :
    Settles (derive p) s fun derived => derived.1.Affordable derived.2 := by
  refine .congr (derive_run p s) (.bind (Core.build_settles hp hc ha ho ht _) ?_)
  intro core t _ ⟨v, st, hv, hd⟩
  rw [askExtras.eq_def]
  cases hk : s.formulation.kind
  case dense => exact .pure (hd.affordable hv ha fun _ => hk)
  case mixed =>
    refine .bind (askBlockSizes_settles hp core t) fun {b _} _ _ => .pure ?_
    exact hd.affordable hv ha fun h => by cases h

-- A problem on which a finalization does not fail gets an answer.
theorem finalize_settles (hp : p.Responds) (hc : s.formulation.communicator.Serves rank ranks)
    (ha : p.Affordable s.formulation.kind rank ranks)
    (ho : ∀ e, ¬p.Overruns s.formulation.communicator rank ranks s.reductions e)
    (ht : 0 < s.formulation.options.tolerance) : ∃ answer t, finalize p s = (.ok answer, t) := by
  rcases derive_settles hp hc ha ho ht with ⟨⟨core, blocks⟩, t, hd, hcore⟩ | ⟨t, hd⟩
  case inl =>
    have ⟨u, hu, _⟩ := finalize_of_derived hd hcore
    exact ⟨true, u, hu⟩
  case inr =>
    have ⟨u, hu, _⟩ := finalize_of_rejects hd
    exact ⟨false, u, hu⟩

-- A failure of the survey that is no matter of malformed data ends the finalization.
theorem finalize_of_survey_error (h : Core.survey p s.formulation.options s.formulation.communicator
    s = (.error e, t)) (he : ∀ m, e ≠ .malformed m) : finalize p s = (.error e, t) := by
  have hd : derive p s = (.error e, t) := by
    rw [derive_run, Core.build]
    exact bind_of_error (bind_of_error h _) _
  rw [finalize, bind_of_ok (attempt_run hd)]
  cases e
  case malformed m => exact (he m rfl).elim
  all_goals rfl

theorem survey_of_overruns {o : Options α} {c : Communicator α} (hp : p.Responds)
    (hc : c.Serves rank ranks)
    (ha : allocationFault? Tensor.scalarWidth [((ranks + 1 : Nat) : Int)] = none)
    (h : p.Overruns c rank ranks s.reductions e) : ∃ t, Core.survey p o c s = (.error e, t) := by
  rw [Core.survey]
  cases h
  case infinite h => exact ⟨_, bind_of_error (Core.askSizes_of_infinite h s) _⟩
  case uncountable n m hs hb hn =>
    have hlayout : Core.askLayout p n c (s.traced [.query .sizes]) =
        (.error (.layout (.value .integerRange)), (s.traced [.query .sizes]).traced
          [.query (.distribution n (List.replicate (ranks + 1) 0))]) := by
      rw [Core.askLayout_eq hp hc ha, hb]
      dsimp only
      rw [ofExcept_run, Layout.serial_of_not_isInt64 (Int.natCast_nonneg n) hn]
      rfl
    exact ⟨_, (bind_of_ok (Core.askSizes_run hs s) _).trans (bind_of_error hlayout _)⟩
  case wrapped n m boundaries l hs hb hl hg ht hn =>
    have hlayout : ∃ t, Core.askLayout p n c (s.traced [.query .sizes]) = (.ok l, t) := by
      rw [Core.askLayout_eq hp hc ha, hb]
      exact ⟨_, Core.acceptLayout_run hc hl hg (by simpa [List.filterMap_cons] using ht)⟩
    obtain ⟨t, hlayout⟩ := hlayout
    have hlength : arrayLength l.localSize t = (.error (.numeric .shapeMismatch), t) := by
      simp only [arrayLength, allocationFault?, List.any_cons, hn, decide_true, Bool.true_or,
        if_true]
      rfl
    refine ⟨t, (bind_of_ok (Core.askSizes_run hs s) _).trans ?_⟩
    exact (bind_of_ok hlayout _).trans (bind_of_error hlength _)

-- A finalization fails on what overruns its integers and its arrays, and on nothing else. Where it
-- rejects the problem, it says so once, and the formulation is not finalized.
theorem finalize_settles_iff (hp : p.Responds)
    (hc : s.formulation.communicator.Serves rank ranks)
    (ha : p.Affordable s.formulation.kind rank ranks) (ht : 0 < s.formulation.options.tolerance) :
    ((∃ answer t, finalize p s = (.ok answer, t)) ↔
      ∀ e, ¬p.Overruns s.formulation.communicator rank ranks s.reductions e) ∧
    (∀ e t, finalize p s = (.error e, t) →
      p.Overruns s.formulation.communicator rank ranks s.reductions e) ∧
    ∀ t, finalize p s = (.ok false, t) → t.formulation.core = none ∧
      ∃ m quiet, t.events = s.events ++ quiet ++ [.rejected m] ∧
        ∀ e ∈ quiet, e.level < Log.error := by
  have hfails {e : Failure α}
      (h : p.Overruns s.formulation.communicator rank ranks s.reductions e) :
      ∃ t, finalize p s = (.error e, t) := by
    have ⟨t, hs⟩ := survey_of_overruns (o := s.formulation.options) hp hc ha.boundaries h
    exact ⟨t, finalize_of_survey_error hs fun m hm => by cases h <;> cases hm⟩
  refine ⟨⟨?_, fun ho => finalize_settles hp hc ha ho ht⟩, ?_, ?_⟩
  case refine_1 =>
    intro ⟨answer, t, h⟩ e ho
    have ⟨u, hu⟩ := hfails ho
    exact error_ne_ok (hu.symm.trans h)
  case refine_2 =>
    intro e t h
    by_cases ho : ∃ e', p.Overruns s.formulation.communicator rank ranks s.reductions e'
    case pos =>
      have ⟨e', ho⟩ := ho
      have ⟨u, hu⟩ := hfails ho
      cases hu.symm.trans h
      exact ho
    case neg =>
      have ⟨_, _, ha⟩ := finalize_settles hp hc ha (fun e' h' => ho ⟨e', h'⟩) ht
      exact (error_ne_ok (h.symm.trans ha)).elim
  case refine_3 =>
    intro t h
    have ⟨m, u, hd, ht⟩ := finalize_eq_false h
    have ⟨quiet, he, hq⟩ := (derive_adds p s).events
    rw [hd] at he
    exact ⟨by rw [ht], m, quiet, by rw [ht, he], hq⟩

-- Of two variables, the bounds of the first are equal, and those of the second cross.
def crossedWith (sizes : List (RawValue Exact)) : Problem Exact :=
  { Problem.ofFunctions 2 0 (fun _ => 0) fun _ _ => 0 with
    sizes := .ok (.tuple sizes)
    variableBounds := fun _ _ =>
      .ok {
        lower := [.finite 1, .finite 3]
        upper := [.finite 1, .finite 2]
        answer := .flag true } }

theorem crossedWith_responds (sizes : List (RawValue Exact)) : (crossedWith sizes).Responds where
  sizes := ⟨_, rfl⟩
  distribution := fun _ _ => ⟨_, rfl, by simp⟩
  variableBounds := fun _ _ => ⟨_, rfl⟩
  constraintBounds := fun _ _ => ⟨_, rfl⟩
  blockSizes := ⟨0, 2, 0, 0, 0, 0, rfl⟩

theorem crossedWith_sizes {n m : Nat}
    (h : (crossedWith [.integer 2, .integer 0]).HasSizes n m) : n = 2 ∧ m = 0 := by
  have ⟨_, _, hg, hi, hp⟩ := h
  cases hg
  cases hi
  have hp : ([2, 0] : List Int) = [(n : Int), (m : Int)] := Except.ok.inj hp
  simp only [List.cons.injEq, and_true] at hp
  omega

theorem crossedWith_affordable : (crossedWith [.integer 2, .integer 0]).Affordable .dense 0 1 := by
  have hlayout {l : Layout}
      (h : (crossedWith [.integer 2, .integer 0]).layoutOn (2 : Nat) 0 1 = .ok l) :
      l.localSize = 2 := by
    rw [Layout.serial_eq_ok h]
    rfl
  constructor
  case boundaries => decide
  case constraints =>
    intro n m h
    rw [(crossedWith_sizes h).right]
    decide
  case entries =>
    intro n m l h hl _
    rw [(crossedWith_sizes h).left] at hl
    rw [hlayout hl]
    decide
  case rows =>
    intro _ n m l k h hl _ hk
    rw [(crossedWith_sizes h).left] at hl
    have hk : k = 0 := Nat.le_zero.mp ((crossedWith_sizes h).right ▸ hk)
    rw [hlayout hl, hk]
    decide

theorem sampleStart_serves : sampleStart.formulation.communicator.Serves 0 1 where
  rank := rfl
  size := rfl
  total := fun _ n => ⟨n, rfl⟩

-- Crossed bounds are malformed data.
theorem finalize_settles_iff_crossed : ∃ t m quiet,
    finalize (crossedWith [.integer 2, .integer 0]) sampleStart = (.ok false, t) ∧
    t.formulation.core = none ∧ t.events = quiet ++ [.rejected m] ∧
    ∀ e ∈ quiet, e.level < Log.error := by
  have ⟨hsettles, _, hfalse⟩ := finalize_settles_iff (crossedWith_responds [.integer 2, .integer 0])
    sampleStart_serves crossedWith_affordable (by decide +kernel)
  have ⟨answer, t, h⟩ := hsettles.mpr fun e ho => by
    cases ho
    case infinite h =>
      have ⟨_, _, hg, hi, ho⟩ := h
      cases hg
      cases hi
      cases ho with | later _ ho => cases ho with | later _ ho => cases ho
    case uncountable hs _ hn =>
      rw [(crossedWith_sizes hs).left] at hn
      cases hn
    case wrapped hb _ _ _ _ => cases hb
  cases answer
  case false =>
    have ⟨hnone, m, quiet, he, hq⟩ := hfalse t h
    exact ⟨t, m, quiet, h, hnone, he, hq⟩
  case true =>
    have hs : succeeds (crossedWith [.integer 2, .integer 0]) sampleStart = false := by
      decide +kernel
    rw [succeeds, h] at hs
    cases hs

-- An infinite number of variables is none of the data that are rejected.
theorem infinite_size_fails : (crossedWith [.real .infinity, .integer 0]).Responds ∧
    ∃ t, finalize (crossedWith [.real .infinity, .integer 0]) sampleStart =
      (.error (.numeric .integerRange), t) :=
  ⟨crossedWith_responds _, _, rfl⟩

end Formulation
end NonlinearProgram
