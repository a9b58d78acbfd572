import NonlinearProgram.Proofs.Formulation.Contract
import NonlinearProgram.Proofs.Formulation.Independence
import NonlinearProgram.Proofs.Matrix

-- A matrix in blocks is taken for its kind, its rows and the columns of its blocks. How many
-- triplets it has is not looked at.

namespace NonlinearProgram

open Program FormulationM

variable {α β γ : Type}

namespace AnyMatrix

def tripletCount : AnyMatrix α → Nat
  | .dense _ => 0
  | .mixed a => a.sparse.count
  | .sym a => a.sparse.count

variable [Scalar α]

-- Two matrices in blocks that differ in their triplets and entries only.
def sameBlocks : AnyMatrix α → AnyMatrix α → Bool
  | .mixed a, .mixed b => a.rows = b.rows &&
    a.sparse.columnsGiven.isSame b.sparse.columnsGiven && a.denseColumns = b.denseColumns
  | .sym a, .sym b =>
    a.sparse.columnsGiven.isSame b.sparse.columnsGiven && a.denseSize = b.denseSize
  | _, _ => false

def SameShape (a b : AnyMatrix α) : Prop := a.sameBlocks b ∧ a.tripletCount = b.tripletCount

end AnyMatrix

def Evaluation.tripletCount? : Evaluation α → Option Nat
  | .blockJacobian _ _ _ blocks | .hessian _ _ _ _ _ blocks => some blocks.triplets.length
  | _ => none

def Call.tripletCount? : Call α → Option Nat
  | .evaluation e => e.tripletCount?
  | _ => none

namespace FormulationM

variable {x : FormulationM α β} {f : β → FormulationM α γ} {s : Session α}

-- The work ends in a breach of contract; nothing was delivered and no matrix was changed.
def Refuses (x : FormulationM α β) (s : Session α) : Prop :=
  ∃ b t, x s = (.error (.breach b), t) ∧ t.deliveries = s.deliveries ∧ t.matrices = s.matrices

-- The work ends in a breach of contract before it changes anything at all.
def Declines (x : FormulationM α β) (s : Session α) : Prop := ∃ b, x s = (.error (.breach b), s)

theorem Refuses.breached (h : Refuses x s) : Breached x s := by
  obtain ⟨b, t, hx, ht, _⟩ := h
  exact ⟨b, t, hx, ht⟩

namespace Declines

theorem refuses (h : Declines x s) : Refuses x s := by
  obtain ⟨b, hx⟩ := h
  exact ⟨b, s, hx, rfl, rfl⟩

theorem of_throw (b : Breach) (s : Session α) : Declines (throw (.breach b) : FormulationM α β) s :=
  ⟨b, rfl⟩

theorem bind (h : Declines x s) (f : β → FormulationM α γ) : Declines (x >>= f) s := by
  obtain ⟨b, hx⟩ := h
  exact ⟨b, bind_of_error hx f⟩

theorem after {b : β} (hx : x s = (.ok b, s)) (h : Declines (f b) s) : Declines (x >>= f) s := by
  obtain ⟨reason, hf⟩ := h
  exact ⟨reason, (bind_of_ok hx f).trans hf⟩

end Declines
end FormulationM

def BlockSizes.jacobianCount (b : BlockSizes α) : ConstraintGroup → RawValue α
  | .equalities => b.equalityCount
  | .inequalities => b.inequalityCount

-- The evaluations that fill a matrix in blocks.
inductive BlockEvaluation (α : Type) where
  | jacobian (group : ConstraintGroup) (x : Argument α) (isNew : RawValue α)
  | hessian (x : Argument α) (isNew : RawValue α) (factor : α) (y : Argument α)
      (isNewY : RawValue α)

namespace BlockEvaluation

variable [Scalar α]

def run (p : Problem α) (out : Argument α) : BlockEvaluation α → FormulationM α Bool
  | .jacobian group x isNew => Formulation.jacobian p group x isNew out
  | .hessian x isNew factor y isNewY => Formulation.hessian p x isNew factor y isNewY out

-- A matrix as it is meant to be handed over.
def newMatrix : BlockEvaluation α → FormulationM α (AnyMatrix α)
  | .jacobian group _ _ => Formulation.newJacobian group
  | .hessian _ _ _ _ _ => Formulation.newHessian

def declaredCount (b : BlockSizes α) : BlockEvaluation α → RawValue α
  | .jacobian group _ _ => b.jacobianCount group
  | .hessian _ _ _ _ _ => b.hessianCount

-- The vectors that are handed over have the right sizes.
def Fits (d : Finalized α) (s : Store α) : BlockEvaluation α → Prop
  | .jacobian _ x _ => ∃ w xs, d.Lent s x w xs ∧ (xs.length : Int) = d.core.localSize
  | .hessian x _ _ y _ => (∃ w xs, d.Lent s x w xs ∧ (xs.length : Int) = d.core.localSize) ∧
    ∃ w ys, d.Lent s y w ys ∧ ys.length = d.core.constraintCount

-- What is looked at of a matrix before anything else is done.
def takes (d : Finalized α) (s : Session α) (out : Argument α) : BlockEvaluation α → Bool
  | .jacobian group _ _ =>
    match s.matrix? out, d.derivatives with
    | some (.mixed a), .mixed blocks _ => a.rows = (d.core.indices group).length &&
      a.sparse.columnsGiven.isSame blocks.sparse && blocks.dense.isNumber a.denseColumns
    | _, _ => false
  | .hessian _ _ _ _ _ => Formulation.takesHessian d s out

end BlockEvaluation

namespace Formulation

variable [Scalar α] {p : Problem α} {s t u : Session α} {d : Finalized α} {o : Options α}
  {v : Core.Survey α} {x out : Argument α} {w : View} {xs : List α} {blocks : BlockSizes α}
  {scratch : View} {a declared : AnyMatrix α}

omit [Scalar α] in
theorem kind_of_mixed (hd : s.formulation.finalized = some d)
    (hb : d.derivatives = .mixed blocks scratch) : s.formulation.kind = .mixed := by
  rw [← kind_of_finalized hd, hb]
  rfl

theorem newJacobian_returns {group : ConstraintGroup} (hd : s.formulation.finalized = some d)
    (hb : d.derivatives = .mixed blocks scratch) : (newJacobian group s).1 = .ok a ↔
      ∃ m, MixedMatrix.create (.integer (d.core.indices group).length) blocks.sparse blocks.dense
        (blocks.jacobianCount group) = .ok m ∧ a = .mixed m := by
  rw [newJacobian, bind_of_ok (getFormulation_run s)]
  simp only [kind_of_mixed hd hb]
  rw [bind_of_ok (blockSizes_run hd hb), bind_of_ok (getCore_run hd)]
  cases group
  all_goals
    simp only [bind_run, ofExcept_run, BlockSizes.jacobianCount]
    cases MixedMatrix.create (α := α) _ _ _ _ <;> simp [Except.mapError, eq_comm]

theorem newHessian_returns (hd : s.formulation.finalized = some d)
    (hb : d.derivatives = .mixed blocks scratch) : (newHessian s).1 = .ok a ↔
      ∃ m, SymBlockMatrix.create blocks.sparse blocks.dense blocks.hessianCount = .ok m ∧
        a = .sym m := by
  rw [newHessian, bind_of_ok (getFormulation_run s), if_neg (by simp [kind_of_mixed hd hb])]
  dsimp only
  rw [bind_of_ok (blockSizes_run hd hb)]
  simp only [bind_run, ofExcept_run]
  cases SymBlockMatrix.create (α := α) _ _ _ <;> simp [Except.mapError, eq_comm]

-- New matrices have what was declared.
theorem newJacobian_eq_ok {group : ConstraintGroup} (hd : s.formulation.finalized = some d)
    (hb : d.derivatives = .mixed blocks scratch) (h : newJacobian group s = (.ok a, t)) :
    ∃ m, a = .mixed m ∧ m.rows = (d.core.indices group).length ∧
      m.sparse.columnsGiven = blocks.sparse ∧ blocks.dense = .integer m.denseColumns ∧
      blocks.jacobianCount group = .integer m.sparse.count := by
  obtain ⟨m, hm, rfl⟩ := (newJacobian_returns hd hb).mp (congrArg Prod.fst h)
  obtain ⟨_, _, n, k, hdense, hcount, _, _, rfl⟩ := MixedMatrix.create_eq_ok.mp hm
  refine ⟨_, rfl, rfl, rfl, hdense, ?_⟩
  rw [MixedMatrix.blank, CoordinateBlock.count_blank, hcount]

theorem newHessian_eq_ok (hd : s.formulation.finalized = some d)
    (hb : d.derivatives = .mixed blocks scratch) (h : newHessian s = (.ok a, t)) :
    ∃ m, a = .sym m ∧ m.sparse.columnsGiven = blocks.sparse ∧
      blocks.dense = .integer m.denseSize ∧ blocks.hessianCount = .integer m.sparse.count := by
  obtain ⟨m, hm, rfl⟩ := (newHessian_returns hd hb).mp (congrArg Prod.fst h)
  obtain ⟨_, _, n, k, hdense, hcount, _, _, rfl⟩ := SymBlockMatrix.create_eq_ok.mp hm
  refine ⟨_, rfl, rfl, hdense, ?_⟩
  rw [SymBlockMatrix.blank, CoordinateBlock.count_blank, hcount]

-- Where the matrix is not taken, nothing is done.
theorem jacobian_declines {group : ConstraintGroup} {isNew : RawValue α}
    (hd : s.formulation.finalized = some d) (hb : d.derivatives = .mixed blocks scratch)
    (h : (BlockEvaluation.jacobian group x isNew).takes d s out = false) :
    Declines (jacobian p group x isNew out) s := by
  have hk := kind_of_mixed hd hb
  rw [jacobian]
  refine .after (getFormulation_run s) ?_
  simp only [hk]
  rw [blockJacobian]
  refine .after (getCore_run hd) (.after (get_run s) ?_)
  split
  case h_1 k a hm =>
    rw [BlockEvaluation.takes] at h
    simp only [hm, hb] at h
    refine .after (blockSizes_run hd hb) ?_
    simp only [h, Bool.false_eq_true, if_false]
    exact (Declines.of_throw _ s).bind _
  case h_2 => exact .of_throw _ s

theorem hessian_declines {y : Argument α} {isNew isNewY : RawValue α} {factor : α}
    (hd : s.formulation.finalized = some d) (hb : d.derivatives = .mixed blocks scratch)
    (h : takesHessian d s out = false) :
    Declines (hessian p x isNew factor y isNewY out) s := by
  have hk := kind_of_mixed hd hb
  rw [hessian]
  refine .after (getFormulation_run s) ?_
  rw [if_neg (by simp [hk])]
  refine .after (get_run s) ?_
  split
  case h_1 k a hm =>
    simp only [takesHessian, hm, hb] at h
    refine .after (blockSizes_run hd hb) ?_
    simp only [h, Bool.false_eq_true, if_false]
    exact (Declines.of_throw _ s).bind _
  case h_2 => exact .of_throw _ s

-- The problem is handed the triplets of the matrix that was taken, as many as there are.
theorem blockJacobian_trace {group : ConstraintGroup} {k : Nat} {m : MixedMatrix α}
    (h : Ready p d o v s) (hb : d.derivatives = .mixed blocks scratch)
    (hm : s.matrices[k]? = some (.mixed m))
    (hf : m.rows = (d.core.indices group).length && m.sparse.columnsGiven.isSame blocks.sparse &&
      blocks.dense.isNumber m.denseColumns)
    (hx : d.Lent s.store x w xs) (hl : (xs.length : Int) = d.core.localSize)
    (isNew : RawValue α) :
    ∃ point, (jacobian p group x isNew (.matrix k) s).2.trace = s.trace ++
      [.evaluation (.blockJacobian ⟨d.core.userSize, point, isNew⟩ d.core.constraintCount
        (d.core.indices group)
        ⟨m.sparse.columnsGiven, m.denseColumns, m.sparse.triplets, m.dense⟩)] := by
  have hk := kind_of_mixed h.finalized hb
  obtain ⟨w, u, hp, hu, _⟩ := pointToUser_run h hx (h.length_eq hl)
  have hfu : u.formulation.finalized = some d := by rw [hu]; exact h.finalized
  have htu : u.trace = s.trace := by rw [hu]
  refine ⟨u.store.read w, ?_⟩
  rw [jacobian, bind_of_ok (getFormulation_run s)]
  simp only [hk]
  rw [blockJacobian, bind_of_ok (getCore_run h.finalized)]
  dsimp only
  rw [bind_of_ok (get_run s)]
  simp only [Session.matrix?, hm]
  rw [bind_of_ok (blockSizes_run h.finalized hb)]
  simp only [hf, if_true]
  rw [timed_trace, bind_of_ok hp, bind_of_ok (pointAt_run hfu w isNew), SameTrace.of_bind,
    invoke_trace, htu]
  rintro ⟨r, w⟩
  refine Keeps.bind SameTrace.trans (fun _ => rfl) fun _ => ?_
  exact Keeps.bind SameTrace.trans (judge_keeps _ r) fun _ _ => rfl

variable {e : BlockEvaluation α}

theorem declines_of_not_taken (hd : s.formulation.finalized = some d)
    (hb : d.derivatives = .mixed blocks scratch) (h : e.takes d s out = false) :
    Declines (e.run p out) s := by
  cases e
  case jacobian => exact jacobian_declines hd hb h
  case hessian => exact hessian_declines hd hb h

-- A matrix that is taken is handed to the problem with all of its triplets.
theorem trace_of_taken (h : Ready p d o v s) (hb : d.derivatives = .mixed blocks scratch)
    (ha : s.matrix? out = some a) (ht : e.takes d s out) (he : e.Fits d s.store) :
    ∃ x, (e.run p out s).2.trace = s.trace ++ [.evaluation x] ∧
      x.tripletCount? = some a.tripletCount := by
  cases e
  case jacobian group x isNew =>
    obtain ⟨w, xs, hx, hl⟩ := he
    cases out <;> try cases ha
    case matrix k =>
      rw [BlockEvaluation.takes, ha, hb] at ht
      cases a
      case mixed m =>
        obtain ⟨point, htrace⟩ := blockJacobian_trace h hb ha ht hx hl isNew
        exact ⟨_, htrace, rfl⟩
      all_goals cases ht
  case hessian x isNew factor y isNewY =>
    obtain ⟨⟨w, xs, hx, hl⟩, wy, ys, hy, hm⟩ := he
    obtain ⟨k, m, blocks', scratch', rfl, hk, hb', hfit⟩ := takesHessian_eq_true ht
    cases hb.symm.trans hb'
    cases ha.symm.trans hk
    have hlen : d.core.equalityCount + d.core.inequalityCount = ys.length :=
      h.parts.length.trans hm.symm
    have hys := (List.take_append_drop d.core.equalityCount ys).symm
    obtain ⟨point, contents, htrace, _, htriplets⟩ := hessian_trace h
      (kind_of_mixed h.finalized hb) hb hk hfit hx (h.length_eq hl) (hys ▸ hy)
      (List.length_take_of_le (by omega)) (by rw [List.length_drop]; omega) isNew isNewY factor
    exact ⟨_, htrace, congrArg (fun ts => some (List.length ts)) htriplets⟩

theorem isNumber_iff {m n : Int} :
    (RawValue.integer m : RawValue α).isNumber n ↔ m = n := by
  simp [RawValue.isNumber, RawValue.isSame, RawValue.toQuantity, Quantity.isEqual]

theorem declaredCount_eq (hd : s.formulation.finalized = some d)
    (hb : d.derivatives = .mixed blocks scratch) (hnew : e.newMatrix s = (.ok declared, t)) :
    e.declaredCount blocks = .integer declared.tripletCount := by
  cases e
  case jacobian =>
    obtain ⟨m, rfl, _, _, _, hcount⟩ := newJacobian_eq_ok hd hb hnew
    exact hcount
  case hessian =>
    obtain ⟨m, rfl, _, _, hcount⟩ := newHessian_eq_ok hd hb hnew
    exact hcount

-- What is looked at is what a new matrix has, but for the number of triplets.
theorem takes_iff (hd : s.formulation.finalized = some d)
    (hb : d.derivatives = .mixed blocks scratch) (hnew : e.newMatrix s = (.ok declared, t)) :
    e.takes d u out ↔ ∃ a, u.matrix? out = some a ∧ a.sameBlocks declared := by
  cases e
  case jacobian group x isNew =>
    obtain ⟨m, rfl, hrows, hcolumns, hdense, _⟩ := newJacobian_eq_ok hd hb hnew
    rw [BlockEvaluation.takes, hb]
    cases u.matrix? out
    case none => simp
    case some a =>
      cases a <;> simp [AnyMatrix.sameBlocks, hrows, hcolumns, hdense, isNumber_iff, and_assoc,
        eq_comm (a := m.denseColumns)]
  case hessian x isNew factor y isNewY =>
    obtain ⟨m, rfl, hcolumns, hdense, _⟩ := newHessian_eq_ok hd hb hnew
    rw [BlockEvaluation.takes, takesHessian, hb]
    cases u.matrix? out
    case none => simp
    case some a =>
      cases a <;> simp [AnyMatrix.sameBlocks, hcolumns, hdense, isNumber_iff,
        eq_comm (a := m.denseSize)]

-- What an evaluation looks at before it is handed a matrix for a block structure: where the kind,
-- the rows or the columns are others than those of a new matrix, nothing is done; otherwise the
-- problem is handed the matrix, whether or not it has as many triplets as were declared.
theorem block_shapes_checked_iff {w : Session α} (hf : finalize p s = (.ok true, t))
    (hd : t.formulation.finalized = some d) (hb : d.derivatives = .mixed blocks scratch)
    (hw : Relation.ReflTransGen (Used d) t w) (hnew : (e.newMatrix w).1 = .ok declared)
    (hu : Relation.ReflTransGen (Used d) t u) (out : Argument α) :
    e.declaredCount blocks = .integer declared.tripletCount ∧
      ((∀ a, u.matrix? out = some a → a.sameBlocks declared = false) → Declines (e.run p out) u) ∧
      ∀ a, u.matrix? out = some a → e.Fits d u.store →
        ((¬a.SameShape declared → Refuses (e.run p out) u) ↔
          (a.sameBlocks declared → a.tripletCount = declared.tripletCount)) ∧
        (a.sameBlocks declared → ∃ x, (e.run p out u).2.trace = u.trace ++ [.evaluation x] ∧
          x.tripletCount? = some a.tripletCount) := by
  have ⟨v, hF⟩ := finalizes_of_finalized hf hd
  have hr := hF.ready.undisturbed (hF.ready.history hu)
  have hdw := (hF.ready.undisturbed (hF.ready.history hw)).finalized
  have hrun : e.newMatrix w = (.ok declared, (e.newMatrix w).2) := Prod.ext hnew rfl
  have htakes : ∀ {a}, u.matrix? out = some a → (e.takes d u out ↔ a.sameBlocks declared) := by
    intro a ha
    rw [takes_iff hdw hb hrun, ha]
    simp
  have hdeclines : (∀ a, u.matrix? out = some a → a.sameBlocks declared = false) →
      Declines (e.run p out) u := by
    intro h
    refine declines_of_not_taken hr.finalized hb (Bool.not_eq_true _ ▸ fun ht => ?_)
    have ⟨a, ha, hs⟩ := (takes_iff hdw hb hrun).mp ht
    exact absurd hs (by simp [h a ha])
  have hdelivers : ∀ {a}, u.matrix? out = some a → e.Fits d u.store → a.sameBlocks declared →
      ∃ x, (e.run p out u).2.trace = u.trace ++ [.evaluation x] ∧
        x.tripletCount? = some a.tripletCount :=
    fun ha he hs => trace_of_taken hr hb ha ((htakes ha).mpr hs) he
  refine ⟨?_, hdeclines, fun a ha he => ⟨?_, hdelivers ha he⟩⟩
  case refine_1 => exact declaredCount_eq hdw hb hrun
  case refine_2 =>
    constructor
    case mp =>
      intro h hs
      by_contra hcount
      have ⟨x, htrace, _⟩ := hdelivers ha he hs
      exact (Delivers.of_trace rfl htrace).not_breached (h fun hsame => hcount hsame.right).breached
    case mpr =>
      intro h hne
      refine (hdeclines fun a' ha' => ?_).refuses
      cases ha.symm.trans ha'
      exact Bool.eq_false_iff.mpr fun hs => hne ⟨hs, h hs⟩

-- An equality with two triplets, and an inequality with one.
def unevenSample : Problem Exact :=
  { Problem.ofFunctions 2 2 (fun _ => 0) mixedConstraints with
    constraintBounds := fun _ _ => .ok {
      lower := [.finite 4, .finite 0]
      upper := [.finite 4, .finite 9]
      answer := .flag true }
    blockSizes := .ok ⟨.integer 1, .integer 1, .integer 2, .integer 1, .integer 0, .integer 0⟩ }

-- A session with a matrix for the equality, and one for a Hessian.
def unevenStart : Session Exact :=
  { mixedStart with matrices := [.mixed ⟨⟨1, 1, [⟨0, 0, 0⟩, ⟨0, 0, 0⟩], .integer 1⟩, 1, [[0]]⟩,
      .sym ⟨⟨1, 1, [], .integer 1⟩, 1, [[0]]⟩] }

theorem block_shapes_checked_iff_uneven : ∃ t u declared wx x,
    finalize unevenSample unevenStart = (.ok true, t) ∧
    (newJacobian .equalities t).1 = .ok declared ∧ declared.tripletCount = 2 ∧
    (jacobian unevenSample .equalities (.array wx) .null (.matrix 0) u).2.trace =
      u.trace ++ [.evaluation x] ∧ x.tripletCount? = some 2 ∧
    Declines (jacobian unevenSample .equalities (.array wx) .null (.matrix 1)) u := by
  have hf := finalize_of_succeeds (p := unevenSample) (s := unevenStart) (by decide +kernel)
  have hkind : (finalize unevenSample unevenStart).2.formulation.kind = .mixed := by
    decide +kernel
  have hsize : ((finalize unevenSample unevenStart).2.formulation.finalized.map fun d =>
      d.core.localSize) = some 2 := by decide +kernel
  have hnew : ((newJacobian .equalities (finalize unevenSample unevenStart).2).1.toOption.map
      AnyMatrix.tripletCount) = some 2 := by decide +kernel
  have hfirst : ((finalize unevenSample unevenStart).2.matrix? (.matrix 0)).any (fun a =>
      a.tripletCount == 2 && (newJacobian .equalities
        (finalize unevenSample unevenStart).2).1.toOption.all a.sameBlocks) := by decide +kernel
  have hlast : ((finalize unevenSample unevenStart).2.matrix? (.matrix 1)).all (fun a =>
      (newJacobian .equalities
        (finalize unevenSample unevenStart).2).1.toOption.all (!a.sameBlocks ·)) := by
    decide +kernel
  generalize (finalize unevenSample unevenStart).2 = t at hf hkind hsize hnew hfirst hlast
  obtain ⟨v, d, hF⟩ := finalize_eq_true hf
  have hd := hF.finalized
  rw [hd, Option.map_some, Option.some.injEq] at hsize
  obtain ⟨blocks, scratch, hb⟩ : ∃ blocks scratch, d.derivatives = .mixed blocks scratch := by
    have hk := (kind_of_finalized hd).trans hkind
    cases hder : d.derivatives
    case dense => simp [hder, Derivatives.kind] at hk
    case mixed blocks scratch => exact ⟨blocks, scratch, rfl⟩
  obtain ⟨wx, u, _, hx, hu, hw, _⟩ := lend_run hF.ready [.finite 1, .finite 3]
  have hused : Relation.ReflTransGen (Used d) t u :=
    .single (.elsewhere (by rw [hu]) (hw.mono fun _ => False.elim))
  have hmatrix (out : Argument Exact) : u.matrix? out = t.matrix? out := by rw [hu]; rfl
  cases hres : (newJacobian .equalities t).1
  case error => simp [hres, Except.toOption] at hnew
  case ok declared =>
    simp only [hres, Except.toOption, Option.map_some, Option.some.injEq, Option.all_some,
      Option.any_eq_true, Option.all_eq_true, Bool.and_eq_true, beq_iff_eq,
      Bool.not_eq_true'] at hnew hfirst hlast
    obtain ⟨a, ha, hcount, hsame⟩ := hfirst
    obtain ⟨_, _, hall⟩ := block_shapes_checked_iff
      (e := .jacobian .equalities (.array wx) .null) hf hd hb .refl hres hused (.matrix 0)
    obtain ⟨_, hdeclines, _⟩ := block_shapes_checked_iff
      (e := .jacobian .equalities (.array wx) .null) hf hd hb .refl hres hused (.matrix 1)
    obtain ⟨_, htaken⟩ := hall a (by rw [hmatrix, ha]) ⟨wx, _, hx, hsize.symm⟩
    obtain ⟨x, htrace, hx⟩ := htaken hsame
    refine ⟨t, u, declared, wx, x, hf, hres, hnew, htrace, hcount ▸ hx, hdeclines fun a ha => ?_⟩
    exact hlast a (by rw [← hmatrix, ha])

-- A session with one more matrix, which is for the inequalities, and a point.
def unevenSetup : FormulationM Exact (AnyMatrix Exact × View) := do
  let _ ← finalize unevenSample
  let declared ← newJacobian .equalities
  let _ ← addMatrix (← newJacobian .inequalities)
  return (declared, ← onStore (StoreM.alloc (Tensor.ofList [.finite 1, .finite 3])))

-- It is taken for a matrix for the equalities, and the problem is asked for one entry where it
-- declared two.
theorem triplets_unchecked : ∃ declared x u a,
    unevenSetup mixedStart = (.ok (declared, x), u) ∧ u.matrix? (.matrix 1) = some a ∧
    ¬a.SameShape declared ∧
    ¬Refuses (jacobian unevenSample .equalities (.array x) .null (.matrix 1)) u ∧
    declared.tripletCount = 2 ∧
    ((jacobian unevenSample .equalities (.array x) .null (.matrix 1)) u).2.deliveries.map
      Call.tripletCount? = [some 1] := by
  have h : (unevenSetup mixedStart).1.toOption.any (fun (declared, x) =>
      declared.tripletCount == 2 &&
      ((unevenSetup mixedStart).2.matrix? (.matrix 1)).any (·.tripletCount == 1) &&
      (jacobian unevenSample .equalities (.array x) .null (.matrix 1)
        (unevenSetup mixedStart).2).1.toOption == some true &&
      (jacobian unevenSample .equalities (.array x) .null (.matrix 1)
        (unevenSetup mixedStart).2).2.deliveries.map Call.tripletCount? == [some 1]) := by
    decide +kernel
  cases hrun : unevenSetup mixedStart
  case mk r u =>
    rw [hrun] at h
    cases r
    case error => cases h
    case ok result =>
      simp only [Except.toOption, Option.any_some, Bool.and_eq_true, beq_iff_eq,
        Option.any_eq_true] at h
      have ⟨⟨⟨hdeclared, a, ha, hcount⟩, hok⟩, hdelivered⟩ := h
      refine ⟨_, _, u, a, rfl, ha, fun hsame => ?_, fun hrefused => ?_, hdeclared, hdelivered⟩
      · have hsame := hsame.right
        rw [hdeclared, hcount] at hsame
        cases hsame
      · obtain ⟨b, t, hb, _⟩ := hrefused
        rw [hb] at hok
        cases hok

end Formulation
end NonlinearProgram
