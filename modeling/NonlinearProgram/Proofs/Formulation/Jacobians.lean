import NonlinearProgram.Proofs.Rows
import NonlinearProgram.Proofs.Formulation.Independence

-- A dense Jacobian is the problem's, without the columns of eliminated variables, whichever rows
-- the problem was handed to fill.

namespace NonlinearProgram

open Program FormulationM

variable {α : Type} [Scalar α]

namespace Core

variable {p : Problem α} {o : Options α} {c : Communicator α} {policy : FixedPolicy} {count : Int}
  {layout : Layout} {declared : Declared α} {mask : List Bool} {treated : Treatment α}
  {v : Survey α} {core : Core α} {s t : Session α}

theorem userSize_of_append {chain appended : Chain α} {item : Transformation α}
    (h : chain.append item = .ok appended) : appended.userSize = chain.userSize := by
  rw [Chain.append] at h
  split at h <;> cases h
  rfl

-- Whatever the policy, the chain starts at all variables that are declared here.
theorem userSize_of_treat (h : treat policy o layout declared mask count s = (.ok treated, t)) :
    treated.chain.userSize = .integer declared.lower.length := by
  cases treat_run_iff.mp h
  case identity => rfl
  case removed hchain _ => exact userSize_of_append hchain
  case relaxed hchain => exact userSize_of_append hchain

theorem userSize_of_build {canRemove : Bool} (h : build p o c canRemove s = (.ok core, t)) :
    ∃ v u, survey p o c s = (.ok v, u) ∧
      core.chain.userSize = .integer v.variableData.lower.length := by
  obtain ⟨v, u, hv, h⟩ := bind_eq_ok.mp h
  obtain ⟨_, _, _, h⟩ := bind_eq_ok.mp h
  obtain ⟨_, _, _, h⟩ := bind_eq_ok.mp h
  obtain ⟨treated, _, ht, h⟩ := bind_eq_ok.mp h
  exact ⟨v, u, hv, by rw [(treated_of_assemble h).left, userSize_of_treat ht]⟩

end Core

-- Where nothing is masked, nothing is left out.
omit [Scalar α] in
theorem restrict_of_clear {mask : List Bool} {xs : List α}
    (h : (clearPositions mask).length = mask.length) (hx : xs.length = mask.length) :
    restrict mask xs = xs := by
  have hall := List.length_filter_eq_length_iff.mp (h.trans List.length_range.symm)
  rw [restrict, clearPositions, List.filter_eq_self.mpr hall, ← hx, gather_range]

-- Rows over the user's variables are brought to the internal ones one by one.
omit [Scalar α] in
theorem Chain.Eliminates.jacobianToInternal_run {c : Chain α} {mask : List Bool} {values : List α}
    {s : Store α} {v : View} {rows : Nat} (h : c.Eliminates mask values s)
    (hv : v.shape = [rows, mask.length]) (hs : s.Valid v) :
    ∃ w t, c.jacobianToInternal v s = (.ok w, t) ∧
      Rows.ofEntries rows (clearPositions mask).length (t.entries w) =
        (Rows.ofEntries rows mask.length (s.entries v)).map (restrict mask) := by
  have hlen : (s.entries v).length = rows * mask.length :=
    Store.length_entries_of_shape_pair hs hv
  cases h
  case kept hi hm _ =>
    refine ⟨v, s, (hi.foldlM (fun _ _ _ => rfl) v s).left, ?_⟩
    have hrow : ∀ xs ∈ Rows.ofEntries rows mask.length (s.entries v), restrict mask xs = xs := by
      intro xs hxs
      obtain ⟨k, hk, rfl⟩ := List.mem_map.mp hxs
      exact restrict_of_clear (length_clear_of_kept hm) (length_row hlen (List.mem_range.mp hk))
    rw [length_clear_of_kept hm, List.map_congr_left hrow, List.map_id']
  case removed r hi hr =>
    let x : Tensor α := ⟨[rows, (clearPositions mask).length],
      (List.range rows).flatMap fun k => restrict mask (row mask.length k (s.entries v))⟩
    have hrow : ∀ k < rows, (restrict mask (row mask.length k (s.entries v))).length =
        (clearPositions mask).length := fun k hk => length_restrict (length_row hlen hk)
    have hx : x.entries.length = Tensor.sizeOf x.shape := by
      rw [Tensor.sizeOf_pair]
      exact length_flatMap_rows hrow
    refine ⟨(s.alloc x).1, (s.alloc x).2, ?_, ?_⟩
    · simp [Chain.jacobianToInternal, hi, bind_run, Transformation.jacobianToInternal,
        r.jacobianToInternal_run hr hv, x]
    · rw [Store.entries_alloc hx, Rows.ofEntries_flatMap hrow, Rows.ofEntries, List.map_map]
      rfl

-- Rows that are put into an array of their own lose the columns of the masked variables.
omit [Scalar α] in
theorem Chain.Eliminates.rowsToInternal_run {c : Chain α} {mask : List Bool} {values : List α}
    {s : Store α} {v : View} {m : Nat} {rows : Rows α} (h : c.Eliminates mask values s)
    (ho : s.Owns v [m, mask.length]) (hv : ∀ u ∈ c.scratch, u.buffer ≠ v.buffer)
    (hrows : rows.map List.length = List.replicate m mask.length) :
    ∃ xs t, (do StoreM.entries (← c.jacobianToInternal v) : StoreM α (List α))
        (s.setEntries v rows.flatten) = (.ok xs, t) ∧
      Rows.ofEntries m (clearPositions mask).length xs = rows.map (restrict mask) := by
  have hw : s.Writes (· = v.buffer) (s.setEntries v rows.flatten) := .setEntries rfl
  have hsize : rows.flatten.length = v.size := by
    rw [Rows.length_flatten hrows, View.size, ho.left, Tensor.sizeOf_pair]
  obtain ⟨w, t, hrun, ht⟩ := (h.writes hw hv).jacobianToInternal_run ho.left (hw.valid ho.valid)
  rw [Store.entries_setEntries ho.valid hsize, Rows.ofEntries_flatten hrows] at ht
  exact ⟨t.entries w, t, bind_of_ok hrun _, ht⟩

namespace Formulation

variable {p : Problem α} {s t : Session α} {d : Finalized α} {o : Options α}
  {v : Core.Survey α} {x : Argument α} {w : View} {ys : List α} {k : Nat} {a : DenseMatrix α}
  {g : List α → Nat → List α} {indices : List Nat} {op : Operation} {isNew : RawValue α}

omit [Scalar α] in
theorem judge_eq_some {r : Except Fault (RawValue α)} {answer : RawValue α}
    (h : judge op r s = (.ok (some answer), t)) :
    r = .ok answer ∧ answer.isRefusal = false ∧ t = s := by
  cases r
  case error fault =>
    simp only [judge, ite_run] at h
    split at h
    case isTrue =>
      obtain ⟨_, _, _, h⟩ := bind_eq_ok.mp h
      cases (ok_eq_ok.mp h).left
    case isFalse => exact (error_ne_ok h).elim
  case ok given =>
    cases hg : given.isRefusal
    case true =>
      simp only [judge, hg, if_true] at h
      obtain ⟨_, _, _, h⟩ := bind_eq_ok.mp h
      cases (ok_eq_ok.mp h).left
    case false =>
      rw [judge_run hg] at h
      obtain ⟨hsome, rfl⟩ := ok_eq_ok.mp h
      cases hsome
      exact ⟨rfl, hg, rfl⟩

omit [Scalar α] in
theorem matrix?_setMatrix {x : AnyMatrix α} (h : s.matrix? (.matrix k) = some x)
    (hm : t.matrices = s.matrices) (y : AnyMatrix α) :
    (t.setMatrix k y).matrix? (.matrix k) = some y := by
  obtain ⟨hk, _⟩ := List.getElem?_eq_some_iff.mp (h : s.matrices[k]? = some x)
  change (t.matrices.set k y)[k]? = some y
  rw [hm, List.getElem?_set_self hk]

section

variable (h : Ready p d o v s)
  (hj : p.FillsJacobian d.core.userSize v.layout.localSize.toNat d.core.constraintCount g)
  (hx : d.Lent s.store x w ys) (hl : ys.length = v.internalSize o d.core)
  (hi : ∀ i ∈ indices, i < d.core.constraintCount) (hm : s.matrix? (.matrix k) = some (.dense a))

include h hj hx hl hi hm

-- The problem fills the matrix itself.
theorem fillMatrix_eq_true (ha : a.WellFormed) (hr : a.rows = indices.length)
    (hc : a.localColumns = v.layout.localSize.toNat)
    (hrun : fillMatrix p op d.core indices x isNew k a s = (.ok true, t)) :
    (∀ i ∈ indices, (g (v.pointToUser o d.core ys) i).length = v.layout.localSize.toNat) ∧
      t.matrix? (.matrix k) =
        some (.dense (a.withActive (indices.map (g (v.pointToUser o d.core ys))))) := by
  obtain ⟨y, u, hp, hu, hs, hv, he, _⟩ := pointToUser_run h hx hl
  have hf : u.formulation = s.formulation := by rw [hu]
  have hms : u.matrices = s.matrices := by rw [hu]
  have hform : a.active.map List.length =
      List.replicate indices.length v.layout.localSize.toNat := by rw [ha.form, hr, hc]
  rw [fillMatrix, bind_of_ok hp, bind_of_ok (pointAt_run (hf ▸ h.finalized) y isNew)] at hrun
  dsimp only at hrun
  cases hcall : (p.evaluate (.denseJacobian ⟨d.core.userSize, u.store.read y, isNew⟩
    d.core.constraintCount indices a.active)).run (slots y none none)
      ⟨u.store, { dense := a.active }⟩
  case mk r arena =>
    rw [bind_of_ok (invoke_run hcall), bind_of_ok (modify_run _ _)] at hrun
    obtain ⟨answer?, t', hjudge, hrun⟩ := bind_eq_ok.mp hrun
    obtain ⟨hsome, rfl⟩ := ok_eq_ok.mp hrun
    obtain ⟨answer, rfl⟩ := Option.isSome_iff_exists.mp hsome
    obtain ⟨rfl, hans, rfl⟩ := judge_eq_some hjudge
    obtain ⟨hrows, hlength⟩ := hj.rows_eq hs hv hi hform hcall hans
    rw [he] at hrows hlength
    refine ⟨hlength, ?_⟩
    rw [← hrows]
    exact matrix?_setMatrix hm hms _

-- The problem fills scratch rows, of which some columns are copied.
theorem fillThroughScratch_eq_true {scratch : View} (hr : a.rows = indices.length)
    (hc : a.localColumns = v.internalSize o d.core) (hw : scratch ∈ d.arrays)
    (ho : s.store.Owns scratch [indices.length, v.layout.localSize.toNat])
    (hrun : fillThroughScratch p op d.core indices scratch x isNew k a s = (.ok true, t)) :
    (∀ i ∈ indices, (g (v.pointToUser o d.core ys) i).length = v.layout.localSize.toNat) ∧
      t.matrix? (.matrix k) = some (.dense (a.withActive (indices.map fun i =>
        gather (g (v.pointToUser o d.core ys) i) d.core.freeVariables))) := by
  obtain ⟨y, u, hp, hu, hs, hv, he, hwr, hel, hor⟩ := pointToUser_run h hx hl
  have hf : u.formulation = s.formulation := by rw [hu]
  have hms : u.matrices = s.matrices := by rw [hu]
  have ho' := ho.writes hwr
  have hlen : (u.store.entries scratch).length = indices.length * v.layout.localSize.toNat :=
    Store.length_entries_of_shape_pair ho'.valid ho'.left
  have hform := Rows.form_ofEntries hlen
  rw [fillThroughScratch, bind_of_ok hp, bind_of_ok (onStore_of_ok (StoreM.entries_run scratch _)),
    bind_of_ok (pointAt_run (hf ▸ h.finalized) y isNew), h.intact.describes.userLayout] at hrun
  dsimp only at hrun
  generalize Rows.ofEntries indices.length v.layout.localSize.toNat (u.store.entries scratch) =
    stale at hform hrun
  have hfar : ∀ slot k, slots y none none slot = some k →
      ∀ c ∈ d.core.chain.scratch, k.buffer ≠ c.buffer := by
    rintro (_ | _ | _) k ⟨⟩
    exact h.point_apart hx hor
  let e : Evaluation α := .denseJacobian ⟨d.core.userSize, u.store.read y, isNew⟩
    d.core.constraintCount indices stale
  have hcallee := hel.after_run (p.evaluate e) { dense := stale } hfar
  have hreach := (p.evaluate e).run_writes (slots y none none) ⟨u.store, { dense := stale }⟩
  cases hcall : (p.evaluate e).run (slots y none none) ⟨u.store, { dense := stale }⟩
  case mk r arena =>
    rw [hcall] at hcallee hreach
    rw [bind_of_ok (invoke_run hcall), bind_of_ok (modify_run _ _)] at hrun
    obtain ⟨answer?, t', hjudge, hrun⟩ := bind_eq_ok.mp hrun
    cases answer?
    case none => cases (ok_eq_ok.mp hrun).left
    case some answer =>
      obtain ⟨rfl, hans, rfl⟩ := judge_eq_some hjudge
      obtain ⟨hrows, hlength⟩ := hj.rows_eq hs hv hi hform hcall hans
      rw [he] at hrows hlength
      rw [← h.length_eliminated] at ho' hlength
      have hfilled : arena.workspace.dense.map List.length =
          List.replicate indices.length (v.eliminated o d.core).length := by
        rw [hrows, Rows.form_map hlength]
      obtain ⟨xs, st, hinner, hxs⟩ := hcallee.rowsToInternal_run (ho'.writes hreach)
        (fun b hb => Ne.symm (h.intact.separate scratch hw b hb)) hfilled
      dsimp only at hrun
      rw [bind_of_ok (onStore_of_ok hinner), bind_of_ok (modify_run _ _)] at hrun
      obtain ⟨_, rfl⟩ := ok_eq_ok.mp hrun
      have hinternal : indices.map (fun i => gather (g (v.pointToUser o d.core ys) i)
          d.core.freeVariables) = Rows.ofEntries a.rows a.localColumns xs := by
        rw [hr, hc, Core.Survey.internalSize, hxs, hrows, List.map_map, h.freeVariables]
        rfl
      rw [hinternal]
      refine ⟨fun i hi => (hlength i hi).trans h.length_eliminated, ?_⟩
      exact matrix?_setMatrix hm hms _

end

-- The scratch rows of a group of constraints.
theorem Ready.rowScratch (h : Ready p d o v s) (hk : s.formulation.kind = .dense)
    (group : ConstraintGroup) :
    ∃ scratch, s.formulation.rowScratch group = some scratch ∧ scratch ∈ d.arrays ∧
      s.store.Owns scratch [(d.core.indices group).length, v.layout.localSize.toNat] := by
  obtain ⟨_, _, _, hd⟩ := finalized_eq_some.mp h.finalized
  have hfit := h.intact.derivatives
  cases hder : d.derivatives
  case mixed => simp [hder, derivatives_eq_mixed, hk] at hd
  case dense equalityRows inequalityRows =>
    rw [hder, derivatives_eq_dense] at hd
    rw [hder, Derivatives.Fit, h.intact.describes.userLayout] at hfit
    simp only [Finalized.arrays, hder, Derivatives.scratch]
    cases group
    case equalities => exact ⟨equalityRows, hd.right.left, by simp, hfit.left⟩
    case inequalities => exact ⟨inequalityRows, hd.right.right, by simp, hfit.right⟩

-- Where a chain of the size of all variables ends with as many, it has left out none.
theorem Ready.length_clear (h : Ready p d o v s)
    (hu : d.core.chain.userSize = .integer (v.eliminated o d.core).length)
    (hs : d.core.chain.internalSize.isSame d.core.chain.userSize) :
    (clearPositions (v.eliminated o d.core)).length = (v.eliminated o d.core).length := by
  cases h.eliminates
  case kept hm _ => exact Chain.length_clear_of_kept hm
  case removed r hi hr =>
    simpa [Chain.internalSize, hi, hu, Transformation.internalSize, Remover.internalSize,
      hr.freeIndices, RawValue.isSame, RawValue.toQuantity, Quantity.isEqual] using hs

-- Where no variable is eliminated, all columns are copied.
theorem Ready.map_gather_freeVariables {rows : List Nat} {gradient : Nat → List α}
    (h : Ready p d o v s)
    (hc : (clearPositions (v.eliminated o d.core)).length = (v.eliminated o d.core).length)
    (hg : ∀ i ∈ rows, (gradient i).length = v.layout.localSize.toNat) :
    (rows.map fun i => gather (gradient i) d.core.freeVariables) = rows.map gradient := by
  refine List.map_congr_left fun i hi => ?_
  rw [h.freeVariables]
  exact restrict_of_clear hc ((hg i hi).trans h.length_eliminated.symm)

theorem Ready.selects_freeVariables {rows : List Nat} {gradient : Nat → List α}
    (h : Ready p d o v s) (hg : ∀ i ∈ rows, (gradient i).length = v.layout.localSize.toNat) :
    Rows.Selects (rows.map fun i => gather (gradient i) d.core.freeVariables) gradient rows
      d.core.freeVariables := by
  refine Rows.selects_map fun i hi j hj => ?_
  rw [h.freeVariables] at hj
  rw [hg i hi, ← h.length_eliminated]
  exact clearPositions_lt hj

-- The matrix is filled on whichever way its size asks for.
theorem denseJacobian_eq_true {group : ConstraintGroup} (h : Ready p d o v s)
    (hk : s.formulation.kind = .dense)
    (hu : d.core.chain.userSize = .integer (v.eliminated o d.core).length)
    (hj : p.FillsJacobian d.core.userSize v.layout.localSize.toNat d.core.constraintCount g)
    (hx : d.Lent s.store x w ys) (hl : ys.length = v.internalSize o d.core)
    (hm : s.matrix? (.matrix k) = some (.dense a)) (ha : a.WellFormed)
    (hrun : denseJacobian p group x isNew (.matrix k) s = (.ok true, t)) :
    a.rows = (d.core.indices group).length ∧ a.localColumns = v.internalSize o d.core ∧
      (∀ i ∈ d.core.indices group,
        (g (v.pointToUser o d.core ys) i).length = v.layout.localSize.toNat) ∧
      t.matrix? (.matrix k) = some (.dense (a.withActive ((d.core.indices group).map fun i =>
        gather (g (v.pointToUser o d.core ys) i) d.core.freeVariables))) := by
  obtain ⟨scratch, hscratch, hmem, ho⟩ := h.rowScratch hk group
  have hi := h.indices_lt group
  rw [denseJacobian, bind_of_ok (getCore_run h.finalized), bind_of_ok (getPart_run hscratch),
    bind_of_ok (get_run s)] at hrun
  simp only [hm, ite_run] at hrun
  split at hrun
  case isTrue =>
    obtain ⟨_, _, _, hrun⟩ := bind_eq_ok.mp hrun
    cases (ok_eq_ok.mp hrun).left
  case isFalse hshape =>
    rw [not_or, not_ne_iff, not_ne_iff, h.localSize, Int.natCast_inj] at hshape
    obtain ⟨hr, hc⟩ := hshape
    refine ⟨hr, hc, ?_⟩
    split at hrun
    case isTrue hs =>
      cases hfill : fillMatrix p (.jacobian group) d.core (d.core.indices group) x isNew k a s
      case mk r t' =>
        rw [timed_run hfill] at hrun
        obtain ⟨rfl, rfl⟩ := Prod.mk.inj hrun
        have hclear := h.length_clear hu hs
        obtain ⟨hlength, hmatrix⟩ := fillMatrix_eq_true h hj hx hl hi hm ha hr
          (hc.trans (hclear.trans h.length_eliminated)) hfill
        rw [h.map_gather_freeVariables hclear hlength]
        exact ⟨hlength, hmatrix⟩
    case isFalse =>
      cases hfill : fillThroughScratch p (.jacobian group) d.core (d.core.indices group) scratch x
        isNew k a s
      case mk r t' =>
        rw [timed_run hfill] at hrun
        obtain ⟨rfl, rfl⟩ := Prod.mk.inj hrun
        obtain ⟨hlength, hmatrix⟩ :=
          fillThroughScratch_eq_true h hj hx hl hi hm hr hc hmem ho hfill
        exact ⟨hlength, hmatrix⟩

-- A session in the use of a formulation, with a point and a dense matrix to hand over.
structure Handed (d : Finalized α) (ys : List α) (t u : Session α) (x : Argument α) (k : Nat)
    (a : DenseMatrix α) : Prop where
  used : Relation.ReflTransGen (Used d) t u
  point : ∃ w, d.Lent u.store x w ys
  matrix : u.matrix? (.matrix k) = some (.dense a)
  wellFormed : a.WellFormed

theorem jacobian_eq_true {group : ConstraintGroup} {u : Session α} (h : Ready p d o v u)
    (hk : u.formulation.kind = .dense)
    (hs : d.core.chain.userSize = .integer (v.eliminated o d.core).length)
    (hj : p.FillsJacobian d.core.userSize v.layout.localSize.toNat d.core.constraintCount g)
    (hl : ys.length = v.internalSize o d.core) (hu : Handed d ys s u x k a)
    (hrun : jacobian p group x isNew (.matrix k) u = (.ok true, t)) :
    a.rows = (d.core.indices group).length ∧ a.localColumns = v.internalSize o d.core ∧
      (∀ i ∈ d.core.indices group,
        (g (v.pointToUser o d.core ys) i).length = v.layout.localSize.toNat) ∧
      t.matrix? (.matrix k) = some (.dense (a.withActive ((d.core.indices group).map fun i =>
        gather (g (v.pointToUser o d.core ys) i) d.core.freeVariables))) := by
  obtain ⟨w, hx⟩ := hu.point
  rw [jacobian, bind_of_ok (getFormulation_run u)] at hrun
  simp only [hk] at hrun
  exact denseJacobian_eq_true h hk hs hj hx hl hu.matrix hu.wellFormed hrun

-- The chain that was made for a problem starts at the variables that the problem declares here.
theorem chain_userSize (hf : finalize p s = (.ok true, t)) (hd : t.formulation.finalized = some d) :
    ∃ v, Finalizes p v d s t ∧ d.core.chain.userSize =
      .integer (v.eliminated s.formulation.options d.core).length := by
  obtain ⟨v, d', _, _, _, hv, hb, _, _, hF, _⟩ := parts_of_finalize hf
  cases hF.finalized.symm.trans hd
  obtain ⟨v', _, hv', hsize⟩ := Core.userSize_of_build hb
  cases hv.symm.trans hv'
  refine ⟨v, hF, hsize.trans ?_⟩
  rw [hF.ready.variables_fit.lower]

-- What the problem gives of its Jacobian arrives in the solver's matrices, without the columns of
-- the variables that are eliminated. It does not matter what was in the matrix or in the scratch
-- rows, nor which of them the problem filled, and both groups of constraints make up the whole.
theorem dense_jacobians_faithful (hf : finalize p s = (.ok true, t))
    (hk : s.formulation.kind = .dense) (hd : t.formulation.finalized = some d)
    (hj : p.FillsJacobian d.core.userSize d.core.userLayout.localSize.toNat
      d.core.constraintCount g)
    (hl : (ys.length : Int) = d.core.localSize) :
    ∃ xs, (∀ u, Relation.ReflTransGen (Used d) t u → (userPointAt ys u).1 = .ok xs) ∧
      (∀ group u x k a isNew t', Handed d ys t u x k a →
        jacobian p group x isNew (.matrix k) u = (.ok true, t') →
        ∃ b, t'.matrix? (.matrix k) = some (.dense b) ∧ b.WellFormed ∧ b.layout = a.layout ∧
          b.active.Selects (g xs) (d.core.indices group) d.core.freeVariables) ∧
      (∀ group u x k a scratch isNew t₁ t₂, Handed d ys t u x k a →
        a.rows = (d.core.indices group).length → (a.localColumns : Int) = d.core.localSize →
        a.localColumns = d.core.userLayout.localSize.toNat →
        u.formulation.rowScratch group = some scratch →
        fillMatrix p (.jacobian group) d.core (d.core.indices group) x isNew k a u =
          (.ok true, t₁) →
        fillThroughScratch p (.jacobian group) d.core (d.core.indices group) scratch x isNew k a u =
          (.ok true, t₂) →
        t₁.matrix? (.matrix k) = t₂.matrix? (.matrix k)) ∧
      ∀ u₁ u₂ x₁ x₂ k₁ k₂ a₁ a₂ isNew₁ isNew₂ t₁ t₂, Handed d ys t u₁ x₁ k₁ a₁ →
        Handed d ys t u₂ x₂ k₂ a₂ →
        jacobian p .equalities x₁ isNew₁ (.matrix k₁) u₁ = (.ok true, t₁) →
        jacobian p .inequalities x₂ isNew₂ (.matrix k₂) u₂ = (.ok true, t₂) →
        ∃ b₁ b₂, t₁.matrix? (.matrix k₁) = some (.dense b₁) ∧
          t₂.matrix? (.matrix k₂) = some (.dense b₂) ∧
          ∀ base : Rows α, base.length = d.core.constraintCount →
            Rows.Selects (scatter d.core.split.inequalities b₂.active
              (scatter d.core.split.equalities b₁.active base)) (g xs)
              (List.range d.core.constraintCount) d.core.freeVariables := by
  obtain ⟨v, hF, hsize⟩ := chain_userSize hf hd
  rw [hF.intact.describes.userLayout] at hj ⊢
  let xs := v.pointToUser s.formulation.options d.core ys
  have hready {u : Session α} (hu : Relation.ReflTransGen (Used d) t u) :
      Ready p d s.formulation.options v u := hF.ready.undisturbed (hF.ready.history hu)
  have hkind {u : Session α} (hu : Relation.ReflTransGen (Used d) t u) :
      u.formulation.kind = .dense := by
    rw [← kind_of_finalized (hready hu).finalized, hF.kind, hk]
  have hl' := hF.ready.length_eq hl
  have hfilled {group u x k a isNew t'} (hu : Handed d ys t u x k a)
      (hrun : jacobian p group x isNew (.matrix k) u = (.ok true, t')) :=
    jacobian_eq_true (hready hu.used) (hkind hu.used) hsize hj hl' hu hrun
  refine ⟨xs, fun u hu => userPointAt_run (hready hu) hl', ?filled, ?same, ?whole⟩
  case filled =>
    intro group u x k a isNew t' hu hrun
    obtain ⟨hr, hc, hlength, hmatrix⟩ := hfilled hu hrun
    have hselects := hF.ready.selects_freeVariables hlength
    refine ⟨_, hmatrix, hu.wellFormed.withActive ?_, rfl, ?_⟩
    · rw [hselects.form, hr, hc, hF.ready.freeVariables]
      rfl
    · rwa [DenseMatrix.active_withActive (by rw [List.length_map, hr])]
  case same =>
    intro group u x k a scratch isNew t₁ t₂ hu hr hc hc' hscratch h₁ h₂
    have h := hready hu.used
    obtain ⟨w, hx⟩ := hu.point
    obtain ⟨scratch', hpart, hmem, ho⟩ := h.rowScratch (hkind hu.used) group
    cases hpart.symm.trans hscratch
    rw [h.localSize, Int.natCast_inj] at hc
    have hi := h.indices_lt group
    obtain ⟨hlength, hm₁⟩ :=
      fillMatrix_eq_true h hj hx hl' hi hu.matrix hu.wellFormed hr hc' h₁
    obtain ⟨_, hm₂⟩ := fillThroughScratch_eq_true h hj hx hl' hi hu.matrix hr hc hmem ho h₂
    have hclear := hc.symm.trans (hc'.trans h.length_eliminated.symm)
    rw [hm₁, hm₂, h.map_gather_freeVariables hclear hlength]
  case whole =>
    intro u₁ u₂ x₁ x₂ k₁ k₂ a₁ a₂ isNew₁ isNew₂ t₁ t₂ hu₁ hu₂ h₁ h₂
    obtain ⟨hr₁, _, hlength₁, hm₁⟩ := hfilled hu₁ h₁
    obtain ⟨hr₂, _, hlength₂, hm₂⟩ := hfilled hu₂ h₂
    refine ⟨_, _, hm₁, hm₂, fun base hb => ?_⟩
    rw [DenseMatrix.active_withActive ((List.length_map _).trans hr₁.symm),
      DenseMatrix.active_withActive ((List.length_map _).trans hr₂.symm),
      Core.indices, Core.indices, hF.ready.parts.scatter_map _ hb]
    refine hF.ready.selects_freeVariables fun i hi => ?_
    cases hF.ready.parts.mem_or (List.mem_range.mp hi)
    case inl hi => exact hlength₁ i hi
    case inr hi => exact hlength₂ i hi

-- Three variables, of which the second is fixed, and three constraints, of which the second is an
-- inequality.
def slopes : Nat → List Exact
  | 0 => [.finite 1, .finite 2, .finite 3]
  | 1 => [.finite 4, .finite 5, .finite 6]
  | _ => [.finite 7, .finite 8, .finite 9]

def sloped : Problem Exact :=
  Problem.withJacobian
    { Problem.ofFunctions 3 3 (fun _ => 0) fun _ _ => 0 with
      variableBounds := fun _ _ => .ok {
        lower := [.finite 0, .finite 1, .finite 0]
        upper := [.finite 2, .finite 1, .finite 2]
        answer := .flag true }
      constraintBounds := fun _ _ => .ok {
        lower := [.finite 1, .finite 0, .finite 0]
        upper := [.finite 1, .finite 10, .finite 0]
        answer := .flag true } }
    fun _ => slopes

def slopedStart (policy : FixedPolicy) : Session Exact where
  formulation := {
    kind := .dense
    options := ⟨policy, .finite (1 / 100), .finite 1000⟩
    communicator := .serial "alone" }
  clock := 0

-- A matrix with entries of earlier times.
def staleMatrix (rows columns : Nat) : DenseMatrix Exact :=
  ⟨.ofSize columns, rows, rows, List.replicate rows (List.replicate columns (.finite 100))⟩

theorem staleMatrix_wellFormed (rows columns : Nat) : (staleMatrix rows columns).WellFormed := by
  refine ⟨by simp [staleMatrix], fun row hrow => ?_⟩
  rw [List.eq_of_mem_replicate hrow, List.length_replicate]
  exact congrArg Int.toNat (Layout.localSize_ofSize columns).symm

-- A session with a point, and with a matrix for each group of constraints.
def slopedSession (policy : FixedPolicy) (point : List Exact) : Session Exact :=
  let t := (finalize sloped (slopedStart policy)).2
  { t with
    store := (t.store.alloc (Tensor.ofList point)).2
    matrices := [.dense (staleMatrix 2 point.length), .dense (staleMatrix 1 point.length)] }

def slopedPoint (policy : FixedPolicy) (point : List Exact) : View :=
  ((finalize sloped (slopedStart policy)).2.store.alloc (Tensor.ofList point)).1

theorem handed_sloped {policy : FixedPolicy} {point : List Exact} {d : Finalized Exact} {k : Nat}
    {a : DenseMatrix Exact} (hs : succeeds sloped (slopedStart policy))
    (hd : (finalize sloped (slopedStart policy)).2.formulation.finalized = some d)
    (hm : (slopedSession policy point).matrix? (.matrix k) = some (.dense a)) (ha : a.WellFormed) :
    Handed d point (finalize sloped (slopedStart policy)).2 (slopedSession policy point)
      (.array (slopedPoint policy point)) k a where
  used := .single (.elsewhere rfl (.alloc _))
  point := by
    obtain ⟨v, hF⟩ := finalizes_of_finalized (finalize_of_succeeds hs) hd
    obtain ⟨w, t, ht, hx, _⟩ := alloc_lent hF.ready point
    have ht' := onStore_of_ok (StoreM.alloc_run (Tensor.ofList point)
      (finalize sloped (slopedStart policy)).2.store)
    obtain ⟨rfl, rfl⟩ := ok_eq_ok.mp (ht.symm.trans ht')
    exact ⟨_, hx⟩
  matrix := hm
  wellFormed := ha

omit [Scalar α] in
theorem eq_ok_of_toOption {β : Type} {act : FormulationM α β} {b : β}
    (h : (act s).1.toOption = some b) : ∃ t, act s = (.ok b, t) := by
  cases hact : act s
  case mk r t =>
    rw [hact] at h
    cases r <;> cases h
    exact ⟨t, rfl⟩

-- With the fixed variable removed, a column is missing; with all variables kept, the matrix can be
-- filled in both ways.
theorem dense_jacobians_faithful_sloped :
    (∃ t₁ t₂ b₁ b₂,
      jacobian sloped .equalities (.array (slopedPoint .remove [.finite 1, .finite 1])) .null
        (.matrix 0) (slopedSession .remove [.finite 1, .finite 1]) = (.ok true, t₁) ∧
      jacobian sloped .inequalities (.array (slopedPoint .remove [.finite 1, .finite 1])) .null
        (.matrix 1) (slopedSession .remove [.finite 1, .finite 1]) = (.ok true, t₂) ∧
      t₁.matrix? (.matrix 0) = some (.dense b₁) ∧ t₂.matrix? (.matrix 1) = some (.dense b₂) ∧
      b₁.active.Selects slopes [0, 2] [0, 2] ∧
      Rows.Selects (scatter [1] b₂.active (scatter [0, 2] b₁.active [[], [], []])) slopes
        [0, 1, 2] [0, 2]) ∧
    ∃ d scratch t₁ t₂,
      (finalize sloped (slopedStart .keep)).2.formulation.finalized = some d ∧
      fillMatrix sloped (.jacobian .equalities) d.core [0, 2]
        (.array (slopedPoint .keep [.finite 1, .finite 1, .finite 1])) .null 0 (staleMatrix 2 3)
        (slopedSession .keep [.finite 1, .finite 1, .finite 1]) = (.ok true, t₁) ∧
      fillThroughScratch sloped (.jacobian .equalities) d.core [0, 2] scratch
        (.array (slopedPoint .keep [.finite 1, .finite 1, .finite 1])) .null 0 (staleMatrix 2 3)
        (slopedSession .keep [.finite 1, .finite 1, .finite 1]) = (.ok true, t₂) ∧
      t₁.matrix? (.matrix 0) = t₂.matrix? (.matrix 0) := by
  have hfills (n : Int) (m : Nat) : sloped.FillsJacobian n 3 m fun _ => slopes :=
    Problem.fillsJacobian_withJacobian fun _ i => by match i with | 0 | 1 | _ + 2 => rfl
  constructor
  case left =>
    have hs : succeeds sloped (slopedStart .remove) := by decide +kernel
    have hdata : ((finalize sloped (slopedStart .remove)).2.formulation.finalized.map fun d =>
        (d.core.indices .equalities, d.core.indices .inequalities, d.core.freeVariables,
          d.core.localSize, d.core.userLayout.localSize.toNat, d.core.constraintCount)) =
        some ([0, 2], [1], [0, 2], 2, 3, 3) := by decide +kernel
    have hfirst : (jacobian sloped .equalities
        (.array (slopedPoint .remove [.finite 1, .finite 1])) .null (.matrix 0)
        (slopedSession .remove [.finite 1, .finite 1])).1.toOption = some true := by decide +kernel
    have hlast : (jacobian sloped .inequalities
        (.array (slopedPoint .remove [.finite 1, .finite 1])) .null (.matrix 1)
        (slopedSession .remove [.finite 1, .finite 1])).1.toOption = some true := by decide +kernel
    obtain ⟨d, hd, hdata⟩ := Option.map_eq_some_iff.mp hdata
    simp only [Prod.mk.injEq] at hdata
    obtain ⟨heq, hineq, hfree, hsize, huser, hcount⟩ := hdata
    obtain ⟨t₁, h₁⟩ := eq_ok_of_toOption hfirst
    obtain ⟨t₂, h₂⟩ := eq_ok_of_toOption hlast
    have hl : (([.finite 1, .finite 1] : List Exact).length : Int) = d.core.localSize := hsize.symm
    obtain ⟨xs, _, hfilled, _, hwhole⟩ :=
      dense_jacobians_faithful (finalize_of_succeeds hs) rfl hd (huser ▸ hfills _ _) hl
    have hu₁ : Handed d [.finite 1, .finite 1] _ _ _ 0 _ :=
      handed_sloped hs hd rfl (staleMatrix_wellFormed 2 2)
    have hu₂ : Handed d [.finite 1, .finite 1] _ _ _ 1 _ :=
      handed_sloped hs hd rfl (staleMatrix_wellFormed 1 2)
    obtain ⟨b₁, b₂, hb₁, hb₂, hall⟩ := hwhole _ _ _ _ _ _ _ _ _ _ _ _ hu₁ hu₂ h₁ h₂
    obtain ⟨b, hb, _, _, hselects⟩ := hfilled _ _ _ _ _ _ _ hu₁ h₁
    cases hb₁.symm.trans hb
    have hall := hall [[], [], []] hcount.symm
    rw [heq, hfree] at hselects
    rw [hfree, hcount, show d.core.split.equalities = [0, 2] from heq,
      show d.core.split.inequalities = [1] from hineq] at hall
    exact ⟨t₁, t₂, b₁, b₂, h₁, h₂, hb₁, hb₂, hselects, hall⟩
  case right =>
    have hs : succeeds sloped (slopedStart .keep) := by decide +kernel
    have hdata : ((finalize sloped (slopedStart .keep)).2.formulation.finalized.map fun d =>
        (d.core.indices .equalities, d.core.localSize, d.core.userLayout.localSize.toNat)) =
        some ([0, 2], 3, 3) := by decide +kernel
    have hfirst : ((finalize sloped (slopedStart .keep)).2.formulation.finalized.map fun d =>
        (fillMatrix sloped (.jacobian .equalities) d.core [0, 2]
          (.array (slopedPoint .keep [.finite 1, .finite 1, .finite 1])) .null 0 (staleMatrix 2 3)
          (slopedSession .keep [.finite 1, .finite 1, .finite 1])).1.toOption) =
        some (some true) := by decide +kernel
    have hlast : ((finalize sloped (slopedStart .keep)).2.formulation.finalized.bind fun d =>
        (slopedSession .keep [.finite 1, .finite 1, .finite 1]).formulation.rowScratch
          .equalities |>.map fun scratch =>
        (fillThroughScratch sloped (.jacobian .equalities) d.core [0, 2] scratch
          (.array (slopedPoint .keep [.finite 1, .finite 1, .finite 1])) .null 0 (staleMatrix 2 3)
          (slopedSession .keep [.finite 1, .finite 1, .finite 1])).1.toOption) =
        some (some true) := by decide +kernel
    obtain ⟨d, hd, hdata⟩ := Option.map_eq_some_iff.mp hdata
    simp only [Prod.mk.injEq] at hdata
    obtain ⟨heq, hsize, huser⟩ := hdata
    rw [hd, Option.map_some, Option.some.injEq] at hfirst
    rw [hd, Option.bind_some] at hlast
    obtain ⟨scratch, hscratch, hlast⟩ := Option.map_eq_some_iff.mp hlast
    obtain ⟨t₁, h₁⟩ := eq_ok_of_toOption hfirst
    obtain ⟨t₂, h₂⟩ := eq_ok_of_toOption hlast
    have hl : (([.finite 1, .finite 1, .finite 1] : List Exact).length : Int) = d.core.localSize :=
      hsize.symm
    obtain ⟨xs, _, _, hsame, _⟩ :=
      dense_jacobians_faithful (finalize_of_succeeds hs) rfl hd (huser ▸ hfills _ _) hl
    have hu : Handed d [.finite 1, .finite 1, .finite 1] _ _ _ 0 _ :=
      handed_sloped hs hd rfl (staleMatrix_wellFormed 2 3)
    refine ⟨d, scratch, t₁, t₂, hd, h₁, h₂, ?_⟩
    refine hsame .equalities _ _ _ _ scratch .null t₁ t₂ hu ?_ hsize.symm huser.symm hscratch ?_ ?_
    · rw [heq]
      rfl
    · rw [heq]
      exact h₁
    · rw [heq]
      exact h₂

end Formulation
end NonlinearProgram
