import NonlinearProgram.Proofs.Formulation.Lagrangian
import NonlinearProgram.Proofs.Formulation.Twins

-- Every evaluation, with two formulations side by side. Most evaluations hand the problem the same
-- on both sides. A gradient and a dense Jacobian through scratch rows are to be written into arrays
-- of which nothing is known; there it takes a problem that overwrites them.

namespace NonlinearProgram

open Program FormulationM Callback

variable {α : Type}

namespace Rows

-- The cells of a matrix that has these rows.
def cells (a : Rows α) : Set (Nat × Nat) := {c | (a[c.1]?.bind (·[c.2]?)).isSome}

-- Nothing needs to be known of matrices of the same form but that they are overwritten.
theorem Agree.of_form {a b : Rows α} (h : b.map List.length = a.map List.length) :
    Agree a.cells a b where
  form := h
  entries i j hc := by
    have hrow : b[i]?.map List.length = a[i]?.map List.length := by
      simpa using congrArg (·[i]?) h
    have ha : a[i]?.bind (·[j]?) = none := by simpa [cells] using hc
    rw [ha]
    cases hb : b[i]?
    case none => rfl
    case some ys =>
      rw [hb, Option.map_some, eq_comm, Option.map_eq_some_iff] at hrow
      obtain ⟨xs, hx, hl⟩ := hrow
      rw [hx, Option.bind_some, List.getElem?_eq_none_iff] at ha
      exact List.getElem?_eq_none (hl ▸ ha)

theorem map_length_ofEntries (n k : Nat) (xs : List α) :
    (ofEntries n k xs).map List.length = (List.range n).map fun i => min k (xs.length - i * k) := by
  simp [ofEntries, Function.comp_def]

theorem length_flatten_ofEntries {n k : Nat} {xs : List α} (h : xs.length = n * k) :
    (ofEntries n k xs).flatten.length = n * k := by
  have hrow : ∀ i ∈ List.range n, min k (xs.length - i * k) = k := by
    intro i hi
    have hle := Nat.mul_le_mul_right k (Nat.succ_le_of_lt (List.mem_range.mp hi))
    rw [Nat.succ_mul] at hle
    omega
  rw [List.length_flatten, map_length_ofEntries, List.map_congr_left hrow]
  simp

theorem map_blank [Zero α] {a b : Rows α} (h : b.map List.length = a.map List.length) :
    (b.map (·.map fun _ => 0)) = a.map (·.map fun _ => (0 : α)) := by
  have hblank (rows : Rows α) : (rows.map (·.map fun _ => 0)) =
      (rows.map List.length).map fun n => List.replicate n (0 : α) := by
    simp [Function.comp_def]
  rw [hblank, hblank, h]

end Rows

namespace Evaluation

-- Where the output and the matrix are still to be written.
def stale : Evaluation α → Set Nat
  | .gradient _ out => {i | i < out.length}
  | _ => ∅

def cells : Evaluation α → Set (Nat × Nat)
  | .denseJacobian _ _ _ rows => rows.cells
  | _ => ∅

end Evaluation

-- What a problem is to fill, it overwrites as a whole, unless it refuses or raises a fault. It does
-- not look at what was there.
def Problem.Overwrites [Zero α] (p : Problem α) (e : Evaluation α) : Prop :=
  (∀ e' : Evaluation α, e'.blank = e.blank → p.evaluate e' = p.evaluate e) ∧
    (p.evaluate e).Fills e.stale e.cells

namespace Twins

variable [Scalar α] {T : Twins α} {q : Problem α} {a b : Session α} {u w : View}
  {x out : Argument α}

-- Where both problems are handed the same, nothing is expected of them.
theorem ask_unison {e : Evaluation α} {ws : Workspace α} (output multipliers : Option (View × View))
    (h : T.Alongside a b) (hp : T.Twin a.store b.store u w)
    (ho : ∀ p ∈ output, T.Twin a.store b.store p.1 p.2)
    (hm : ∀ p ∈ multipliers, T.Twin a.store b.store p.1 p.2)
    (hx : T.Proper e) :
    T.Unison (fun r r' _ _ => r' = r)
      (Formulation.invoke q e
        (Formulation.slots u (output.map Prod.fst) (multipliers.map Prod.fst)) ws)
      (Formulation.invoke q e
        (Formulation.slots w (output.map Prod.snd) (multipliers.map Prod.snd)) ws) a b := by
  have htwin {slot u' w'} (hs : handed (u, w) output multipliers slot = some (u', w')) :
      T.Twin a.store b.store u' w' := by
    cases slot
    case point => cases hs; exact hp
    case output => exact ho _ hs
    case multipliers => exact hm _ hs
  have hands : T.Hands (handed (u, w) output multipliers) ∅ :=
    ⟨fun hs => (htwin hs).counterparts, fun _ hn => absurd hn Set.not_nonempty_empty⟩
  have hmirror : Mirrors (handed (u, w) output multipliers) ∅ ∅ ⟨a.store, ws⟩ ⟨b.store, ws⟩ := by
    refine ⟨fun hs => ?_, rfl, ⟨rfl, fun _ _ _ => rfl⟩, rfl⟩
    obtain ⟨x, y, hx, hy, ha⟩ := h.agrees (htwin hs)
    exact ⟨x, y, hx, hy, ha.mono (Set.empty_subset _)⟩
  rw [← handed_left (u, w), ← handed_right (u, w)]
  exact (invoke_accord h hands rfl hx (fun _ => ⟨rfl, fills_nothing _⟩) hmirror).mono
    fun r r' a' b' hc => Prod.ext hc.left.answer hc.left.workspace_eq

-- Where the problem is handed a point only.
theorem ask_point {e : Evaluation α} {ws : Workspace α} (h : T.Alongside a b)
    (hp : T.Twin a.store b.store u w) (hx : T.AtFixed e.point.entries.entries)
    (hm : e.multipliers? = none) :
    T.Unison (fun r r' _ _ => r' = r) (Formulation.invoke q e (Formulation.slots u none none) ws)
      (Formulation.invoke q e (Formulation.slots w none none) ws) a b :=
  ask_unison none none h hp (by rintro _ ⟨⟩) (by rintro _ ⟨⟩) ⟨hx, by rw [hm]; rintro _ ⟨⟩⟩

theorem objective_unison (h : T.Alongside a b) (hx : T.Lends a.store x) (isNew : RawValue α) :
    T.Unison (fun r r' _ _ => r' = r) (Formulation.objective q x isNew)
      (Formulation.objective q x isNew) a b := by
  refine .after (getCore_run h.first.finalized) (getCore_run h.second.finalized) <|
    .next (.timed _ ?body) fun answer a b h _ => ?tail
  case body =>
    refine (pointToUser_accord h hx).bind fun u w a b h _ hw => ?_
    refine .after (Formulation.pointAt_run h.first.finalized u isNew)
      (Formulation.pointAt_run h.second.finalized w isNew) ?_
    rw [hw.left.read, h.userSize]
    exact .next (ask_point h hw.left hw.right rfl) fun (r, _) a b h _ =>
      judge_unison h _ r
  case tail =>
    cases answer
    case none => exact .pure h rfl
    case some answer =>
      refine (ofExcept_unison h _ _).next fun f a b h _ => .ite .rfl (fun _ => ?_) fun _ => ?_
      · rw [(h.first.eliminates.objective f).left, (h.second.eliminates.objective f).left]
        exact .pure h rfl
      · exact (emit_unison h _).next fun _ a b h _ => .pure h rfl

theorem values_unison (group : ConstraintGroup) (h : T.Alongside a b) (hx : T.Lends a.store x)
    (ho : T.Lends a.store out) (isNew : RawValue α) :
    T.Unison (fun r r' _ _ => r' = r) (Formulation.values q group x isNew out)
      (Formulation.values q group x isNew out) a b := by
  refine .after (getCore_run h.first.finalized) (getCore_run h.second.finalized) <|
    (localPart_accord h ho).bind fun u w a b h hs hu => ?_
  obtain ⟨⟨rfl, houtside, hv⟩, _⟩ := hu
  rw [h.indices]
  refine .ite .rfl (fun _ => .throw_bind h _ _ _) fun _ => .timed _ ?_
  refine (pointToUser_accord h (hx.writes hs)).bind fun u w' a b h hs hw => ?_
  refine .after (onStore_read_run w a) (onStore_read_run w b) <|
    .after (Formulation.pointAt_run h.first.finalized u isNew)
      (Formulation.pointAt_run h.second.finalized w' isNew) ?_
  have ht : T.Twin a.store b.store w w :=
    ⟨.inl ⟨rfl, houtside⟩, hs.valid hv, h.read_outside houtside⟩
  rw [hw.left.read, ht.read, h.userSize, h.constraintCount]
  refine .next (ask_unison (some (w, w)) none h hw.left (by rintro _ ⟨⟩; exact ht) nofun
    ⟨hw.right, nofun⟩)
    fun (r, _) a b h _ => ?_
  exact (judge_unison h _ r).next fun r a b h _ => .pure h rfl

-- What is selected from counterparts is the same.
theorem select_accord (pick : Tensor α → List Nat → Option (Tensor α))
    {f : View → Transformation α → StoreM α View} (h : T.Alongside a b)
    (hkept : ∀ r v s, f v (.relaxer r) s = (.ok v, s))
    (hpick : ∀ r v s, f v (.remover r) s = match pick (s.read v) r.freeIndices with
      | some x => (.ok (s.alloc x).1, (s.alloc x).2)
      | none => (.error .indexOutside, s))
    (hr : b.store.read w = a.store.read u) :
    T.Unison (fun u w a' b' => b'.store.read w = a'.store.read u)
      (onStore (T.first.core.chain.items.foldlM f u))
      (onStore (T.second.core.chain.items.foldlM f w)) a b := by
  have he := h.second.eliminates
  rw [h.eliminated] at he
  obtain ⟨e, hx, hy⟩ | ⟨u', w', s, t, hx, hy, hread, hst⟩ :=
    Chain.select_alike hkept hpick h.first.eliminates he h.core.chain.identical hr
  · exact .of_error (onStore_of_error hx) (onStore_of_error hy) h (.refl _ _)
  · obtain ⟨rfl, rfl⟩ | ⟨x, rfl, rfl⟩ := hst
    · exact .of_ok (onStore_of_ok hx) (onStore_of_ok hy) h (.refl _ _) hread
    · exact .of_ok (onStore_of_ok hx) (onStore_of_ok hy) (h.alloc x).left (.alloc x) hread

theorem gradientToInternal_accord (h : T.Alongside a b) (hr : b.store.read w = a.store.read u) :
    T.Unison (fun u w a' b' => b'.store.read w = a'.store.read u)
      (onStore (T.first.core.chain.gradientToInternal u))
      (onStore (T.second.core.chain.gradientToInternal w)) a b := by
  refine select_accord Tensor.gather? h (fun _ _ _ => rfl) (fun r v s => ?_) hr
  rw [Transformation.gradientToInternal, Remover.gatherNew, bind_of_ok (StoreM.read_run v s)]
  cases (s.read v).gather? r.freeIndices <;> rfl

theorem jacobianToInternal_accord (h : T.Alongside a b) (hr : b.store.read w = a.store.read u) :
    T.Unison (fun u w a' b' => b'.store.read w = a'.store.read u)
      (onStore (T.first.core.chain.jacobianToInternal u))
      (onStore (T.second.core.chain.jacobianToInternal w)) a b := by
  refine select_accord Tensor.gatherColumns? h (fun _ _ _ => rfl) (fun r v s => ?_) hr
  rw [Transformation.jacobianToInternal, Remover.jacobianToInternal,
    bind_of_ok (StoreM.read_run v s)]
  cases (s.read v).gatherColumns? r.freeIndices <;> rfl

theorem assign_outside_unison (h : T.Alongside a b) (ho : T.Outside u.buffer) (x : Tensor α) :
    T.Unison (fun i j _ _ => j = i) (onStore (StoreM.assign u x)) (onStore (StoreM.assign u x))
      a b := by
  have hw := h.writable_outside ho
  obtain ⟨e, hs⟩ | ⟨htrue, ys, hs⟩ := StoreM.assign_outcome u x (a.store.writable u)
  · exact .of_error (onStore_of_error (hs _ rfl)) (onStore_of_error (hs _ hw)) h (.refl _ _)
  · refine .of_ok (onStore_of_ok (hs _ rfl)) (onStore_of_ok (hs _ hw)) ?_ (.setEntries trivial) rfl
    simp only [Store.setEntries_eq_update]
    exact h.update_outside ho htrue (Store.length_setEntries ys)

-- The gradient is asked for, into scratch arrays of which nothing is known.
theorem ask_gradient {should : Evaluation α → Prop} {ws : Workspace α} {point : Point α}
    (h : T.Alongside a b) (hp : T.Twin a.store b.store u w) (hx : T.AtFixed point.entries.entries)
    (hq : ∀ e, should e → q.Overwrites e) :
    T.Accord should (fun r r' a' b' => r'.1 = r.1 ∧ ∀ answer, r.1 = .ok answer →
        answer.isRefusal = false → b'.store.read T.second.gradient = a'.store.read T.first.gradient)
      (Formulation.invoke q (.gradient point (a.store.entries T.first.gradient))
        (Formulation.slots u (some T.first.gradient) none) ws)
      (Formulation.invoke q (.gradient point (b.store.entries T.second.gradient))
        (Formulation.slots w (some T.second.gradient) none) ws) a b := by
  let pairs := handed (u, w) (some (T.first.gradient, T.second.gradient)) none
  let stale : Set Nat := {i | i < (a.store.entries T.first.gradient).length}
  obtain ⟨hsize, hsize'⟩ := h.lengths (i := 1) (u := T.first.gradient) (w := T.second.gradient)
    rfl rfl
  have hands : T.Hands pairs stale := by
    constructor
    case counterparts =>
      intro slot u' w' hs
      cases slot
      case point => cases hs; exact hp.counterparts
      case output => cases hs; exact T.counterparts_gradient
      case multipliers => cases hs
    case scratch =>
      rintro _ _ ⟨⟩ _
      refine ⟨fun ho => ho.left (isScratch_of_getElem? (i := 1) rfl), ?_⟩
      simp [View.step, h.first.intact.gradient.left, Tensor.sizeOf]
  have hmirror : Mirrors pairs stale ∅ ⟨a.store, ws⟩ ⟨b.store, ws⟩ := by
    refine ⟨fun {slot u' w'} hs => ?_, rfl, ⟨rfl, fun _ _ _ => rfl⟩, rfl⟩
    cases slot
    case point => cases hs; exact h.agrees hp
    case output =>
      cases hs
      simpa only [outdated, if_true, stale, hsize] using h.agrees_stale (i := 1) rfl rfl
    case multipliers => cases hs
  have hblank : (Evaluation.gradient point (b.store.entries T.second.gradient)).blank =
      (Evaluation.gradient point (a.store.entries T.first.gradient)).blank := by
    simp only [Evaluation.blank, List.map_const', hsize, hsize']
  have hshape := h.shape T.counterparts_gradient
  have hinvoke := invoke_accord h hands hblank ⟨hx, by rintro _ ⟨⟩⟩
    (fun hs => ⟨(hq _ hs).left _ hblank, (hq _ hs).right⟩) hmirror
  rw [handed_left, handed_right] at hinvoke
  refine hinvoke.mono ?_
  rintro ⟨r, _⟩ ⟨r', _⟩ a' b' ⟨hcon, _⟩
  refine ⟨hcon.answer, ?_⟩
  rintro answer rfl href
  have hout : pairs .output = some (T.first.gradient, T.second.gradient) := rfl
  exact (hcon.filled href).read_eq hout hshape (by simp [outdated])

theorem gradient_accord (h : T.Alongside a b) (hx : T.Lends a.store x) (ho : T.Lends a.store out)
    (isNew : RawValue α) :
    T.Accord q.Overwrites (fun r r' _ _ => r' = r) (Formulation.gradient q x isNew out)
      (Formulation.gradient q x isNew out) a b := by
  refine .after (getCore_run h.first.finalized) (getCore_run h.second.finalized) <|
    (localPart_accord h ho).bind fun target _ a b h hs hu => ?_
  obtain ⟨⟨rfl, houtside, _⟩, _⟩ := hu
  rw [h.localSize]
  refine .ite .rfl (fun _ => .throw_bind h _ _ _) fun _ => .timed _ ?_
  refine (pointToUser_accord h (hx.writes hs)).bind fun u w a b h hs hw => ?_
  refine .after (getPart_run (Formulation.finalized_eq_some.mp h.first.finalized).right.right.left)
    (getPart_run (Formulation.finalized_eq_some.mp h.second.finalized).right.right.left) <|
    .after (onStore_of_ok (StoreM.entries_run _ _)) (onStore_of_ok (StoreM.entries_run _ _)) <|
    .after (Formulation.pointAt_run h.first.finalized u isNew)
      (Formulation.pointAt_run h.second.finalized w isNew) ?_
  rw [hw.left.read, h.userSize]
  refine (ask_gradient h hw.left hw.right fun _ => id).bind_quiet (fun (r, _) => ?quiet)
    (fun (r, _) => ?quiet') ?rest
  case quiet | quiet' =>
    refine .bind SameTrace.trans (Formulation.judge_keeps _ r) fun answer => ?_
    cases answer
    case none => exact fun _ => rfl
    case some => exact .bind SameTrace.trans (fun _ => rfl) fun _ _ => rfl
  case rest =>
    rintro ⟨r, _⟩ ⟨r', _⟩ a b h _ ⟨hr, hread⟩
    obtain rfl : r' = r := hr
    refine (judge_accord h _ r').bind fun answer answer' a' b' h' _ hp => ?_
    obtain ⟨rfl, ha, hb, hsome⟩ := hp
    cases answer'
    case none => exact .pure h' rfl
    case some =>
      obtain ⟨value, hr, href⟩ := hsome rfl
      have hread := hread value hr href
      rw [← ha, ← hb] at hread
      simp only [onStore_bind, bind_assoc]
      refine (gradientToInternal_accord h' hread).bind fun g g' a b h _ hg => ?_
      refine .after (onStore_read_run g a) (onStore_read_run g' b) ?_
      rw [hg]
      exact (assign_outside_unison h houtside _).next fun _ a b h _ => .pure h rfl

namespace Alongside

theorem matrix? (h : T.Alongside a b) (x : Argument α) : b.matrix? x = a.matrix? x := by
  cases x <;> simp only [Session.matrix?, h.matrices]

theorem typeName (h : T.Alongside a b) (x : Argument α) : b.typeName x = a.typeName x := by
  cases x <;> simp only [Session.typeName, h.matrices]

-- The scratch rows of a dense formulation.
theorem rows (h : T.Alongside a b) (hk : a.formulation.kind = .dense) (group : ConstraintGroup) :
    ∃ (i : Nat) (u w : View), T.first.arrays[i]? = some u ∧ T.second.arrays[i]? = some w ∧
      a.formulation.rowScratch group = some u ∧ b.formulation.rowScratch group = some w ∧
      a.store.Owns u [(T.first.core.indices group).length,
        T.first.core.userLayout.localSize.toNat] := by
  obtain ⟨_, _, _, hd⟩ := Formulation.finalized_eq_some.mp h.first.finalized
  obtain ⟨_, _, _, hd'⟩ := Formulation.finalized_eq_some.mp h.second.finalized
  have hfit := h.first.intact.derivatives
  have hb := h.blocks
  cases h₁ : T.first.derivatives
  case mixed => simp [h₁, Formulation.derivatives_eq_mixed, hk] at hd
  case dense =>
    cases h₂ : T.second.derivatives
    case mixed => simp [h₁, h₂, Derivatives.blocks?] at hb
    case dense =>
      rw [h₁, Formulation.derivatives_eq_dense] at hd
      rw [h₂, Formulation.derivatives_eq_dense] at hd'
      rw [h₁] at hfit
      simp only [Finalized.arrays, h₁, h₂, Derivatives.scratch]
      cases group
      case equalities => exact ⟨2, _, _, rfl, rfl, hd.right.left, hd'.right.left, hfit.left⟩
      case inequalities => exact ⟨3, _, _, rfl, rfl, hd.right.right, hd'.right.right, hfit.right⟩

-- The blocks and the scratch multipliers of a formulation with blocks.
theorem multipliers (h : T.Alongside a b) (hk : a.formulation.kind = .mixed) :
    ∃ (i : Nat) (blocks : BlockSizes α) (u w : View), T.first.arrays[i]? = some u ∧
      T.second.arrays[i]? = some w ∧ T.first.derivatives = .mixed blocks u ∧
      T.second.derivatives = .mixed blocks w := by
  obtain ⟨_, _, _, hd⟩ := Formulation.finalized_eq_some.mp h.first.finalized
  have hb := h.blocks
  cases h₁ : T.first.derivatives
  case dense => simp [h₁, Formulation.derivatives_eq_dense, hk] at hd
  case mixed blocks u =>
    cases h₂ : T.second.derivatives
    case dense => simp [h₁, h₂, Derivatives.blocks?] at hb
    case mixed blocks' w =>
      rw [h₁, h₂] at hb
      cases hb
      exact ⟨2, blocks, u, w, by simp [Finalized.arrays, h₁, Derivatives.scratch],
        by simp [Finalized.arrays, h₂, Derivatives.scratch], rfl, rfl⟩

end Alongside

theorem fillMatrix_unison (op : Operation) (indices : List Nat) (k : Nat) (m : DenseMatrix α)
    (h : T.Alongside a b) (hx : T.Lends a.store x) (isNew : RawValue α) :
    T.Unison (fun r r' _ _ => r' = r)
      (Formulation.fillMatrix q op T.first.core indices x isNew k m)
      (Formulation.fillMatrix q op T.second.core indices x isNew k m) a b := by
  refine (pointToUser_accord h hx).bind fun u w a b h _ hw => .after
    (Formulation.pointAt_run h.first.finalized u isNew)
    (Formulation.pointAt_run h.second.finalized w isNew) ?_
  rw [hw.left.read, h.userSize, h.constraintCount]
  exact .next (ask_point h hw.left hw.right rfl) fun (r, _) a b h _ =>
    (setMatrix_unison h _ _).next fun _ a b h _ => (judge_unison h _ r).next fun _ a b h _ =>
    .pure h rfl

-- A dense Jacobian is asked for, in scratch rows of which nothing is known.
theorem ask_rows {should : Evaluation α → Prop} {point : Point α} {rows rows' : Rows α}
    (m : Nat) (indices : List Nat) (h : T.Alongside a b) (hp : T.Twin a.store b.store u w)
    (hx : T.AtFixed point.entries.entries) (hform : rows'.map List.length = rows.map List.length)
    (hq : ∀ e, should e → q.Overwrites e) :
    T.Accord should (fun r r' _ _ => r'.1 = r.1 ∧
        r.2.dense.map List.length = rows.map List.length ∧ ∀ answer, r.1 = .ok answer →
        answer.isRefusal = false → r'.2.dense = r.2.dense)
      (Formulation.invoke q (.denseJacobian point m indices rows) (Formulation.slots u none none)
        { dense := rows })
      (Formulation.invoke q (.denseJacobian point m indices rows') (Formulation.slots w none none)
        { dense := rows' }) a b := by
  let pairs := handed (u, w) none none
  have hands : T.Hands pairs ∅ := by
    refine ⟨fun {slot u' w'} hs => ?_, fun _ hn => absurd hn Set.not_nonempty_empty⟩
    cases slot <;> cases hs
    exact hp.counterparts
  have hmirror : Mirrors pairs ∅ rows.cells ⟨a.store, { dense := rows }⟩
      ⟨b.store, { dense := rows' }⟩ := by
    refine ⟨fun {slot u' w'} hs => ?_, rfl, .of_form hform, rfl⟩
    cases slot <;> cases hs
    exact h.agrees hp
  have hblank : (Evaluation.denseJacobian point m indices rows').blank =
      (Evaluation.denseJacobian point m indices rows).blank :=
    congrArg (Evaluation.denseJacobian point m indices) (Rows.map_blank hform)
  have hinvoke := invoke_accord h hands hblank ⟨hx, by rintro _ ⟨⟩⟩
    (fun hs => ⟨(hq _ hs).left _ hblank, (hq _ hs).right⟩) hmirror
  rw [handed_left, handed_right] at hinvoke
  refine hinvoke.mono ?_
  rintro ⟨r, ws⟩ ⟨r', ws'⟩ a' b' ⟨hcon, hlen⟩
  refine ⟨hcon.answer, hlen, ?_⟩
  rintro answer rfl href
  exact (hcon.filled href).dense.eq

-- Scratch arrays take what was written for them, and hold the same if it is the same.
theorem setEntries_accord {i : Nat} {u w : View} {xs ys : List α} (h : T.Alongside a b)
    (hu : T.first.arrays[i]? = some u) (hw : T.second.arrays[i]? = some w) :
    T.Unison (fun _ _ a' b' => xs.length = u.size → ys = xs →
        b'.store.read w = a'.store.read u)
      (modify fun s => { s with store := s.store.setEntries u xs })
      (modify fun s => { s with store := s.store.setEntries w ys }) a b := by
  refine .of_ends (.ok (h.setEntries_scratch hu hw xs ys) (.setEntries trivial) ?_)
  rintro hl rfl
  obtain ⟨_, ho, ho'⟩ := h.owns hu hw
  have hshape := h.shape (.inr ⟨i, hu, hw⟩)
  rw [Store.read, Store.read, Store.entries_setEntries ho.valid hl,
    Store.entries_setEntries ho'.valid (hl.trans (congrArg Tensor.sizeOf hshape.symm)), hshape]

theorem fillThroughScratch_accord {i : Nat} {u w : View} (op : Operation) (indices : List Nat)
    (k : Nat) (m : DenseMatrix α) (hu : T.first.arrays[i]? = some u)
    (hw : T.second.arrays[i]? = some w)
    (hs : u.shape = [indices.length, T.first.core.userLayout.localSize.toNat])
    (h : T.Alongside a b) (hx : T.Lends a.store x) (isNew : RawValue α) :
    T.Accord q.Overwrites (fun r r' _ _ => r' = r)
      (Formulation.fillThroughScratch q op T.first.core indices u x isNew k m)
      (Formulation.fillThroughScratch q op T.second.core indices w x isNew k m) a b := by
  refine (pointToUser_accord h hx).bind fun point point' a b h _ hp => ?_
  refine .after (onStore_of_ok (StoreM.entries_run u _)) (onStore_of_ok (StoreM.entries_run w _)) <|
    .after (Formulation.pointAt_run h.first.finalized point isNew)
      (Formulation.pointAt_run h.second.finalized point' isNew) ?_
  rw [hp.left.read, h.userSize, h.constraintCount, h.userLayout]
  have hsize : u.size = indices.length * T.first.core.userLayout.localSize.toNat := by
    simp [View.size, hs, Tensor.sizeOf]
  obtain ⟨hlen, hlen'⟩ := h.lengths hu hw
  rw [hsize] at hlen hlen'
  refine (ask_rows _ indices h hp.left hp.right ?form fun _ => id).bind_quiet ?quiet ?quiet' ?rest
  case form => rw [Rows.map_length_ofEntries, Rows.map_length_ofEntries, hlen, hlen']
  case quiet | quiet' =>
    rintro ⟨r, _⟩
    refine .bind SameTrace.trans (fun _ => rfl) fun _ =>
      .bind SameTrace.trans (Formulation.judge_keeps _ r) fun answer => ?_
    cases answer
    case none => exact fun _ => rfl
    case some =>
      exact .bind SameTrace.trans (fun _ => rfl) fun _ =>
        .bind SameTrace.trans (fun _ => rfl) fun _ _ => rfl
  case rest =>
    rintro ⟨r, ws⟩ ⟨r', ws'⟩ a₁ b₁ h₁ hst ⟨hr, hl, hdense⟩
    obtain rfl : r' = r := hr
    refine (setEntries_accord h₁ hu hw).bind fun _ _ a₂ b₂ h₂ _ hset => ?_
    refine (judge_accord h₂ _ r').bind fun answer answer' a₃ b₃ h₃ _ hp => ?_
    obtain ⟨rfl, ha, hb, hsome⟩ := hp
    cases answer'
    case none => exact .pure h₃ rfl
    case some =>
      obtain ⟨value, hr, href⟩ := hsome rfl
      have hrows : ws.dense.flatten.length = u.size := by
        rw [List.length_flatten, hl, ← List.length_flatten, Rows.length_flatten_ofEntries hlen,
          hsize]
      have hread := hset hrows (congrArg List.flatten (hdense value hr href))
      rw [← ha, ← hb] at hread
      simp only [onStore_bind, bind_assoc]
      refine (jacobianToInternal_accord h₃ hread).bind fun g g' a b h _ hg => ?_
      have hentries : b.store.entries g' = a.store.entries g := congrArg Tensor.entries hg
      refine .after (onStore_of_ok (StoreM.entries_run g _))
        (onStore_of_ok (StoreM.entries_run g' _)) ?_
      rw [hentries]
      exact (setMatrix_unison h _ _).next fun _ a b h _ => .pure h rfl

theorem denseJacobian_accord (group : ConstraintGroup) (h : T.Alongside a b)
    (hk : a.formulation.kind = .dense) (hx : T.Lends a.store x) (isNew : RawValue α) :
    T.Accord q.Overwrites (fun r r' _ _ => r' = r) (Formulation.denseJacobian q group x isNew out)
      (Formulation.denseJacobian q group x isNew out) a b := by
  obtain ⟨i, u, w, hu, hw, hpart, hpart', hs⟩ := h.rows hk group
  refine .after (getCore_run h.first.finalized) (getCore_run h.second.finalized) <|
    .after (getPart_run hpart) (getPart_run hpart') <| .after (get_run a) (get_run b) ?_
  simp only [h.matrix?, h.typeName, h.indices, h.localSize, h.core.chain.internalSize,
    h.core.chain.userSize]
  split
  case h_1 =>
    refine .ite .rfl (fun _ => (emit_unison h _).next fun _ a b h _ => .pure h rfl) fun _ =>
      .ite .rfl (fun _ => .timed _ ?_) fun _ => .timed _ ?_
    · exact (fillMatrix_unison _ _ _ _ h hx isNew).of_unison
    · exact fillThroughScratch_accord _ _ _ _ hu hw hs.left h hx isNew
  case h_2 => exact (emit_unison h _).next fun _ a b h _ => .pure h rfl

theorem blockJacobian_unison (group : ConstraintGroup) (h : T.Alongside a b)
    (hk : a.formulation.kind = .mixed) (hx : T.Lends a.store x) (isNew : RawValue α) :
    T.Unison (fun r r' _ _ => r' = r) (Formulation.blockJacobian q group x isNew out)
      (Formulation.blockJacobian q group x isNew out) a b := by
  obtain ⟨_, blocks, _, _, _, _, hb, hb'⟩ := h.multipliers hk
  refine .after (getCore_run h.first.finalized) (getCore_run h.second.finalized) <|
    .after (get_run a) (get_run b) ?_
  simp only [h.matrix?, h.typeName, h.indices]
  split
  case h_1 =>
    refine .after (Formulation.blockSizes_run h.first.finalized hb)
      (Formulation.blockSizes_run h.second.finalized hb') <|
      .ite .rfl (fun _ => .timed _ ?_) fun _ => .throw_bind h _ _ _
    refine (pointToUser_accord h hx).bind fun u w a b h _ hw => .after
      (Formulation.pointAt_run h.first.finalized u isNew)
      (Formulation.pointAt_run h.second.finalized w isNew) ?_
    rw [hw.left.read, h.userSize, h.constraintCount]
    exact .next (ask_point h hw.left hw.right rfl) fun (r, _) a b h _ =>
      (setMatrix_unison h _ _).next fun _ a b h _ => (judge_unison h _ r).next fun _ a b h _ =>
      .pure h rfl
  case h_2 => exact .throw h _

theorem jacobian_accord (group : ConstraintGroup) (h : T.Alongside a b) (hx : T.Lends a.store x)
    (isNew : RawValue α) :
    T.Accord q.Overwrites (fun r r' _ _ => r' = r) (Formulation.jacobian q group x isNew out)
      (Formulation.jacobian q group x isNew out) a b := by
  refine .after (getFormulation_run a) (getFormulation_run b) ?_
  rw [h.kind]
  cases hk : a.formulation.kind
  case dense => exact denseJacobian_accord group h hk hx isNew
  case mixed => exact (blockJacobian_unison group h hk hx isNew).of_unison

end Twins

-- The entries of a vector as multipliers in the order of the problem's constraints, if there is one
-- for each of them, those of the equalities first.
def ConstraintSplit.merged? [Zero α] (split : ConstraintSplit α) (s : Store α) (v : View) :
    Option (List α) :=
  if v.shape = [split.equalities.length + split.inequalities.length] then
    some (split.merge ((s.entries v).take split.equalities.length)
      ((s.entries v).drop split.equalities.length))
  else none

theorem ConstraintSplit.merged?_eq_some [Zero α] {split : ConstraintSplit α} {s : Store α}
    {v : View} {zs : List α} (h : split.merged? s v = some zs) (hv : s.Valid v) :
    ∃ yc yd, v.shape = [(yc ++ yd).length] ∧ s.entries v = yc ++ yd ∧
      yc.length = split.equalities.length ∧ yd.length = split.inequalities.length ∧
      zs = split.merge yc yd := by
  rw [merged?, Option.ite_none_right_eq_some, Option.some.injEq] at h
  obtain ⟨hs, rfl⟩ := h
  have hl := Store.length_entries_of_shape hv hs
  refine ⟨_, _, ?_, (List.take_append_drop _ _).symm, ?_, ?_, rfl⟩
  · rw [List.take_append_drop, hl, hs]
  · rw [List.length_take_of_le (by omega)]
  · rw [List.length_drop]
    omega

namespace Formulation

variable {d : Finalized α} {s : Session α}

theorem bind_writes {β γ : Type} {touched : Nat → Prop} {act : FormulationM α β}
    {f : β → FormulationM α γ} (hx : s.store.Writes touched (act s).2.store)
    (hf : (act s).2.formulation = s.formulation)
    (h : ∀ r (t : Session α), t.formulation = s.formulation →
      t.store.Writes touched (f r t).2.store) :
    s.store.Writes touched ((act >>= f) s).2.store := by
  rw [bind_run]
  cases hr : act s
  case mk r t =>
    rw [hr] at hx hf
    cases r
    case error => exact hx
    case ok r => exact hx.and_then (h r t hf)

-- A point is only put into arrays for points.
theorem pointToUser_writes [Scalar α] (h : s.formulation.finalized = some d) (x : Argument α) :
    s.store.Writes d.HoldsPoint (pointToUser x s).2.store := by
  obtain ⟨_, hp, _⟩ := finalized_eq_some.mp h
  have hpoint : d.HoldsPoint d.point.buffer := ⟨d.point, List.mem_cons_self, rfl⟩
  refine bind_writes ?part ?same fun v t ht => ?_
  case part =>
    cases x
    case absent => exact .alloc _
    all_goals exact .refl _ _
  case same => cases x <;> rfl
  have hf : t.formulation.finalized = some d := ht ▸ h
  rw [bind_of_ok (getCore_run hf)]
  split
  case isTrue => exact .refl _ _
  case isFalse =>
    refine bind_writes ?map rfl fun u t' ht' => ?_
    case map =>
      have hw := Chain.Use.writes d.core.chain (.pointToUser v) nofun t.store
      rw [Chain.Use.run, discard_run] at hw
      exact hw.mono fun _ ⟨u, hu, hk⟩ => ⟨u, List.mem_cons_of_mem _ hu, hk⟩
    split
    case isTrue => exact .refl _ _
    case isFalse =>
      rw [bind_of_ok (getPart_run (ht'.trans ht ▸ hp)), onStore_bind, bind_assoc,
        bind_of_ok (onStore_read_run u t')]
      refine bind_writes ?assign rfl fun _ t _ => .refl _ _
      exact StoreM.assign_writes _ hpoint t'.store

end Formulation

namespace Twins

variable [Scalar α] {T : Twins α} {q : Problem α} {a b : Session α} {u w v : View}
  {x y out : Argument α}

-- Scratch arrays for the same purpose take the same entries in the same places.
theorem assignAt_accord {i : Nat} {x : Tensor α} (picks : List Nat) (h : T.Alongside a b)
    (hu : T.first.arrays[i]? = some u) (hw : T.second.arrays[i]? = some w) (hx : x.Full) :
    T.Unison (fun _ _ a' b' => ∃ ys, ys.length = picks.length ∧
        (x.shape = [picks.length] → ys = x.entries) ∧
        a'.store = a.store.scatter u picks ys ∧ b'.store = b.store.scatter w picks ys)
      (onStore (StoreM.assignAt u picks x)) (onStore (StoreM.assignAt w picks x)) a b := by
  obtain ⟨_, ho, ho'⟩ := h.owns hu hw
  cases hy : x.stretchedToSelection? [picks.length]
  case none =>
    exact .of_error (onStore_of_error (StoreM.assignAt_of_not_stretched ho.writable hy))
      (onStore_of_error (StoreM.assignAt_of_not_stretched ho'.writable hy)) h (.refl _ _)
  case some y =>
    have hgiven (hs : x.shape = [picks.length]) : y.entries = x.entries := by
      cases hy.symm.trans (Tensor.stretchedToSelection?_of_shape hs)
      rfl
    refine .of_ok (onStore_of_ok (StoreM.assignAt_of_stretched ho.writable hy))
      (onStore_of_ok (StoreM.assignAt_of_stretched ho'.writable hy)) ?_ (.scatter trivial)
      ⟨y.entries, hx.stretchedToSelection? hy, hgiven, rfl, rfl⟩
    simp only [Store.scatter_eq_update]
    exact h.update_scratch hu hw (length_scatter picks y.entries) (length_scatter picks y.entries)

-- Whatever the scratch arrays held, they then hold the same multipliers.
theorem scatterMultipliers_accord {i : Nat} (h : T.Alongside a b) (hu : T.first.arrays[i]? = some u)
    (hw : T.second.arrays[i]? = some w) (hs : u.shape = [T.first.core.constraintCount])
    (ho : T.Outside v.buffer) (hv : a.store.Valid v) :
    T.Unison (fun _ _ a' b' => T.Twin a'.store b'.store u w ∧
        ∀ zs ∈ T.first.core.split.merged? a.store v, a'.store.entries u = zs)
      (Formulation.scatterMultipliers T.first.core.split u v)
      (Formulation.scatterMultipliers T.second.core.split w v) a b := by
  rw [Formulation.scatterMultipliers, Formulation.scatterMultipliers, h.split]
  cases hlength : v.length?
  case none => exact .throw h _
  case some length =>
    simp only [onStore_bind]
    refine .after (onStore_read_run v a) (onStore_read_run v b) ?_
    rw [h.read_outside ho]
    have hfull := full_read hv
    refine (assignAt_accord _ h hu hw (hfull.slices _ _)).bind fun _ _ a₁ b₁ h₁ _ hy => ?_
    refine (assignAt_accord _ h₁ hu hw (hfull.slices _ _)).mono fun _ _ a₂ b₂ hz => ?_
    obtain ⟨ys, hly, hys, ha₁, hb₁⟩ := hy
    obtain ⟨zs, hlz, hzs, ha₂, hb₂⟩ := hz
    obtain ⟨_, hs₀, hs₀'⟩ := h.owns hu hw
    obtain ⟨_, hs₁, hs₁'⟩ := h₁.owns hu hw
    have hshape : w.shape = u.shape := hs₀'.left.trans hs₀.left.symm
    have hsize : u.size = T.first.core.constraintCount := View.size_of_shape hs
    obtain ⟨hlen, hlen'⟩ := h.lengths hu hw
    rw [hsize] at hlen hlen'
    refine ⟨⟨.inr ⟨i, hu, hw⟩, ?valid, ?read⟩, fun ms hm => ?merged⟩
    case valid =>
      have hst : a₁.store.Writes (fun _ => True) a₂.store := ha₂ ▸ .scatter trivial
      exact hst.valid hs₁.valid
    case read =>
      rw [Store.read, Store.read, ha₂, hb₂, Store.entries_scatter hs₁.valid,
        Store.entries_scatter hs₁'.valid, ha₁, hb₁, Store.entries_scatter hs₀.valid,
        Store.entries_scatter hs₀'.valid, hshape,
        h.first.parts.scatter_congr hly hlz hlen' hlen]
    case merged =>
      obtain ⟨yc, yd, hs, he, hc, hd, rfl⟩ := ConstraintSplit.merged?_eq_some hm hv
      cases hlength.symm.trans (congrArg List.head? hs)
      obtain ⟨hfirst, hsecond⟩ := Tensor.slices_append (t := a.store.read v) hs he
      rw [← hc, hfirst] at hys
      rw [← hc, hsecond] at hzs
      rw [ha₂, Store.entries_scatter hs₁.valid, ha₁, Store.entries_scatter hs₀.valid,
        hys rfl, hzs (by rw [← hd]; rfl)]
      exact h.first.parts.scatter_eq_merge hc hd hlen

-- A point is mapped, and the multipliers stay what they are.
theorem pointToUser_keeping {k l : View} (h : T.Alongside a b) (hx : T.Lends a.store x)
    (ht : T.Twin a.store b.store k l) (hl : b.store.Valid l)
    (hk : ¬T.first.HoldsPoint k.buffer) (hk' : ¬T.second.HoldsPoint l.buffer) :
    T.Unison (fun u w a' b' => (T.Twin a'.store b'.store u w ∧
        T.AtFixed (a'.store.read u).entries) ∧ T.Twin a'.store b'.store k l ∧
        a'.store.entries k = a.store.entries k)
      (Formulation.pointToUser x) (Formulation.pointToUser x) a b := by
  refine ((pointToUser_accord h hx).writing (Formulation.pointToUser_writes h.first.finalized x)
    (Formulation.pointToUser_writes h.second.finalized x)).mono fun u w a' b' hp => ?_
  obtain ⟨hp, hfirst, hsecond⟩ := hp
  have hkept := hfirst.entries ht.valid hk
  refine ⟨hp, ⟨ht.counterparts, hfirst.valid ht.valid, ?_⟩, hkept⟩
  rw [Store.read, Store.read, hkept, hsecond.entries hl hk']
  exact ht.read

-- Scratch arrays that hold the same multipliers, and are not the ones that points are put into.
theorem fillHessian_unison {u w : View} (m k : Nat) (contents : SymBlockMatrix α)
    (h : T.Alongside a b) (hx : T.Lends a.store x) (ht : T.Twin a.store b.store u w)
    (hw : b.store.Valid w) (hfar : ¬T.first.HoldsPoint u.buffer)
    (hfar' : ¬T.second.HoldsPoint w.buffer) (hd : ∀ zs ∈ T.duals?, a.store.entries u = zs)
    (isNew isNewY : RawValue α) (factor : α) :
    T.Unison (fun r r' _ _ => r' = r)
      (Formulation.fillHessian q m u x isNew factor isNewY k contents)
      (Formulation.fillHessian q m w x isNew factor isNewY k contents) a b := by
  refine .timed _ ((pointToUser_keeping h hx ht hw hfar hfar').bind fun p p' a b h _ hp => ?_)
  obtain ⟨hp, ht, hkept⟩ := hp
  have hentries : b.store.entries w = a.store.entries u := congrArg Tensor.entries ht.read
  refine .after (Formulation.pointAt_run h.first.finalized p isNew)
    (Formulation.pointAt_run h.second.finalized p' isNew) <|
    .after (onStore_of_ok (StoreM.entries_run u _)) (onStore_of_ok (StoreM.entries_run w _)) ?_
  rw [hp.left.read, h.userSize, hentries]
  refine .next (ask_unison none (some (u, w)) h hp.left (by rintro _ ⟨⟩)
    (by rintro _ ⟨⟩; exact ht) ⟨hp.right, by rintro _ ⟨⟩; exact hkept ▸ hd⟩) ?_
  rintro ⟨r, _⟩ a b h _
  exact (setMatrix_unison h _ _).next fun _ a b h _ =>
    (judge_unison h _ r).next fun _ a b h _ => .pure h rfl

theorem hessian_unison (h : T.Alongside a b) (hx : T.Lends a.store x) (hy : T.Lends a.store y)
    (hd : ∀ zs ∈ T.duals?, ∃ v ∈ y.view?, T.first.core.split.merged? a.store v = some zs)
    (isNew isNewY : RawValue α) (factor : α) :
    T.Unison (fun r r' _ _ => r' = r) (Formulation.hessian q x isNew factor y isNewY out)
      (Formulation.hessian q x isNew factor y isNewY out) a b := by
  refine .after (getFormulation_run a) (getFormulation_run b) ?_
  rw [h.kind]
  refine .ite .rfl (fun _ => .throw_bind h _ _ _) fun hk => ?_
  replace hk : a.formulation.kind = .mixed := by
    cases hkind : a.formulation.kind
    case dense => exact absurd hkind hk
    case mixed => rfl
  refine .after (get_run a) (get_run b) ?_
  obtain ⟨i, blocks, u, w, hu, hw, hb, hb'⟩ := h.multipliers hk
  simp only [h.matrix?, h.typeName]
  split
  case h_1 =>
    refine .after (Formulation.blockSizes_run h.first.finalized hb)
      (Formulation.blockSizes_run h.second.finalized hb') <|
      .ite .rfl (fun _ => ?_) fun _ => .throw_bind h _ _ _
    refine (localPart_accord h hy).bind fun v _ a b h hs hv => ?_
    obtain ⟨⟨rfl, ho, hv⟩, hsame⟩ := hv
    refine .after (getCore_run h.first.finalized) (getCore_run h.second.finalized) ?_
    rw [h.constraintCount]
    refine .ite .rfl (fun _ => .throw_bind h _ _ _) fun _ => ?_
    refine .after (getPart_run (Formulation.multiplierScratch_of_mixed h.first.finalized hb))
      (getPart_run (Formulation.multiplierScratch_of_mixed h.second.finalized hb')) ?_
    have hfit := h.first.intact.derivatives
    rw [hb] at hfit
    refine (scatterMultipliers_accord h hu hw hfit.left ho hv).bind fun _ _ a b h hs' ht => ?_
    obtain ⟨ht, hmerged⟩ := ht
    have hduals : ∀ zs ∈ T.duals?, a.store.entries u = zs := by
      intro zs hzs
      obtain ⟨v', hv', hm⟩ := hd zs hzs
      obtain ⟨rfl, hstore⟩ := hsame v' hv'
      exact hmerged zs (hstore ▸ hm)
    obtain ⟨_, _, ho'⟩ := h.owns hu hw
    have hfar := h.first.not_holdsPoint (w := u) (by simp [hb, Derivatives.scratch])
    have hfar' := h.second.not_holdsPoint (w := w) (by simp [hb', Derivatives.scratch])
    refine .next (fillHessian_unison _ _ _ h (hx.writes (hs.and_then hs')) ht ho'.valid hfar hfar'
      hduals isNew isNewY factor) ?_
    rintro ⟨_, _⟩ a b h _
    exact .ite .rfl (fun _ => .pure h rfl) fun _ => .throw_bind h _ _ _
  case h_2 => exact .throw h _

end Twins

-- The multipliers that a solver hands over, in the order of the problem's constraints.
def Demand.duals? [Zero α] (split : ConstraintSplit α) (s : Store α) : Demand α → Option (List α)
  | .hessian _ _ _ y _ _ => y.view?.bind (split.merged? s)
  | _ => none

namespace Twins

variable [Scalar α] {T : Twins α} {q : Problem α} {a b : Session α}

theorem demand_accord (e : Demand α) (h : T.Alongside a b)
    (he : ∀ x ∈ e.arguments, T.Lends a.store x)
    (hd : T.duals? = e.duals? T.first.core.split a.store) :
    T.Accord q.Overwrites (fun r r' _ _ => r' = r) (e.run q) (e.run q) a b := by
  have hrun {β : Type} {act : FormulationM α β} (f : β → RawValue α)
      (hact : T.Accord q.Overwrites (fun r r' _ _ => r' = r) act act a b) :
      T.Accord q.Overwrites (fun r r' _ _ => r' = r) (do return f (← act)) (do return f (← act))
        a b :=
    hact.bind_quiet (fun _ _ => rfl) (fun _ _ => rfl) fun _ _ _ _ h _ hr => .pure h (congrArg f hr)
  cases e
  all_goals
    simp only [Demand.arguments, List.forall_mem_cons] at he
    refine hrun _ ?_
  case objective x isNew => exact (objective_unison h he.left isNew).of_unison
  case gradient x isNew out => exact gradient_accord h he.left he.right.left isNew
  case values group x isNew out =>
    exact (values_unison group h he.left he.right.left isNew).of_unison
  case jacobian group x isNew out => exact jacobian_accord group h he.left isNew
  case hessian x isNew factor y isNewY out =>
    refine (hessian_unison h he.left he.right.left (fun zs hz => ?_) isNew isNewY factor).of_unison
    rw [hd] at hz
    exact Option.bind_eq_some_iff.mp hz

end Twins

end NonlinearProgram
