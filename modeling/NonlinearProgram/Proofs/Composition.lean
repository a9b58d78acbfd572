import NonlinearProgram.Proofs.Transformation

namespace NonlinearProgram

open Program

variable {α : Type} {s t u : Store α} {mask : List Bool} {values : List α}

namespace Remover

variable {r : Remover α} {x : View}

-- An intact remover that knows the values it keeps in its point.
structure Holds (r : Remover α) (mask : List Bool) (values : List α) (s : Store α) : Prop
    extends r.Intact mask values s where
  fixedValues : r.fixedValues = gather values (setPositions mask)

theorem userSize_of_intact (h : r.Intact mask values s) : r.userSize = mask.length :=
  View.size_of_shape h.userPoint.left

-- Whatever is scattered over its point, a remover keeps its fixed values.
theorem toUser_intact (h : r.Intact mask values s) (x : View) :
    r.Intact mask values (r.toUser x s).2 := by
  have ht := r.toUser_writes x s
  refine h.writes ht fun i hi => ?_
  have he : (r.toUser x s).2 = (StoreM.assignAt r.userPoint r.freeIndices (s.read x) s).2 := by
    rw [toUser, bind_of_ok (StoreM.read_run x s), bind_run]
    split <;> simp [*]
  rw [he]
  cases StoreM.assignAt_cases r.userPoint r.freeIndices (s.read x) s
  case inl hs => rw [hs]
  case inr hs =>
    obtain ⟨_, hs⟩ := hs
    rw [hs, Store.entries_scatter h.userPoint.valid, h.freeIndices,
      getElem?_scatter_of_not_mem (not_mem_clearPositions hi)]

end Remover

namespace Transformation

-- All arrays that belong to a transformation.
def arrays : Transformation α → List View
  | .remover r => r.scratch
  | .relaxer q => [q.gaps]
  | .objective _ => []

-- No two transformations share an array, and a remover keeps its values where it writes nothing but
-- points.
structure Separate (made : List (Transformation α)) : Prop where
  apart : ∀ {item item' : Transformation α}, item ∈ made → item' ∈ made →
    ∀ w ∈ item.arrays, ∀ w' ∈ item'.arrays, w.buffer = w'.buffer → item = item'
  within : ∀ {r : Remover α}, .remover r ∈ made → r.internalPoint.buffer ≠ r.userPoint.buffer ∧
    r.userMultipliers.buffer ≠ r.userPoint.buffer

namespace Separate

variable {made : List (Transformation α)} {r r' : Remover α}

theorem points (h : Separate made) (hr : .remover r ∈ made) (hr' : .remover r' ∈ made)
    (hb : r.userPoint.buffer = r'.userPoint.buffer) : r = r' := by
  have he := h.apart hr hr' r.userPoint (by simp [arrays, Remover.scratch]) r'.userPoint
    (by simp [arrays, Remover.scratch]) hb
  exact Transformation.remover.inj he

theorem others (h : Separate made) (hr : .remover r ∈ made) (hr' : .remover r' ∈ made) :
    r.internalPoint.buffer ≠ r'.userPoint.buffer ∧
      r.userMultipliers.buffer ≠ r'.userPoint.buffer := by
  have hne : ∀ w ∈ r.scratch, w.buffer ≠ r.userPoint.buffer → w.buffer ≠ r'.userPoint.buffer := by
    intro w hw hne hb
    have he := h.apart hr hr' w hw r'.userPoint (by simp [arrays, Remover.scratch]) hb
    exact hne (Transformation.remover.inj he ▸ hb)
  obtain ⟨hi, hm⟩ := h.within hr
  exact ⟨hne _ (by simp [Remover.scratch]) hi, hne _ (by simp [Remover.scratch]) hm⟩

theorem gaps {q : Relaxer α} (h : Separate made) (hq : .relaxer q ∈ made) (hr : .remover r ∈ made)
    {w : View} (hw : w ∈ r.scratch) : w.buffer ≠ q.gaps.buffer := by
  intro hb
  cases h.apart hr hq w hw q.gaps (by simp [arrays]) hb

-- What is made of new arrays is separate from all that was there.
theorem cons {item : Transformation α} {size : Nat} (h : Separate made)
    (hold : ∀ item ∈ made, ∀ w ∈ item.arrays, w.buffer < size)
    (hnew : ∀ w ∈ item.arrays, size ≤ w.buffer)
    (hd : ∀ r, item = .remover r → r.internalPoint.buffer ≠ r.userPoint.buffer ∧
      r.userMultipliers.buffer ≠ r.userPoint.buffer) : Separate (item :: made) := by
  constructor
  case apart =>
    intro item' item'' hm hm' w hw w' hw' hb
    cases List.mem_cons.mp hm <;> cases List.mem_cons.mp hm'
    case inl.inl he he' => rw [he, he']
    case inr.inr hm hm' => exact h.apart hm hm' w hw w' hw' hb
    case inl.inr he hm' =>
      have := hnew w (he ▸ hw)
      have := hold _ hm' w' hw'
      omega
    case inr.inl hm he' =>
      have := hold _ hm w hw
      have := hnew w' (he' ▸ hw')
      omega
  case within =>
    intro r hr
    cases List.mem_cons.mp hr
    case inl he => exact hd r he.symm
    case inr hr => exact h.within hr

end Separate

-- All removers stay intact.
structure Preserves (made : List (Transformation α)) (s t : Store α) : Prop where
  length_le : s.buffers.length ≤ t.buffers.length
  intact : ∀ {r : Remover α} {mask : List Bool} {values : List α}, .remover r ∈ made →
    r.Intact mask values s → r.Intact mask values t

variable {made : List (Transformation α)}

namespace Preserves

theorem refl (made : List (Transformation α)) (s : Store α) : Preserves made s s :=
  ⟨Nat.le_refl _, fun _ => id⟩

theorem trans (h₁ : Preserves made s t) (h₂ : Preserves made t u) : Preserves made s u :=
  ⟨Nat.le_trans h₁.length_le h₂.length_le, fun hr h => h₂.intact hr (h₁.intact hr h)⟩

theorem of_writes {touched : Nat → Prop} (h : s.Writes touched t)
    (hk : ∀ {r : Remover α}, .remover r ∈ made → ¬touched r.userPoint.buffer) :
    Preserves made s t :=
  ⟨h.length_le, fun hr hi => hi.writes_of_not_touched h (hk hr)⟩

theorem alloc (x : Tensor α) : Preserves made s (s.alloc x).2 :=
  have h : s.Writes (fun _ => False) (s.alloc x).2 := .alloc x
  .of_writes h fun _ => id

theorem replace {q : Relaxer α} (hs : Separate made) (hq : .relaxer q ∈ made) (x : Tensor α) :
    Preserves made s (s.replace q.gaps x) := by
  have howns {w : View} {shape : List Nat} (hw : w.buffer ≠ q.gaps.buffer)
      (h : s.Owns w shape) : (s.replace q.gaps x).Owns w shape := by
    have ⟨hshape, b, hb, hl, hwr⟩ := h
    exact ⟨hshape, b, by simpa [Store.replace, Ne.symm hw] using hb, hl, hwr⟩
  refine ⟨by simp [Store.replace], fun {r} _ _ hr h => ?_⟩
  have hne {w : View} (hw : w ∈ r.scratch) : w.buffer ≠ q.gaps.buffer := hs.gaps hq hr hw
  have hpoint := hne (w := r.userPoint) (by simp [Remover.scratch])
  exact { h with
    userPoint := howns hpoint h.userPoint
    internalPoint := howns (hne (by simp [Remover.scratch])) h.internalPoint
    userMultipliers := howns (hne (by simp [Remover.scratch])) h.userMultipliers
    held := fun i hi => by rw [Store.entries_replace_of_ne hpoint, h.held i hi] }

theorem bind {β γ : Type} {x : StoreM α β} {f : β → StoreM α γ} (hx : Keeps (Preserves made) x)
    (hf : ∀ b, Keeps (Preserves made) (f b)) : Keeps (Preserves made) (x >>= f) :=
  .bind .trans hx hf

theorem pure {β : Type} (b : β) : Keeps (Preserves made) (pure b : StoreM α β) :=
  .pure (.refl made) b

theorem of_keeps {β : Type} {touched : Nat → Prop} {x : StoreM α β}
    (h : Keeps (Store.Writes touched) x)
    (hk : ∀ {r : Remover α}, .remover r ∈ made → ¬touched r.userPoint.buffer) :
    Keeps (Preserves made) x :=
  fun s => .of_writes (h s) hk

theorem foldlM {β : Type} {f : β → Transformation α → StoreM α β} {items : List (Transformation α)}
    (h : ∀ t ∈ items, ∀ b, Keeps (Preserves made) (f b t)) (b : β) :
    Keeps (Preserves made) (items.foldlM f b) :=
  Keeps.foldlM (.refl made) .trans h b

end Preserves

variable {item : Transformation α}

theorem gradientToInternal_preserves (made : List (Transformation α)) (g : View) :
    Keeps (Preserves made) (item.gradientToInternal g) := by
  cases item
  case remover r => exact .of_keeps (r.gatherNew_writes g) fun _ => id
  all_goals exact Preserves.pure g

theorem jacobianToInternal_preserves (made : List (Transformation α)) (jac : View) :
    Keeps (Preserves made) (item.jacobianToInternal jac) := by
  cases item
  case remover r => exact .of_keeps (r.jacobianToInternal_writes jac) fun _ => id
  all_goals exact Preserves.pure jac

section

variable (hs : Separate made) (hm : item ∈ made)

include hs hm

theorem pointToInternal_preserves (x : View) : Keeps (Preserves made) (item.pointToInternal x) := by
  cases item
  case remover r =>
    exact .of_keeps (r.toInternal_writes x) fun hr => Ne.symm (hs.others hm hr).left
  all_goals exact Preserves.pure x

-- A remover that writes its own point leaves its fixed values alone.
theorem pointToUser_preserves (x : View) : Keeps (Preserves made) (item.pointToUser x) := by
  cases item
  case remover r =>
    intro s
    have hw := r.toUser_writes x s
    refine ⟨hw.length_le, fun {r'} _ _ hr h => ?_⟩
    by_cases hb : r.userPoint.buffer = r'.userPoint.buffer
    case pos =>
      cases hs.points hm hr hb
      exact Remover.toUser_intact h x
    case neg => exact h.writes_of_not_touched hw (Ne.symm hb)
  all_goals exact Preserves.pure x

variable [Scalar α]

theorem multipliersToUser_preserves (z : View) :
    Keeps (Preserves made) (item.multipliersToUser z) := by
  cases item
  case remover r =>
    exact .of_keeps (r.multipliersToUser_writes z) fun hr => Ne.symm (hs.others hm hr).right
  all_goals exact Preserves.pure z

theorem boundsToInternal_preserves (bounds : View × View) :
    Keeps (Preserves made) (item.boundsToInternal bounds) := by
  cases item
  case remover r =>
    exact Preserves.bind (.of_keeps (r.gatherNew_writes bounds.1) fun _ => id) fun _ =>
      Preserves.bind (.of_keeps (r.gatherNew_writes bounds.2) fun _ => id) fun _ =>
        Preserves.pure _
  case relaxer q =>
    intro s
    change Preserves made s (q.relax bounds.1 bounds.2 s).2
    rw [Relaxer.relax, bind_of_ok (StoreM.read_run _ s), bind_of_ok (StoreM.read_run _ s)]
    cases q.relaxed (s.read bounds.1) (s.read bounds.2)
    case error e => exact .refl made s
    case ok relaxed =>
      exact (Preserves.alloc relaxed.1).trans
        ((Preserves.alloc relaxed.2.1).trans (.replace hs hm relaxed.2.2))
  case objective => exact Preserves.pure bounds

end

-- The remover that eliminates one of the user's variables, and the number of the variable among
-- those that it eliminates.
def eliminator? : List (Transformation α) → Nat → Option (Remover α × Nat)
  | [], _ => none
  | .remover r :: items, i =>
    if i ∈ r.fixedIndices then some (r, r.fixedIndices.idxOf i)
    else if i ∈ r.freeIndices then eliminator? items (r.freeIndices.idxOf i)
    else none
  | .relaxer _ :: items, i | .objective _ :: items, i => eliminator? items i

-- A point that has what the removers stored of the variables that they eliminate, and what another
-- point has of all others.
structure Completes (items : List (Transformation α)) (xs ws : List α) : Prop where
  length : ws.length = xs.length
  kept : ∀ {i : Nat}, eliminator? items i = none → ws[i]? = xs[i]?
  stored : ∀ {i k : Nat} {r : Remover α}, eliminator? items i = some (r, k) →
    ∃ v, r.fixedValues[k]? = some v ∧ ws[i]? = some v

-- It is the other point if that one has what is stored.
theorem Completes.eq_iff {items : List (Transformation α)} {xs ws : List α}
    (h : Completes items xs ws) :
    ws = xs ↔ ∀ i r k, eliminator? items i = some (r, k) → xs[i]? = r.fixedValues[k]? := by
  constructor
  case mp =>
    intro he i r k hi
    have ⟨v, hv, hw⟩ := h.stored hi
    rw [← he, hw, hv]
  case mpr =>
    intro hx
    apply List.ext_getElem?
    intro i
    cases hi : eliminator? items i
    case none => exact h.kept hi
    case some e =>
      have ⟨v, hv, hw⟩ := h.stored hi
      rw [hw, hx i _ _ hi, hv]

-- Items that together gather picked variables on the way to the internal problem, and scatter them
-- over a base on the way back.
inductive Composes (s : Store α) : List (Transformation α) → List Nat → List α → Prop
  | nil (base : List α) : Composes s [] (List.range base.length) base
  | remover {r items picks base mask values} (hr : r.Holds mask values s)
    (hl : base.length = r.freeIndices.length) (h : Composes s items picks base) :
    Composes s (.remover r :: items) (gather r.freeIndices picks)
      (scatter r.freeIndices base values)
  | relaxer {items picks base} (q : Relaxer α) (h : Composes s items picks base) :
    Composes s (.relaxer q :: items) picks base
  | objective {items picks base} (m : ObjectiveMap α) (h : Composes s items picks base) :
    Composes s (.objective m :: items) picks base

namespace Composes

variable {items : List (Transformation α)} {picks : List Nat} {base : List α}

theorem nodup (h : Composes s items picks base) : picks.Nodup := by
  induction h
  case nil => exact List.nodup_range
  case remover hr _ _ hi => exact nodup_gather (hr.freeIndices ▸ clearPositions_nodup _) hi
  case relaxer hi => exact hi
  case objective hi => exact hi

theorem lt (h : Composes s items picks base) : ∀ i ∈ picks, i < base.length := by
  induction h
  case nil => exact fun _ => List.mem_range.mp
  case remover hr _ _ _ =>
    intro i hi
    have ⟨_, _, hk⟩ := mem_gather.mp hi
    rw [length_scatter, hr.length_values]
    exact hr.toIntact.freeIndices_lt (List.mem_of_getElem? hk)
  case relaxer hi => exact hi
  case objective hi => exact hi

theorem preserves (h : Composes s items picks base) (hp : Preserves made s t)
    (hsub : ∀ item ∈ items, item ∈ made) : Composes t items picks base := by
  induction h
  case nil base => exact .nil base
  case remover hr hl _ hi =>
    have ⟨hm, hsub⟩ := List.forall_mem_cons.mp hsub
    exact .remover { hp.intact hm hr.toIntact with fixedValues := hr.fixedValues } hl (hi hsub)
  case relaxer q _ hi => exact .relaxer q (hi (List.forall_mem_cons.mp hsub).right)
  case objective m _ hi => exact .objective m (hi (List.forall_mem_cons.mp hsub).right)

-- The variables that are not picked are those that some remover eliminates.
theorem mem_iff (h : Composes s items picks base) {i : Nat} (hi : i < base.length) :
    i ∈ picks ↔ eliminator? items i = none := by
  induction h generalizing i
  case nil => simpa [eliminator?] using hi
  case remover r items picks base mask values hr hl h ih =>
    rw [length_scatter, hr.length_values] at hi
    have hfix := hr.fixedIndices
    have hfree := hr.freeIndices
    rw [eliminator?, mem_gather]
    split
    case isTrue hm =>
      have hnot : i ∉ r.freeIndices := hfree ▸ not_mem_clearPositions (hfix ▸ hm)
      simp only [reduceCtorEq, iff_false]
      intro ⟨_, _, hk⟩
      exact hnot (List.mem_of_getElem? hk)
    case isFalse hm =>
      have hm : i ∈ r.freeIndices :=
        hfree ▸ (mem_positions_or hi).resolve_left fun hs => hm (hfix ▸ hs)
      have hk := List.getElem?_idxOf hm
      rw [if_pos hm, ← ih (hl ▸ List.idxOf_lt_length_of_mem hm)]
      constructor
      case mp =>
        intro ⟨q, hq, hqi⟩
        have hd : r.freeIndices.Nodup := hfree ▸ clearPositions_nodup mask
        have ⟨_, hqi⟩ := List.getElem?_eq_some_iff.mp hqi
        rwa [← hqi, hd.idxOf_getElem]
      case mpr => exact fun hm => ⟨_, hm, hk⟩
  case relaxer ih => exact ih hi
  case objective ih => exact ih hi

-- At the others, the base holds what the remover stored.
theorem stored (h : Composes s items picks base) {i k : Nat} {r : Remover α}
    (he : eliminator? items i = some (r, k)) :
    i < base.length ∧ ∃ v, r.fixedValues[k]? = some v ∧ base[i]? = some v := by
  induction h generalizing i
  case nil => cases he
  case remover r items picks base mask values hr hl h ih =>
    have hfix := hr.fixedIndices
    have hfree := hr.freeIndices
    rw [eliminator?] at he
    rw [length_scatter]
    split at he
    case isTrue hm =>
      cases he
      have hset := hfix ▸ hm
      have hi : i < values.length := hr.length_values ▸ setPositions_lt hset
      have hv := List.getElem?_eq_getElem hi
      refine ⟨hi, values[i], ?_, ?_⟩
      · rw [hr.fixedValues, ← hfix, getElem?_gather_of _ (List.getElem?_idxOf hm), hv]
        exact fun j hj => hr.length_values ▸ setPositions_lt (hfix ▸ hj)
      · rw [getElem?_scatter_of_not_mem (hfree ▸ not_mem_clearPositions hset), hv]
    case isFalse =>
      split at he
      case isFalse => cases he
      case isTrue hm =>
        have hi : i < values.length := hr.length_values ▸ hr.toIntact.freeIndices_lt hm
        have ⟨_, v, hv, hb⟩ := ih he
        refine ⟨hi, v, hv, ?_⟩
        rw [getElem?_scatter (hfree ▸ clearPositions_nodup mask) hl (List.getElem?_idxOf hm) hi, hb]
  case relaxer ih => exact ih he
  case objective ih => exact ih he

theorem completes (h : Composes s items picks base) {xs : List α} (hx : xs.length = base.length) :
    Completes items xs (scatter picks (gather xs picks) base) := by
  have hlt : ∀ i ∈ picks, i < xs.length := fun i hi => hx ▸ h.lt i hi
  have hlen := length_scatter picks (gather xs picks) base
  constructor
  case length => rw [hlen, hx]
  case kept =>
    intro i he
    by_cases hi : i < base.length
    case neg => rw [List.getElem?_eq_none (by omega), List.getElem?_eq_none (by omega)]
    case pos =>
      have ⟨k, hk⟩ := List.getElem?_of_mem ((h.mem_iff hi).mpr he)
      rw [getElem?_scatter h.nodup (length_gather hlt) hk hi, getElem?_gather_of hlt hk]
  case stored =>
    intro i k r he
    have ⟨hi, v, hv, hb⟩ := h.stored he
    have hm : i ∉ picks := fun hm => by simp [(h.mem_iff hi).mp hm] at he
    exact ⟨v, hv, by rw [getElem?_scatter_of_not_mem hm, hb]⟩

section

variable (hs : Separate made) (hsub : ∀ item ∈ items, item ∈ made) {v : View}

include hs hsub

theorem pointToInternal_run (h : Composes s items picks base) (hx : v.shape = [base.length])
    (hv : s.Valid v) : ∃ w t,
      items.foldlM (fun v item => item.pointToInternal v) v s = (.ok w, t) ∧
        w.shape = [picks.length] ∧ t.Valid w ∧ t.entries w = gather (s.entries v) picks ∧
        Preserves made s t := by
  have hlen : (s.entries v).length = base.length :=
    Store.length_entries_of_shape hv hx
  induction items generalizing s picks base v
  case nil =>
    cases h
    refine ⟨v, s, rfl, by simpa using hx, hv, ?_, .refl made s⟩
    rw [← hlen, gather_range]
  case cons item items ih =>
    have ⟨hm, hrest⟩ := List.forall_mem_cons.mp hsub
    rw [List.foldlM_cons]
    cases h
    case remover r picks base mask values hr hl h =>
      rw [length_scatter, hr.length_values] at hlen
      have ⟨t, ht, he, _, hr'⟩ := Remover.toInternal_run hr.toIntact hlen
      have ht : (Transformation.remover r).pointToInternal v s = (.ok r.internalPoint, t) := ht
      have hp := (pointToInternal_preserves hs hm v).of_run ht
      have hshape : r.internalPoint.shape = [base.length] := by
        rw [hr.internalPoint.left, hl, hr.freeIndices]
      have ⟨w, u, hu, hwshape, hwv, hwe, hp'⟩ := ih hrest (h.preserves hp hrest) hshape
        hr'.internalPoint.valid (by rw [he, length_restrict hlen, hl, hr.freeIndices])
      refine ⟨w, u, ?_, ?_, hwv, ?_, hp.trans hp'⟩
      · rw [bind_of_ok ht, hu]
      · rw [hwshape, length_gather fun i hi => hl ▸ h.lt i hi]
      · rw [hwe, he, restrict, ← hr.freeIndices, gather_gather]
        exact fun i hi => hlen ▸ hr.toIntact.freeIndices_lt hi
    case relaxer h => exact ih hrest h hx hv hlen
    case objective h => exact ih hrest h hx hv hlen

theorem pointToUser_run (h : Composes s items picks base) (hy : v.shape = [picks.length])
    (hv : s.Valid v) : ∃ w t,
      items.reverse.foldlM (fun v item => item.pointToUser v) v s = (.ok w, t) ∧
        w.shape = [base.length] ∧ t.Valid w ∧ t.entries w = scatter picks (s.entries v) base ∧
        Preserves made s t := by
  have hlen : (s.entries v).length = picks.length :=
    Store.length_entries_of_shape hv hy
  induction items generalizing picks base
  case nil =>
    cases h
    refine ⟨v, s, rfl, by simpa using hy, hv, ?_, .refl made s⟩
    rw [scatter_range (by simpa using hlen)]
  case cons item items ih =>
    obtain ⟨hm, hrest⟩ := List.forall_mem_cons.mp hsub
    rw [List.reverse_cons, List.foldlM_append]
    cases h
    case remover r picks base mask values hr hl h =>
      have hlt : ∀ i ∈ picks, i < r.freeIndices.length := fun i hi => hl ▸ h.lt i hi
      have hd : r.freeIndices.Nodup := hr.freeIndices ▸ clearPositions_nodup mask
      rw [length_gather hlt] at hy hlen
      obtain ⟨w, t, ht, hshape, hwv, he, hp⟩ := ih hrest h hy hlen
      obtain ⟨u, hu, hue, _, hr'⟩ := Remover.toUser_run (hp.intact hm hr.toIntact)
        (by rw [hshape, hl, hr.freeIndices]) hwv
      have hu : (Transformation.remover r).pointToUser w t = (.ok r.userPoint, u) := hu
      have hp' := (pointToUser_preserves hs hm w).of_run hu
      refine ⟨r.userPoint, u, ?_, ?_, hr'.userPoint.valid, ?_, hp.trans hp'⟩
      · rw [bind_of_ok ht, List.foldlM_cons, bind_of_ok hu]
        rfl
      · rw [hr'.userPoint.left, length_scatter, hr.length_values]
      · rw [hue, he, expand, ← hr.freeIndices, scatter_scatter hd h.nodup hlt hl hlen]
    case relaxer h =>
      obtain ⟨w, t, ht, hw⟩ := ih hrest h hy hlen
      exact ⟨w, t, by rw [bind_of_ok ht]; rfl, hw⟩
    case objective h =>
      obtain ⟨w, t, ht, hw⟩ := ih hrest h hy hlen
      exact ⟨w, t, by rw [bind_of_ok ht]; rfl, hw⟩

end

end Composes

end Transformation
end NonlinearProgram
