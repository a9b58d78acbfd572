import NonlinearProgram.Proofs.Store
import NonlinearProgram.Transformation.Chain

namespace NonlinearProgram

variable {α : Type} {s t : Store α} {mask : List Bool} {values xs ys zs : List α}

-- The user's point in which the masked variables have given values and the others those of an
-- internal point.
def expand (mask : List Bool) (values ys : List α) : List α :=
  scatter (clearPositions mask) ys values

-- The internal point that a user's point has without its masked variables.
def restrict (mask : List Bool) (xs : List α) : List α :=
  gather xs (clearPositions mask)

theorem length_expand (mask : List Bool) (values ys : List α) :
    (expand mask values ys).length = values.length :=
  length_scatter ..

theorem length_restrict (h : xs.length = mask.length) :
    (restrict mask xs).length = (clearPositions mask).length :=
  length_gather fun _ hi => h ▸ clearPositions_lt hi

theorem getElem?_expand_of_set {i : Nat} (h : mask[i]? = some true) :
    (expand mask values ys)[i]? = values[i]? :=
  getElem?_scatter_of_not_mem (not_mem_clearPositions (mem_setPositions.mpr h)) ..

theorem getElem?_expand_of_clear (hv : values.length = mask.length)
    (hy : ys.length = (clearPositions mask).length) {i k : Nat}
    (h : (clearPositions mask)[k]? = some i) : (expand mask values ys)[i]? = ys[k]? := by
  have hi := clearPositions_lt (List.mem_of_getElem? h)
  exact getElem?_scatter (clearPositions_nodup mask) hy h (by omega)

theorem restrict_expand (hv : values.length = mask.length)
    (hy : ys.length = (clearPositions mask).length) : restrict mask (expand mask values ys) = ys :=
  gather_scatter (clearPositions_nodup mask) hy fun _ hi => hv ▸ clearPositions_lt hi

-- A point is made of its unmasked part if its masked entries have the given values.
theorem expand_restrict (hv : values.length = mask.length) (hx : xs.length = mask.length)
    (h : ∀ i ∈ setPositions mask, values[i]? = xs[i]?) :
    expand mask values (restrict mask xs) = xs := by
  apply List.ext_getElem?
  intro i
  by_cases hi : i < mask.length
  case neg =>
    rw [List.getElem?_eq_none (by rw [length_expand]; omega), List.getElem?_eq_none (by omega)]
  case pos =>
    cases mem_positions_or hi
    case inl hs => rw [getElem?_expand_of_set (mem_setPositions.mp hs), h i hs]
    case inr hc =>
      have ⟨k, hk⟩ := List.getElem?_of_mem hc
      rw [getElem?_expand_of_clear hv (length_restrict hx) hk, restrict,
        getElem?_gather fun _ hi => hx ▸ clearPositions_lt hi, hk, Option.bind_some]

theorem restrict_replicate {n : Nat} (hx : xs.length = n) :
    restrict (List.replicate n false) xs = xs := by
  rw [restrict, clearPositions_replicate, ← hx, gather_range]

theorem expand_replicate {n : Nat} (hv : values.length = n) (hy : ys.length = n) :
    expand (List.replicate n false) values ys = ys := by
  subst hv
  rw [expand, clearPositions_replicate, scatter_range hy]

-- Gathering along the only axis is gathering entries.
theorem Tensor.gather?_of_shape {x : Tensor α} {n : Nat} {picks : List Nat} (hs : x.shape = [n])
    (hl : x.entries.length = n) (hp : picks.all (· < n)) :
    x.gather? picks = some (Tensor.ofList (gather x.entries picks)) := by
  have hlt : ∀ i ∈ picks, i < x.entries.length := by
    simpa [hl, List.all_eq_true] using hp
  have hg : picks.flatMap (fun i => (x.entries.drop i).take 1) = gather x.entries picks := by
    clear hp
    induction picks
    case nil => rfl
    case cons i picks hi =>
      have ⟨h, hlt⟩ := List.forall_mem_cons.mp hlt
      rw [List.flatMap_cons, hi hlt, gather_cons, List.take_one, List.head?_drop]
  have hb : sizeOf [] = 1 := rfl
  simp only [gather?, hs, hp, if_true, hb, Nat.mul_one, hg, Tensor.ofList, length_gather hlt]

namespace Remover

-- A remover of the masked variables whose scratch arrays are its own and hold the fixed values.
structure Intact (r : Remover α) (mask : List Bool) (values : List α) (s : Store α) : Prop where
  fixedIndices : r.fixedIndices = setPositions mask
  freeIndices : r.freeIndices = clearPositions mask
  length_values : values.length = mask.length
  userPoint : s.Owns r.userPoint [mask.length]
  internalPoint : s.Owns r.internalPoint [(clearPositions mask).length]
  userMultipliers : s.Owns r.userMultipliers [mask.length]
  distinct : r.internalPoint.buffer ≠ r.userPoint.buffer ∧
    r.userMultipliers.buffer ≠ r.userPoint.buffer
  held : ∀ i ∈ setPositions mask, (s.entries r.userPoint)[i]? = values[i]?

-- The arrays that are overwritten by one call after another.
def scratch (r : Remover α) : List View := [r.userPoint, r.internalPoint, r.userMultipliers]

variable {r : Remover α} {x v : View}

namespace Intact

theorem freeIndices_lt (h : r.Intact mask values s) {i : Nat} (hi : i ∈ r.freeIndices) :
    i < mask.length :=
  clearPositions_lt (h.freeIndices ▸ hi)

theorem writes {touched : Nat → Prop} (h : r.Intact mask values s) (hw : s.Writes touched t)
    (hk : ∀ i ∈ setPositions mask, (t.entries r.userPoint)[i]? = (s.entries r.userPoint)[i]?) :
    r.Intact mask values t :=
  { h with
    userPoint := h.userPoint.writes hw
    internalPoint := h.internalPoint.writes hw
    userMultipliers := h.userMultipliers.writes hw
    held := fun i hi => (hk i hi).trans (h.held i hi) }

theorem writes_of_not_touched {touched : Nat → Prop} (h : r.Intact mask values s)
    (hw : s.Writes touched t) (hk : ¬touched r.userPoint.buffer) : r.Intact mask values t := by
  apply h.writes hw
  intro i _
  rw [hw.entries h.userPoint.valid hk]

end Intact

-- A point that is stretched to the free variables is put between the fixed values.
theorem toUser_of_stretched {y : Tensor α} {t : Store α} (h : r.Intact mask values s)
    (hy : (s.read x).stretchedToSelection? [(clearPositions mask).length] = some y)
    (hl : y.entries.length = (clearPositions mask).length)
    (ht : t = s.scatter r.userPoint (clearPositions mask) y.entries) :
    r.toUser x s = (.ok r.userPoint, t) ∧ t.entries r.userPoint = expand mask values y.entries ∧
      r.Intact mask values t := by
  subst ht
  have hu : (s.scatter r.userPoint (clearPositions mask) y.entries).entries r.userPoint = _ :=
    Store.entries_scatter h.userPoint.valid (clearPositions mask)
  refine ⟨?_, ?_, h.writes (.scatter rfl) fun i hi => ?_⟩
  · rw [← h.freeIndices] at hy ⊢
    rw [toUser, Program.bind_of_ok (StoreM.read_run x s),
      Program.bind_of_ok (StoreM.assignAt_of_stretched h.userPoint.writable hy)]
    rfl
  · rw [hu]
    refine scatter_clear_congr hl ?_ h.length_values h.held
    exact Store.length_entries_of_shape h.userPoint.valid h.userPoint.left
  · rw [hu, getElem?_scatter_of_not_mem (not_mem_clearPositions hi)]

theorem toUser_of_not_stretched (h : r.Intact mask values s)
    (hx : (s.read x).stretchedToSelection? [(clearPositions mask).length] = none) :
    r.toUser x s = (.error .shapeMismatch, s) := by
  rw [← h.freeIndices] at hx
  rw [toUser, Program.bind_of_ok (StoreM.read_run x s),
    Program.bind_of_error (StoreM.assignAt_of_not_stretched h.userPoint.writable hx)]

theorem toUser_run (h : r.Intact mask values s) (hx : x.shape = [(clearPositions mask).length])
    (hv : s.Valid x) : ∃ t, r.toUser x s = (.ok r.userPoint, t) ∧
      t.entries r.userPoint = expand mask values (s.entries x) ∧
      s.Writes (· = r.userPoint.buffer) t ∧ r.Intact mask values t := by
  have hl := Store.length_entries_of_shape hv hx
  obtain ⟨hr, he, hi⟩ :=
    r.toUser_of_stretched h (Tensor.stretchedToSelection?_of_shape hx) hl rfl
  exact ⟨_, hr, he, .scatter rfl, hi⟩

theorem toInternal_run (h : r.Intact mask values s) (hx : (s.entries x).length = mask.length) :
    ∃ t, r.toInternal x s = (.ok r.internalPoint, t) ∧
      t.entries r.internalPoint = restrict mask (s.entries x) ∧
      s.Writes (· = r.internalPoint.buffer) t ∧ r.Intact mask values t := by
  have hl : (gather (s.entries x) r.freeIndices).length = (clearPositions mask).length := by
    rw [h.freeIndices, ← length_restrict hx, restrict]
  have hb : r.freeIndices.all (· < (s.entries x).length) := by
    rw [List.all_eq_true]
    intro i hi
    simpa [hx] using h.freeIndices_lt hi
  have hs : (Tensor.ofList (gather (s.entries x) r.freeIndices)).shape = r.internalPoint.shape := by
    rw [h.internalPoint.left, ← hl]
    rfl
  have hw : s.Writes (· = r.internalPoint.buffer)
      (s.setEntries r.internalPoint (gather (s.entries x) r.freeIndices)) := .setEntries rfl
  refine ⟨_, ?_, ?_, hw, h.writes_of_not_touched hw (Ne.symm h.distinct.left)⟩
  · rw [toInternal, Program.bind_of_ok (StoreM.entries_run x s), if_pos hb, Program.bind_of_ok
      (StoreM.assign_run h.internalPoint.writable hs (by simp [h.internalPoint.left]))]
    rfl
  · rw [Store.entries_setEntries h.internalPoint.valid, h.freeIndices, restrict]
    rw [hl, View.size_of_shape h.internalPoint.left]

-- The array of the multipliers is cleared before anything is read.
def cleared [Zero α] (r : Remover α) (s : Store α) : Store α :=
  s.setEntries r.userMultipliers (List.replicate r.userMultipliers.size 0)

theorem cleared_writes [Zero α] (r : Remover α) (s : Store α) :
    s.Writes (· = r.userMultipliers.buffer) (r.cleared s) :=
  .setEntries rfl

-- Multipliers that are stretched to the free variables are put between zeros.
theorem multipliersToUser_of_stretched [Zero α] {z : Tensor α} (h : r.Intact mask values s)
    (hz : ((r.cleared s).read v).stretchedToSelection? [(clearPositions mask).length] = some z) :
    ∃ t, r.multipliersToUser v s = (.ok r.userMultipliers, t) ∧
      t.entries r.userMultipliers = expand mask (List.replicate mask.length 0) z.entries ∧
      s.Writes (· = r.userMultipliers.buffer) t ∧ r.Intact mask values t := by
  rw [← h.freeIndices] at hz
  have ho := h.userMultipliers.writes (r.cleared_writes s)
  have hput : (r.cleared s).Writes (· = r.userMultipliers.buffer)
      ((r.cleared s).scatter r.userMultipliers r.freeIndices z.entries) := .scatter rfl
  have hw := (r.cleared_writes s).and_then hput
  refine ⟨_, ?run, ?entries, hw, h.writes_of_not_touched hw (Ne.symm h.distinct.right)⟩
  case run =>
    rw [multipliersToUser, Program.bind_of_ok (StoreM.fill_run h.userMultipliers.writable 0),
      Program.bind_of_ok (StoreM.read_run v _), ← cleared,
      Program.bind_of_ok (StoreM.assignAt_of_stretched ho.writable hz)]
    rfl
  case entries =>
    rw [Store.entries_scatter ho.valid, cleared,
      Store.entries_setEntries h.userMultipliers.valid (by simp), h.freeIndices,
      View.size_of_shape h.userMultipliers.left, expand]

-- The multipliers of the eliminated variables are zero.
theorem multipliersToUser_run [Zero α] (h : r.Intact mask values s)
    (hv : v.shape = [(clearPositions mask).length]) (hs : s.Valid v)
    (hne : v.buffer ≠ r.userMultipliers.buffer) :
    ∃ t, r.multipliersToUser v s = (.ok r.userMultipliers, t) ∧
      t.entries r.userMultipliers =
        expand mask (List.replicate mask.length 0) (s.entries v) ∧
      s.Writes (· = r.userMultipliers.buffer) t ∧ r.Intact mask values t := by
  obtain ⟨t, hrun, he, hw, hi⟩ :=
    r.multipliersToUser_of_stretched h (Tensor.stretchedToSelection?_of_shape hv)
  have hkept : (r.cleared s).entries v = s.entries v := (r.cleared_writes s).entries hs hne
  exact ⟨t, hrun, hkept ▸ he, hw, hi⟩

-- Vectors that are stretched to the free variables are taken, whatever they hold, and no others.
theorem multipliersToUser_takes [Zero α] {k : Nat} (h : r.Intact mask values s)
    (hv : v.shape = [k]) (hk : k = (clearPositions mask).length ∨ k = 1) :
    ∃ t, r.multipliersToUser v s = (.ok r.userMultipliers, t) ∧
      s.Writes (· = r.userMultipliers.buffer) t ∧ r.Intact mask values t := by
  have hz : (((r.cleared s).read v).stretchedToSelection? [(clearPositions mask).length]).isSome :=
    (Tensor.isSome_stretchedToSelection? hv).mpr hk
  obtain ⟨z, hz⟩ := Option.isSome_iff_exists.mp hz
  obtain ⟨t, hrun, _, hw, hi⟩ := r.multipliersToUser_of_stretched h hz
  exact ⟨t, hrun, hw, hi⟩

theorem multipliersToUser_refuses [Zero α] {k : Nat} (h : r.Intact mask values s)
    (hv : v.shape = [k]) (hk : ¬(k = (clearPositions mask).length ∨ k = 1)) :
    ∃ t, r.multipliersToUser v s = (.error .shapeMismatch, t) := by
  have hz : ((r.cleared s).read v).stretchedToSelection? [r.freeIndices.length] = none := by
    rw [← Option.not_isSome_iff_eq_none, Tensor.isSome_stretchedToSelection? hv, h.freeIndices]
    exact hk
  have ho := h.userMultipliers.writes (r.cleared_writes s)
  refine ⟨r.cleared s, ?_⟩
  rw [multipliersToUser, Program.bind_of_ok (StoreM.fill_run h.userMultipliers.writable 0),
    Program.bind_of_ok (StoreM.read_run v _)]
  exact Program.bind_of_error (StoreM.assignAt_of_not_stretched ho.writable hz) _

theorem gatherNew_run (h : r.Intact mask values s) (hv : v.shape = [mask.length])
    (hs : s.Valid v) :
    r.gatherNew v s = StoreM.alloc (Tensor.ofList (restrict mask (s.entries v))) s := by
  have hl : (s.entries v).length = mask.length :=
    Store.length_entries_of_shape hs hv
  have hg := Tensor.gather?_of_shape (x := s.read v) hv hl
    (List.all_eq_true.mpr fun i hi => by simpa using h.freeIndices_lt hi)
  rw [gatherNew, Program.bind_of_ok (StoreM.read_run v s), restrict, ← h.freeIndices]
  simp only [hg]
  rfl

theorem create_buffers [Zero α] (mask : List Bool) (values : List α) (s : Store α) :
    (create mask values s).2.buffers = s.buffers ++ [
      ⟨scatter (setPositions mask) (gather values (setPositions mask))
        (List.replicate mask.length 0), [mask.length], true⟩,
      ⟨List.replicate (clearPositions mask).length 0, [(clearPositions mask).length], true⟩,
      ⟨List.replicate mask.length 0, [mask.length], true⟩] := by
  simp [create, Store.scatter_eq_update, Store.update, Store.alloc, Tensor.ofList,
    Store.modify_append_last]

theorem create_views [Zero α] (mask : List Bool) (values : List α) (s : Store α) :
    (create mask values s).1.userPoint = ⟨s.buffers.length, [mask.length]⟩ ∧
      (create mask values s).1.internalPoint =
        ⟨s.buffers.length + 1, [(clearPositions mask).length]⟩ ∧
      (create mask values s).1.userMultipliers = ⟨s.buffers.length + 2, [mask.length]⟩ := by
  simp [create, Store.alloc, Tensor.ofList, Store.scatter_eq_update, Store.update]

theorem create_intact [Zero α] (s : Store α) (h : values.length = mask.length) :
    (create mask values s).1.Intact mask values (create mask values s).2 := by
  have hb := create_buffers mask values s
  have ⟨hp, hi, hm⟩ := create_views mask values s
  constructor
  case fixedIndices => rfl
  case freeIndices => rfl
  case length_values => exact h
  case userPoint => simp [Store.Owns, hp, hb, View.size, Tensor.sizeOf, length_scatter]
  case internalPoint => simp [Store.Owns, hi, hb, View.size, Tensor.sizeOf]
  case userMultipliers => simp [Store.Owns, hm, hb, View.size, Tensor.sizeOf]
  case distinct => simp [hp, hi, hm]
  case held =>
    intro i hi
    obtain ⟨k, hk⟩ := List.getElem?_of_mem hi
    have hg : ∀ i ∈ setPositions mask, i < values.length := fun _ hi => h ▸ setPositions_lt hi
    have hs : (scatter (setPositions mask) (gather values (setPositions mask))
        (List.replicate mask.length 0))[i]? = values[i]? := by
      rw [getElem?_scatter (setPositions_nodup mask) (length_gather hg) hk
        (by simpa using setPositions_lt hi), getElem?_gather hg, hk, Option.bind_some]
    simpa [Store.entries, hp, hb, View.size, Tensor.sizeOf, setPositions_lt hi] using hs

open Program StoreM

-- Each map overwrites one of the scratch arrays, if any.
theorem toInternal_writes (r : Remover α) (x : View) :
    Keeps (Store.Writes (· = r.internalPoint.buffer)) (r.toInternal x) := by
  refine bind_writes (entries_writes x) fun xs => ?_
  split
  case isTrue => exact bind_writes (assign_writes _ rfl) fun _ => pure_writes _
  case isFalse => exact throw_writes _

theorem toUser_writes (r : Remover α) (x : View) :
    Keeps (Store.Writes (· = r.userPoint.buffer)) (r.toUser x) :=
  bind_writes (read_writes x) fun _ =>
    bind_writes (assignAt_writes _ _ rfl) fun _ => pure_writes _

theorem multipliersToUser_writes [Zero α] (r : Remover α) (z : View) :
    Keeps (Store.Writes (· = r.userMultipliers.buffer)) (r.multipliersToUser z) :=
  bind_writes (fill_writes _ rfl) fun _ => bind_writes (read_writes z) fun _ =>
    bind_writes (assignAt_writes _ _ rfl) fun _ => pure_writes _

theorem gatherNew_writes (r : Remover α) (v : View) :
    Keeps (Store.Writes fun _ => False) (r.gatherNew v) := by
  refine bind_writes (read_writes v) fun x => ?_
  cases x.gather? r.freeIndices
  case none => exact throw_writes _
  case some => exact alloc_writes _

theorem jacobianToInternal_writes (r : Remover α) (v : View) :
    Keeps (Store.Writes fun _ => False) (r.jacobianToInternal v) := by
  refine bind_writes (read_writes v) fun x => ?_
  cases x.gatherColumns? r.freeIndices
  case none => exact throw_writes _
  case some => exact alloc_writes _

end Remover

namespace Transformation

-- The arrays in which a transformation hands out points and multipliers.
def scratch : Transformation α → List View
  | .remover r => r.scratch
  | .relaxer _ | .objective _ => []

end Transformation

namespace Chain

def scratch (c : Chain α) : List View := c.items.flatMap Transformation.scratch

-- A chain that leaves every point as it is.
def Identical (c : Chain α) : Prop :=
  c.items = [] ∨ ∃ r, c.items = [.relaxer r]

-- A chain that eliminates the masked variables and no others, with at most one item.
inductive Eliminates (mask : List Bool) (values : List α) (s : Store α) (c : Chain α) : Prop
  | kept (hi : c.Identical) (hm : mask = List.replicate mask.length false)
      (hv : values.length = mask.length)
  | removed (r : Remover α) (hi : c.items = [.remover r]) (hr : r.Intact mask values s)

variable {c : Chain α} {x v : View}

theorem Identical.foldlM {f : View → Transformation α → StoreM α View} (h : c.Identical)
    (hf : ∀ r v s, f v (.relaxer r) s = (.ok v, s)) (v : View) (s : Store α) :
    c.items.foldlM f v s = (.ok v, s) ∧ c.items.reverse.foldlM f v s = (.ok v, s) := by
  cases h
  case inl h => simp [h]
  case inr h =>
    have ⟨r, h⟩ := h
    simp [h, Program.bind_run, hf]

theorem pointToUser_of_remover [Scalar α] {r : Remover α} (hi : c.items = [.remover r]) (x : View)
    (s : Store α) : c.pointToUser x s = r.toUser x s := by
  simp only [pointToUser, hi, List.reverse_singleton, List.foldlM_cons, List.foldlM_nil,
    Transformation.pointToUser, Program.bind_run]
  rcases r.toUser x s with ⟨_ | _, _⟩ <;> rfl

theorem mem_scratch_of_remover {r : Remover α} (hi : c.items = [.remover r]) {w : View}
    (hw : w ∈ r.scratch) : w ∈ c.scratch := by
  simpa [scratch, hi, Transformation.scratch] using hw

namespace Eliminates

theorem scratch_valid (h : c.Eliminates mask values s) {w : View} (hw : w ∈ c.scratch) :
    s.Valid w ∧ s.writable w := by
  cases h
  case kept hi _ _ =>
    cases hi
    case inl hi => simp [scratch, hi] at hw
    case inr hi =>
      have ⟨r, hi⟩ := hi
      simp [scratch, hi, Transformation.scratch] at hw
  case removed r hi hr =>
    simp only [scratch, hi, List.flatMap_cons, List.flatMap_nil, List.append_nil,
      Transformation.scratch, Remover.scratch, List.mem_cons, List.not_mem_nil, or_false] at hw
    cases hw
    case inl hw => exact hw ▸ ⟨hr.userPoint.valid, hr.userPoint.writable⟩
    case inr hw =>
      cases hw
      case inl hw => exact hw ▸ ⟨hr.internalPoint.valid, hr.internalPoint.writable⟩
      case inr hw => exact hw ▸ ⟨hr.userMultipliers.valid, hr.userMultipliers.writable⟩

-- A change that touches no scratch array of the chain does not matter to it.
theorem writes {touched : Nat → Prop} (h : c.Eliminates mask values s) (hw : s.Writes touched t)
    (hk : ∀ w ∈ c.scratch, ¬touched w.buffer) : c.Eliminates mask values t := by
  cases h
  case kept hi hm hv => exact .kept hi hm hv
  case removed r hi hr =>
    refine .removed r hi (hr.writes_of_not_touched hw (hk _ ?_))
    simp [scratch, hi, Transformation.scratch, Remover.scratch]

end Eliminates

theorem length_clear_of_kept (hm : mask = List.replicate mask.length false) :
    (clearPositions mask).length = mask.length := by
  rw [hm, clearPositions_replicate, List.length_range, List.length_replicate]

theorem pointToUser_run (h : c.Eliminates mask values s)
    (hx : x.shape = [(clearPositions mask).length]) (hv : s.Valid x) :
    ∃ w t, c.pointToUser x s = (.ok w, t) ∧ w.shape = [mask.length] ∧ t.Valid w ∧
      t.entries w = expand mask values (s.entries x) ∧
      s.Writes (· ∈ c.scratch.map View.buffer) t ∧ c.Eliminates mask values t ∧
      (w = x ∨ w ∈ c.scratch) := by
  have hl := Store.length_entries_of_shape hv hx
  cases h
  case kept hi hm hv' =>
    have he := length_clear_of_kept hm
    refine ⟨x, s, ?_, he ▸ hx, hv, ?_, .refl .., .kept hi hm hv', .inl rfl⟩
    · exact (hi.foldlM (fun _ _ _ => rfl) x s).right
    · rw [hm, expand_replicate hv' (hl.trans he)]
  case removed r hi hr =>
    have ⟨t, ht, he, hw, hr'⟩ := r.toUser_run hr hx hv
    have hs : r.userPoint ∈ c.scratch := by
      simp [scratch, hi, Transformation.scratch, Remover.scratch]
    refine ⟨r.userPoint, t, ?_, hr'.userPoint.left, hr'.userPoint.valid, he, ?_, .removed r hi hr',
      .inr hs⟩
    · simp [pointToUser, hi, Program.bind_run, Transformation.pointToUser, ht]
    · exact hw.mono fun k hk => hk ▸ List.mem_map_of_mem hs

theorem pointToInternal_run (h : c.Eliminates mask values s) (hx : x.shape = [mask.length])
    (hv : s.Valid x) :
    ∃ w t, c.pointToInternal x s = (.ok w, t) ∧ t.entries w = restrict mask (s.entries x) ∧
      s.Writes (· ∈ c.scratch.map View.buffer) t ∧ c.Eliminates mask values t ∧
      w.shape = [(clearPositions mask).length] := by
  have hl := Store.length_entries_of_shape hv hx
  cases h
  case kept hi hm hv' =>
    refine ⟨x, s, (hi.foldlM (fun _ _ _ => rfl) x s).left, ?_, .refl .., .kept hi hm hv', ?_⟩
    · rw [hm, restrict_replicate hl]
    · rw [hx, length_clear_of_kept hm]
  case removed r hi hr =>
    have ⟨t, ht, he, hw, hr'⟩ := r.toInternal_run hr hl
    have hs : r.internalPoint ∈ c.scratch := by
      simp [scratch, hi, Transformation.scratch, Remover.scratch]
    refine ⟨r.internalPoint, t, ?_, he, ?_, .removed r hi hr', hr'.internalPoint.left⟩
    · simp [pointToInternal, hi, Program.bind_run, Transformation.pointToInternal, ht]
    · exact hw.mono fun k hk => hk ▸ List.mem_map_of_mem hs

-- Chains that eliminate the same variables select the same from arrays that hold the same. What is
-- selected is a new array, unless it is all there is.
theorem select_alike {c' : Chain α} {values' : List α} {s' : Store α} {v' : View}
    {pick : Tensor α → List Nat → Option (Tensor α)} {f : View → Transformation α → StoreM α View}
    (hkept : ∀ r v s, f v (.relaxer r) s = (.ok v, s))
    (hpick : ∀ r v s, f v (.remover r) s = match pick (s.read v) r.freeIndices with
      | some x => (.ok (s.alloc x).1, (s.alloc x).2)
      | none => (.error .indexOutside, s))
    (h : c.Eliminates mask values s) (h' : c'.Eliminates mask values' s')
    (hc : c'.Identical ↔ c.Identical) (hv : s'.read v' = s.read v) :
    (∃ e, c.items.foldlM f v s = (.error e, s) ∧ c'.items.foldlM f v' s' = (.error e, s')) ∨
      ∃ w w' t t', c.items.foldlM f v s = (.ok w, t) ∧ c'.items.foldlM f v' s' = (.ok w', t') ∧
        t'.read w' = t.read w ∧
        (t = s ∧ t' = s' ∨ ∃ x, t = (s.alloc x).2 ∧ t' = (s'.alloc x).2) := by
  cases h
  case kept hi _ _ =>
    have hi' := hc.mpr hi
    exact .inr ⟨v, v', s, s', (hi.foldlM hkept v s).left, (hi'.foldlM hkept v' s').left, hv,
      .inl ⟨rfl, rfl⟩⟩
  case removed r hi hr =>
    cases h'
    case kept hi' _ _ => simpa [Identical, hi] using hc.mp hi'
    case removed r' hi' hr' =>
      simp only [hi, hi', List.foldlM_cons, List.foldlM_nil, Program.bind_run, hpick, hv,
        hr.freeIndices, hr'.freeIndices]
      cases pick (s.read v) (clearPositions mask)
      case none => exact .inl ⟨_, rfl, rfl⟩
      case some x =>
        refine .inr ⟨_, _, _, _, rfl, rfl, ?_, .inr ⟨x, rfl, rfl⟩⟩
        simp [Store.read, Store.entries, Store.alloc, View.size]

variable [Scalar α]

theorem multipliersToUser_run (h : c.Eliminates mask values s)
    (hv : v.shape = [(clearPositions mask).length]) (hs : s.Valid v)
    (hf : ∀ w ∈ c.scratch, v.buffer ≠ w.buffer) :
    ∃ w t, c.multipliersToUser v s = (.ok w, t) ∧
      t.entries w = expand mask (List.replicate mask.length 0) (s.entries v) ∧
      s.Writes (· ∈ c.scratch.map View.buffer) t ∧ c.Eliminates mask values t := by
  have hl := Store.length_entries_of_shape hs hv
  cases h
  case kept hi hm hv' =>
    refine ⟨v, s, (hi.foldlM (fun _ _ _ => rfl) v s).right, ?_, .refl .., .kept hi hm hv'⟩
    rw [hm, expand_replicate (by simp)]
    simpa using hl.trans (length_clear_of_kept hm)
  case removed r hi hr =>
    have hm : r.userMultipliers ∈ c.scratch := by
      simp [scratch, hi, Transformation.scratch, Remover.scratch]
    have ⟨t, ht, he, hw, hr'⟩ := r.multipliersToUser_run hr hv hs (hf _ hm)
    refine ⟨r.userMultipliers, t, ?_, he, ?_, .removed r hi hr'⟩
    · simp [multipliersToUser, hi, Program.bind_run, Transformation.multipliersToUser, ht]
    · exact hw.mono fun k hk => hk ▸ List.mem_map_of_mem hm

-- A chain that leaves every point as it is takes multipliers of any number. One that eliminates
-- variables takes those of all others, or one for all of them.
def Takes (c : Chain α) (mask : List Bool) (k : Nat) : Prop :=
  c.Identical ∨ k = (clearPositions mask).length ∨ k = 1

theorem multipliersToUser_takes {k : Nat} (h : c.Eliminates mask values s) (hv : v.shape = [k])
    (hk : c.Takes mask k) :
    ∃ w t, c.multipliersToUser v s = (.ok w, t) ∧
      s.Writes (· ∈ c.scratch.map View.buffer) t ∧ c.Eliminates mask values t := by
  cases h
  case kept hi hm hv' =>
    exact ⟨v, s, (hi.foldlM (fun _ _ _ => rfl) v s).right, .refl .., .kept hi hm hv'⟩
  case removed r hi hr =>
    have hk : k = (clearPositions mask).length ∨ k = 1 := by
      simpa [Takes, Identical, hi] using hk
    have ⟨t, ht, hw, hr'⟩ := r.multipliersToUser_takes hr hv hk
    have hm : r.userMultipliers ∈ c.scratch := by
      simp [scratch, hi, Transformation.scratch, Remover.scratch]
    refine ⟨r.userMultipliers, t, ?_, ?_, .removed r hi hr'⟩
    · simp [multipliersToUser, hi, Program.bind_run, Transformation.multipliersToUser, ht]
    · exact hw.mono fun k hk => hk ▸ List.mem_map_of_mem hm

theorem multipliersToUser_refuses {k : Nat} (h : c.Eliminates mask values s) (hv : v.shape = [k])
    (hk : ¬c.Takes mask k) : ∃ t, c.multipliersToUser v s = (.error .shapeMismatch, t) := by
  cases h
  case kept hi _ _ => exact absurd (.inl hi) hk
  case removed r hi hr =>
    have ⟨t, ht⟩ := r.multipliersToUser_refuses hr hv fun h => hk (.inr h)
    refine ⟨t, ?_⟩
    simp [multipliersToUser, hi, Program.bind_run, Transformation.multipliersToUser, ht]

end Chain

namespace Relaxer

variable [Scalar α] {r : Relaxer α} {l u : View}

-- What a relaxation of vectors leaves behind: two new arrays for the bounds, and the widths in the
-- array of the relaxer.
structure Relaxed (r : Relaxer α) (l u : View) (s : Store α) (l' u' : View) (t : Store α) :
    Prop where
  run : r.relax l u s = (.ok (l', u'), t)
  lower : t.entries l' =
    (widenedBounds r.mask r.tolerance (s.entries l) (s.entries u)).map Prod.fst
  upper : t.entries u' =
    (widenedBounds r.mask r.tolerance (s.entries l) (s.entries u)).map Prod.snd
  shape_lower : l'.shape = [(t.entries l').length]
  shape_upper : u'.shape = [(t.entries u').length]
  gaps : r.lastGaps t =
    Tensor.ofList (widenedGaps r.mask r.tolerance (s.entries l) (s.entries u))
  rest : ∀ {k : Nat} {b : Buffer α}, s.buffers[k]? = some b → k ≠ r.gaps.buffer →
    t.buffers[k]? = some b

theorem relax_run (hl : l.shape = [r.size]) (hu : u.shape = [r.size])
    (hg : r.gaps.buffer < s.buffers.length) : ∃ l' u' t, r.Relaxed l u s l' u' t := by
  let bounds := widenedBounds r.mask r.tolerance (s.entries l) (s.entries u)
  let low := Tensor.ofList (bounds.map Prod.fst)
  let upp := Tensor.ofList (bounds.map Prod.snd)
  let gaps := Tensor.ofList (widenedGaps r.mask r.tolerance (s.entries l) (s.entries u))
  let t := ((s.alloc low).2.alloc upp).2
  have hr : r.relaxed (s.read l) (s.read u) = .ok (low, upp, gaps) := by
    simp [relaxed, Store.read, hl, hu, low, upp, gaps, bounds]
  have hw₁ : s.Writes (fun _ => False) (s.alloc low).2 := .alloc low
  have hw₂ : (s.alloc low).2.Writes (fun _ => False) t := .alloc upp
  have hw := hw₁.and_then hw₂
  have hv : (s.alloc low).2.Valid (s.alloc low).1 := Store.valid_alloc low (by
    simp [low, Tensor.ofList, Tensor.sizeOf])
  have hne : s.buffers.length ≠ r.gaps.buffer := by omega
  have hne' : (s.alloc low).2.buffers.length ≠ r.gaps.buffer := by
    simp [Store.alloc]
    omega
  have hlower : (t.replace r.gaps gaps).entries (s.alloc low).1 = bounds.map Prod.fst := by
    rw [Store.entries_replace_of_ne (by exact hne), hw₂.entries hv id, Store.entries_alloc_ofList]
  have hupper : (t.replace r.gaps gaps).entries ((s.alloc low).2.alloc upp).1 =
      bounds.map Prod.snd := by
    rw [Store.entries_replace_of_ne (by exact hne'), Store.entries_alloc_ofList]
  refine ⟨(s.alloc low).1, ((s.alloc low).2.alloc upp).1, t.replace r.gaps gaps, ?_⟩
  constructor
  case run =>
    rw [relax, Program.bind_of_ok (StoreM.read_run l s), Program.bind_of_ok (StoreM.read_run u s),
      hr]
    rfl
  case lower => exact hlower
  case upper => exact hupper
  case shape_lower =>
    rw [hlower]
    rfl
  case shape_upper =>
    rw [hupper]
    rfl
  case gaps =>
    obtain ⟨b, hb, _⟩ := hw.form (List.getElem?_eq_getElem hg)
    exact Store.whole_replace hb
  case rest =>
    intro k b hb hk
    rw [Store.buffers_replace_of_ne hk]
    exact hw.rest hb id

end Relaxer
namespace Chain

variable [Scalar α] {c : Chain α} {l u : View}

theorem boundsToInternal_of_nil (hi : c.items = []) :
    c.boundsToInternal (l, u) s = (.ok (l, u), s) := by
  simp [boundsToInternal, hi]

theorem boundsToInternal_of_remover {r : Remover α} (hi : c.items = [.remover r])
    (hr : r.Intact mask values s) (hl : l.shape = [mask.length]) (hu : u.shape = [mask.length])
    (hvl : s.Valid l) (hvu : s.Valid u) :
    ∃ l' u' t, c.boundsToInternal (l, u) s = (.ok (l', u'), t) ∧
      t.entries l' = restrict mask (s.entries l) ∧ t.entries u' = restrict mask (s.entries u) ∧
      s.Writes (fun _ => False) t := by
  let low := Tensor.ofList (restrict mask (s.entries l))
  let upp := Tensor.ofList (restrict mask (s.entries u))
  have hw₁ : s.Writes (fun _ => False) (s.alloc low).2 := .alloc low
  have hw₂ : (s.alloc low).2.Writes (fun _ => False) ((s.alloc low).2.alloc upp).2 := .alloc upp
  have hr' := hr.writes_of_not_touched hw₁ id
  have hv : (s.alloc low).2.Valid (s.alloc low).1 := Store.valid_alloc low (by
    simp [low, Tensor.ofList, Tensor.sizeOf])
  refine ⟨(s.alloc low).1, ((s.alloc low).2.alloc upp).1, ((s.alloc low).2.alloc upp).2, ?_, ?_,
    ?_, hw₁.trans hw₂ fun _ _ => id⟩
  · simp only [boundsToInternal, hi, List.foldlM_cons, List.foldlM_nil,
      Transformation.boundsToInternal, Program.bind_run, Remover.gatherNew_run hr hl hvl,
      StoreM.alloc_run, Remover.gatherNew_run hr' hu (hw₁.valid hvu), hw₁.entries hvu id,
      Program.pure_run, low, upp]
  · rw [hw₂.entries hv id, Store.entries_alloc_ofList]
  · rw [Store.entries_alloc_ofList]

theorem boundsToInternal_of_relaxer {r : Relaxer α} (hi : c.items = [.relaxer r])
    (hl : l.shape = [r.size]) (hu : u.shape = [r.size]) (hg : r.gaps.buffer < s.buffers.length) :
    ∃ l' u' t, c.boundsToInternal (l, u) s = (.ok (l', u'), t) ∧
      t.entries l' =
        (Relaxer.widenedBounds r.mask r.tolerance (s.entries l) (s.entries u)).map Prod.fst ∧
      t.entries u' =
        (Relaxer.widenedBounds r.mask r.tolerance (s.entries l) (s.entries u)).map Prod.snd := by
  have ⟨l', u', t, ht⟩ := Relaxer.relax_run hl hu hg
  refine ⟨l', u', t, ?_, ht.lower, ht.upper⟩
  simp [boundsToInternal, hi, Transformation.boundsToInternal, Program.bind_run, ht.run]

end Chain
end NonlinearProgram
