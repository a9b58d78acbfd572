import Mathlib.Data.List.Basic
import NonlinearProgram.Selection

namespace NonlinearProgram

variable {α β : Type}

theorem setPositions_cons (b : Bool) (mask : List Bool) :
    setPositions (b :: mask) =
      (if b then [0] else []) ++ (setPositions mask).map (· + 1) := by
  simp [setPositions, List.range_succ_eq_map, List.filter_cons, List.filter_map, Function.comp_def]
  cases b <;> rfl

theorem clearPositions_cons (b : Bool) (mask : List Bool) :
    clearPositions (b :: mask) =
      (if b then [] else [0]) ++ (clearPositions mask).map (· + 1) := by
  simp [clearPositions, List.range_succ_eq_map, List.filter_cons, List.filter_map,
    Function.comp_def]
  cases b <;> rfl

theorem mem_setPositions {mask : List Bool} {i : Nat} :
    i ∈ setPositions mask ↔ mask[i]? = some true := by
  simp only [setPositions, List.mem_filter, List.mem_range]
  by_cases h : i < mask.length
  case pos => simp [h]
  case neg => simp [h]

theorem mem_clearPositions {mask : List Bool} {i : Nat} :
    i ∈ clearPositions mask ↔ mask[i]? = some false := by
  simp only [clearPositions, List.mem_filter, List.mem_range]
  by_cases h : i < mask.length
  case pos => simp [h]
  case neg => simp [h]

theorem setPositions_nodup (mask : List Bool) : (setPositions mask).Nodup :=
  List.nodup_range.filter _

theorem clearPositions_nodup (mask : List Bool) : (clearPositions mask).Nodup :=
  List.nodup_range.filter _

theorem setPositions_sorted (mask : List Bool) : (setPositions mask).Pairwise (· < ·) :=
  List.pairwise_lt_range.filter _

theorem clearPositions_sorted (mask : List Bool) : (clearPositions mask).Pairwise (· < ·) :=
  List.pairwise_lt_range.filter _

theorem setPositions_lt {mask : List Bool} {i : Nat} (h : i ∈ setPositions mask) :
    i < mask.length :=
  List.mem_range.mp (List.mem_of_mem_filter h)

theorem clearPositions_lt {mask : List Bool} {i : Nat} (h : i ∈ clearPositions mask) :
    i < mask.length :=
  List.mem_range.mp (List.mem_of_mem_filter h)

-- Every position of a mask is either set or clear.
theorem mem_positions_or {mask : List Bool} {i : Nat} (h : i < mask.length) :
    i ∈ setPositions mask ∨ i ∈ clearPositions mask := by
  rw [mem_setPositions, mem_clearPositions, List.getElem?_eq_getElem h]
  cases mask[i] <;> simp

theorem not_mem_clearPositions {mask : List Bool} {i : Nat} (h : i ∈ setPositions mask) :
    i ∉ clearPositions mask := by
  rw [mem_clearPositions, mem_setPositions.mp h]
  simp

theorem length_setPositions (mask : List Bool) : (setPositions mask).length = mask.count true := by
  induction mask
  case nil => rfl
  case cons b mask hi => cases b <;> simp [setPositions_cons, hi]

theorem length_clearPositions (mask : List Bool) :
    (clearPositions mask).length = mask.count false := by
  induction mask
  case nil => rfl
  case cons b mask hi => cases b <;> simp [clearPositions_cons, hi]

theorem length_positions (mask : List Bool) :
    (setPositions mask).length + (clearPositions mask).length = mask.length := by
  rw [length_setPositions, length_clearPositions]
  induction mask
  case nil => rfl
  case cons b mask hi => cases b <;> simp <;> omega

theorem positions_perm (mask : List Bool) :
    (setPositions mask ++ clearPositions mask).Perm (List.range mask.length) := by
  have hc : clearPositions mask =
      (List.range mask.length).filter fun i => !mask[i]?.getD false := by
    refine List.filter_congr fun i hi => ?_
    rw [List.getElem?_eq_getElem (List.mem_range.mp hi)]
    rfl
  rw [hc]
  exact List.filter_append_perm _ _

theorem clearPositions_replicate (n : Nat) :
    clearPositions (List.replicate n false) = List.range n := by
  rw [clearPositions, List.length_replicate, List.filter_eq_self]
  intro i hi
  simp [List.mem_range.mp hi]

theorem setPositions_eq_nil {mask : List Bool} :
    setPositions mask = [] ↔ ∀ i : Nat, mask[i]? ≠ some true := by
  simp only [List.eq_nil_iff_forall_not_mem, mem_setPositions, ne_eq]

theorem gather_cons (xs : List α) (i : Nat) (picks : List Nat) :
    gather xs (i :: picks) = xs[i]?.toList ++ gather xs picks := by
  simp only [gather, List.filterMap_cons]
  cases xs[i]? <;> rfl

theorem length_gather {xs : List α} {picks : List Nat} (h : ∀ i ∈ picks, i < xs.length) :
    (gather xs picks).length = picks.length := by
  induction picks
  case nil => rfl
  case cons i picks hi =>
    simp only [List.forall_mem_cons] at h
    simp [gather_cons, List.getElem?_eq_getElem h.left, hi h.right]

theorem getElem?_gather {xs : List α} {picks : List Nat} (h : ∀ i ∈ picks, i < xs.length)
    (k : Nat) : (gather xs picks)[k]? = picks[k]?.bind (xs[·]?) := by
  induction picks generalizing k
  case nil => rfl
  case cons i picks hi =>
    simp only [List.forall_mem_cons] at h
    rw [gather_cons, List.getElem?_eq_getElem h.left]
    cases k
    case zero => simp [List.getElem?_eq_getElem h.left]
    case succ k => simpa using hi h.right k

theorem getElem?_gather_of {xs : List α} {picks : List Nat} (h : ∀ i ∈ picks, i < xs.length)
    {k i : Nat} (hk : picks[k]? = some i) : (gather xs picks)[k]? = xs[i]? := by
  rw [getElem?_gather h, hk, Option.bind_some]

-- What holds of each entry and its position holds of what is gathered and the picks.
theorem forall₂_gather {P : α → Nat → Prop} {xs : List α} {picks : List Nat}
    (h : ∀ i ∈ picks, ∃ x, xs[i]? = some x ∧ P x i) : List.Forall₂ P (gather xs picks) picks := by
  induction picks
  case nil => exact .nil
  case cons i picks hi =>
    have ⟨⟨x, hx, hp⟩, h⟩ := List.forall_mem_cons.mp h
    rw [gather_cons, hx]
    exact .cons hp (hi h)

theorem zip_gather {xs : List α} {ys : List β} {picks : List Nat} (hx : ∀ i ∈ picks, i < xs.length)
    (hy : ∀ i ∈ picks, i < ys.length) :
    (gather xs picks).zip (gather ys picks) = gather (xs.zip ys) picks := by
  induction picks
  case nil => rfl
  case cons i picks hi =>
    have ⟨hxi, hx⟩ := List.forall_mem_cons.mp hx
    have ⟨hyi, hy⟩ := List.forall_mem_cons.mp hy
    have hxi := List.getElem?_eq_getElem hxi
    have hyi := List.getElem?_eq_getElem hyi
    have hz : (xs.zip ys)[i]? = some (xs[i], ys[i]) := List.getElem?_zip_eq_some.mpr ⟨hxi, hyi⟩
    rw [gather_cons, gather_cons, gather_cons, hz, hxi, hyi, ← hi hx hy]
    rfl

theorem mem_gather {xs : List α} {picks : List Nat} {x : α} :
    x ∈ gather xs picks ↔ ∃ i ∈ picks, xs[i]? = some x := by
  rw [gather, List.mem_filterMap]

theorem nodup_gather {xs : List α} {picks : List Nat} (hx : xs.Nodup) (hp : picks.Nodup) :
    (gather xs picks).Nodup := by
  refine List.Pairwise.filterMap _ (fun i j hne x hi y hj hxy => hne ?_) hp
  have hlt := List.getElem?_eq_some_iff.mp hi |>.choose
  exact (List.getElem?_inj hlt hx).mp (by rw [hi, hj, hxy])

theorem gather_gather (xs : List α) {picks : List Nat} (others : List Nat)
    (h : ∀ i ∈ picks, i < xs.length) :
    gather (gather xs picks) others = gather xs (gather picks others) := by
  have hf : gather xs (gather picks others) =
      others.filterMap fun k => picks[k]?.bind (xs[·]?) := List.filterMap_filterMap
  rw [hf]
  exact List.filterMap_congr fun k _ => getElem?_gather h k

theorem gather_map (f : Nat → α) {n : Nat} {picks : List Nat} (h : ∀ i ∈ picks, i < n) :
    gather ((List.range n).map f) picks = picks.map f := by
  apply List.ext_getElem?
  intro k
  rw [getElem?_gather (by simpa using h), List.getElem?_map]
  cases hk : picks[k]?
  case none => rfl
  case some i => simp [h i (List.mem_of_getElem? hk)]

theorem gather_eq_map {xs : List α} {picks : List Nat} {f : Nat → α}
    (h : ∀ i ∈ picks, xs[i]? = some (f i)) : gather xs picks = picks.map f := by
  rw [gather, List.filterMap_congr h, List.filterMap_eq_map']

theorem gather_range (xs : List α) : gather xs (List.range xs.length) = xs := by
  apply List.ext_getElem?
  intro k
  rw [getElem?_gather (by simp)]
  by_cases h : k < xs.length
  case pos => simp [h]
  case neg => simp [h]

theorem scatter_cons (i : Nat) (picks : List Nat) (x : α) (xs base : List α) :
    scatter (i :: picks) (x :: xs) base = scatter picks xs (base.set i x) := rfl

theorem length_scatter (picks : List Nat) (xs base : List α) :
    (scatter picks xs base).length = base.length := by
  induction picks generalizing xs base
  case nil => rfl
  case cons i picks hi =>
    cases xs
    case nil => rfl
    case cons x xs => rw [scatter_cons, hi, List.length_set]

theorem getElem?_scatter_of_not_mem {picks : List Nat} {i : Nat} (h : i ∉ picks)
    (xs base : List α) : (scatter picks xs base)[i]? = base[i]? := by
  induction picks generalizing xs base
  case nil => rfl
  case cons j picks hi =>
    simp only [List.mem_cons, not_or] at h
    cases xs
    case nil => rfl
    case cons x xs => rw [scatter_cons, hi h.right, List.getElem?_set_ne (Ne.symm h.left)]

theorem getElem?_scatter {picks : List Nat} {xs base : List α} (hd : picks.Nodup)
    (hl : xs.length = picks.length) {i k : Nat} (hk : picks[k]? = some i) (hi : i < base.length) :
    (scatter picks xs base)[i]? = xs[k]? := by
  induction picks generalizing xs base k
  case nil => simp at hk
  case cons j picks ih =>
    have ⟨hj, hd⟩ := List.nodup_cons.mp hd
    cases xs
    case nil => simp at hl
    case cons x xs =>
      rw [scatter_cons]
      cases k
      case zero =>
        cases hk
        simp [getElem?_scatter_of_not_mem hj, hi]
      case succ k => simpa using ih hd (by simpa using hl) (by simpa using hk) (by simpa using hi)

theorem gather_scatter {picks : List Nat} {xs base : List α} (hd : picks.Nodup)
    (hl : xs.length = picks.length) (h : ∀ i ∈ picks, i < base.length) :
    gather (scatter picks xs base) picks = xs := by
  apply List.ext_getElem?
  intro k
  rw [getElem?_gather (by simpa [length_scatter] using h)]
  cases hk : picks[k]?
  case none =>
    have hk := List.getElem?_eq_none_iff.mp hk
    simp [List.getElem?_eq_none (by omega : xs.length ≤ k)]
  case some i => exact getElem?_scatter hd hl hk (h i (List.mem_of_getElem? hk))

theorem scatter_range {xs base : List α} (h : xs.length = base.length) :
    scatter (List.range base.length) xs base = xs := by
  have hlen : (scatter (List.range base.length) xs base).length = base.length := length_scatter ..
  rw [← gather_range (scatter _ xs base), hlen]
  exact gather_scatter List.nodup_range (by simpa using h) (by simp)

theorem gather_scatter_of_disjoint {picks others : List Nat} (h : ∀ i ∈ picks, i ∉ others)
    (xs base : List α) : gather (scatter others xs base) picks = gather base picks :=
  List.filterMap_congr fun i hi => getElem?_scatter_of_not_mem (h i hi) xs base

-- What is scattered over what was scattered comes to rest where both picks lead.
theorem scatter_scatter {picks others : List Nat} {xs ys base : List α} (hp : picks.Nodup)
    (ho : others.Nodup) (h : ∀ k ∈ others, k < picks.length) (hx : xs.length = picks.length)
    (hy : ys.length = others.length) :
    scatter picks (scatter others ys xs) base =
      scatter (gather picks others) ys (scatter picks xs base) := by
  apply List.ext_getElem?
  intro i
  by_cases hi : i < base.length
  case neg =>
    rw [List.getElem?_eq_none, List.getElem?_eq_none] <;> simpa [length_scatter] using hi
  case pos =>
    by_cases hm : i ∈ picks
    case neg =>
      have hg : i ∉ gather picks others := by
        intro hg
        have ⟨_, _, hk⟩ := mem_gather.mp hg
        exact hm (List.mem_of_getElem? hk)
      simp only [getElem?_scatter_of_not_mem, hm, hg, not_false_eq_true]
    case pos =>
      have ⟨k, hk⟩ := List.getElem?_of_mem hm
      have hlt := List.getElem?_eq_some_iff.mp hk |>.choose
      rw [getElem?_scatter hp (by rw [length_scatter, hx]) hk hi]
      by_cases hko : k ∈ others
      case pos =>
        have ⟨j, hj⟩ := List.getElem?_of_mem hko
        have hg : (gather picks others)[j]? = some i := (getElem?_gather_of h hj).trans hk
        rw [getElem?_scatter ho hy hj (hx ▸ hlt), getElem?_scatter (nodup_gather hp ho)
          (by rw [hy, length_gather h]) hg (by rw [length_scatter]; exact hi)]
      case neg =>
        have hg : i ∉ gather picks others := by
          intro hg
          have ⟨q, hq, hqi⟩ := mem_gather.mp hg
          exact hko ((List.getElem?_inj hlt hp).mp (hk.trans hqi.symm) ▸ hq)
        rw [getElem?_scatter_of_not_mem hko, getElem?_scatter_of_not_mem hg,
          getElem?_scatter hp hx hk hi]

-- What is scattered over the clear positions of a mask hides all that the base holds there.
theorem scatter_clear_congr {mask : List Bool} {xs a b : List α}
    (hl : xs.length = (clearPositions mask).length) (ha : a.length = mask.length)
    (hb : b.length = mask.length) (h : ∀ i ∈ setPositions mask, a[i]? = b[i]?) :
    scatter (clearPositions mask) xs a = scatter (clearPositions mask) xs b := by
  apply List.ext_getElem?
  intro i
  by_cases hi : i < mask.length
  case neg =>
    rw [List.getElem?_eq_none, List.getElem?_eq_none] <;> rw [length_scatter] <;> omega
  case pos =>
    cases mem_positions_or hi
    case inl hs =>
      have hc := not_mem_clearPositions hs
      rw [getElem?_scatter_of_not_mem hc, getElem?_scatter_of_not_mem hc, h i hs]
    case inr hc =>
      have ⟨k, hk⟩ := List.getElem?_of_mem hc
      have hd := clearPositions_nodup mask
      rw [getElem?_scatter hd hl hk (by omega), getElem?_scatter hd hl hk (by omega)]

-- Both groups of positions together overwrite the base completely.
theorem scatter_positions (f : Nat → α) (mask : List Bool) {base : List α}
    (hb : base.length = mask.length) :
    scatter (clearPositions mask) ((clearPositions mask).map f)
      (scatter (setPositions mask) ((setPositions mask).map f) base) =
      (List.range mask.length).map f := by
  apply List.ext_getElem?
  intro i
  by_cases hi : i < mask.length
  case neg =>
    rw [List.getElem?_eq_none, List.getElem?_eq_none]
    · simpa using hi
    · simpa [length_scatter, hb] using hi
  case pos =>
    rw [List.getElem?_map, List.getElem?_range hi]
    cases mem_positions_or hi
    case inl hs =>
      have ⟨k, hk⟩ := List.getElem?_of_mem hs
      rw [getElem?_scatter_of_not_mem (not_mem_clearPositions hs),
        getElem?_scatter (setPositions_nodup mask) (by simp) hk (by omega)]
      simp [hk]
    case inr hc =>
      have ⟨k, hk⟩ := List.getElem?_of_mem hc
      rw [getElem?_scatter (clearPositions_nodup mask) (by simp) hk (by simpa [length_scatter, hb])]
      simp [hk]

end NonlinearProgram
