import Mathlib.Data.List.Chain
import Mathlib.Data.List.Nodup
import NonlinearProgram.Proofs.Multipliers

-- Removers one after the other eliminate what a single one can eliminate at once. Each of them
-- numbers the variables that the earlier ones leave.

namespace NonlinearProgram

open Program Relation Transformation

variable {α : Type} {s t : Store α} {mask : List Bool} {values : List α} {v : View}

-- The mask that leaves the picked ones of so many variables.
def maskOf (picks : List Nat) (n : Nat) : List Bool :=
  (List.range n).map fun i => decide (i ∉ picks)

theorem length_maskOf (picks : List Nat) (n : Nat) : (maskOf picks n).length = n := by
  rw [maskOf, List.length_map, List.length_range]

theorem getElem?_maskOf_eq_some {picks : List Nat} {n i : Nat} {fixed : Bool} :
    (maskOf picks n)[i]? = some fixed ↔ i < n ∧ decide (i ∉ picks) = fixed := by
  rw [maskOf, List.getElem?_map, Option.map_eq_some_iff]
  simp only [List.getElem?_eq_some_iff, List.length_range, List.getElem_range, exists_prop]
  constructor
  case mp =>
    rintro ⟨_, ⟨hi, rfl⟩, hf⟩
    exact ⟨hi, hf⟩
  case mpr => exact fun ⟨hi, hf⟩ => ⟨i, ⟨hi, rfl⟩, hf⟩

theorem clearPositions_maskOf {picks : List Nat} {n : Nat} (hs : picks.Pairwise (· < ·))
    (hlt : ∀ i ∈ picks, i < n) : clearPositions (maskOf picks n) = picks := by
  refine eq_of_sorted (clearPositions_sorted _) hs fun i => ?_
  rw [mem_clearPositions, getElem?_maskOf_eq_some, decide_eq_false_iff_not, not_not]
  exact and_iff_right_of_imp (hlt i)

-- A matrix is made of its rows.
theorem flatMap_row {xs : List α} {rows columns : Nat} (h : xs.length = rows * columns) :
    ((List.range rows).flatMap fun k => row columns k xs) = xs := by
  induction rows generalizing xs
  case zero =>
    rw [Nat.zero_mul] at h
    exact (List.eq_nil_of_length_eq_zero h).symm
  case succ rows hi =>
    have hdrop : (xs.drop columns).length = rows * columns := by
      rw [List.length_drop, h, Nat.succ_mul, Nat.add_sub_cancel]
    have hrow (k : Nat) : row columns (k + 1) xs = row columns k (xs.drop columns) := by
      rw [row, row, List.drop_drop, Nat.succ_mul, Nat.add_comm]
    rw [List.range_succ_eq_map, List.flatMap_cons, List.flatMap_map]
    simp only [Nat.succ_eq_add_one, hrow, hi hdrop]
    rw [row, Nat.zero_mul, List.drop_zero, List.take_append_drop]

theorem eq_of_rows {xs ys : List α} {rows columns : Nat} (hx : xs.length = rows * columns)
    (hy : ys.length = rows * columns)
    (h : ∀ k < rows, row columns k xs = row columns k ys) : xs = ys := by
  rw [← flatMap_row hx, ← flatMap_row hy]
  exact List.flatMap_congr fun k hk => h k (List.mem_range.mp hk)

namespace Transformation

variable {made items : List (Transformation α)} {picks : List Nat} {base : List α}

def removers : List (Transformation α) → List (Remover α)
  | [] => []
  | .remover r :: items => r :: removers items
  | .relaxer _ :: items | .objective _ :: items => removers items

-- What the removers eliminate, in the numbers that the first of them gives to the variables.
def eliminated : List (Transformation α) → List Nat
  | [] => []
  | .remover r :: items => r.fixedIndices ++ gather r.freeIndices (eliminated items)
  | .relaxer _ :: items | .objective _ :: items => eliminated items

theorem Composes.restrict_eq (h : Composes s items picks base) (xs : List α) :
    restrict (maskOf picks base.length) xs = gather xs picks := by
  rw [restrict, clearPositions_maskOf h.sorted h.lt]

theorem multiplierBuffers_eq (items : List (Transformation α)) :
    multiplierBuffers items = ((removers items).map fun r => r.userMultipliers.buffer).reverse := by
  induction items
  case nil => rfl
  case cons item items hi =>
    cases item
    case remover r => rw [multiplierBuffers, removers, List.map_cons, List.reverse_cons, hi]
    all_goals exact hi

theorem mem_of_mem_removers {r : Remover α} (h : r ∈ removers items) : .remover r ∈ items := by
  induction items
  case nil => cases h
  case cons item items hi =>
    cases item
    case remover q =>
      cases List.mem_cons.mp h
      case inl he => exact he ▸ List.mem_cons_self
      case inr h => exact List.mem_cons_of_mem _ (hi h)
    all_goals exact List.mem_cons_of_mem _ (hi h)

-- Where no remover comes twice, no two of them clear the same array.
theorem nodup_multiplierBuffers (hs : Separate made) (hsub : ∀ item ∈ items, item ∈ made)
    (hd : (removers items).Nodup) : (multiplierBuffers items).Nodup := by
  rw [multiplierBuffers_eq, List.nodup_reverse]
  refine hd.map_on fun r hr r' hr' hb => ?_
  have he := hs.apart (hsub _ (mem_of_mem_removers hr)) (hsub _ (mem_of_mem_removers hr'))
    r.userMultipliers (by simp [arrays, Remover.scratch]) r'.userMultipliers
    (by simp [arrays, Remover.scratch]) hb
  exact Transformation.remover.inj he

theorem Preserves.mono {made' : List (Transformation α)} (h : Preserves made' s t)
    (hsub : ∀ item ∈ made, item ∈ made') : Preserves made s t :=
  ⟨h.length_le, fun hr => h.intact (hsub _ hr)⟩

variable [Scalar α]

-- Both bounds are copied without the entries of the eliminated variables.
theorem boundsToInternal_of_intact {r : Remover α} {l u : View} (hr : r.Intact mask values s)
    (hl : l.shape = [mask.length]) (hu : u.shape = [mask.length]) (hlv : s.Valid l)
    (huv : s.Valid u) (made : List (Transformation α)) : ∃ l' u' t,
      (Transformation.remover r).boundsToInternal (l, u) s = (.ok (l', u'), t) ∧
        l'.shape = [(clearPositions mask).length] ∧ u'.shape = [(clearPositions mask).length] ∧
        t.Valid l' ∧ t.Valid u' ∧ t.entries l' = restrict mask (s.entries l) ∧
        t.entries u' = restrict mask (s.entries u) ∧ Preserves made s t := by
  have hlen {v : View} (hv : v.shape = [mask.length]) (hs : s.Valid v) :
      (restrict mask (s.entries v)).length = (clearPositions mask).length :=
    length_restrict (Store.length_entries_of_shape hs hv)
  let low := Tensor.ofList (restrict mask (s.entries l))
  let upp := Tensor.ofList (restrict mask (s.entries u))
  let mid := (s.alloc low).2
  have hw₁ : s.Writes (fun _ => False) mid := .alloc low
  have hw₂ : mid.Writes (fun _ => False) (mid.alloc upp).2 := .alloc upp
  have hvl : mid.Valid (s.alloc low).1 := Store.valid_alloc low (Tensor.sizeOf_singleton _).symm
  refine ⟨(s.alloc low).1, (mid.alloc upp).1, (mid.alloc upp).2, ?_, congrArg ([·]) (hlen hl hlv),
    congrArg ([·]) (hlen hu huv), hw₂.valid hvl,
    Store.valid_alloc upp (Tensor.sizeOf_singleton _).symm, ?_, Store.entries_alloc_ofList _,
    (Preserves.alloc low).trans (.alloc upp)⟩
  · simp only [boundsToInternal, bind_run, Remover.gatherNew_run hr hl hlv, StoreM.alloc_run,
      Remover.gatherNew_run (hr.writes_of_not_touched hw₁ id) hu (hw₁.valid huv),
      hw₁.entries huv id, pure_run, low, upp, mid]
  · rw [hw₂.entries hvl id, Store.entries_alloc_ofList]

theorem Composes.boundsToInternal_run (hsub : ∀ item ∈ items, item ∈ made)
    (hq : ∀ q, .relaxer q ∉ items) {l u : View} (h : Composes s items picks base)
    (hl : l.shape = [base.length]) (hu : u.shape = [base.length]) (hlv : s.Valid l)
    (huv : s.Valid u) : ∃ l' u' t,
      items.foldlM (fun v item => item.boundsToInternal v) (l, u) s = (.ok (l', u'), t) ∧
        l'.shape = [picks.length] ∧ u'.shape = [picks.length] ∧
        t.entries l' = gather (s.entries l) picks ∧ t.entries u' = gather (s.entries u) picks := by
  induction items generalizing s picks base l u
  case nil =>
    cases h
    refine ⟨l, u, s, rfl, by simpa using hl, by simpa using hu, ?_, ?_⟩
    · rw [← Store.length_entries_of_shape hlv hl, gather_range]
    · rw [← Store.length_entries_of_shape huv hu, gather_range]
  case cons item items ih =>
    have hrest := (List.forall_mem_cons.mp hsub).right
    have hq' : ∀ q, .relaxer q ∉ items := fun q hm => hq q (List.mem_cons_of_mem _ hm)
    rw [List.foldlM_cons]
    cases h
    case relaxer q h => exact absurd List.mem_cons_self (hq q)
    case objective h => exact ih hrest hq' h hl hu hlv huv
    case remover r picks base mask values hr hn h =>
      rw [length_scatter, hr.length_values] at hl hu
      have hbase : (clearPositions mask).length = base.length := by rw [hn, hr.freeIndices]
      obtain ⟨lm, um, mid, ht, hlm, hum, hlmv, humv, hlme, hume, hp⟩ :=
        boundsToInternal_of_intact hr.toIntact hl hu hlv huv made
      obtain ⟨l', u', t, hrun, hl', hu', hle, hue⟩ := ih hrest hq' (h.preserves hp hrest)
        (hbase ▸ hlm) (hbase ▸ hum) hlmv humv
      have hgather {v : View} (hv : v.shape = [mask.length]) (hs : s.Valid v) :
          gather (restrict mask (s.entries v)) picks =
            gather (s.entries v) (gather r.freeIndices picks) := by
        rw [restrict, ← hr.freeIndices, gather_gather]
        exact fun i hi => Store.length_entries_of_shape hs hv ▸ hr.toIntact.freeIndices_lt hi
      rw [length_gather fun i hi => hn ▸ h.lt i hi]
      refine ⟨l', u', t, ?_, hl', hu', ?_, ?_⟩
      · rw [bind_of_ok ht, hrun]
      · rw [hle, hlme, hgather hl hlv]
      · rw [hue, hume, hgather hu huv]

end Transformation

-- Two maps that both hand out an array, with the same shape and the same entries.
def StoreM.Concur (s : Store α) (x y : StoreM α View) : Prop :=
  ∃ w t w' t', x s = (.ok w, t) ∧ y s = (.ok w', t') ∧ w.shape = w'.shape ∧
    t.entries w = t'.entries w'

open StoreM

-- One transformation that maps whatever may be mapped as a chain does. Multipliers that are handed
-- over in an array in which multipliers are returned are not the caller's to keep.
structure Transformation.Replaces [Scalar α] (item : Transformation α) (c : Chain α) (n k : Nat)
    (s : Store α) : Prop where
  userSize : c.userSize = .integer n ∧ item.userSize = .integer n
  internalSize : c.internalSize = .integer k ∧ item.internalSize = .integer k
  pointToInternal : ∀ x : View, x.shape = [n] → s.Valid x →
    Concur s (c.pointToInternal x) (item.pointToInternal x)
  pointToUser : ∀ y : View, y.shape = [k] → s.Valid y →
    Concur s (c.pointToUser y) (item.pointToUser y)
  gradientToInternal : ∀ g : View, g.shape = [n] → s.Valid g →
    Concur s (c.gradientToInternal g) (item.gradientToInternal g)
  jacobianToInternal : ∀ (jac : View) (rows : Nat), jac.shape = [rows, n] → s.Valid jac →
    Concur s (c.jacobianToInternal jac) (item.jacobianToInternal jac)
  multipliersToUser : ∀ z : View, z.shape = [k] → s.Valid z →
    z.buffer ∉ multiplierBuffers (item :: c.items) →
    Concur s (c.multipliersToUser z) (item.multipliersToUser z)
  boundsToInternal : (∀ q, .relaxer q ∉ c.items) → ∀ l u : View, l.shape = [n] → u.shape = [n] →
    s.Valid l → s.Valid u → ∃ l₁ u₁ t₁ l₂ u₂ t₂,
      c.boundsToInternal (l, u) s = (.ok (l₁, u₁), t₁) ∧
      item.boundsToInternal (l, u) s = (.ok (l₂, u₂), t₂) ∧
      l₁.shape = l₂.shape ∧ t₁.entries l₁ = t₂.entries l₂ ∧
      u₁.shape = u₂.shape ∧ t₁.entries u₁ = t₂.entries u₂

namespace Transformation

variable [Scalar α] {made : List (Transformation α)} {picks : List Nat} {base : List α}
  {c : Chain α} {r : Remover α}

omit [Scalar α] in
-- Each row of a Jacobian is brought to the same internal one.
theorem Composes.jacobianToInternal_concurs {jac : View} {rows : Nat}
    (h : Composes s c.items picks base) (hsub : ∀ item ∈ c.items, item ∈ made)
    (hr : r.Intact (maskOf picks base.length) base s) (hj : jac.shape = [rows, base.length])
    (hv : s.Valid jac) : Concur s (c.jacobianToInternal jac)
      ((Transformation.remover r).jacobianToInternal jac) := by
  have hmask := length_maskOf picks base.length
  obtain ⟨w, t, ht, hw, hwv, hwe, _⟩ := h.jacobianToInternal_run hsub hj hv
  have ht' := r.jacobianToInternal_run hr (by rw [hj, hmask])
  simp only [h.restrict_eq, clearPositions_maskOf h.sorted h.lt, hmask] at ht'
  have hjl := Store.length_entries_of_shape_pair hv hj
  have hwl := Store.length_entries_of_shape_pair hwv hw
  have hrow : ∀ k < rows, (gather (row base.length k (s.entries jac)) picks).length =
      picks.length := by
    intro k hk
    exact length_gather fun i hi => (length_row hjl hk).symm ▸ h.lt i hi
  have hl := length_flatMap_rows hrow
  refine ⟨w, t, _, (s.alloc ⟨[rows, picks.length], (List.range rows).flatMap fun k =>
    gather (row base.length k (s.entries jac)) picks⟩).2, ht, ht', hw, ?_⟩
  refine Eq.trans ?_ (Store.entries_alloc (hl.trans (Tensor.sizeOf_pair _ _).symm)).symm
  refine eq_of_rows hwl hl fun k hk => ?_
  rw [hwe k hk, row_flatMap hrow hk]

theorem Composes.replaces (h : Composes s c.items picks base) (hs : Separate made)
    (hsub : ∀ item ∈ c.items, item ∈ made) (hd : (removers c.items).Nodup)
    (hn : c.userSize = .integer base.length) (hk : c.internalSize = .integer picks.length)
    (hr : r.Intact (maskOf picks base.length) base s) :
    (Transformation.remover r).Replaces c base.length picks.length s := by
  have hmask := length_maskOf picks base.length
  have hclear := clearPositions_maskOf h.sorted h.lt
  have hrestrict := h.restrict_eq
  constructor
  case userSize =>
    refine ⟨hn, ?_⟩
    rw [userSize, Remover.userSize_of_intact hr, hmask]
  case internalSize =>
    refine ⟨hk, ?_⟩
    rw [internalSize, Remover.internalSize, hr.freeIndices, hclear]
  case pointToInternal =>
    intro x hx hv
    obtain ⟨w, t, ht, hw, _, hwe, _⟩ := h.pointToInternal_run hs hsub hx hv
    have hlen := Store.length_entries_of_shape hv (hmask ▸ hx)
    obtain ⟨t', ht', hte, _, _⟩ := r.toInternal_run hr hlen
    refine ⟨w, t, _, t', ht, ht', ?_, ?_⟩
    · rw [hw, hr.internalPoint.left, hclear]
    · rw [hwe, hte, hrestrict]
  case pointToUser =>
    intro y hy hv
    obtain ⟨w, t, ht, hw, _, hwe, _⟩ := h.pointToUser_run hs hsub hy hv
    obtain ⟨t', ht', hte, _, _⟩ := r.toUser_run hr (by rw [hy, hclear]) hv
    refine ⟨w, t, _, t', ht, ht', ?_, ?_⟩
    · rw [hw, hr.userPoint.left, hmask]
    · rw [hwe, hte, expand, hclear]
  case gradientToInternal =>
    intro g hg hv
    obtain ⟨w, t, ht, hw, _, hwe, _⟩ := h.gradientToInternal_run hsub hg hv
    have hlt : ∀ i ∈ picks, i < (s.entries g).length :=
      Store.length_entries_of_shape hv hg ▸ h.lt
    have ht' := r.gatherNew_run hr (by rw [hg, hmask]) hv
    rw [hrestrict] at ht'
    refine ⟨w, t, _, (s.alloc (Tensor.ofList (gather (s.entries g) picks))).2, ht, ht', ?_, ?_⟩
    · rw [hw]
      exact congrArg ([·]) (length_gather hlt).symm
    · rw [hwe]
      exact (Store.entries_alloc_ofList _).symm
  case jacobianToInternal => exact fun jac rows hj hv => h.jacobianToInternal_concurs hsub hr hj hv
  case multipliersToUser =>
    intro z hz hv hb
    rw [multiplierBuffers, List.mem_append, List.mem_singleton, not_or] at hb
    have hchain : (z.buffer :: multiplierBuffers c.items).IsChain (· ≠ ·) :=
      (List.nodup_cons.mpr ⟨hb.left, nodup_multiplierBuffers hs hsub hd⟩).isChain
    obtain ⟨w, t, ht, hw, _⟩ := h.multipliersToUser_run hs hsub hz hv
    obtain ⟨t', ht', hte, _, _⟩ := r.multipliersToUser_run hr (by rw [hz, hclear]) hv hb.right
    refine ⟨w, t, _, t', ht, ht', ?_, ?_⟩
    · rw [hw.shape, hr.userMultipliers.left, hmask]
    · rw [hw.arrives hchain, hte, expand, hclear, hmask]
  case boundsToInternal =>
    intro hq l u hl hu hlv huv
    obtain ⟨l₁, u₁, t₁, ht₁, hl₁, hu₁, hle₁, hue₁⟩ := h.boundsToInternal_run hsub hq hl hu hlv huv
    obtain ⟨l₂, u₂, t₂, ht₂, hl₂, hu₂, _, _, hle₂, hue₂, _⟩ :=
      boundsToInternal_of_intact hr (by rw [hl, hmask]) (by rw [hu, hmask]) hlv huv made
    refine ⟨l₁, u₁, t₁, l₂, u₂, t₂, ht₁, ht₂, ?_, ?_, ?_, ?_⟩
    · rw [hl₁, hl₂, hclear]
    · rw [hle₁, hle₂, hrestrict]
    · rw [hu₁, hu₂, hclear]
    · rw [hue₁, hue₂, hrestrict]

end Transformation

namespace Workbench

variable [Scalar α] {b b' : Workbench α} {n : Int} {store : Store α}

-- A step leaves all that was made before.
theorem Step.preserves (ho : Orderly n b) (h : Step b b') :
    (∀ item ∈ b.made, item ∈ b'.made) ∧ Preserves b.made b.store b'.store := by
  have hsame : Preserves b.made b.store b.store := .refl b.made b.store
  cases h
  case remover hr =>
    have ⟨_, _, _, hw, _⟩ := createRemover_makes hr
    exact ⟨fun _ => List.mem_cons_of_mem _, .of_writes hw fun _ => id⟩
  case relaxer hq =>
    have ⟨_, _, hw, _⟩ := createRelaxer_makes hq
    exact ⟨fun _ => List.mem_cons_of_mem _, .of_writes hw fun _ => id⟩
  case objective => exact ⟨fun _ => List.mem_cons_of_mem _, hsame⟩
  case append => exact ⟨fun _ => id, hsame⟩
  case clear => exact ⟨fun _ => id, hsame⟩
  case use hc use => exact ⟨fun _ => id, use.preserves ho.separate hc b.store⟩
  case write hw hd =>
    refine ⟨fun _ => id, .of_writes hw fun hr => ?_⟩
    exact hd _ hr _ (by simp [arrays, Remover.scratch])

end Workbench
end NonlinearProgram
