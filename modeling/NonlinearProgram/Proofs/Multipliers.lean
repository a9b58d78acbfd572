import Mathlib.Data.List.Chain
import NonlinearProgram.Proofs.Derivatives

-- A remover clears the array of its multipliers before it reads its argument. In a chain the
-- argument of one remover is the result of another, and nothing is left of it if both are the same.

namespace NonlinearProgram

open Program Relation Transformation

variable {α : Type} {s t : Store α} {mask : List Bool} {values : List α} {v : View}

theorem scatter_replicate (x : α) (picks : List Nat) (m n : Nat) :
    scatter picks (List.replicate m x) (List.replicate n x) = List.replicate n x := by
  induction picks generalizing m
  case nil => rfl
  case cons i picks hi =>
    cases m
    case zero => rfl
    case succ m => rw [List.replicate_succ, scatter_cons, List.set_replicate_self, hi]

theorem gather_replicate (x : α) {n : Nat} {picks : List Nat} (h : ∀ i ∈ picks, i < n) :
    gather (List.replicate n x) picks = List.replicate picks.length x := by
  induction picks
  case nil => rfl
  case cons i picks hi =>
    have ⟨hlt, h⟩ := List.forall_mem_cons.mp h
    rw [gather_cons, hi h, List.getElem?_replicate_of_lt hlt]
    rfl

-- A sorted list is known by its members.
theorem eq_of_sorted {xs ys : List Nat} (hx : xs.Pairwise (· < ·)) (hy : ys.Pairwise (· < ·))
    (h : ∀ i, i ∈ xs ↔ i ∈ ys) : xs = ys := by
  have hperm : xs.Perm ys :=
    (List.perm_ext_iff_of_nodup (hx.imp Nat.ne_of_lt) (hy.imp Nat.ne_of_lt)).mpr h
  exact hperm.eq_of_pairwise (fun _ _ _ _ hij hji => absurd hij (Nat.lt_asymm hji)) hx hy

-- No entry of an array survives that the array is cleared.
theorem Store.entries_cleared [Zero α] {w : View} {shape : List Nat} (h : s.Owns w shape)
    (hv : s.Valid v) (hb : v.buffer = w.buffer) :
    (s.setEntries w (List.replicate w.size 0)).entries v = List.replicate v.size 0 := by
  have ⟨_, b, hw, hl, _⟩ := h
  have ⟨b', hv, hle⟩ := hv
  cases hw.symm.trans (hb ▸ hv)
  have hsize : v.size ≤ w.size := hl ▸ hle
  rw [setEntries_eq_update, ← hb, entries_update _ hv, hl, List.length_replicate, ← hl,
    List.drop_length, List.append_nil, hl, List.take_replicate, List.take_replicate]
  simp [hsize]

namespace Remover

variable {r : Remover α}

-- An argument in the array that is cleared is gone.
theorem multipliersToUser_run_of_cleared [Zero α] (h : r.Intact mask values s)
    (hv : v.shape = [(clearPositions mask).length]) (hs : s.Valid v)
    (hb : v.buffer = r.userMultipliers.buffer) :
    ∃ t, r.multipliersToUser v s = (.ok r.userMultipliers, t) ∧
      t.entries r.userMultipliers = List.replicate mask.length 0 ∧
      s.Writes (· = r.userMultipliers.buffer) t ∧ r.Intact mask values t := by
  obtain ⟨t, hrun, he, hw, hi⟩ :=
    r.multipliersToUser_of_stretched h (Tensor.stretchedToSelection?_of_shape hv)
  have hgone : (r.cleared s).entries v = List.replicate v.size 0 :=
    Store.entries_cleared h.userMultipliers hs hb
  refine ⟨t, hrun, ?_, hw, hi⟩
  rw [he, Store.read, hgone, expand, scatter_replicate]

end Remover

namespace Transformation

variable {made items : List (Transformation α)} {picks : List Nat} {base : List α}

-- Where the multipliers of a chain come to lie, one after the other.
def multiplierBuffers : List (Transformation α) → List Nat
  | [] => []
  | .remover r :: items => multiplierBuffers items ++ [r.userMultipliers.buffer]
  | .relaxer _ :: items | .objective _ :: items => multiplierBuffers items

-- The variables that no remover eliminates.
def survivors (items : List (Transformation α)) (n : Nat) : List Nat :=
  (List.range n).filter fun i => (eliminator? items i).isNone

theorem gather_sorted {xs picks : List Nat} (hx : xs.Pairwise (· < ·))
    (hp : picks.Pairwise (· < ·)) : (gather xs picks).Pairwise (· < ·) := by
  refine hp.filterMap _ fun i j hij a ha b hb => ?_
  have ⟨hi, ha⟩ := List.getElem?_eq_some_iff.mp ha
  have ⟨hj, hb⟩ := List.getElem?_eq_some_iff.mp hb
  exact ha ▸ hb ▸ List.pairwise_iff_getElem.mp hx i j hi hj hij

theorem Composes.sorted (h : Composes s items picks base) : picks.Pairwise (· < ·) := by
  induction h
  case nil => exact List.pairwise_lt_range
  case remover hr _ _ hi => exact gather_sorted (hr.freeIndices ▸ clearPositions_sorted _) hi
  case relaxer hi => exact hi
  case objective hi => exact hi

theorem Composes.picks_eq (h : Composes s items picks base) :
    picks = survivors items base.length := by
  refine eq_of_sorted h.sorted (List.pairwise_lt_range.filter _) fun i => ?_
  rw [survivors, List.mem_filter, List.mem_range, Option.isNone_iff_eq_none]
  constructor
  case mp => exact fun hi => ⟨h.lt i hi, (h.mem_iff (h.lt i hi)).mp hi⟩
  case mpr => exact fun ⟨hi, he⟩ => (h.mem_iff hi).mpr he

-- Multipliers that some have at the surviving variables, in order, and zeros at the others.
structure Carries [Zero α] (items : List (Transformation α)) (n : Nat) (zs ws : List α) : Prop where
  length : ws.length = n
  eliminated : ∀ i r k, eliminator? items i = some (r, k) → ws[i]? = some 0
  surviving : gather ws (survivors items n) = zs

namespace Composes

variable [Zero α] {zs : List α}

theorem carries_scatter (h : Composes s items picks base) (hz : zs.length = picks.length) :
    Carries items base.length zs (scatter picks zs (List.replicate base.length 0)) := by
  constructor
  case length => rw [length_scatter, List.length_replicate]
  case eliminated =>
    intro i r k he
    have ⟨hi, _⟩ := h.stored he
    have hm : i ∉ picks := fun hm => by simp [(h.mem_iff hi).mp hm] at he
    rw [getElem?_scatter_of_not_mem hm, List.getElem?_replicate_of_lt hi]
  case surviving =>
    rw [← h.picks_eq]
    exact gather_scatter h.nodup hz (by simpa using h.lt)

-- Zeros carry nothing but zeros.
theorem carries_replicate_iff (h : Composes s items picks base) (hz : zs.length = picks.length) :
    Carries items base.length zs (List.replicate base.length 0) ↔ ∀ x ∈ zs, x = 0 := by
  have hg := gather_replicate (0 : α) h.lt
  constructor
  case mp =>
    intro hc
    have hs := hc.surviving
    rw [← h.picks_eq, hg] at hs
    exact fun x hx => List.eq_of_mem_replicate (hs ▸ hx)
  case mpr =>
    intro hx
    have hs : zs = List.replicate picks.length 0 := List.eq_replicate_iff.mpr ⟨hz, hx⟩
    have hc := h.carries_scatter hz
    rwa [hs, scatter_replicate, ← hs] at hc

end Composes

variable [Scalar α]

theorem isChain_concat_iff {R : Nat → Nat → Prop} {bs : List Nat} {a b : Nat}
    (h : bs.getLast? = some a) : (bs ++ [b]).IsChain R ↔ bs.IsChain R ∧ R a b := by
  simp [List.isChain_append, h]

-- The first remover of a chain is the last one that maps multipliers.
theorem foldlM_multipliersToUser_of_remover {r : Remover α} {w w' : View} {u : Store α}
    (ht : items.reverse.foldlM (fun v item => item.multipliersToUser v) v s = (.ok w, t))
    (hu : r.multipliersToUser w t = (.ok w', u)) :
    (Transformation.remover r :: items).reverse.foldlM (fun v item => item.multipliersToUser v) v
      s = (.ok w', u) := by
  have hu : (Transformation.remover r).multipliersToUser w t = (.ok w', u) := hu
  rw [List.reverse_cons, List.foldlM_append, bind_of_ok ht, List.foldlM_cons, bind_of_ok hu]
  rfl

-- What becomes, in `w`, of the multipliers in `v` on their way through some arrays: they arrive at
-- the picked ones of the `n` variables, and zeros at the others, unless some array is cleared before
-- it is read; then nothing but zeros arrives.
structure Delivers (buffers picks : List Nat) (n : Nat) (v : View) (s : Store α) (w : View)
    (t : Store α) : Prop where
  shape : w.shape = [n]
  valid : t.Valid w
  last : (v.buffer :: buffers).getLast? = some w.buffer
  arrives : (v.buffer :: buffers).IsChain (· ≠ ·) →
    t.entries w = scatter picks (s.entries v) (List.replicate n 0)
  cleared : ¬(v.buffer :: buffers).IsChain (· ≠ ·) → t.entries w = List.replicate n 0

namespace Delivers

variable {buffers : List Nat}

theorem nil {n : Nat} (hv : v.shape = [n]) (hs : s.Valid v) :
    Delivers [] (List.range n) n v s v s where
  shape := hv
  valid := hs
  last := rfl
  arrives _ := by
    have hl : (s.entries v).length = (List.replicate n (0 : α)).length := by
      rw [Store.length_entries_of_shape hs hv, List.length_replicate]
    have hr := scatter_range hl
    rw [List.length_replicate] at hr
    exact hr.symm
  cleared hn := absurd (.singleton _) hn

-- A remover hands on what it is handed, unless that lies in its own array.
theorem remover {r : Remover α} {w : View}
    (h : Delivers buffers picks r.freeIndices.length v s w t) (hr : r.Intact mask values t)
    (hd : picks.Nodup) (hlt : ∀ i ∈ picks, i < r.freeIndices.length)
    (hlen : (s.entries v).length = picks.length) :
    ∃ u, r.multipliersToUser w t = (.ok r.userMultipliers, u) ∧
      Delivers (buffers ++ [r.userMultipliers.buffer]) (gather r.freeIndices picks) mask.length v s
        r.userMultipliers u := by
  have hchain : (v.buffer :: (buffers ++ [r.userMultipliers.buffer])).IsChain (· ≠ ·) ↔
      (v.buffer :: buffers).IsChain (· ≠ ·) ∧ w.buffer ≠ r.userMultipliers.buffer :=
    isChain_concat_iff h.last
  have hlast : (v.buffer :: (buffers ++ [r.userMultipliers.buffer])).getLast? =
    some r.userMultipliers.buffer := by rw [← List.cons_append, List.getLast?_concat]
  have hshape : w.shape = [(clearPositions mask).length] := by rw [h.shape, hr.freeIndices]
  by_cases hb : w.buffer = r.userMultipliers.buffer
  case pos =>
    obtain ⟨u, hu, hue, _, hr'⟩ := r.multipliersToUser_run_of_cleared hr hshape h.valid hb
    exact ⟨u, hu, hr'.userMultipliers.left, hr'.userMultipliers.valid, hlast,
      fun hc => absurd hb (hchain.mp hc).right, fun _ => hue⟩
  case neg =>
    obtain ⟨u, hu, hue, _, hr'⟩ := r.multipliersToUser_run hr hshape h.valid hb
    rw [expand, ← hr.freeIndices] at hue
    have hf : r.freeIndices.Nodup := hr.freeIndices ▸ clearPositions_nodup mask
    refine ⟨u, hu, hr'.userMultipliers.left, hr'.userMultipliers.valid, hlast,
      fun hc => ?_, fun hc => ?_⟩
    · rw [hue, h.arrives (hchain.mp hc).left,
        scatter_scatter hf hd hlt List.length_replicate hlen, scatter_replicate]
    · rw [hue, h.cleared fun h => hc (hchain.mpr ⟨h, hb⟩), scatter_replicate]

end Delivers

theorem Composes.multipliersToUser_run (hs : Separate made) (hsub : ∀ item ∈ items, item ∈ made)
    (h : Composes s items picks base) (hz : v.shape = [picks.length]) (hv : s.Valid v) : ∃ w t,
      items.reverse.foldlM (fun v item => item.multipliersToUser v) v s = (.ok w, t) ∧
        Delivers (multiplierBuffers items) picks base.length v s w t ∧ Preserves made s t := by
  induction items generalizing picks base
  case nil =>
    cases h
    exact ⟨v, s, rfl, .nil (by simpa using hz) hv, .refl made s⟩
  case cons item items ih =>
    obtain ⟨hm, hrest⟩ := List.forall_mem_cons.mp hsub
    cases h
    case remover r picks base mask values hr hl h =>
      have hlt : ∀ i ∈ picks, i < r.freeIndices.length := fun i hi => hl ▸ h.lt i hi
      rw [length_gather hlt] at hz
      obtain ⟨w, t, ht, hw, hp⟩ := ih hrest h hz
      obtain ⟨u, hu, hd⟩ := (hl ▸ hw).remover (hp.intact hm hr.toIntact) h.nodup hlt
        (Store.length_entries_of_shape hv hz)
      have hn : (scatter r.freeIndices base values).length = mask.length := by
        rw [length_scatter, hr.length_values]
      exact ⟨_, u, foldlM_multipliersToUser_of_remover ht hu, hn ▸ hd,
        hp.trans ((multipliersToUser_preserves hs hm w).of_run hu)⟩
    case relaxer h =>
      obtain ⟨w, t, ht, hw⟩ := ih hrest h hz
      exact ⟨w, t, by rw [List.reverse_cons, List.foldlM_append, bind_of_ok ht]; rfl, hw⟩
    case objective h =>
      obtain ⟨w, t, ht, hw⟩ := ih hrest h hz
      exact ⟨w, t, by rw [List.reverse_cons, List.foldlM_append, bind_of_ok ht]; rfl, hw⟩

end Transformation

namespace Workbench

variable [Scalar α] {b : Workbench α} {n : Int} {store : Store α}

-- However a chain was assembled, and whatever was mapped before, multipliers reach the user's
-- variables and come back, exactly if no two of the arrays that they pass one after the other are
-- the same; there is nothing to lose of zeros. Two removers share no array, so that is so unless
-- one of them follows itself.
theorem multipliers_carried_iff (h : ReflTransGen Step (Workbench.blank n store) b) {j k : Nat}
    (hj : b.chain.userSize = .integer j) (hk : b.chain.internalSize = .integer k) (z : View)
    (hz : z.shape = [k]) (hv : b.store.Valid z) :
    ∃ w t g u, b.chain.multipliersToUser z b.store = (.ok w, t) ∧ w.shape = [j] ∧ t.Valid w ∧
      b.chain.gradientToInternal w t = (.ok g, u) ∧
      (Carries b.chain.items j (b.store.entries z) (t.entries w) ∧
          u.entries g = b.store.entries z ↔
        (z.buffer :: multiplierBuffers b.chain.items).IsChain (· ≠ ·) ∨
          ∀ x ∈ b.store.entries z, x = 0) := by
  have ho := Orderly.of_steps h
  have ⟨picks, base, hc, hbase, hpicks⟩ := ho.exists_composes hj hk
  subst hbase
  subst hpicks
  have ⟨w, t, ht, hd, hp⟩ := hc.multipliersToUser_run ho.separate ho.made hz hv
  have ⟨g, u, hu, _, _, hge, _⟩ :=
    (hc.preserves hp ho.made).gradientToInternal_run ho.made hd.shape hd.valid
  have hlen : (b.store.entries z).length = picks.length := by
    rw [Store.length_entries hv, View.size_of_shape hz]
  refine ⟨w, t, g, u, ht, hd.shape, hd.valid, hu, ?_⟩
  have hback (hcarry : Carries b.chain.items base.length (b.store.entries z) (t.entries w)) :
      u.entries g = b.store.entries z := by
    rw [hge, ← hcarry.surviving, ← hc.picks_eq]
  rw [and_iff_left_of_imp hback]
  by_cases hchain : (z.buffer :: multiplierBuffers b.chain.items).IsChain (· ≠ ·)
  case pos => simpa only [hd.arrives hchain, hchain, true_or, iff_true] using hc.carries_scatter hlen
  case neg => simpa only [hd.cleared hchain, hchain, false_or] using hc.carries_replicate_iff hlen

theorem multipliers_carried_iff_reduced :
    survivors reduced.chain.items 4 = [0, 2] ∧
    ∃ w t g u, reduced.chain.multipliersToUser ⟨0, [2]⟩ reduced.store = (.ok w, t) ∧
      reduced.chain.gradientToInternal w t = (.ok g, u) ∧
      Carries reduced.chain.items 4 [.finite 1, .finite 3] (t.entries w) ∧
      u.entries g = [.finite 1, .finite 3] := by
  have ⟨w, t, g, u, ht, _, _, hu, hiff⟩ := @multipliers_carried_iff Exact _ reduced 4 _
    reduced_steps 4 2 rfl rfl ⟨0, [2]⟩ rfl ⟨_, rfl, by decide⟩
  have ⟨hc, hg⟩ := hiff.mpr (.inl (by decide))
  exact ⟨rfl, w, t, g, u, ht, hu, hc, hg⟩

-- One variable with a multiplier, and a remover that eliminates nothing.
def lone : Workbench Exact := (blank 1 ⟨[⟨[1], [1], true⟩]⟩).withRemover [false] [0]

-- The same remover once more.
def doubled : Workbench Exact :=
  { lone with chain := { lone.chain with items := lone.chain.items ++ lone.chain.items } }

theorem doubled_steps : ReflTransGen Step (blank 1 ⟨[⟨[1], [1], true⟩]⟩) doubled :=
  .tail (withRemover_steps rfl rfl) (.append List.mem_cons_self (append_of_sizes rfl rfl))

-- A remover that follows itself clears the multiplier that it is to map.
theorem multipliers_cleared_doubled :
    doubled.chain.userSize = .integer 1 ∧ doubled.chain.internalSize = .integer 1 ∧
      doubled.store.entries ⟨0, [1]⟩ = [1] ∧
      ∃ w t, doubled.chain.multipliersToUser ⟨0, [1]⟩ doubled.store = (.ok w, t) ∧
        t.entries w = [0] :=
  ⟨rfl, rfl, rfl, _, _, rfl, rfl⟩

end Workbench
end NonlinearProgram
