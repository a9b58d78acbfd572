import Mathlib.Logic.Relation
import NonlinearProgram.Proofs.Composition
import NonlinearProgram.Proofs.Scalar

namespace NonlinearProgram

open Program Relation

variable {α : Type}

namespace Transformation

-- Items of which each takes over as many variables as the one before it leaves.
inductive Fits : Int → List (Transformation α) → Int → Prop
  | nil (n : Int) : Fits n [] n
  | cons {item items n k m} (hu : item.userSize = .integer n) (hi : item.internalSize = .integer k)
    (h : Fits k items m) : Fits n (item :: items) m

variable {item : Transformation α} {items : List (Transformation α)} {n k m : Int} {s : Store α}

namespace Fits

theorem append (h : Fits n items k) (hu : item.userSize = .integer k)
    (hi : item.internalSize = .integer m) : Fits n (items ++ [item]) m := by
  induction h
  case nil => exact .cons hu hi (.nil m)
  case cons hu' hi' _ ih => exact .cons hu' hi' (ih hu)

theorem internalSize (h : Fits n items m) : (⟨.integer n, items⟩ : Chain α).internalSize =
    .integer m := by
  induction h
  case nil => rfl
  case cons hi _ ih =>
    rw [← ih, ← hi, Chain.internalSize, Chain.internalSize, List.getLast?_cons]
    cases List.getLast? _ <;> rfl

-- No number of variables is negative, unless nothing says so.
theorem nonneg (h : Fits n items m) (hm : 0 ≤ m) : 0 ≤ n := by
  induction h
  case nil => exact hm
  case cons item _ n k _ hu hi _ ih =>
    cases item
    case remover r =>
      cases hu
      exact Int.natCast_nonneg _
    case relaxer q =>
      cases hu
      exact Int.natCast_nonneg _
    case objective =>
      cases hu.symm.trans hi
      exact ih hm

-- Items that fit act together as one remover does.
theorem exists_composes [Zero α] (h : Fits n items m)
    (hr : ∀ r, .remover r ∈ items → ∃ mask values, r.Holds mask values s) {j : Nat}
    (hj : (j : Int) = n) :
    ∃ picks base, Composes s items picks base ∧ base.length = j ∧ (picks.length : Int) = m := by
  induction h generalizing j
  case nil n =>
    have hl : (List.replicate j (0 : α)).length = j := List.length_replicate
    exact ⟨_, _, .nil (List.replicate j 0), hl, by rw [List.length_range, hl, hj]⟩
  case cons item items n k m hu hi _ ih =>
    have ih {j : Nat} := ih (fun r hm => hr r (List.mem_cons_of_mem _ hm)) (j := j)
    cases item
    case remover r =>
      have ⟨mask, values, hold⟩ := hr r List.mem_cons_self
      have hmask := Remover.userSize_of_intact hold.toIntact
      cases hu
      cases hi
      have ⟨picks, base, hc, hl, hm⟩ := ih rfl
      have hl : base.length = r.freeIndices.length := hl
      have hlt : ∀ i ∈ picks, i < r.freeIndices.length := fun i hi => hl ▸ hc.lt i hi
      refine ⟨_, _, .remover hold hl hc, ?_, by rw [length_gather hlt, hm]⟩
      rw [length_scatter, hold.length_values]
      omega
    case relaxer q =>
      cases hu.symm.trans hi
      have ⟨picks, base, hc, hl⟩ := ih hj
      exact ⟨picks, base, .relaxer q hc, hl⟩
    case objective o =>
      cases hu.symm.trans hi
      have ⟨picks, base, hc, hl⟩ := ih hj
      exact ⟨picks, base, .objective o hc, hl⟩

end Fits

section

variable [Scalar α] {mask : List Bool} {values : List α} {t : Store α}

theorem createRemover_of_length (h : values.length = mask.length) (s : Store α) :
    createRemover mask values s =
      .ok (.remover (Remover.create mask values s).1, (Remover.create mask values s).2) :=
  if_pos h

theorem createRemover_makes (h : createRemover mask values s = .ok (item, t)) :
    ∃ r, item = .remover r ∧ r.Holds mask values t ∧ s.Writes (fun _ => False) t ∧
      ∀ w ∈ item.arrays, s.buffers.length ≤ w.buffer ∧ w.buffer < t.buffers.length := by
  have hv : values.length = mask.length := by
    by_contra hv
    rw [createRemover, if_neg hv] at h
    cases h
  rw [createRemover_of_length hv] at h
  have ⟨hitem, ht⟩ := Prod.mk.inj (Except.ok.inj h)
  rw [← hitem, ← ht]
  have hb := Remover.create_buffers mask values s
  have ⟨hp, hi, hm⟩ := Remover.create_views mask values s
  refine ⟨_, rfl, { Remover.create_intact s hv with fixedValues := rfl }, .append hb, ?_⟩
  simp [arrays, Remover.scratch, hp, hi, hm, hb]

theorem createRelaxer_makes {tolerance : α} (h : createRelaxer mask tolerance s = .ok (item, t)) :
    ∃ q, item = .relaxer q ∧ s.Writes (fun _ => False) t ∧
      ∀ w ∈ item.arrays, s.buffers.length ≤ w.buffer ∧ w.buffer < t.buffers.length := by
  rw [createRelaxer, Relaxer.create?] at h
  by_cases ht : 0 < tolerance
  case neg => simp [ht] at h
  case pos =>
    simp only [ht, if_true] at h
    cases h
    exact ⟨_, rfl, .alloc _, by simp [arrays, Store.alloc]⟩

end

end Transformation

open Transformation

namespace Chain

-- Where the items map objectives back, the chain does.
theorem objectiveToUser_objectiveToInternal [Scalar α] {c : Chain α}
    (h : ∀ m, .objective m ∈ c.items → ∀ f, m.toUser (m.toInternal f) = .ok f) (f : α) :
    c.objectiveToUser (c.objectiveToInternal f) = .ok f := by
  rw [objectiveToUser, objectiveToInternal]
  generalize c.items = items at h
  induction items generalizing f
  case nil => rfl
  case cons item items ih =>
    have hitem : item.objectiveToUser (item.objectiveToInternal f) = .ok f := by
      cases item
      case objective m => exact h m List.mem_cons_self f
      all_goals rfl
    have ih := ih (item.objectiveToInternal f) fun m hm => h m (List.mem_cons_of_mem _ hm)
    rw [List.reverse_cons, List.foldlM_append, List.foldl_cons, ih]
    simp only [List.foldlM_cons, List.foldlM_nil, bind_pure]
    exact hitem

theorem objectiveToInternal_objectiveToUser [Scalar α] {c : Chain α}
    (h : ∀ m, .objective m ∈ c.items → ∀ f, ∃ g, m.toUser f = .ok g ∧ m.toInternal g = f) (f : α) :
    ∃ g, c.objectiveToUser f = .ok g ∧ c.objectiveToInternal g = f := by
  simp only [objectiveToUser, objectiveToInternal]
  generalize c.items = items at h
  induction items generalizing f
  case nil => exact ⟨f, rfl, rfl⟩
  case cons item items ih =>
    have ⟨g, hg, hf⟩ := ih f fun m hm => h m (List.mem_cons_of_mem _ hm)
    have ⟨e, he, hg'⟩ : ∃ e, item.objectiveToUser g = .ok e ∧ item.objectiveToInternal e = g := by
      cases item
      case objective m => exact h m List.mem_cons_self g
      all_goals exact ⟨g, rfl, rfl⟩
    refine ⟨e, ?_, ?_⟩
    · rw [List.reverse_cons, List.foldlM_append, hg]
      simp only [List.foldlM_cons, List.foldlM_nil, bind_pure]
      exact he
    · rw [List.foldl_cons, hg', hf]

-- What a chain may be asked to map.
inductive Use where
  | pointToInternal (x : View)
  | pointToUser (x : View)
  | gradientToInternal (g : View)
  | jacobianToInternal (jac : View)
  | boundsToInternal (bounds : View × View)
  | multipliersToUser (z : View)

variable [Scalar α]

def Use.run (c : Chain α) : Use → StoreM α Unit
  | .pointToInternal x => do let _ ← c.pointToInternal x
  | .pointToUser x => do let _ ← c.pointToUser x
  | .gradientToInternal g => do let _ ← c.gradientToInternal g
  | .jacobianToInternal jac => do let _ ← c.jacobianToInternal jac
  | .boundsToInternal bounds => do let _ ← c.boundsToInternal bounds
  | .multipliersToUser z => do let _ ← c.multipliersToUser z

-- However a use turns out, all removers stay intact.
theorem Use.preserves {made : List (Transformation α)} {c : Chain α} (hs : Separate made)
    (hc : ∀ item ∈ c.items, item ∈ made) (use : Use) : Keeps (Preserves made) (use.run c) := by
  have hr : ∀ item ∈ c.items.reverse, item ∈ made := fun item h => hc item (List.mem_reverse.mp h)
  have hrun {β : Type} {x : StoreM α β} (h : Keeps (Preserves made) x) :
      Keeps (Preserves made) (do let _ ← x) := Preserves.bind h fun _ => Preserves.pure _
  cases use
  all_goals
    apply hrun
    apply Preserves.foldlM
    intro item hm v
  case pointToInternal => exact pointToInternal_preserves hs (hc item hm) v
  case pointToUser => exact pointToUser_preserves hs (hr item hm) v
  case gradientToInternal => exact gradientToInternal_preserves made v
  case jacobianToInternal => exact jacobianToInternal_preserves made v
  case boundsToInternal => exact boundsToInternal_preserves hs (hc item hm) v
  case multipliersToUser => exact multipliersToUser_preserves hs (hr item hm) v

end Chain

-- Arrays, the transformations made so far, and a chain that is assembled of them.
structure Workbench (α : Type) where
  store : Store α
  made : List (Transformation α) := []
  chain : Chain α

namespace Workbench

-- An empty chain for so many variables.
def blank (n : Int) (store : Store α) : Workbench α :=
  { store := store, chain := ⟨.integer n, []⟩ }

variable [Scalar α]

-- Transformations are made, appended to the chain and used, also in other chains. What is written
-- beside that is written to other arrays.
inductive Step : Workbench α → Workbench α → Prop
  | remover {b mask values item store}
    (h : createRemover mask values b.store = .ok (item, store)) :
    Step b { b with store := store, made := item :: b.made }
  | relaxer {b mask tolerance item store}
    (h : createRelaxer mask tolerance b.store = .ok (item, store)) :
    Step b { b with store := store, made := item :: b.made }
  | objective {b m n} (h : m.size = .integer n) :
    Step b { b with made := .objective m :: b.made }
  | append {b item chain} (hm : item ∈ b.made) (h : b.chain.append item = .ok chain) :
    Step b { b with chain := chain }
  | clear {b} : Step b { b with chain := b.chain.clear }
  | use {b chain} (h : ∀ item ∈ chain.items, item ∈ b.made) (use : Chain.Use) :
    Step b { b with store := (use.run chain b.store).2 }
  | write {b touched store} (h : b.store.Writes touched store)
    (hd : ∀ item ∈ b.made, ∀ w ∈ item.arrays, ¬touched w.buffer) : Step b { b with store := store }

-- The transformations are intact and apart from each other, and those in the chain fit together.
structure Orderly (n : Int) (b : Workbench α) : Prop where
  size : b.chain.userSize = .integer n
  fits : ∃ m, Fits n b.chain.items m
  made : ∀ item ∈ b.chain.items, item ∈ b.made
  sizes : ∀ item ∈ b.made, ∃ k m : Int, item.userSize = .integer k ∧ item.internalSize = .integer m
  separate : Separate b.made
  known : ∀ item ∈ b.made, ∀ w ∈ item.arrays, w.buffer < b.store.buffers.length
  holds : ∀ r, .remover r ∈ b.made → ∃ mask values, r.Holds mask values b.store

variable {n : Int} {b b' : Workbench α} {item : Transformation α} {store : Store α}

theorem isSame_integer {k m : Int} :
    (RawValue.integer k : RawValue α).isSame (.integer m) ↔ k = m := by
  simp [RawValue.isSame, RawValue.toQuantity, Quantity.isEqual]

namespace Orderly

omit [Scalar α] in
theorem blank (n : Int) (store : Store α) : Orderly n (blank n store) where
  size := rfl
  fits := ⟨n, .nil n⟩
  made := by simp [Workbench.blank]
  sizes := by simp [Workbench.blank]
  separate := ⟨by simp [Workbench.blank], by simp [Workbench.blank]⟩
  known := by simp [Workbench.blank]
  holds := by simp [Workbench.blank]

omit [Scalar α] in
theorem preserves (h : Orderly n b) (hp : Preserves b.made b.store store) :
    Orderly n { b with store := store } :=
  { h with
    known := fun item hm w hw => Nat.lt_of_lt_of_le (h.known item hm w hw) hp.length_le
    holds := fun r hr =>
      have ⟨mask, values, hold⟩ := h.holds r hr
      ⟨mask, values, { hp.intact hr hold.toIntact with fixedValues := hold.fixedValues }⟩ }

-- Nothing that is there is touched when another transformation is made.
omit [Scalar α] in
theorem make (h : Orderly n b) (hw : b.store.Writes (fun _ => False) store)
    (hnew : ∀ w ∈ item.arrays, b.store.buffers.length ≤ w.buffer ∧
      w.buffer < store.buffers.length)
    (hsize : ∃ k m : Int, item.userSize = .integer k ∧ item.internalSize = .integer m)
    (hold : ∀ r, item = .remover r → ∃ mask values, r.Holds mask values store) :
    Orderly n { b with store := store, made := item :: b.made } := by
  have hp := h.preserves (Preserves.of_writes hw fun _ => id)
  constructor
  case size => exact h.size
  case fits => exact h.fits
  case made => exact fun item hm => List.mem_cons_of_mem _ (h.made item hm)
  case sizes => exact List.forall_mem_cons.mpr ⟨hsize, h.sizes⟩
  case separate =>
    refine h.separate.cons h.known (fun w hw => (hnew w hw).left) fun r hr => ?_
    have ⟨mask, values, hold⟩ := hold r hr
    exact hold.distinct
  case known => exact List.forall_mem_cons.mpr ⟨fun w hw => (hnew w hw).right, hp.known⟩
  case holds =>
    intro r hr
    cases List.mem_cons.mp hr
    case inl he => exact hold r he.symm
    case inr hr => exact hp.holds r hr

theorem append {chain : Chain α} (h : Orderly n b) (hm : item ∈ b.made)
    (ha : b.chain.append item = .ok chain) : Orderly n { b with chain := chain } := by
  have ⟨k, hfits⟩ := h.fits
  have ⟨j, m, hu, hi⟩ := h.sizes item hm
  have hsize : b.chain.internalSize = .integer k := by
    rw [← hfits.internalSize, ← h.size]
  rw [Chain.append, hu, hsize] at ha
  split at ha <;> cases ha
  case isTrue hs =>
    have hjk := isSame_integer.mp hs
    subst hjk
    exact { h with
      fits := ⟨m, hfits.append hu hi⟩
      made := by simpa [or_imp, forall_and, hm] using h.made }

-- What one step makes of an orderly workbench is an orderly workbench.
theorem step (h : Orderly n b) (hs : Step b b') : Orderly n b' := by
  cases hs
  case remover hr =>
    have ⟨r, he, hold, hw, hnew⟩ := createRemover_makes hr
    refine h.make hw hnew ?_ fun r' hr' => ?_
    · exact he ▸ ⟨_, _, rfl, rfl⟩
    · cases he.symm.trans hr'
      exact ⟨_, _, hold⟩
  case relaxer hq =>
    have ⟨q, he, hw, hnew⟩ := createRelaxer_makes hq
    refine h.make hw hnew ?_ fun r hr => ?_
    · exact he ▸ ⟨_, _, rfl, rfl⟩
    · cases he.symm.trans hr
  case objective m k hm =>
    refine h.make (.refl _ _) (by simp [arrays]) ⟨k, k, hm, hm⟩ fun r hr => ?_
    cases hr
  case append hm ha => exact h.append hm ha
  case clear => exact { h with fits := ⟨n, .nil n⟩, made := by simp [Chain.clear] }
  case use hc use => exact h.preserves (use.preserves h.separate hc b.store)
  case write hw hd =>
    refine h.preserves (.of_writes hw fun hr => ?_)
    exact hd _ hr _ (by simp [arrays, Remover.scratch])

theorem of_steps (h : ReflTransGen Step (Workbench.blank n store) b) : Orderly n b := by
  induction h
  case refl => exact .blank n store
  case tail hs hi => exact hi.step hs

variable {v : View} {k : Nat}

-- Nothing gets lost on the way from an internal point to the user's and back.
theorem internal_round_trip (h : Orderly n b) (hk : b.chain.internalSize = .integer k)
    (hv : v.shape = [k]) (hvalid : b.store.Valid v) : ∃ w t z u,
      b.chain.pointToUser v b.store = (.ok w, t) ∧ b.chain.pointToInternal w t = (.ok z, u) ∧
        u.entries z = b.store.entries v := by
  have ⟨m, hfits⟩ := h.fits
  have hm : m = k := by
    have hs := hfits.internalSize
    rw [← h.size] at hs
    exact RawValue.integer.inj (hs.symm.trans hk)
  have ⟨j, hj⟩ := Int.eq_ofNat_of_zero_le (hfits.nonneg (hm ▸ Int.natCast_nonneg k))
  have ⟨picks, base, hc, _, hl⟩ := hfits.exists_composes (fun r hr => h.holds r (h.made _ hr)) hj.symm
  have hpicks : picks.length = k := by omega
  have ⟨w, t, ht, hw, hwv, hwe, hp⟩ := hc.pointToUser_run h.separate h.made (hpicks ▸ hv) hvalid
  have ⟨z, u, hu, _, _, hze, _⟩ :=
    (hc.preserves hp h.made).pointToInternal_run h.separate h.made hw hwv
  refine ⟨w, t, z, u, ht, hu, ?_⟩
  rw [hze, hwe, gather_scatter hc.nodup _ hc.lt]
  rw [Store.length_entries hvalid, View.size_of_shape hv, hpicks]

-- A user's point comes back with the stored values of the eliminated variables.
theorem user_round_trip (h : Orderly n b) (hk : b.chain.userSize = .integer k)
    (hv : v.shape = [k]) (hvalid : b.store.Valid v) : ∃ z t w u,
      b.chain.pointToInternal v b.store = (.ok z, t) ∧ b.chain.pointToUser z t = (.ok w, u) ∧
        Completes b.chain.items (b.store.entries v) (u.entries w) := by
  have ⟨m, hfits⟩ := h.fits
  have hn : (k : Int) = n := RawValue.integer.inj (hk.symm.trans h.size)
  have ⟨picks, base, hc, hl, _⟩ := hfits.exists_composes (fun r hr => h.holds r (h.made _ hr)) hn
  have ⟨z, t, ht, hz, hzv, hze, hp⟩ := hc.pointToInternal_run h.separate h.made (hl ▸ hv) hvalid
  have ⟨w, u, hu, _, _, hwe, _⟩ :=
    (hc.preserves hp h.made).pointToUser_run h.separate h.made hz hzv
  refine ⟨z, t, w, u, ht, hu, ?_⟩
  rw [hwe, hze]
  apply hc.completes
  rw [Store.length_entries hvalid, View.size_of_shape hv, hl]

end Orderly

theorem append_of_sizes {c : Chain α} {k : Int} (hu : item.userSize = .integer k)
    (hc : c.internalSize = .integer k) : c.append item = .ok { c with items := c.items ++ [item] } :=
  if_pos (by rw [hu, hc]; exact isSame_integer.mpr rfl)

def withRemover (b : Workbench α) (mask : List Bool) (values : List α) : Workbench α :=
  let (r, store) := Remover.create mask values b.store
  ⟨store, .remover r :: b.made, { b.chain with items := b.chain.items ++ [.remover r] }⟩

theorem withRemover_steps {mask : List Bool} {values : List α}
    (hs : b.chain.internalSize = .integer mask.length) (hv : values.length = mask.length) :
    ReflTransGen Step b (b.withRemover mask values) := by
  have ⟨hp, _, _⟩ := Remover.create_views mask values b.store
  have hu : (Transformation.remover (Remover.create mask values b.store).1).userSize =
      .integer mask.length := by
    rw [userSize, Remover.userSize, hp, View.size_of_shape rfl]
  have hstep : Step b _ := .remover (createRemover_of_length hv b.store)
  exact .tail (.single hstep) (.append List.mem_cons_self (append_of_sizes hu hs))

def withObjective (b : Workbench α) (m : ObjectiveMap α) : Workbench α :=
  ⟨b.store, .objective m :: b.made, { b.chain with items := b.chain.items ++ [.objective m] }⟩

theorem withObjective_steps {m : ObjectiveMap α} {k : Int} (hm : m.size = .integer k)
    (hs : b.chain.internalSize = .integer k) : ReflTransGen Step b (b.withObjective m) :=
  .tail (.single (.objective hm)) (.append List.mem_cons_self (append_of_sizes hm hs))

-- An objective that is to be maximized.
def negated (n : Int) : ObjectiveMap Exact where
  name := "Negated"
  size := .integer n
  toInternal := fun f => -f
  toUser := fun f => .ok (-f)

-- Two points, and a chain that eliminates the second of four variables.
def once : Workbench Exact :=
  (blank 4 ⟨[⟨[1, .finite 3], [2], true⟩, ⟨[.finite 5, 0, .finite 6, 0], [4], true⟩]⟩).withRemover
    [false, true, false, false] [0, .finite 7, 0, 0]

-- Of the variables that are left, the last one is eliminated then.
def twice : Workbench Exact := once.withRemover [false, false, true] [0, 0, .finite 9]

-- However a chain was assembled, and whatever was mapped before, it can be inverted. Internal points
-- are recovered from the user's points, user's points but for the stored values of the eliminated
-- variables, and objectives as far as the items in the chain recover them.
theorem chain_invertible (h : ReflTransGen Step (Workbench.blank n store) b) :
    (∀ (y : View) (k : Nat), b.chain.internalSize = .integer k → y.shape = [k] →
      b.store.Valid y → ∃ w t z u, b.chain.pointToUser y b.store = (.ok w, t) ∧
        b.chain.pointToInternal w t = (.ok z, u) ∧ u.entries z = b.store.entries y) ∧
    (∀ (x : View) (k : Nat), b.chain.userSize = .integer k → x.shape = [k] →
      b.store.Valid x → ∃ z t w u, b.chain.pointToInternal x b.store = (.ok z, t) ∧
        b.chain.pointToUser z t = (.ok w, u) ∧
        Completes b.chain.items (b.store.entries x) (u.entries w) ∧
        (u.entries w = b.store.entries x ↔ ∀ i r k, eliminator? b.chain.items i = some (r, k) →
          (b.store.entries x)[i]? = r.fixedValues[k]?)) ∧
    ((∀ m, .objective m ∈ b.chain.items → ∀ f, m.toUser (m.toInternal f) = .ok f) →
      ∀ f, b.chain.objectiveToUser (b.chain.objectiveToInternal f) = .ok f) ∧
    ((∀ m, .objective m ∈ b.chain.items → ∀ f, ∃ g, m.toUser f = .ok g ∧ m.toInternal g = f) →
      ∀ f, ∃ g, b.chain.objectiveToUser f = .ok g ∧ b.chain.objectiveToInternal g = f) := by
  have ho := Orderly.of_steps h
  refine ⟨fun y k => ho.internal_round_trip, fun x k hk hx hv => ?_,
    Chain.objectiveToUser_objectiveToInternal, Chain.objectiveToInternal_objectiveToUser⟩
  have ⟨z, t, w, u, ht, hu, hc⟩ := ho.user_round_trip hk hx hv
  exact ⟨z, t, w, u, ht, hu, hc, hc.eq_iff⟩

-- Stored values are found in the user's order, and the way back leads to where it began.
theorem chain_invertible_twice :
    ∃ b : Workbench Exact, b = twice.withObjective (negated 2) ∧
      (∃ w t z u, b.chain.pointToUser ⟨0, [2]⟩ b.store = (.ok w, t) ∧
        b.chain.pointToInternal w t = (.ok z, u) ∧ u.entries z = [1, .finite 3]) ∧
      (∃ z t w u, b.chain.pointToInternal ⟨1, [4]⟩ b.store = (.ok z, t) ∧
        b.chain.pointToUser z t = (.ok w, u) ∧ (u.entries w)[2]? = some (.finite 6) ∧
        (u.entries w)[3]? = some (.finite 9)) ∧
      ∀ f, b.chain.objectiveToUser (b.chain.objectiveToInternal f) = .ok f := by
  have h₁ : ReflTransGen Step (blank 4 _) once := withRemover_steps rfl rfl
  have h₂ : ReflTransGen Step once twice := withRemover_steps rfl rfl
  have h₃ : ReflTransGen Step twice (twice.withObjective (negated 2)) := withObjective_steps rfl rfl
  have h := h₁.trans (h₂.trans h₃)
  have ⟨hinternal, huser, hobj, _⟩ := chain_invertible h
  refine ⟨_, rfl, ?_, ?_, hobj fun m hm f => ?_⟩
  · exact hinternal ⟨0, [2]⟩ 2 rfl rfl ⟨_, rfl, by decide⟩
  · have ⟨z, t, w, u, ht, hu, hc, _⟩ := huser ⟨1, [4]⟩ 4 rfl rfl ⟨_, rfl, by decide⟩
    have ⟨v, hv, hw⟩ := hc.stored (i := 3) rfl
    cases hv
    exact ⟨z, t, w, u, ht, hu, hc.kept (i := 2) rfl, hw⟩
  · have hm : m = negated 2 := by simpa [twice, once, withObjective, withRemover, blank] using hm
    rw [hm]
    exact congrArg Except.ok (Exact.neg_neg f)

end Workbench
end NonlinearProgram
