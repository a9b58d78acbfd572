import NonlinearProgram.Proofs.Partition
import NonlinearProgram.Proofs.Split
import NonlinearProgram.Vector

-- An inner product is a sum over all entries. Where every rank holds a slice of both vectors, the
-- ranks get it as the total of what each of them makes of its own slices.

namespace NonlinearProgram

variable {α : Type}

section

variable [Scalar α] [ExactScalar α]

theorem add_zero (a : α) : a + 0 = a := by
  rw [ExactScalar.add_comm, ExactScalar.zero_add]

theorem foldl_add_eq_sum (a : α) (xs : List α) : xs.foldl (· + ·) a = a + xs.sum := by
  induction xs generalizing a
  case nil => exact (add_zero a).symm
  case cons x xs hi => rw [List.foldl_cons, hi, List.sum_cons, ExactScalar.add_assoc]

-- Where nothing is rounded, it does not matter whether a single product stands alone.
theorem innerProduct_eq_sum (xs ys : List α) :
    innerProduct xs ys = (List.zipWith (· * ·) xs ys).sum := by
  rw [innerProduct.eq_def]
  split
  case h_1 p hp => rw [hp, List.sum_cons, List.sum_nil, add_zero]
  case h_2 => rw [sumOfProducts, foldl_add_eq_sum, ExactScalar.zero_add]

end

namespace Layout

variable {l : Layout} {xs ys zs : List α}

-- What a rank holds of a list that is spread over the ranks.
def portion (l : Layout) (xs : List α) : List α := (xs.take l.stop.toNat).drop l.start.toNat

theorem length_portion (l : Layout) (h : ys.length = xs.length) :
    (l.portion ys).length = (l.portion xs).length := by
  simp only [portion, List.length_drop, List.length_take, h]

theorem zipWith_portion {β γ : Type} (f : α → β → γ) (l : Layout) (xs : List α) (ys : List β) :
    List.zipWith f (l.portion xs) (l.portion ys) = l.portion (List.zipWith f xs ys) := by
  simp only [portion, List.take_zipWith, List.drop_zipWith]

theorem portion_ofSize (xs : List α) : (ofSize xs.length).portion xs = xs := by
  simp [portion, ofSize, start, stop, boundary]

variable [Scalar α] [ExactScalar α]

-- The induction is on the number of slices; each one begins where those before it end.
theorem sum_portions (h : ∀ r < l.rankCount, 0 ≤ (l.seenBy r).localSize) (hz : l.boundary 0 = 0)
    (zs : List α) {q : Nat} (hq : q ≤ l.rankCount) :
    (List.ofFn fun r : Fin q => ((l.seenBy r).portion zs).sum).sum =
      (zs.take (l.boundary q).toNat).sum := by
  induction q
  case zero => simp [hz]
  case succ q hi =>
    have hle : (l.boundary q).toNat ≤ (l.boundary (q + 1)).toNat :=
      Int.toNat_le_toNat (boundary_le h (Nat.le_add_right q 1) hq)
    have hparts := List.take_append_drop (l.boundary q).toNat
      (zs.take (l.boundary (q + 1)).toNat)
    rw [List.take_take, Nat.min_eq_left hle] at hparts
    have hfront := hi (by omega)
    rw [List.ofFn_succ_last, sum_append, List.sum_cons, List.sum_nil, add_zero, ← hparts,
      sum_append]
    exact congrArg (· + ((l.seenBy q).portion zs).sum) hfront

theorem sum_slices {bounds : List Int} {ranks : Nat} (hlen : bounds.length = ranks + 1)
    (hfirst : bounds.head? = some 0) (horder : bounds.IsChain (· < ·))
    (hz : (zs.length : Int) = bounds.getLastD 0) :
    (List.ofFn fun r : Fin ranks => ((Layout.mk bounds r).portion zs).sum).sum = zs.sum := by
  let whole : Layout := ⟨bounds, 0⟩
  have hcount : whole.rankCount = ranks := by simp [whole, Layout.rankCount, hlen]
  have hnonneg := (isChain_le_iff (l := whole)).mp (horder.imp fun _ _ => Int.le_of_lt)
  have hzero : whole.boundary 0 = 0 := by
    rw [boundary, ← List.head?_eq_getElem?, hfirst]
    rfl
  have hlast : whole.boundary ranks = zs.length := by
    have hget : bounds[ranks]? = bounds.getLast? := by
      rw [List.getLast?_eq_getElem?, hlen, Nat.add_sub_cancel]
    rw [boundary, hget, ← List.getLastD_eq_getLast?, hz]
  have h := sum_portions hnonneg hzero zs (Nat.le_of_eq hcount.symm)
  rw [hlast, Int.toNat_natCast, List.take_length] at h
  exact h

end Layout

namespace DistributedVector

variable [Scalar α]

-- A vector that holds what its rank has of a list.
structure Holds (v : DistributedVector α) (l : Layout) (s : Store α) (xs : List α) : Prop where
  layout : v.layout = l
  valid : s.Valid v.view
  entries : s.entries v.view = l.portion xs

omit [Scalar α] in
theorem Holds.localSize_eq {v w : DistributedVector α} {l : Layout} {s : Store α}
    {xs ys : List α} (hv : v.Holds l s xs) (hw : w.Holds l s ys) (h : ys.length = xs.length) :
    w.localSize = v.localSize := by
  rw [localSize, localSize, ← Store.length_entries hv.valid, ← Store.length_entries hw.valid,
    hv.entries, hw.entries, l.length_portion h]

-- What one rank needs for an inner product: two vectors, the communicator that it names, if any,
-- and the sums over ranks that it has entered before.
structure Factors (α : Type) where
  left : DistributedVector α
  right : DistributedVector α
  communicator : Option (Communicator α)
  store : Store α
  history : List (Reduction α)

namespace Factors

def product (f : Factors α) : Except VectorError (Except ValueFault α × List (Reduction α)) :=
  f.left.dot f.right f.communicator f.store f.history

-- Both vectors are this rank's share of two lists, and nothing else is stored.
def share (l : Layout) (xs ys : List α) (c : Option (Communicator α)) : Factors α where
  left := ⟨l, ⟨0, [(l.portion xs).length]⟩, none⟩
  right := ⟨l, ⟨1, [(l.portion ys).length]⟩, none⟩
  communicator := c
  store := ⟨[⟨l.portion xs, [(l.portion xs).length], true⟩,
    ⟨l.portion ys, [(l.portion ys).length], true⟩]⟩
  history := []

-- What the rank contributes to the sums that it enters for the product.
def contributions (f : Factors α) : List (Quantity α) :=
  f.product.toOption.elim [] fun (_, history) => (history.drop f.history.length).map Reduction.value

-- Both vectors are this rank's share of two lists.
structure Hold (f : Factors α) (l : Layout) (xs ys : List α) : Prop where
  left : f.left.Holds l f.store xs
  right : f.right.Holds l f.store ys

omit [Scalar α] in
theorem hold_share (l : Layout) (xs ys : List α) (c : Option (Communicator α)) :
    (share l xs ys c).Hold l xs ys where
  left := ⟨rfl, ⟨_, rfl, by simp [share, View.size, Tensor.sizeOf]⟩,
    by simp [share, Store.entries, View.size, Tensor.sizeOf]⟩
  right := ⟨rfl, ⟨_, rfl, by simp [share, View.size, Tensor.sizeOf]⟩,
    by simp [share, Store.entries, View.size, Tensor.sizeOf]⟩

variable {f : Factors α} {l : Layout} {xs ys : List α} {c : Communicator α}

-- The product of the local parts goes through the communicator once, or not at all.
theorem Hold.product_of_distributed (h : f.Hold l xs ys) (hl : ys.length = xs.length)
    (hd : l.isDistributed) (hc : (f.communicator <|> f.left.communicator) = some c) :
    f.product = .ok ((c.sum (c.position f.history)
        (.scalar (innerProduct (l.portion xs) (l.portion ys)))).bind Quantity.toScalar,
      f.history ++ [⟨c.name, .scalar (innerProduct (l.portion xs) (l.portion ys))⟩]) := by
  have hsize := h.left.localSize_eq h.right hl
  rw [product, dot, if_neg (not_not.mpr hsize), h.left.layout, h.left.entries, h.right.entries, hc]
  simp [hd, Communicator.reduce]

theorem Hold.product_of_serial (h : f.Hold l xs ys) (hl : ys.length = xs.length)
    (hd : l.isDistributed = false) :
    f.product = .ok (.ok (innerProduct (l.portion xs) (l.portion ys)), f.history) := by
  have hsize := h.left.localSize_eq h.right hl
  rw [product, dot, if_neg (not_not.mpr hsize), h.left.layout, h.left.entries, h.right.entries]
  simp [hd]

theorem Hold.contributions_eq (h : f.Hold l xs ys) (hl : ys.length = xs.length)
    (hd : l.isDistributed) (hc : (f.communicator <|> f.left.communicator) = some c) :
    f.contributions = [.scalar (innerProduct (l.portion xs) (l.portion ys))] := by
  rw [contributions, h.product_of_distributed hl hd hc]
  simp [Except.toOption]

end Factors

-- The ranks multiply together: each of them has a communicator, its own one or one that it names,
-- and if all of them contribute a scalar to the sum that is due, then each of them gets the total.
structure Joined {ranks : Nat} (rank : Fin ranks → Factors α) (c : Fin ranks → Communicator α) :
    Prop where
  charge : ∀ r, ((rank r).communicator <|> (rank r).left.communicator) = some (c r)
  total : ∀ x : Fin ranks → α, (∀ r, (rank r).contributions = [.scalar (x r)]) → ∀ r,
    (c r).sum ((c r).position (rank r).history) (.scalar (x r)) = .ok (.scalar (List.ofFn x).sum)

variable [ExactScalar α] {ranks : Nat} {bounds : List Int} {xs ys : List α}

-- Each rank of at least two gets the inner product of two vectors, which it holds a slice of, and
-- enters one sum for it. A rank that holds both vectors in full gets the same and enters none,
-- whatever communicators there are. Both layouts can be made of boundaries that fit in 64 bits.
theorem dot_global (hm : 2 ≤ ranks) (hlen : bounds.length = ranks + 1)
    (hfirst : bounds.head? = some 0) (horder : bounds.IsChain (· < ·))
    (hx : (xs.length : Int) = bounds.getLastD 0) (hy : ys.length = xs.length) :
    (∀ layout : Fin ranks → Layout,
      (∀ r : Fin ranks, Layout.ofBoundaries bounds r = .ok (layout r)) →
      ∀ rank : Fin ranks → Factors α, (∀ r, (rank r).Hold (layout r) xs ys) →
      ∀ c, Joined rank c → ∀ r, ∃ part, (rank r).product =
        .ok (.ok (List.zipWith (· * ·) xs ys).sum,
          (rank r).history ++ [⟨(c r).name, .scalar part⟩])) ∧
    (∀ layout, Layout.serial xs.length = .ok layout → ∀ f : Factors α, f.Hold layout xs ys →
      f.product = .ok (.ok (List.zipWith (· * ·) xs ys).sum, f.history)) ∧
    ((∀ b ∈ bounds, isInt64 b) →
      (∀ r : Fin ranks, ∃ layout, Layout.ofBoundaries bounds r = .ok layout) ∧
        ∃ layout, Layout.serial xs.length = .ok layout) := by
  refine ⟨fun layout hl rank hold c hj r => ?slices, fun layout hl f hold => ?whole,
    fun h64 => ⟨fun r => ?sliced, ?serial⟩⟩
  case slices =>
    let part (q : Fin ranks) : α := innerProduct ((layout q).portion xs) ((layout q).portion ys)
    have hb (q : Fin ranks) : layout q = ⟨bounds, q⟩ := Layout.ofBoundaries_eq_ok (hl q)
    have hd (q : Fin ranks) : (layout q).isDistributed := by
      simp [hb, Layout.isDistributed, Layout.rankCount, hlen]
      omega
    have hsum := hj.total part (fun q => (hold q).contributions_eq hy (hd q) (hj.charge q)) r
    have hparts : (List.ofFn part).sum = (List.zipWith (· * ·) xs ys).sum := by
      have hz : ((List.zipWith (· * ·) xs ys).length : Int) = bounds.getLastD 0 := by simp [hx, hy]
      rw [← Layout.sum_slices hlen hfirst horder hz]
      simp only [part, innerProduct_eq_sum, Layout.zipWith_portion, hb]
    refine ⟨part r, ?_⟩
    rw [(hold r).product_of_distributed hy (hd r) (hj.charge r), hsum, hparts]
    rfl
  case whole =>
    have hb : layout = Layout.ofSize xs.length := Layout.serial_eq_ok hl
    have hp : (Layout.ofSize xs.length).portion ys = ys := hy ▸ Layout.portion_ofSize ys
    rw [hold.product_of_serial hy (hb ▸ rfl), hb, Layout.portion_ofSize, hp, innerProduct_eq_sum]
  case sliced =>
    have hcuts : Layout.Cuts (· < ·) bounds r :=
      ⟨by omega, hfirst, horder.imp fun _ _ => .inl, by omega, by omega⟩
    obtain ⟨made, _⟩ := (Layout.cuts_lt_iff h64).mp hcuts
    exact (Layout.exists_ofBoundaries_iff h64).mpr made
  case serial =>
    have hsize : isInt64 xs.length := by
      rw [hx, List.getLastD_eq_getLast?]
      cases hb : bounds.getLast?
      case none => rfl
      case some b => exact h64 b (List.mem_of_getLast? hb)
    exact ⟨_, Layout.serial_of_isInt64 (Int.natCast_nonneg _) hsize⟩

-- The first rank holds one entry of each vector, which make 4, and the second one two, which
-- make 28.
theorem dot_global_uneven :
    let xs : List Exact := [.finite 1, .finite 2, .finite 3]
    let ys : List Exact := [.finite 4, .finite 5, .finite 6]
    let c (r : Fin 2) : Communicator Exact :=
      .withPeers "world" (.integer r) (.integer 2)
        [.ok (.scalar (if r = 0 then .finite 28 else .finite 4))]
    ∀ r : Fin 2, ∃ part, (Factors.share ⟨[0, 1, 3], r⟩ xs ys (c r)).product =
      .ok (.ok (.finite 32), [⟨"world", .scalar part⟩]) := by
  intro xs ys c
  have ⟨hdot, _, hmade⟩ := @dot_global Exact _ _ 2 [0, 1, 3] xs ys (by decide) rfl rfl
    (by decide) rfl rfl
  let rank (r : Fin 2) := Factors.share ⟨[0, 1, 3], r⟩ xs ys (c r)
  let part (r : Fin 2) : Exact := if r = 0 then .finite 4 else .finite 28
  have hold (r : Fin 2) : (rank r).Hold ⟨[0, 1, 3], r⟩ xs ys := Factors.hold_share ..
  have hpart : ∀ r : Fin 2, innerProduct ((Layout.mk [0, 1, 3] r).portion xs)
      ((Layout.mk [0, 1, 3] r).portion ys) = part r := by decide +kernel
  have htotal : ∀ r : Fin 2, part r + (if r = 0 then .finite 28 else .finite 4) =
      (List.ofFn part).sum := by decide +kernel
  have hsum : (List.zipWith (· * ·) xs ys).sum = .finite 32 := by decide +kernel
  rw [← hsum]
  refine hdot _ ?made rank hold c ⟨fun r => rfl, ?total⟩
  case made =>
    intro r
    have ⟨l, hl⟩ := (hmade (by decide)).left r
    rw [hl, Layout.ofBoundaries_eq_ok hl]
    rfl
  case total =>
    intro x hx r
    have hxs : x = part := by
      funext q
      have hq := (hold q).contributions_eq rfl (by decide +revert) rfl
      rw [hx, hpart] at hq
      simpa using hq
    rw [hxs, ← htotal r]
    rfl

end DistributedVector
end NonlinearProgram
