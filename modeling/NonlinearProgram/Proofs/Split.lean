import NonlinearProgram.Formulation.Report
import NonlinearProgram.Proofs.Scalar
import NonlinearProgram.Proofs.Store

namespace NonlinearProgram

variable {α : Type}

namespace ConstraintSplit

variable {split : ConstraintSplit α} {m : Nat} {xs ys base : List α}

-- Every constraint is in exactly one of both groups.
def Parts (split : ConstraintSplit α) (m : Nat) : Prop :=
  ∃ mask : List Bool, mask.length = m ∧ split.equalities = setPositions mask ∧
    split.inequalities = clearPositions mask

theorem parts_ofBounds [Scalar α] {infinity : α} {lower upper : List α} {types : List Nonlinearity}
    (hl : lower.length = m) (hu : upper.length = m) :
    (ofBounds infinity lower upper types).Parts m :=
  ⟨_, by simp [hl, hu], rfl, rfl⟩

theorem Parts.length (h : split.Parts m) :
    split.equalities.length + split.inequalities.length = m := by
  have ⟨mask, hm, heq, hineq⟩ := h
  rw [heq, hineq, length_positions, hm]

theorem Parts.lt (h : split.Parts m) :
    (∀ i ∈ split.equalities, i < m) ∧ ∀ i ∈ split.inequalities, i < m := by
  have ⟨mask, hm, heq, hineq⟩ := h
  rw [heq, hineq, ← hm]
  exact ⟨fun _ hi => setPositions_lt hi, fun _ hi => clearPositions_lt hi⟩

theorem Parts.mem_or (h : split.Parts m) {i : Nat} (hi : i < m) :
    i ∈ split.equalities ∨ i ∈ split.inequalities := by
  have ⟨mask, hm, heq, hineq⟩ := h
  rw [heq, hineq]
  exact mem_positions_or (hm ▸ hi)

-- Nothing shines through from below the entries of both groups.
theorem Parts.scatter_congr (h : split.Parts m) {a b : List α}
    (hx : xs.length = split.equalities.length) (hy : ys.length = split.inequalities.length)
    (ha : a.length = m) (hb : b.length = m) :
    scatter split.inequalities ys (scatter split.equalities xs a) =
      scatter split.inequalities ys (scatter split.equalities xs b) := by
  have ⟨mask, hm, heq, hineq⟩ := h
  rw [heq] at hx ⊢
  rw [hineq] at hy ⊢
  refine scatter_clear_congr hy (by rw [length_scatter, ha, hm]) (by rw [length_scatter, hb, hm])
    fun i hi => ?_
  have ⟨k, hk⟩ := List.getElem?_of_mem hi
  have hlt := setPositions_lt hi
  rw [getElem?_scatter (setPositions_nodup mask) hx hk (by omega),
    getElem?_scatter (setPositions_nodup mask) hx hk (by omega)]

-- What is picked for both groups comes back in the user's order.
theorem Parts.scatter_map {β : Type} (h : split.Parts m) (f : Nat → β) {base : List β}
    (hb : base.length = m) :
    scatter split.inequalities (split.inequalities.map f)
      (scatter split.equalities (split.equalities.map f) base) = (List.range m).map f := by
  have ⟨mask, hm, heq, hineq⟩ := h
  rw [heq, hineq, ← hm]
  exact scatter_positions f mask (hb.trans hm.symm)

variable [Zero α]

theorem Parts.scatter_eq_merge (h : split.Parts m) (hx : xs.length = split.equalities.length)
    (hy : ys.length = split.inequalities.length) (hb : base.length = m) :
    scatter split.inequalities ys (scatter split.equalities xs base) = split.merge xs ys :=
  h.scatter_congr hx hy hb (by simp [h.length])

theorem Parts.length_merge (h : split.Parts m) : (split.merge xs ys).length = m := by
  rw [merge, length_scatter, length_scatter, List.length_replicate, h.length]

theorem Parts.merge_map (h : split.Parts m) (f : Nat → α) :
    split.merge (split.equalities.map f) (split.inequalities.map f) = (List.range m).map f :=
  h.scatter_map f (by rw [List.length_replicate, h.length])

theorem Parts.gather_merge (h : split.Parts m) (hx : xs.length = split.equalities.length)
    (hy : ys.length = split.inequalities.length) :
    gather (split.merge xs ys) split.equalities = xs ∧
      gather (split.merge xs ys) split.inequalities = ys := by
  have hlen := h.length
  have ⟨hset, hclear⟩ := h.lt
  have ⟨mask, _, heq, hineq⟩ := h
  constructor
  case left =>
    rw [merge, gather_scatter_of_disjoint]
    · exact gather_scatter (heq ▸ setPositions_nodup mask) hx (by simpa [hlen] using hset)
    · exact fun i hi => hineq ▸ not_mem_clearPositions (heq ▸ hi)
  case right =>
    exact gather_scatter (hineq ▸ clearPositions_nodup mask) hy
      (by simpa [length_scatter, hlen] using hclear)

theorem merge?_of_shape {x y : Tensor α} (hx : x.shape = [split.equalities.length])
    (hy : y.shape = [split.inequalities.length]) :
    split.merge? x y = .ok (split.merge x.entries y.entries) := by
  simp only [merge?, Tensor.stretchedToSelection?_of_shape hx,
    Tensor.stretchedToSelection?_of_shape hy]

end ConstraintSplit

section

variable [Scalar α] [ExactScalar α]

theorem sum_append (xs ys : List α) : (xs ++ ys).sum = xs.sum + ys.sum := by
  induction xs
  case nil => exact (ExactScalar.zero_add _).symm
  case cons x xs hi =>
    rw [List.cons_append, List.sum_cons, List.sum_cons, hi, ExactScalar.add_assoc]

theorem sum_perm {xs ys : List α} (h : xs.Perm ys) : xs.sum = ys.sum := by
  induction h
  case nil => rfl
  case cons x _ hi => rw [List.sum_cons, List.sum_cons, hi]
  case swap x y xs =>
    simp only [List.sum_cons]
    rw [← ExactScalar.add_assoc, ExactScalar.add_comm y, ExactScalar.add_assoc]
  case trans h₁ h₂ => exact h₁.trans h₂

-- A sum over all constraints is one over both groups.
theorem ConstraintSplit.Parts.sum_map {split : ConstraintSplit α} {m : Nat} (h : split.Parts m)
    (f : Nat → α) : ((List.range m).map f).sum =
      (split.equalities.map f).sum + (split.inequalities.map f).sum := by
  have ⟨mask, hm, heq, hineq⟩ := h
  rw [← sum_append, ← List.map_append, heq, hineq, ← hm]
  exact (sum_perm ((positions_perm mask).map f)).symm

-- The Lagrangian does not depend on how the constraints are parted.
theorem ConstraintSplit.Parts.sum_products {split : ConstraintSplit α} {m : Nat}
    (h : split.Parts m) (f : Nat → α) {xs ys : List α} (hx : xs.length = split.equalities.length)
    (hy : ys.length = split.inequalities.length) :
    (List.zipWith (· * ·) (split.merge xs ys) ((List.range m).map f)).sum =
      (List.zipWith (· * ·) xs (split.equalities.map f)).sum +
        (List.zipWith (· * ·) ys (split.inequalities.map f)).sum := by
  have ⟨hgx, hgy⟩ := h.gather_merge hx hy
  have ⟨heq, hineq⟩ := h.lt
  let weight (i : Nat) : α := (split.merge xs ys)[i]?.getD 0
  have hm : split.merge xs ys = (List.range m).map weight := by
    apply List.ext_getElem
    · simp [h.length_merge]
    · intro i hi _
      simp [weight, hi]
  have hxs : split.equalities.map weight = xs := by rw [← gather_map weight heq, ← hm, hgx]
  have hys : split.inequalities.map weight = ys := by rw [← gather_map weight hineq, ← hm, hgy]
  have products (picks : List Nat) : List.zipWith (· * ·) (picks.map weight) (picks.map f) =
      picks.map fun i => weight i * f i := by
    rw [List.zipWith_map, List.zipWith_self]
  rw [hm, products, h.sum_map, ← products, ← products, hxs, hys]

end
end NonlinearProgram
