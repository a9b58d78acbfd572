import NonlinearProgram.Proofs.Store

-- A tensor that has as many entries as its shape asks for keeps them through slices, and is
-- stretched to as many as are picked.

namespace NonlinearProgram.Tensor

variable {α : Type} {x y : Tensor α}

def Full (x : Tensor α) : Prop := x.entries.length = sizeOf x.shape

theorem foldl_mul_eq (n : Nat) (shape : List Nat) : shape.foldl (· * ·) n = n * sizeOf shape := by
  induction shape generalizing n
  case nil => exact (Nat.mul_one n).symm
  case cons m shape ih =>
    simp only [sizeOf, List.foldl_cons, Nat.one_mul] at ih ⊢
    rw [ih (n * m), ih m, Nat.mul_assoc]

theorem sizeOf_cons (n : Nat) (shape : List Nat) : sizeOf (n :: shape) = n * sizeOf shape := by
  rw [sizeOf, List.foldl_cons, foldl_mul_eq, Nat.one_mul]

theorem length_indices_singleton (n : Nat) : (indices [n]).length = n := by
  simp [indices]

theorem lastAxes?_eq_some {count : Nat} (h : x.lastAxes? count = some y) :
    (x.rank ≤ count ∨ sizeOf (x.shape.drop (x.rank - count)) = x.size) ∧
      y = ⟨x.shape.drop (x.rank - count), x.entries⟩ := by
  rw [lastAxes?, Option.ite_none_right_eq_some, Option.some.injEq] at h
  exact ⟨h.left, h.right.symm⟩

namespace Full

theorem lastAxes? {count : Nat} (hx : x.Full) (h : x.lastAxes? count = some y) :
    y.Full ∧ y.rank ≤ count := by
  obtain ⟨hc, rfl⟩ := lastAxes?_eq_some h
  refine ⟨?_, by simp [rank]; omega⟩
  obtain hc | hc := hc
  · rw [Full, Nat.sub_eq_zero_of_le hc, List.drop_zero]
    exact hx
  · exact hc.symm

-- A single entry is repeated along the only axis.
theorem length_stretchTo {n : Nat} (hx : x.Full) (hs : x.shape = [] ∨ x.shape = [1]) :
    (x.stretchTo [n]).entries.length = n := by
  have hone : x.entries.length = 1 := by obtain hs | hs := hs <;> rw [hx, hs] <;> rfl
  obtain ⟨a, ha⟩ := List.length_eq_one_iff.mp hone
  rw [stretchTo]
  by_cases hn : x.shape = [n]
  case pos =>
    obtain rfl : n = 1 := by
      obtain hs | hs := hs
      · simp [hs] at hn
      · simpa [hs] using hn.symm
    simp [hn, hone]
  case neg =>
    by_cases hz : sizeOf [n] = 0
    case pos =>
      simp only [hn, if_false, hz, if_true]
      exact hz.symm.trans (sizeOf_singleton n)
    case neg =>
      have hfirst (index : List Nat) (hi : index ∈ indices [n]) :
          x.entries[offset x.shape (index.drop ([n].length - x.shape.length))]? = some a := by
        obtain ⟨i, _, rfl⟩ : ∃ i < n, index = [i] := by simpa [indices] using hi
        obtain hs | hs := hs <;> simp [hs, ha, offset]
      simp only [hn, if_false, hz]
      rw [List.filterMap_congr hfirst]
      have hmap := congrFun (List.filterMap_eq_map (f := fun _ : List Nat => a)) (indices [n])
      exact (congrArg List.length hmap).trans (by rw [List.length_map, length_indices_singleton])

theorem stretchedTo? {n : Nat} (hx : x.Full) (hr : x.rank ≤ 1)
    (h : x.stretchedTo? [n] = some y) : y.entries.length = n := by
  rw [Tensor.stretchedTo?] at h
  split at h
  case isTrue hs =>
    cases h
    rw [hx, hs, sizeOf_singleton]
  case isFalse hs =>
    have hz : x.shape.length - [n].length = 0 := Nat.sub_eq_zero_of_le hr
    simp only [hz, List.take_zero, List.takeWhile_nil, List.length_nil, List.drop_zero,
      Option.ite_none_right_eq_some, Option.some.injEq] at h
    obtain ⟨hn, rfl⟩ := h
    refine hx.length_stretchTo ?_
    rcases hshape : x.shape with _ | ⟨m, _ | _⟩
    · exact .inl rfl
    · rw [hshape, stretchShape_eq_right] at hn
      simp_all
    · simp [rank, hshape] at hr

theorem stretchedToSelection? {n : Nat} (hx : x.Full) (h : x.stretchedToSelection? [n] = some y) :
    y.entries.length = n := by
  obtain ⟨z, hz, h⟩ := Option.bind_eq_some_iff.mp h
  obtain ⟨hz, hr⟩ := hx.lastAxes? hz
  exact hz.stretchedTo? hr h

theorem slices (hx : x.Full) (start stop : Nat) : (x.slices start stop).Full := by
  obtain ⟨shape, entries⟩ := x
  cases shape
  case nil => exact hx
  case cons n shape =>
    have hx : entries.length = n * sizeOf shape := hx.trans (sizeOf_cons n shape)
    have hle : min stop n * sizeOf shape ≤ n * sizeOf shape :=
      Nat.mul_le_mul_right _ (Nat.min_le_right stop n)
    simp only [Full, Tensor.slices, List.length_drop, List.length_take, sizeOf_cons, hx,
      Nat.min_eq_left hle, Nat.sub_mul]

end Full
end NonlinearProgram.Tensor
