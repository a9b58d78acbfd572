import NonlinearProgram.Matrix.SymBlockDiagonal
import NonlinearProgram.Proofs.Derivatives

-- Arrays that there is memory for. Memory is used up long before 64 bits cannot count the bytes of
-- an array, unless it has no entries.

namespace NonlinearProgram

variable {width m n m' n' : Nat} {shape : List Nat}

-- Memory is the limit for an array with entries; 64 bits count far more bytes.
theorem allocationFault?_eq_none (h0 : 0 ∉ shape)
    (hm : width * Tensor.sizeOf shape < memoryLimit) :
    allocationFault? width (shape.map Nat.cast) = none := by
  have hshape : (shape.map Nat.cast).map Int.toNat = shape := by simp [Function.comp_def]
  have hnegative : (shape.map (Nat.cast : Nat → Int)).any (· < 0) = false := by simp
  have hfilter : shape.filter (· ≠ 0) = shape :=
    List.filter_eq_self.mpr fun i hi => by simpa using ne_of_mem_of_not_mem hi h0
  have hbytes : shape.foldl (· * ·) width = width * Tensor.sizeOf shape := by
    have hone : shape.foldl (· * ·) (width * 1) = width * shape.foldl (· * ·) 1 :=
      List.foldl_assoc
    rwa [mul_one] at hone
  have hcountable : Tensor.isCountable width shape = true := by
    rw [memoryLimit] at hm
    rw [Tensor.isCountable, hfilter, hbytes, decide_eq_true_eq]
    omega
  rw [allocationFault?, hshape, hnegative, hcountable, if_neg (by simp), if_neg (by omega)]

-- Axes without entries count as axes with one where bytes are counted, and the others do not.
theorem allocationFault?_pair : allocationFault? width [(m : Int), (n : Int)] = none ↔
    width * max 1 m * max 1 n < 0x8000000000000000 ∧ width * (m * n) < memoryLimit := by
  have hcountable : Tensor.isCountable width [m, n] =
      decide (width * max 1 m * max 1 n < 0x8000000000000000) := by
    rcases Nat.eq_zero_or_pos m with rfl | hm <;> rcases Nat.eq_zero_or_pos n with rfl | hn
    case inl.inl => simp [Tensor.isCountable]
    case inl.inr => simp [Tensor.isCountable, hn.ne', Nat.max_eq_right (Nat.succ_le_of_lt hn)]
    case inr.inl => simp [Tensor.isCountable, hm.ne', Nat.max_eq_right (Nat.succ_le_of_lt hm)]
    case inr.inr =>
      simp [Tensor.isCountable, hm.ne', hn.ne', Nat.max_eq_right (Nat.succ_le_of_lt hm),
        Nat.max_eq_right (Nat.succ_le_of_lt hn)]
  have hshape : [(m : Int), (n : Int)].map Int.toNat = [m, n] := rfl
  have hnegative : [(m : Int), (n : Int)].any (· < 0) = false := by simp
  rw [allocationFault?, hshape, hnegative, hcountable, Tensor.sizeOf_pair]
  by_cases hbytes : width * max 1 m * max 1 n < 0x8000000000000000
  case neg => simp [hbytes]
  case pos =>
    by_cases hmemory : memoryLimit ≤ width * (m * n)
    case pos => simp [hbytes, hmemory]
    case neg => simp [hbytes, hmemory, Nat.lt_of_not_le hmemory]

-- A smaller array needs less.
theorem allocationFault?_pair_mono (h : allocationFault? width [(m : Int), (n : Int)] = none)
    (hm : m' ≤ m) (hn : n' ≤ n) : allocationFault? width [(m' : Int), (n' : Int)] = none := by
  have ⟨hbytes, hmemory⟩ := allocationFault?_pair.mp h
  refine allocationFault?_pair.mpr ⟨Nat.lt_of_le_of_lt ?_ hbytes, Nat.lt_of_le_of_lt ?_ hmemory⟩
  · exact Nat.mul_le_mul (Nat.mul_le_mul_left _ (max_le_max_left 1 hm)) (max_le_max_left 1 hn)
  · exact Nat.mul_le_mul_left _ (Nat.mul_le_mul hm hn)

theorem isInt64_of_allocated
    (h : allocationFault? Tensor.scalarWidth [(m : Int), (n : Int)] = none) :
    isInt64 m ∧ isInt64 n := by
  have hbytes := (allocationFault?_pair.mp h).left
  have hm : max 1 m ≤ max 1 m * max 1 n := Nat.le_mul_of_pos_right _ (by omega)
  have hn : max 1 n ≤ max 1 m * max 1 n := Nat.le_mul_of_pos_left _ (by omega)
  rw [Tensor.scalarWidth, Nat.mul_assoc] at hbytes
  simp only [isInt64, Bool.and_eq_true, decide_eq_true_eq]
  omega

namespace SymBlockMatrix

variable {α : Type} [Scalar α] {a : SymBlockMatrix α}

omit [Scalar α] in
-- The array for the whole matrix takes more memory than those for its sparse block.
theorem sparseFault?_eq_none
    (hm : allocationFault? Tensor.scalarWidth [(a.size : Int), (a.size : Int)] = none)
    (he : a.sparse.entryFault? = none) : a.sparseFault? = none := by
  have hle : a.sparseSize ≤ a.size := Nat.le_add_right ..
  have hblock := allocationFault?_pair_mono hm hle hle
  have hmemory := (allocationFault?_pair.mp hblock).right
  rw [Tensor.scalarWidth, memoryLimit] at hmemory
  have hn : a.sparseSize < 0x20000 := by
    by_contra hn
    have hlarge : 0x20000 * 0x20000 ≤ a.sparseSize * a.sparseSize :=
      Nat.mul_le_mul (by omega) (by omega)
    omega
  have hline : allocationFault? CoordinateBlock.wideIndexWidth
      [((a.sparseSize + 1 : Nat) : Int)] = none := by
    have hbytes : CoordinateBlock.wideIndexWidth * Tensor.sizeOf [a.sparseSize + 1] <
        memoryLimit := by
      simp only [Tensor.sizeOf, List.foldl_cons, List.foldl_nil, one_mul,
        CoordinateBlock.wideIndexWidth, memoryLimit]
      omega
    exact allocationFault?_eq_none (by simp) hbytes
  rw [sparseFault?, he, ← Int.natCast_succ, hline, hblock]
  rfl

theorem toArray_eq_toRows
    (hm : allocationFault? Tensor.scalarWidth [(a.size : Int), (a.size : Int)] = none)
    (he : a.sparse.entryFault? = none) : a.toArray = a.toRows := by
  have hreal : a.sparse.columnsGiven.isReal = false := by
    rw [CoordinateBlock.entryFault?] at he
    split at he
    case isTrue => cases he
    case isFalse h => exact Bool.eq_false_iff.mpr h
  rw [toArray, hreal, hm, sparseFault?_eq_none hm he]
  rfl

end SymBlockMatrix
end NonlinearProgram
