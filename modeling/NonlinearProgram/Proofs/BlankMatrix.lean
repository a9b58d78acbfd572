import NonlinearProgram.Proofs.Matrix
import NonlinearProgram.Proofs.Memory
import NonlinearProgram.Proofs.RowOrder
import NonlinearProgram.Scalar.Binary64

-- All triplets of a new matrix are zeros at the first place of its sparse block. The matrix has
-- arrays if there is such a place or there are no triplets, and these hold zeros only.

namespace NonlinearProgram

-- Scalars of which zeros make up nothing but zeros.
class ZeroedScalar (α : Type) [Scalar α] : Prop where
  add : (0 : α) + 0 = 0
  sub : (0 : α) - 0 = 0
  half : Scalar.half * (0 : α) = 0

instance : ZeroedScalar Float where
  add := rfl
  sub := rfl
  half := rfl

instance : ZeroedScalar Exact where
  add := by decide +kernel
  sub := by decide +kernel
  half := by decide +kernel

variable {α : Type} [Scalar α]

theorem Rows.tabulate_zero {m n : Nat} {f : Nat → Nat → α} (h : ∀ i j, f i j = 0) :
    tabulate m n f = zeros m n := by
  have hf : f = fun _ _ => 0 := funext₂ h
  simp [tabulate, zeros, hf, List.map_const']

theorem Rows.beside_zeros (m n k : Nat) :
    beside (zeros m n) (zeros m k) = (zeros m (n + k) : Rows α) := by
  simp [beside, zeros]

theorem Rows.entry_zeros (m n i j : Nat) : (zeros m n : Rows α).entry i j = 0 := by
  simp only [entry, zeros, List.getElem?_map]
  by_cases hi : i < m <;> by_cases hj : j < n <;> simp [hi, hj]

theorem foldl_add_zeros [ZeroedScalar α] {xs : List α} (h : ∀ x ∈ xs, x = 0) :
    xs.foldl (· + ·) 0 = 0 := by
  induction xs
  case nil => rfl
  case cons x xs hi =>
    have ⟨hx, hxs⟩ := List.forall_mem_cons.mp h
    rw [List.foldl_cons, hx, ZeroedScalar.add, hi hxs]

namespace CoordinateBlock

variable {rows count : Nat} {columns : RawValue α}

theorem isValid_blank : (blank rows columns count).isValid ↔
    count = 0 ∨ 0 < rows ∧ 0 < columns.wholePart := by
  cases count
  case zero => simp [blank, isValid]
  case succ => simp [blank, isValid, Inside]

-- A new block has an array: the columns are counted by an integer, and there is a place for the
-- triplets.
def Stands (rows : Nat) (columns : RawValue α) (count : Nat) : Prop :=
  columns.isReal = false ∧ (count = 0 ∨ 0 < rows ∧ 0 < columns.wholePart)

omit [Scalar α] in
theorem entryFault?_eq_none {b : CoordinateBlock α} : b.entryFault? = none ↔
    b.columnsGiven.isReal = false ∧ (isInt64 b.rows ∧ isInt64 b.columns) ∧ b.isValid := by
  rw [entryFault?]
  cases b.columnsGiven.isReal <;> cases isInt64 b.rows <;> cases isInt64 b.columns <;>
    cases b.isValid <;> simp

theorem entryFault?_of_stands (h : Stands rows columns count) (hr : isInt64 rows)
    (hc : isInt64 columns.wholePart) : (blank rows columns count).entryFault? = none :=
  entryFault?_eq_none.mpr ⟨h.left, ⟨hr, hc⟩, isValid_blank.mpr h.right⟩

theorem entryFault?_of_not_stands (h : ¬Stands rows columns count) :
    ∃ fault, (blank rows columns count).entryFault? = some fault := by
  refine Option.ne_none_iff_exists'.mp fun hnone => h ?_
  have ⟨hreal, _, hvalid⟩ := entryFault?_eq_none.mp hnone
  exact ⟨hreal, isValid_blank.mp hvalid⟩

theorem sumAt_eq_zero [ZeroedScalar α] {b : CoordinateBlock α} (h : ∀ t ∈ b.triplets, t.value = 0)
    (i j : Nat) : b.sumAt i j = 0 := by
  refine foldl_add_zeros fun x hx => ?_
  obtain ⟨t, ht, rfl⟩ := List.mem_map.mp hx
  exact h t (List.mem_of_mem_filter ht)

theorem toRows_blank [ZeroedScalar α] (h : Stands rows columns count) :
    (blank rows columns count).toRows = .ok (Rows.zeros rows columns.wholePart) := by
  have hzero : ∀ t ∈ (blank rows columns count).triplets, t.value = 0 := fun t ht => by
    rw [List.eq_of_mem_replicate ht]
  rw [toRows, if_pos (isValid_blank.mpr h.right), Rows.tabulate_zero (sumAt_eq_zero hzero)]
  rfl

end CoordinateBlock

open CoordinateBlock

namespace MixedMatrix

variable {rows dense count : Nat} {sparse : RawValue α}

theorem arrays_of_stands [ZeroedScalar α] (h : Stands rows sparse count)
    (hm : allocationFault? Tensor.scalarWidth
      [(rows : Int), ((sparse.wholePart + dense : Nat) : Int)] = none) :
    (blank rows sparse dense count).sparse.toArray = .ok (Rows.zeros rows sparse.wholePart) ∧
      (blank rows sparse dense count).toArray =
        .ok (Rows.zeros rows (sparse.wholePart + dense)) := by
  have hblock := allocationFault?_pair_mono hm le_rfl (Nat.le_add_right _ dense)
  have ⟨hr, hc⟩ := isInt64_of_allocated hblock
  have hfault : (CoordinateBlock.blank rows sparse count).denseFault? = none := by
    rw [denseFault?, entryFault?_of_stands h hr hc]
    exact hblock
  have hsparse : (blank rows sparse dense count).sparse = .blank rows sparse count := rfl
  constructor
  · rw [hsparse, CoordinateBlock.toArray, hfault]
    exact toRows_blank h
  · have hrows : (blank rows sparse dense count).toRows =
        .ok (Rows.zeros rows (sparse.wholePart + dense)) := by
      rw [toRows, hsparse, toRows_blank h, ← Rows.beside_zeros]
      rfl
    have hroom : allocationFault? Tensor.scalarWidth
        [((blank rows sparse dense count).rows : Int),
          ((blank rows sparse dense count).columns : Int)] = none := hm
    rw [toArray, hsparse, hfault, hroom]
    exact hrows

theorem no_arrays_of_not_stands (dense : Nat) (h : ¬Stands rows sparse count) :
    (∃ e, (blank rows sparse dense count).sparse.toArray = .error e) ∧
      ∃ e, (blank rows sparse dense count).toArray = .error e := by
  have ⟨fault, hentry⟩ := entryFault?_of_not_stands h
  have hsparse : (blank rows sparse dense count).sparse = .blank rows sparse count := rfl
  have hfault : (CoordinateBlock.blank rows sparse count).denseFault? = some fault := by
    rw [denseFault?, hentry]
    rfl
  constructor
  · exact ⟨.storage fault, by rw [hsparse, CoordinateBlock.toArray, hfault]⟩
  · exact ⟨.storage fault, by rw [toArray, hsparse, hfault]; rfl⟩

end MixedMatrix

namespace SymBlockMatrix

variable {dense count : Nat} {sparse : RawValue α}

theorem entries_blank [ZeroedScalar α] (i j : Nat) :
    (blank sparse dense count).arranged.sparseEntry i j = 0 ∧
      (blank sparse dense count).arranged.entry i j = 0 := by
  have hzero : ∀ t ∈ (blank sparse dense count).arranged.sparse.triplets, t.value = 0 := by
    intro t ht
    have ht := (RowOrder.arranged_perm (List.replicate count ⟨0, 0, 0⟩)).mem_iff.mp ht
    rw [List.eq_of_mem_replicate ht]
  have hsparse (i j : Nat) : (blank sparse dense count).arranged.sparseEntry i j = 0 := by
    simp [sparseEntry, sumAt_eq_zero hzero, ZeroedScalar.add, ZeroedScalar.sub]
  have hdense (i j : Nat) : (blank sparse dense count).arranged.denseEntry i j = 0 := by
    have hentry (i j : Nat) : (blank sparse dense count).arranged.dense.entry i j = 0 :=
      Rows.entry_zeros ..
    rw [denseEntry, hentry, hentry, ZeroedScalar.add, ZeroedScalar.half]
  refine ⟨hsparse i j, ?_⟩
  rw [entry]
  split
  case isTrue => exact hsparse i j
  case isFalse => split <;> simp [hdense]

theorem arrays_of_stands [ZeroedScalar α] (h : Stands sparse.wholePart sparse count)
    (hm : allocationFault? Tensor.scalarWidth [((sparse.wholePart + dense : Nat) : Int),
      ((sparse.wholePart + dense : Nat) : Int)] = none) :
    (blank sparse dense count).sparseArray =
        .ok (Rows.zeros sparse.wholePart sparse.wholePart) ∧
      (blank sparse dense count).toArray =
        .ok (Rows.zeros (sparse.wholePart + dense) (sparse.wholePart + dense)) := by
  have hle := Nat.le_add_right sparse.wholePart dense
  have ⟨hint, _⟩ := isInt64_of_allocated (allocationFault?_pair_mono hm hle hle)
  have hentry : (blank sparse dense count).sparse.entryFault? = none :=
    entryFault?_of_stands h hint hint
  have hvalid : (blank sparse dense count).sparse.isValid := isValid_blank.mpr h.right
  have hroom : allocationFault? Tensor.scalarWidth [((blank sparse dense count).size : Int),
      ((blank sparse dense count).size : Int)] = none := hm
  constructor
  · have hzero (i j : Nat) : (blank sparse dense count).arranged.sparseEntry i j = 0 :=
      (entries_blank i j).left
    rw [sparseArray, sparseFault?_eq_none hroom hentry]
    dsimp only
    rw [sparseRows, if_pos hvalid, Rows.tabulate_zero hzero]
    rfl
  · have hzero (i j : Nat) : (blank sparse dense count).arranged.entry i j = 0 :=
      (entries_blank i j).right
    rw [toArray_eq_toRows hroom hentry, toRows, if_pos hvalid, Rows.tabulate_zero hzero]
    rfl

theorem no_arrays_of_not_stands (dense : Nat) (h : ¬Stands sparse.wholePart sparse count) :
    (∃ e, (blank sparse dense count).sparseArray = .error e) ∧
      ∃ e, (blank sparse dense count).toArray = .error e := by
  have ⟨fault, hentry⟩ := entryFault?_of_not_stands h
  have hfault : (blank sparse dense count).sparseFault? = some fault := by
    have hentry : (blank sparse dense count).sparse.entryFault? = some fault := hentry
    rw [sparseFault?, hentry]
    rfl
  constructor
  · exact ⟨.storage fault, by rw [sparseArray, hfault]⟩
  · rw [toArray, hfault]
    split
    case isTrue => exact ⟨_, rfl⟩
    case isFalse =>
      generalize allocationFault? _ _ = room
      cases room <;> exact ⟨_, rfl⟩

end SymBlockMatrix
end NonlinearProgram
