import NonlinearProgram.Matrix.SymBlockDiagonal
import NonlinearProgram.Proofs.Derivatives
import NonlinearProgram.Proofs.InnerProduct
import NonlinearProgram.Proofs.Memory
import NonlinearProgram.Proofs.RowOrder
import Mathlib.Data.Matrix.Basis
import Mathlib.Data.Matrix.Block
import Mathlib.LinearAlgebra.Matrix.Symmetric
import Mathlib.Tactic.Ring

-- A block-diagonal matrix is the quadratic form that its triplets and its dense block make up. The
-- triplets may stand in any order and in either triangle, and there may be several at one place.

namespace NonlinearProgram

open Matrix

variable {m n k : Nat}

namespace Rows

-- The rows of a matrix of rational numbers.
def ofMatrix (a : Matrix (Fin m) (Fin m) Rat) : Rows Exact :=
  List.ofFn fun i => List.ofFn fun j => .finite (a i j)

theorem entry_ofMatrix (a : Matrix (Fin m) (Fin m) Rat) (i j : Fin m) :
    (ofMatrix a).entry i j = .finite (a i j) := by
  simp [entry, ofMatrix]

theorem tabulate_eq_ofMatrix {f : Nat → Nat → Exact} {a : Matrix (Fin m) (Fin m) Rat}
    (h : ∀ i j : Fin m, f i j = .finite (a i j)) : tabulate m m f = ofMatrix a := by
  rw [tabulate, ← List.map_coe_finRange_eq_range, ofMatrix, List.ofFn_eq_map, List.map_map]
  refine List.map_congr_left fun i _ => ?_
  rw [List.ofFn_eq_map, Function.comp_apply, List.map_map]
  exact List.map_congr_left fun j _ => h i j

end Rows

theorem Exact.sum_of_perm_finite {xs : List Exact} {qs : List Rat}
    (h : xs.Perm (qs.map Exact.finite)) : xs.sum = .finite qs.sum := by
  have hfinite : xs = (xs.map Exact.toRat).map Exact.finite := by
    rw [List.map_map]
    refine ((List.map_congr_left fun x hx => ?_).trans (List.map_id xs)).symm
    obtain ⟨q, _, rfl⟩ := List.mem_map.mp (h.mem_iff.mp hx)
    rfl
  have hperm : (xs.map Exact.toRat).Perm qs := by
    have hrational : (qs.map Exact.finite).map Exact.toRat = qs :=
      List.map_map.trans (List.map_id qs)
    exact hrational ▸ h.map Exact.toRat
  rw [hfinite, Exact.sum_finite, hperm.sum_eq]

-- A triplet of the sparse block: a number at a place within it.
structure Term (n : Nat) where
  row : Fin n
  column : Fin n
  value : Rat

namespace Term

variable {ts us : List (Term n)}

def triplet (t : Term n) : Triplet Exact := ⟨(t.row : Nat), (t.column : Nat), .finite t.value⟩

-- The sum of the triplets at one place.
def sumAt (ts : List (Term n)) (i j : Fin n) : Rat :=
  ((ts.filter fun t => t.row = i ∧ t.column = j).map Term.value).sum

theorem sumAt_cons (t : Term n) (ts : List (Term n)) (i j : Fin n) :
    sumAt (t :: ts) i j = (if t.row = i ∧ t.column = j then t.value else 0) + sumAt ts i j := by
  rw [sumAt, List.filter_cons]
  by_cases h : t.row = i ∧ t.column = j
  case pos => simp [h, sumAt]
  case neg => simp [h, sumAt]

theorem sumAt_perm (h : us.Perm ts) : sumAt us = sumAt ts := by
  funext i j
  exact ((h.filter _).map _).sum_eq

-- The symmetric matrix of one triplet.
def form (t : Term n) : Matrix (Fin n) (Fin n) Rat :=
  if t.row = t.column then single t.row t.row t.value
  else single t.row t.column t.value + single t.column t.row t.value

-- Both triangles together, the diagonal once.
def forms (ts : List (Term n)) : Matrix (Fin n) (Fin n) Rat :=
  .of fun i j => if i = j then sumAt ts i i else sumAt ts i j + sumAt ts j i

theorem forms_cons (t : Term n) (ts : List (Term n)) : forms (t :: ts) = t.form + forms ts := by
  ext i j
  rw [Matrix.add_apply]
  simp only [forms, of_apply, sumAt_cons]
  by_cases hd : t.row = t.column
  case pos =>
    rw [form, if_pos hd, single_apply]
    grind
  case neg =>
    rw [form, if_neg hd, Matrix.add_apply, single_apply, single_apply]
    grind

theorem forms_isSymm (ts : List (Term n)) : (forms ts).IsSymm := by
  ext i j
  by_cases h : i = j
  case pos => rw [h, transpose_apply]
  case neg => simp [forms, h, Ne.symm h, add_comm]

theorem quadratic_single (i j : Fin n) (x : Rat) (v : Fin n → Rat) :
    v ⬝ᵥ single i j x *ᵥ v = x * v i * v j := by
  rw [single_mulVec]
  change v ⬝ᵥ Pi.single i (x * v j) = _
  rw [dotProduct_single]
  ring

theorem quadratic_form (t : Term n) (v : Fin n → Rat) :
    v ⬝ᵥ t.form *ᵥ v =
      t.value * v t.row * v t.column * if t.row = t.column then 1 else 2 := by
  rw [form]
  split
  case isTrue h => rw [quadratic_single, ← h, mul_one]
  case isFalse =>
    rw [add_mulVec, dotProduct_add, quadratic_single, quadratic_single]
    ring

-- The induction is on the triplets, each of which has a form of its own.
theorem quadratic_forms (ts : List (Term n)) (v : Fin n → Rat) :
    v ⬝ᵥ forms ts *ᵥ v = (ts.map fun t =>
      t.value * v t.row * v t.column * if t.row = t.column then 1 else 2).sum := by
  induction ts
  case nil =>
    have hzero : forms ([] : List (Term n)) = 0 := by
      ext i j
      simp [forms, sumAt]
    simp [hzero]
  case cons t ts ih =>
    rw [forms_cons, add_mulVec, dotProduct_add, quadratic_form, ih, List.map_cons, List.sum_cons]

end Term

-- Half of a dense block and half of its transpose are the same form as the block.
theorem quadratic_symmetrized (d : Matrix (Fin k) (Fin k) Rat) (w : Fin k → Rat) :
    w ⬝ᵥ ((1 / 2 : Rat) • (d + dᵀ)) *ᵥ w = w ⬝ᵥ d *ᵥ w := by
  have htranspose : w ⬝ᵥ dᵀ *ᵥ w = w ⬝ᵥ d *ᵥ w := by
    rw [mulVec_transpose, dotProduct_comm, ← dotProduct_mulVec]
  rw [smul_mulVec, dotProduct_smul, add_mulVec, dotProduct_add, htranspose, smul_eq_mul]
  ring

namespace SymBlockMatrix

variable {ts us : List (Term n)}

-- A matrix with these triplets, in this order, and with this dense block.
def ofTerms (ts : List (Term n)) (d : Matrix (Fin k) (Fin k) Rat) : SymBlockMatrix Exact where
  sparse := { rows := n, columns := n, triplets := ts.map Term.triplet }
  denseSize := k
  dense := Rows.ofMatrix d

def assembled (ts : List (Term n)) (d : Matrix (Fin k) (Fin k) Rat) :
    Matrix (Fin n ⊕ Fin k) (Fin n ⊕ Fin k) Rat :=
  fromBlocks (Term.forms ts) 0 0 ((1 / 2 : Rat) • (d + dᵀ))

-- However the rows are sorted, the same triplets are added at every place.
theorem sumAt_arranged (ts : List (Term n)) (d : Matrix (Fin k) (Fin k) Rat) (i j : Fin n) :
    (ofTerms ts d).arranged.sparse.sumAt i j = .finite (Term.sumAt ts i j) := by
  let here (t : Triplet Exact) : Bool :=
    t.row == ((i : Nat) : Int) && t.column == ((j : Nat) : Int)
  have hhere : here ∘ Term.triplet = fun t : Term n => decide (t.row = i ∧ t.column = j) := by
    funext t
    rw [Bool.eq_iff_iff]
    simp [here, Term.triplet, Fin.ext_iff]
  have hvalues (us : List (Term n)) :
      us.map (Triplet.value ∘ Term.triplet) = (us.map Term.value).map Exact.finite := by
    rw [List.map_map]
    rfl
  have hperm := ((RowOrder.arranged_perm (ts.map Term.triplet)).filter here).map Triplet.value
  rw [List.filter_map, hhere, List.map_map, hvalues] at hperm
  rw [CoordinateBlock.sumAt, foldl_add_eq_sum, ExactScalar.zero_add]
  exact Exact.sum_of_perm_finite hperm

theorem isValid_ofTerms (ts : List (Term n)) (d : Matrix (Fin k) (Fin k) Rat) :
    (ofTerms ts d).sparse.isValid := by
  refine List.all_eq_true.mpr fun t ht => ?_
  obtain ⟨t, _, rfl⟩ := List.mem_map.mp ht
  simp [CoordinateBlock.Inside, Term.triplet, ofTerms]

theorem sparseEntry_arranged (ts : List (Term n)) (d : Matrix (Fin k) (Fin k) Rat) (i j : Fin n) :
    (ofTerms ts d).arranged.sparseEntry i j = .finite (Term.forms ts i j) := by
  rw [sparseEntry, sumAt_arranged, sumAt_arranged, sumAt_arranged, Term.forms, of_apply]
  by_cases h : i = j
  case pos =>
    have hsub (x : Rat) : (Exact.finite x + .finite x - .finite x) = .finite x :=
      congrArg Exact.finite (show x + x + -x = x by ring)
    simp only [h, if_true, hsub]
  case neg =>
    simp only [Fin.val_ne_iff.mpr h, h, if_false]
    rfl

theorem denseEntry_arranged (ts : List (Term n)) (d : Matrix (Fin k) (Fin k) Rat) (i j : Fin k) :
    (ofTerms ts d).arranged.denseEntry i j =
      .finite (((1 / 2 : Rat) • (d + dᵀ)) i j) := by
  have hentry (i j : Fin k) : (ofTerms ts d).arranged.dense.entry i j = .finite (d i j) :=
    Rows.entry_ofMatrix d i j
  rw [denseEntry, hentry, hentry]
  rfl

theorem entry_arranged (ts : List (Term n)) (d : Matrix (Fin k) (Fin k) Rat) (i j : Fin (n + k)) :
    (ofTerms ts d).arranged.entry i j =
      .finite (reindex finSumFinEquiv finSumFinEquiv (assembled ts d) i j) := by
  have hsize : (ofTerms ts d).arranged.sparseSize = n := rfl
  have hzero : (0 : Exact) = .finite 0 := rfl
  rw [entry, hsize, reindex_apply, submatrix_apply]
  cases i using Fin.addCases
  case left i =>
    cases j using Fin.addCases
    case left j => simpa [assembled] using sparseEntry_arranged ts d i j
    case right j => simp [assembled, Nat.not_le_of_lt i.isLt, hzero]
  case right i =>
    cases j using Fin.addCases
    case left j => simp [assembled, Nat.not_le_of_lt j.isLt, hzero]
    case right j => simpa [assembled, mul_add] using denseEntry_arranged ts d i j

theorem toRows_ofTerms (ts : List (Term n)) (d : Matrix (Fin k) (Fin k) Rat) :
    (ofTerms ts d).toRows =
      .ok (Rows.ofMatrix (reindex finSumFinEquiv finSumFinEquiv (assembled ts d))) := by
  rw [toRows, if_pos (isValid_ofTerms ts d)]
  exact congrArg Except.ok (Rows.tabulate_eq_ofMatrix (entry_arranged ts d))

theorem entryFault?_ofTerms (ts : List (Term n)) (d : Matrix (Fin k) (Fin k) Rat) :
    (ofTerms ts d).sparse.entryFault? = if isInt64 n then none else some .integerRange := by
  have hreal : (ofTerms ts d).sparse.columnsGiven.isReal = false := rfl
  rw [CoordinateBlock.entryFault?, hreal, isValid_ofTerms]
  cases h : isInt64 n <;> simp [ofTerms, h]

theorem toArray_ofTerms (ts : List (Term n)) (d : Matrix (Fin k) (Fin k) Rat)
    (h : allocationFault? Tensor.scalarWidth [((n + k : Nat) : Int), ((n + k : Nat) : Int)] =
      none) :
    (ofTerms ts d).toArray = (ofTerms ts d).toRows := by
  have hint : isInt64 n :=
    (isInt64_of_allocated (allocationFault?_pair_mono h (Nat.le_add_right n k) le_rfl)).left
  have hentry : (ofTerms ts d).sparse.entryFault? = none := by
    rw [entryFault?_ofTerms, if_pos hint]
  exact toArray_eq_toRows h hentry

theorem quadratic_assembled (ts : List (Term n)) (d : Matrix (Fin k) (Fin k) Rat)
    (v : Fin n ⊕ Fin k → Rat) :
    v ⬝ᵥ assembled ts d *ᵥ v =
      (ts.map fun t => t.value * v (.inl t.row) * v (.inl t.column) *
        if t.row = t.column then 1 else 2).sum + (v ∘ .inr) ⬝ᵥ d *ᵥ (v ∘ .inr) := by
  have hproduct : assembled ts d *ᵥ v = Sum.elim (Term.forms ts *ᵥ (v ∘ .inl))
      (((1 / 2 : Rat) • (d + dᵀ)) *ᵥ (v ∘ .inr)) := by
    rw [assembled, fromBlocks_mulVec]
    simp
  calc v ⬝ᵥ assembled ts d *ᵥ v
    _ = Sum.elim (v ∘ .inl) (v ∘ .inr) ⬝ᵥ assembled ts d *ᵥ v := by rw [Sum.elim_comp_inl_inr]
    _ = (v ∘ .inl) ⬝ᵥ Term.forms ts *ᵥ (v ∘ .inl) +
        (v ∘ .inr) ⬝ᵥ ((1 / 2 : Rat) • (d + dᵀ)) *ᵥ (v ∘ .inr) := by
      rw [hproduct, sumElim_dotProduct_sumElim]
    _ = _ := by
      rw [Term.quadratic_forms, quadratic_symmetrized]
      rfl

-- The order of the triplets matters to nothing that is assembled.
theorem toRows_perm (d : Matrix (Fin k) (Fin k) Rat) (h : us.Perm ts) :
    (ofTerms us d).toRows = (ofTerms ts d).toRows := by
  have hforms : Term.forms us = Term.forms ts := by rw [Term.forms, Term.forms, Term.sumAt_perm h]
  rw [toRows_ofTerms, toRows_ofTerms, assembled, assembled, hforms]

theorem toArray_perm (d : Matrix (Fin k) (Fin k) Rat) (h : us.Perm ts) :
    (ofTerms us d).toArray = (ofTerms ts d).toArray := by
  have hfault : (ofTerms us d).sparseFault? = (ofTerms ts d).sparseFault? := by
    rw [sparseFault?, sparseFault?, entryFault?_ofTerms, entryFault?_ofTerms]
    rfl
  rw [toArray, toArray, hfault, toRows_perm d h]
  rfl

-- The array is the symmetric matrix of the quadratic form: an entry on the diagonal of the sparse
-- block is the sum of the triplets at its place, another one that of the triplets there and at the
-- mirrored place; the dense block is made symmetric, and nothing couples both blocks. The order of
-- the triplets is of no importance.
theorem hessian_quadratic_form (ts : List (Term n)) (d : Matrix (Fin k) (Fin k) Rat) :
    ∃ a : Matrix (Fin n ⊕ Fin k) (Fin n ⊕ Fin k) Rat,
      (ofTerms ts d).toRows = .ok (Rows.ofMatrix (reindex finSumFinEquiv finSumFinEquiv a)) ∧
      (allocationFault? Tensor.scalarWidth [((n + k : Nat) : Int), ((n + k : Nat) : Int)] = none →
        (ofTerms ts d).toArray =
          .ok (Rows.ofMatrix (reindex finSumFinEquiv finSumFinEquiv a))) ∧
      a.IsSymm ∧
      (∀ i, a (.inl i) (.inl i) = Term.sumAt ts i i) ∧
      (∀ i j, i ≠ j → a (.inl i) (.inl j) = Term.sumAt ts i j + Term.sumAt ts j i) ∧
      a.toBlocks₂₂ = (1 / 2 : Rat) • (d + dᵀ) ∧ a.toBlocks₁₂ = 0 ∧ a.toBlocks₂₁ = 0 ∧
      (∀ v : Fin n ⊕ Fin k → Rat, v ⬝ᵥ a *ᵥ v =
        (ts.map fun t => t.value * v (.inl t.row) * v (.inl t.column) *
          if t.row = t.column then 1 else 2).sum + (v ∘ .inr) ⬝ᵥ d *ᵥ (v ∘ .inr)) ∧
      ∀ us, us.Perm ts → (ofTerms us d).toRows = (ofTerms ts d).toRows ∧
        (ofTerms us d).toArray = (ofTerms ts d).toArray := by
  refine ⟨assembled ts d, toRows_ofTerms ts d, fun h => ?array, ?symmetric, fun i => ?diagonal,
    fun i j hij => ?mirrored, rfl, rfl, rfl, fun v => ?form, fun us h => ?order⟩
  case array => rw [toArray_ofTerms ts d h, toRows_ofTerms]
  case symmetric =>
    refine .fromBlocks (Term.forms_isSymm ts) transpose_zero ?_
    rw [IsSymm, transpose_smul, transpose_add, transpose_transpose, add_comm]
  case diagonal => simp [assembled, Term.forms]
  case mirrored => simp [assembled, Term.forms, hij]
  case form => exact quadratic_assembled ts d v
  case order => exact ⟨toRows_perm d h, toArray_perm d h⟩

-- Two triplets at one place, one at the mirrored place, and one on the diagonal.
def scattered : List (Term 2) := [⟨0, 1, 2⟩, ⟨1, 1, 7⟩, ⟨1, 0, 3⟩, ⟨0, 1, 5⟩]

def loneEntry : Matrix (Fin 1) (Fin 1) Rat := fun _ _ => 4

theorem hessian_quadratic_form_scattered : ∃ a : Matrix (Fin 2 ⊕ Fin 1) (Fin 2 ⊕ Fin 1) Rat,
    (ofTerms scattered loneEntry).toArray =
      .ok (Rows.ofMatrix (reindex finSumFinEquiv finSumFinEquiv a)) ∧
    a (.inl 0) (.inl 0) = 0 ∧ a (.inl 1) (.inl 1) = 7 ∧ a (.inl 0) (.inl 1) = 10 ∧
    a (.inl 1) (.inl 0) = 10 := by
  obtain ⟨a, _, harray, _, hdiagonal, hmirrored, _⟩ :=
    hessian_quadratic_form scattered loneEntry
  exact ⟨a, harray (by decide), (hdiagonal 0).trans (by decide +kernel),
    (hdiagonal 1).trans (by decide +kernel), (hmirrored 0 1 (by decide)).trans (by decide +kernel),
    (hmirrored 1 0 (by decide)).trans (by decide +kernel)⟩

end SymBlockMatrix
end NonlinearProgram
