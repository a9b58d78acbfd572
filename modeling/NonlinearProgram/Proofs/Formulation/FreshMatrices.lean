import NonlinearProgram.Proofs.BlankMatrix
import NonlinearProgram.Proofs.Formulation.BlockShapes
import NonlinearProgram.Proofs.Formulation.Lifecycle

-- Numbers of triplets are looked at one by one when a formulation is finalized, and not together
-- with the rows and the columns that the triplets are for. So a finalized formulation may hand out
-- matrices that have triplets and no place for them.

namespace NonlinearProgram

open Program FormulationM

variable {α : Type}

namespace BlockSizes.Admissible

variable [Scalar α] {b : BlockSizes α} {core : Core α}

theorem size_of_not_real (h : b.Admissible core) (hreal : b.sparse.isReal = false) {n : Nat}
    (hn : b.dense = .integer n) : ((b.sparse.wholePart + n : Nat) : Int) = core.size := by
  have hbelow := RawValue.anyNegative_eq_false.mp h.groups b.sparse (by simp)
  have ⟨total, hsum, htotal⟩ := h.total
  cases hs : b.sparse
  case integer m =>
    have ⟨hm, _, hsize⟩ := h.sizes hs hn
    have hwhole : (RawValue.integer m : RawValue α).wholePart = m.toNat := rfl
    rw [hwhole]
    omega
  case flag c =>
    rw [hs, hn] at hsum
    cases hsum
    have hsize : (if c then 1 else 0 : Int) + n = core.size := of_decide_eq_true htotal
    cases c
    all_goals
      rw [← hsize]
      rfl
  case real => simp [hs, RawValue.isReal] at hreal
  all_goals
    rw [hs] at hbelow
    cases hbelow

end BlockSizes.Admissible

namespace AnyMatrix

variable [Scalar α]

-- The arrays for the sparse block of a matrix and for the whole of it, if it is one in blocks.
def arrays? : AnyMatrix α → Option (Except MatrixError (Rows α) × Except MatrixError (Rows α))
  | .dense _ => none
  | .mixed a => some (a.sparse.toArray, a.toArray)
  | .sym a => some (a.sparseArray, a.toArray)

def shape : AnyMatrix α → Nat × Nat
  | .dense a => (a.rows, a.columns.toNat)
  | .mixed a => (a.rows, a.columns)
  | .sym a => (a.size, a.size)

-- A matrix of this shape that holds zeros only, and whose sparse block has an array as well.
def IsBlank (a : AnyMatrix α) (rows columns : Nat) : Prop :=
  a.shape = (rows, columns) ∧
    ∃ block, a.arrays? = some (.ok block, .ok (Rows.zeros rows columns))

-- A matrix without any array.
def IsBroken (a : AnyMatrix α) : Prop := ∃ e e', a.arrays? = some (.error e, .error e')

theorem IsBroken.not_blank {a : AnyMatrix α} (h : a.IsBroken) (rows columns : Nat) :
    ¬a.IsBlank rows columns := by
  rintro ⟨_, block, hblank⟩
  obtain ⟨e, e', hbroken⟩ := h
  cases hblank.symm.trans hbroken

end AnyMatrix

namespace BlockEvaluation

-- The numbers of rows of a matrix, of its sparse block and of its dense one.
def rows (d : Finalized α) : BlockEvaluation α → Nat
  | .jacobian group _ _ => (d.core.indices group).length
  | .hessian _ _ _ _ _ => d.core.size.toNat

def sparseRows [Scalar α] (d : Finalized α) (b : BlockSizes α) : BlockEvaluation α → Nat
  | .jacobian group _ _ => (d.core.indices group).length
  | .hessian _ _ _ _ _ => b.sparse.wholePart

def denseRows (d : Finalized α) (dense : Nat) : BlockEvaluation α → Nat
  | .jacobian group _ _ => (d.core.indices group).length
  | .hessian _ _ _ _ _ => dense

def blank [Scalar α] (d : Finalized α) (b : BlockSizes α) (dense count : Nat) :
    BlockEvaluation α → AnyMatrix α
  | .jacobian group _ _ => .mixed (.blank (d.core.indices group).length b.sparse dense count)
  | .hessian _ _ _ _ _ => .sym (.blank b.sparse dense count)

-- There is memory for the triplets and for the dense block.
def Storable (d : Finalized α) (dense count : Nat) (e : BlockEvaluation α) : Prop :=
  CoordinateBlock.tripletFault? count = none ∧
    allocationFault? Tensor.scalarWidth [(e.denseRows d dense : Int), (dense : Int)] = none

-- The triplets have a place in the sparse block.
def Stands [Scalar α] (d : Finalized α) (b : BlockSizes α) (count : Nat) (e : BlockEvaluation α) :
    Prop :=
  CoordinateBlock.Stands (e.sparseRows d b) b.sparse count

end BlockEvaluation

namespace Formulation

open BlockEvaluation

variable [Scalar α] {p : Problem α} {s t u : Session α} {d : Finalized α} {blocks : BlockSizes α}
  {scratch : View} {a : AnyMatrix α} {e : BlockEvaluation α} {n k : Nat}

theorem newMatrix_returns (hd : s.formulation.finalized = some d)
    (hb : d.derivatives = .mixed blocks scratch) (ha : blocks.Admissible d.core) :
    (e.newMatrix s).1 = .ok a ↔ ∃ n k : Nat, blocks.dense = .integer n ∧
      e.declaredCount blocks = .integer k ∧ e.Storable d n k ∧ a = e.blank d blocks n k := by
  have hgroups := RawValue.anyNegative_eq_false.mp ha.groups
  have hsparse := hgroups blocks.sparse (by simp)
  have hdense := hgroups blocks.dense (by simp)
  cases e
  case jacobian group x isNew =>
    have hcount : (blocks.jacobianCount group).isBelow 0 = .ok false := by
      cases group
      case equalities => exact ha.equalities
      case inequalities => exact ha.inequalities
    have hrows : (RawValue.integer (d.core.indices group).length : RawValue α).isBelow 0 =
        .ok false := by
      simp [RawValue.isBelow_integer]
    have hnegative : RawValue.anyNegative [.integer (d.core.indices group).length, blocks.sparse,
        blocks.jacobianCount group] = .ok false := by
      simp [RawValue.anyNegative_eq_false, hrows, hsparse, hcount]
    rw [newMatrix, newJacobian_returns hd hb]
    simp only [MixedMatrix.create_eq_ok, hdense, hnegative, true_and]
    constructor
    case mp =>
      rintro ⟨_, ⟨n, k, hn, hk, htriplets, hroom, rfl⟩, rfl⟩
      exact ⟨n, k, hn, hk, ⟨htriplets, hroom⟩, rfl⟩
    case mpr =>
      rintro ⟨n, k, hn, hk, ⟨htriplets, hroom⟩, rfl⟩
      exact ⟨_, ⟨n, k, hn, hk, htriplets, hroom, rfl⟩, rfl⟩
  case hessian =>
    have hnegative : RawValue.anyNegative [blocks.sparse, blocks.sparse, blocks.hessianCount] =
        .ok false := by
      simp [RawValue.anyNegative_eq_false, hsparse, ha.hessian]
    rw [newMatrix, newHessian_returns hd hb]
    simp only [SymBlockMatrix.create_eq_ok, hdense, hnegative, true_and]
    constructor
    case mp =>
      rintro ⟨_, ⟨n, k, hn, hk, htriplets, hroom, rfl⟩, rfl⟩
      exact ⟨n, k, hn, hk, ⟨htriplets, hroom⟩, rfl⟩
    case mpr =>
      rintro ⟨n, k, hn, hk, ⟨htriplets, hroom⟩, rfl⟩
      exact ⟨_, ⟨n, k, hn, hk, htriplets, hroom, rfl⟩, rfl⟩

theorem blank_of_stands [ZeroedScalar α] (ha : blocks.Admissible d.core)
    (hn : blocks.dense = .integer n) (hs : e.Stands d blocks k)
    (hm : allocationFault? Tensor.scalarWidth [(e.rows d : Int), d.core.size] = none) :
    (e.blank d blocks n k).IsBlank (e.rows d) d.core.size.toNat := by
  have hsize := ha.size_of_not_real hs.left hn
  rw [← hsize] at hm ⊢
  cases e
  case jacobian group x isNew =>
    have ⟨hblock, hwhole⟩ := MixedMatrix.arrays_of_stands hs hm
    exact ⟨rfl, _, congrArg some (Prod.ext hblock hwhole)⟩
  case hessian =>
    have hrows : d.core.size.toNat = blocks.sparse.wholePart + n := by omega
    rw [BlockEvaluation.rows, hrows] at hm ⊢
    have ⟨hblock, hwhole⟩ := SymBlockMatrix.arrays_of_stands hs hm
    exact ⟨rfl, _, congrArg some (Prod.ext hblock hwhole)⟩

theorem broken_of_not_stands (hs : ¬e.Stands d blocks k) : (e.blank d blocks n k).IsBroken := by
  cases e
  case jacobian =>
    have ⟨⟨e, hblock⟩, e', hwhole⟩ := MixedMatrix.no_arrays_of_not_stands n hs
    exact ⟨e, e', congrArg some (Prod.ext hblock hwhole)⟩
  case hessian =>
    have ⟨⟨e, hblock⟩, e', hwhole⟩ := SymBlockMatrix.no_arrays_of_not_stands n hs
    exact ⟨e, e', congrArg some (Prod.ext hblock hwhole)⟩

-- What becomes of the matrices of a finalized formulation at any later time. They are returned if
-- their numbers are integers for which there is memory. If there is memory for an array of the
-- whole matrix as well, then this array is there and holds zeros only, unless the matrix was
-- declared to have triplets where it has no row or no column for them, or its columns are no
-- integer. In that case there is an array neither of the sparse block nor of the whole matrix.
theorem new_matrices_blank_iff [ZeroedScalar α] (hf : finalize p s = (.ok true, t))
    (hd : t.formulation.finalized = some d) (hb : d.derivatives = .mixed blocks scratch)
    (hu : Relation.ReflTransGen (Used d) t u) (e : BlockEvaluation α) :
    ((∃ a, (e.newMatrix u).1 = .ok a) ↔ ∃ n k : Nat, blocks.dense = .integer n ∧
      e.declaredCount blocks = .integer k ∧ e.Storable d n k) ∧
    ∀ a, (e.newMatrix u).1 = .ok a → ∃ k : Nat, e.declaredCount blocks = .integer k ∧
      (allocationFault? Tensor.scalarWidth [(e.rows d : Int), d.core.size] = none →
        (a.IsBlank (e.rows d) d.core.size.toNat ↔ e.Stands d blocks k)) ∧
      (¬e.Stands d blocks k → a.IsBroken) := by
  have ⟨v, hF⟩ := finalizes_of_finalized hf hd
  have hdu := (hF.ready.undisturbed (hF.ready.history hu)).finalized
  have ⟨d', hleaves, hsound⟩ := leaves_of_finalize hf
  obtain rfl : d' = d := Option.some.inj (hleaves.finalized.symm.trans hd)
  have ha : blocks.Admissible d'.core := hsound.blocks blocks (by rw [hb]; rfl)
  simp only [newMatrix_returns hdu hb ha]
  constructor
  case left =>
    constructor
    case mp =>
      rintro ⟨_, n, k, hn, hk, hroom, rfl⟩
      exact ⟨n, k, hn, hk, hroom⟩
    case mpr =>
      rintro ⟨n, k, hn, hk, hroom⟩
      exact ⟨_, n, k, hn, hk, hroom, rfl⟩
  case right =>
    rintro _ ⟨n, k, hn, hk, _, rfl⟩
    refine ⟨k, hk, fun hm => ⟨fun hblank => ?_, fun hs => blank_of_stands ha hn hs hm⟩,
      broken_of_not_stands⟩
    by_contra hs
    exact (broken_of_not_stands hs).not_blank _ _ hblank

-- The two triplets for the one equality have a place.
theorem new_matrices_blank_iff_uneven : ∃ t a, finalize unevenSample mixedStart = (.ok true, t) ∧
    (newJacobian .equalities t).1 = .ok a ∧ a.tripletCount = 2 ∧ a.IsBlank 1 2 := by
  have hf := finalize_of_succeeds (p := unevenSample) (s := mixedStart) (by decide +kernel)
  have hkind : (finalize unevenSample mixedStart).2.formulation.kind = .mixed := by decide +kernel
  have hsizes : (finalize unevenSample mixedStart).2.formulation.finalized.map (fun d =>
      ((d.core.indices .equalities).length, d.core.size)) = some (1, 2) := by decide +kernel
  have hsparse : (finalize unevenSample mixedStart).2.formulation.blocks.map (fun b =>
      (b.sparse.isReal, b.sparse.wholePart)) = some (false, 1) := by decide +kernel
  have hnew : ((newJacobian .equalities (finalize unevenSample mixedStart).2).1.toOption.map
      AnyMatrix.tripletCount) = some 2 := by decide +kernel
  generalize (finalize unevenSample mixedStart).2 = t at hf hkind hsizes hsparse hnew
  obtain ⟨v, d, hF⟩ := finalize_eq_true hf
  have hd := hF.finalized
  obtain ⟨blocks, scratch, hb⟩ : ∃ blocks scratch, d.derivatives = .mixed blocks scratch := by
    have hk := (kind_of_finalized hd).trans hkind
    cases hder : d.derivatives
    case dense => simp [hder, Derivatives.kind] at hk
    case mixed blocks scratch => exact ⟨blocks, scratch, rfl⟩
  obtain ⟨_, _, _, hderivatives⟩ := finalized_eq_some.mp hd
  rw [hb, derivatives_eq_mixed] at hderivatives
  simp only [hd, hderivatives.right.left, Option.map_some, Option.some.injEq,
    Prod.mk.injEq] at hsizes hsparse
  cases hres : (newJacobian .equalities t).1
  case error => simp [hres, Except.toOption] at hnew
  case ok a =>
    obtain ⟨_, hall⟩ := new_matrices_blank_iff hf hd hb .refl (.jacobian .equalities .absent .null)
    obtain ⟨k, _, hiff, _⟩ := hall a hres
    have hrows : (BlockEvaluation.jacobian .equalities .absent .null).rows d = 1 := hsizes.left
    rw [hrows, hsizes.right] at hiff
    have hplace : 0 < (d.core.indices .equalities).length ∧ 0 < blocks.sparse.wholePart := by
      omega
    have hstands : (BlockEvaluation.jacobian .equalities .absent .null).Stands d blocks k :=
      ⟨hsparse.left, .inr hplace⟩
    refine ⟨t, a, hf, hres, ?_, (hiff rfl).mpr hstands⟩
    simpa [hres, Except.toOption] using hnew

-- One variable, no constraints, and one triplet for the equalities.
def rowlessSample : Problem Exact :=
  { Problem.ofFunctions 1 0 (fun _ => 0) fun _ _ => 0 with
    blockSizes := .ok ⟨.integer 1, .integer 0, .integer 1, .integer 0, .integer 0, .integer 0⟩ }

theorem new_matrix_broken : ∃ t a, finalize rowlessSample mixedStart = (.ok true, t) ∧
    (newJacobian .equalities t).1 = .ok a ∧ a.IsBroken ∧
    ∀ rows columns, ¬a.IsBlank rows columns := by
  have hf := finalize_of_succeeds (p := rowlessSample) (s := mixedStart) (by decide +kernel)
  have hnew : (newJacobian .equalities (finalize rowlessSample mixedStart).2).1.toOption.any
      (fun a => a.arrays?.any fun (block, whole) =>
        block.toOption.isNone && whole.toOption.isNone) := by
    decide +kernel
  generalize (finalize rowlessSample mixedStart).2 = t at hf hnew
  cases hres : (newJacobian .equalities t).1
  case error => simp [hres, Except.toOption] at hnew
  case ok a =>
    have hbroken : a.IsBroken := by
      simp only [hres, Except.toOption, Option.any_some] at hnew
      obtain ⟨⟨block, whole⟩, harrays, hnone⟩ := Option.any_eq_true _ _ |>.mp hnew
      cases block <;> cases whole <;> simp at hnone
      exact ⟨_, _, harrays⟩
    exact ⟨t, a, hf, hres, hbroken, hbroken.not_blank⟩

end Formulation
end NonlinearProgram
