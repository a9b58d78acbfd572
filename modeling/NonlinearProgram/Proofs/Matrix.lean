import NonlinearProgram.Formulation.Allocation
import NonlinearProgram.Proofs.Formulation.Finalization

-- What a matrix that was made holds of the numbers it was made of.

namespace NonlinearProgram

open Program

variable {α : Type}

namespace RawValue

theorem exactInteger_eq_ok {v : RawValue α} {n : Int} :
    v.exactInteger = .ok n ↔ v = .integer n := by
  cases v <;> constructor <;> intro h <;> cases h <;> rfl

variable [Scalar α]

theorem anyNegative_eq_false {vs : List (RawValue α)} :
    anyNegative vs = .ok false ↔ ∀ v ∈ vs, v.isBelow 0 = .ok false := by
  induction vs
  case nil => simp [anyNegative]
  case cons v vs hi =>
    rw [List.forall_mem_cons, ← hi, anyNegative, except_bind_eq_ok]
    simp only [Bool.exists_bool, if_true, Bool.false_eq_true, if_false]
    exact or_iff_left (by simp [pure, Except.pure])

theorem natural_of_not_below {n : Int} (h : (integer n : RawValue α).isBelow 0 = .ok false) :
    (n.toNat : Int) = n := by
  rw [isBelow_integer, Except.ok.injEq, decide_eq_false_iff_not] at h
  omega

end RawValue

variable [Scalar α]

namespace CoordinateBlock

-- A block as it is made. All of its triplets are zeros at the first place.
def blank (rows : Nat) (columns : RawValue α) (count : Nat) : CoordinateBlock α where
  rows := rows
  columns := columns.wholePart
  triplets := List.replicate count ⟨0, 0, 0⟩
  columnsGiven := columns

theorem count_blank (rows : Nat) (columns : RawValue α) (count : Nat) :
    (blank rows columns count).count = count :=
  List.length_replicate

-- Why there is no room for so many triplets.
def tripletFault? (count : Int) : Option ValueFault :=
  allocationFault? indexWidth [count] <|> allocationFault? Tensor.scalarWidth [count]

theorem create_eq_ok {rows columns count : RawValue α} {b : CoordinateBlock α} :
    create rows columns count = .ok b ↔ RawValue.anyNegative [rows, columns, count] = .ok false ∧
      ∃ k : Nat, count = .integer k ∧ tripletFault? k = none ∧
        b = blank rows.wholePart columns k := by
  refine refusal_eq_ok.trans (and_congr_right fun hnegative => ?_)
  constructor
  case mp =>
    intro h
    have ⟨n, hn, h⟩ := except_bind_eq_ok.mp h
    rw [mapError_eq_ok, RawValue.exactInteger_eq_ok] at hn
    have hbelow := RawValue.anyNegative_eq_false.mp hnegative count (by simp)
    rw [hn] at hbelow
    have hnat := RawValue.natural_of_not_below hbelow
    split at h
    case h_1 => cases h
    case h_2 hfault =>
      cases h
      exact ⟨n.toNat, hnat.symm ▸ hn, hnat.symm ▸ hfault, rfl⟩
  case mpr =>
    rintro ⟨k, rfl, hfault, rfl⟩
    rw [tripletFault?] at hfault
    simp [RawValue.exactInteger, Except.mapError, hfault, blank, bind, Except.bind, pure,
      Except.pure]

end CoordinateBlock

theorem Rows.allocate_eq_ok {rows columns : Int} {a : Rows α} : Rows.allocate rows columns = .ok a ↔
    allocationFault? Tensor.scalarWidth [rows, columns] = none ∧
      a = Rows.zeros rows.toNat columns.toNat := by
  rw [allocate]
  cases allocationFault? Tensor.scalarWidth [rows, columns] <;> simp [eq_comm]

namespace MixedMatrix

def blank (rows : Nat) (sparse : RawValue α) (dense count : Nat) : MixedMatrix α where
  sparse := .blank rows sparse count
  denseColumns := dense
  dense := Rows.zeros rows dense

theorem create_eq_ok {rows : Nat} {sparse dense count : RawValue α} {a : MixedMatrix α} :
    create (.integer rows) sparse dense count = .ok a ↔
      dense.isBelow 0 = .ok false ∧
      RawValue.anyNegative [.integer rows, sparse, count] = .ok false ∧
      ∃ n k : Nat, dense = .integer n ∧ count = .integer k ∧
        CoordinateBlock.tripletFault? k = none ∧
        allocationFault? Tensor.scalarWidth [(rows : Int), (n : Int)] = none ∧
        a = blank rows sparse n k := by
  refine refusal_eq_ok.trans (and_congr_right fun hnegative => ?_)
  constructor
  case mp =>
    intro h
    have ⟨block, hblock, h⟩ := except_bind_eq_ok.mp h
    have ⟨m, hm, h⟩ := except_bind_eq_ok.mp h
    have ⟨n, hn, h⟩ := except_bind_eq_ok.mp h
    have ⟨entries, hentries, h⟩ := except_bind_eq_ok.mp h
    rw [mapError_eq_ok, RawValue.exactInteger_eq_ok] at hm hn
    cases hm
    obtain ⟨hrest, k, hk, hfault, rfl⟩ := CoordinateBlock.create_eq_ok.mp hblock
    obtain ⟨hroom, rfl⟩ := Rows.allocate_eq_ok.mp hentries
    have hnat := RawValue.natural_of_not_below (hn ▸ hnegative)
    cases h
    exact ⟨hrest, n.toNat, k, hnat.symm ▸ hn, hk, hfault, hnat.symm ▸ hroom, rfl⟩
  case mpr =>
    rintro ⟨hrest, n, k, rfl, rfl, hfault, hroom, rfl⟩
    have hblock := CoordinateBlock.create_eq_ok.mpr ⟨hrest, k, rfl, hfault, rfl⟩
    have hentries := (Rows.allocate_eq_ok (α := α)).mpr ⟨hroom, rfl⟩
    refine except_bind_eq_ok.mpr ⟨_, hblock, ?_⟩
    refine except_bind_eq_ok.mpr ⟨(rows : Int), rfl, ?_⟩
    refine except_bind_eq_ok.mpr ⟨(n : Int), rfl, ?_⟩
    exact except_bind_eq_ok.mpr ⟨_, hentries, rfl⟩

end MixedMatrix

namespace SymBlockMatrix

def blank (sparse : RawValue α) (dense count : Nat) : SymBlockMatrix α where
  sparse := .blank sparse.wholePart sparse count
  denseSize := dense
  dense := Rows.zeros dense dense

theorem create_eq_ok {sparse dense count : RawValue α} {a : SymBlockMatrix α} :
    create sparse dense count = .ok a ↔ dense.isBelow 0 = .ok false ∧
      RawValue.anyNegative [sparse, sparse, count] = .ok false ∧
      ∃ n k : Nat, dense = .integer n ∧ count = .integer k ∧
        CoordinateBlock.tripletFault? k = none ∧
        allocationFault? Tensor.scalarWidth [(n : Int), (n : Int)] = none ∧
        a = blank sparse n k := by
  refine refusal_eq_ok.trans (and_congr_right fun hnegative => ?_)
  constructor
  case mp =>
    intro h
    have ⟨block, hblock, h⟩ := except_bind_eq_ok.mp h
    have ⟨n, hn, h⟩ := except_bind_eq_ok.mp h
    have ⟨entries, hentries, h⟩ := except_bind_eq_ok.mp h
    rw [mapError_eq_ok, RawValue.exactInteger_eq_ok] at hn
    obtain ⟨hrest, k, hk, hfault, rfl⟩ := CoordinateBlock.create_eq_ok.mp hblock
    obtain ⟨hroom, rfl⟩ := Rows.allocate_eq_ok.mp hentries
    have hnat := RawValue.natural_of_not_below (hn ▸ hnegative)
    cases h
    exact ⟨hrest, n.toNat, k, hnat.symm ▸ hn, hk, hfault, hnat.symm ▸ hroom, rfl⟩
  case mpr =>
    rintro ⟨hrest, n, k, rfl, rfl, hfault, hroom, rfl⟩
    have hblock := CoordinateBlock.create_eq_ok.mpr ⟨hrest, k, rfl, hfault, rfl⟩
    have hentries := (Rows.allocate_eq_ok (α := α)).mpr ⟨hroom, rfl⟩
    refine except_bind_eq_ok.mpr ⟨_, hblock, ?_⟩
    refine except_bind_eq_ok.mpr ⟨(n : Int), rfl, ?_⟩
    exact except_bind_eq_ok.mpr ⟨_, hentries, rfl⟩

end SymBlockMatrix
end NonlinearProgram
