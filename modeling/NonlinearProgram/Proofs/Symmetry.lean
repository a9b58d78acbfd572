import NonlinearProgram.Proofs.Rounding
import NonlinearProgram.Vector

-- It does not matter which of two lists of numbers comes first in their inner product. It does
-- matter which of two vectors is asked for it: the layout of that vector decides whether the parts
-- of the ranks are summed, and its communicator sums them if no other one is given.

namespace NonlinearProgram

theorem Exact.mul_comm (a b : Exact) : a * b = b * a := by
  simp only [mul_def]
  cases a <;> cases b <;> simp [mul, Rat.mul_comm]

theorem innerProduct_comm (xs ys : List Exact) : innerProduct xs ys = innerProduct ys xs := by
  have hproducts : List.zipWith (· * ·) xs ys = List.zipWith (· * ·) ys xs := by
    rw [List.zipWith_comm]
    exact congrArg (List.zipWith · ys xs) (funext₂ fun y x => Exact.mul_comm x y)
  rw [innerProduct, innerProduct, sumOfProducts, sumOfProducts, hproducts]

variable {α : Type} [Scalar α]

-- The scalar that a communicator makes of this rank's part of a sum, if the ranks have a sum.
def Communicator.total? (c : Communicator α) (history : List (Reduction α)) (part : α) :
    Option α :=
  ((c.reduce history (.scalar part)).1.bind Quantity.toScalar).toOption

namespace DistributedVector

-- The inner product that a vector answers with, and in how many sums over the ranks it takes part
-- for that. There is no answer where it fails.
def answer? (v w : DistributedVector α) (c : Option (Communicator α)) (s : Store α)
    (history : List (Reduction α)) : Option (α × Nat) :=
  match v.dot w c s history with
  | .ok (.ok x, later) => some (x, later.length - history.length)
  | _ => none

variable (v w : DistributedVector α) (c : Option (Communicator α)) (s : Store α)
  (history : List (Reduction α))

-- The local part of an inner product.
def part : α := innerProduct (s.entries v.view) (s.entries w.view)

-- What the part of this rank is summed to by the communicator in charge, where there is one.
def summed? : Option α :=
  (c <|> v.communicator).bind (·.total? history (v.part w s))

variable {v w c s history}

theorem answer?_of_sizes (h : w.localSize ≠ v.localSize) : v.answer? w c s history = none := by
  rw [answer?, dot, if_pos h]

theorem answer?_of_serial (h : w.localSize = v.localSize) (hv : v.layout.isDistributed = false) :
    v.answer? w c s history = some (v.part w s, 0) := by
  simp [answer?, dot, h, hv, part]

theorem answer?_of_distributed (h : w.localSize = v.localSize) (hv : v.layout.isDistributed) :
    v.answer? w c s history = (v.summed? w c s history).map (·, 1) := by
  rw [answer?, dot, if_neg (not_not.mpr h), summed?]
  cases c <|> v.communicator
  case none => simp [hv]
  case some c =>
    simp only [hv, Bool.not_true, Bool.false_eq_true, if_false, Option.bind_some,
      Communicator.total?, part]
    cases (c.reduce history _).1.bind Quantity.toScalar with
    | ok x => simp [Except.toOption, Communicator.reduce]
    | error e => rfl

end DistributedVector

namespace DistributedVector

variable (v w : DistributedVector Exact) (c : Option (Communicator Exact)) (s : Store Exact)
  (history : List (Reduction Exact))

theorem part_comm : v.part w s = w.part v s := innerProduct_comm ..

-- Two vectors answer alike if they have different sizes, as neither answers then. Otherwise they
-- do so exactly if the ranks sum for both of them or for none, and make the same of the local part
-- where they do: they may use the one communicator that is given, or the one that both vectors
-- carry.
theorem dot_symmetric_iff :
    (v.answer? w c s history = w.answer? v c s history ↔ (w.localSize = v.localSize →
      v.layout.isDistributed = w.layout.isDistributed ∧
        (v.layout.isDistributed → v.summed? w c s history = w.summed? v c s history))) ∧
    (v.layout.isDistributed = w.layout.isDistributed →
      c.isSome ∨ v.communicator = w.communicator →
        v.answer? w c s history = w.answer? v c s history) := by
  have hiff : v.answer? w c s history = w.answer? v c s history ↔ (w.localSize = v.localSize →
      v.layout.isDistributed = w.layout.isDistributed ∧
        (v.layout.isDistributed → v.summed? w c s history = w.summed? v c s history)) := by
    by_cases h : w.localSize = v.localSize
    case neg => simp [h, answer?_of_sizes h, answer?_of_sizes (Ne.symm h)]
    case pos =>
      cases hv : v.layout.isDistributed <;> cases hw : w.layout.isDistributed
      case false.false =>
        simp [h, answer?_of_serial h hv, answer?_of_serial h.symm hw, part_comm v w]
      case false.true =>
        simp [h, answer?_of_serial h hv, answer?_of_distributed h.symm hw]
      case true.false =>
        simp [h, answer?_of_distributed h hv, answer?_of_serial h.symm hw]
      case true.true =>
        have hinj : Function.Injective fun x : Exact => (x, 1) := fun _ _ h => congrArg Prod.fst h
        rw [answer?_of_distributed h hv, answer?_of_distributed h.symm hw,
          (Option.map_injective hinj).eq_iff]
        simp [h]
  refine ⟨hiff, fun hlayout hcharge => hiff.mpr fun _ => ⟨hlayout, fun _ => ?_⟩⟩
  rw [summed?, summed?, part_comm v w]
  cases hcharge
  case inl hgiven =>
    obtain ⟨given, rfl⟩ := Option.isSome_iff_exists.mp hgiven
    rfl
  case inr hcarried => rw [hcarried]

-- The first vector is held in full by every rank, and the second one is spread over two ranks. Only
-- the second one has the ranks add up.
theorem dot_asymmetric :
    let v : DistributedVector Exact := ⟨Layout.ofSize 2, ⟨0, [2]⟩, none⟩
    let w : DistributedVector Exact := ⟨⟨[0, 2, 4], 0⟩, ⟨1, [2]⟩, none⟩
    let c : Communicator Exact := .replicated "world" (.integer 0) (.integer 2)
    let s : Store Exact :=
      ⟨[⟨[.finite 1, .finite 2], [2], true⟩, ⟨[.finite 3, .finite 4], [2], true⟩]⟩
    v.answer? w (some c) s [] = some (.finite 11, 0) ∧
      w.answer? v (some c) s [] = some (.finite 22, 1) ∧
      v.answer? w (some c) s [] ≠ w.answer? v (some c) s [] := by
  decide +kernel

end DistributedVector
end NonlinearProgram
