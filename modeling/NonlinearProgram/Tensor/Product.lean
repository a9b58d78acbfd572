import NonlinearProgram.Store

-- Sums of products start from zero, so a sum of zeros is a positive zero. Where one of two vectors
-- or matrices has a single entry, the product holds multiples of the entries of the other.

namespace NonlinearProgram

variable {α : Type} [Zero α] [Add α] [Mul α]

def sumOfProducts (xs ys : List α) : α := (List.zipWith (· * ·) xs ys).foldl (· + ·) 0

-- The inner product of two vectors. A single product stands alone, which keeps the sign of a zero.
def innerProduct (xs ys : List α) : α :=
  match List.zipWith (· * ·) xs ys with
  | [p] => p
  | _ => sumOfProducts xs ys

-- The multiples of some entries. A single one stands alone; several are added to zeros, to which a
-- factor of zero adds nothing at all.
def multiples [BEq α] (a : α) : List α → List α
  | [x] => [a * x]
  | xs => xs.map fun x => if a == 0 then 0 else 0 + a * x

namespace Tensor

def multiples? [BEq α] (s t : Tensor α) : Option (List α) :=
  if 2 < s.rank ∨ 2 < t.rank then none
  else match s.entries, t.entries with
    | [a], xs | xs, [a] => some (multiples a xs)
    | _, _ => none

-- The sums of the products of every run of `count` entries of the first tensor with every column of
-- the second, whose last two axes have the lengths `count` and `columns`.
def sumsOfProducts (s t : Tensor α) (rows outer : List Nat) (count columns : Nat) : List α :=
  let blocks := t.chunks (count * columns) outer
  (s.chunks count rows).flatMap fun row => blocks.flatMap fun block =>
    (List.range columns).map fun j =>
      sumOfProducts row ((List.range count).filterMap fun i => block[i * columns + j]?)

-- The product of two tensors that have axes. A vector in the second place is a single column, which
-- makes no axis.
def contracted [BEq α] (s t : Tensor α) (rows outer : List Nat) (count columns : Nat)
    (shape : List Nat) : Except ValueFault (Tensor α) :=
  if rankLimit < shape.length then .error .shapeMismatch
  else match allocationFault? scalarWidth (shape.map Int.ofNat) with
    | some fault => .error fault
    | none => .ok ⟨shape, (s.multiples? t).getD (s.sumsOfProducts t rows outer count columns)⟩

def product [BEq α] (s t : Tensor α) : Except ValueFault (Tensor α) :=
  let each := (s.multiples? t).getD (s.entries.flatMap fun x => t.entries.map (x * ·))
  match s.shape.reverse, t.shape.reverse with
  | [], _ => .ok ⟨t.shape, each⟩
  | _, [] => .ok ⟨s.shape, each⟩
  | m :: rows, [n] =>
    if m = n then s.contracted t rows.reverse [] m 1 rows.reverse else .error .shapeMismatch
  | m :: rows, columns :: n :: outer =>
    if m = n then
      s.contracted t rows.reverse outer.reverse m columns
        (rows.reverse ++ outer.reverse ++ [columns])
    else .error .shapeMismatch

end Tensor
end NonlinearProgram
