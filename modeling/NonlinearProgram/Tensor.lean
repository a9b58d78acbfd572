-- Elementwise operations on two tensors stretch axes of length one, aligned at the last axis.

namespace NonlinearProgram

structure Tensor (α : Type) where
  shape : List Nat
  entries : List α
deriving Repr

namespace Tensor

variable {α β γ : Type}

def sizeOf (shape : List Nat) : Nat := shape.foldl (· * ·) 1

def ofList (xs : List α) : Tensor α := ⟨[xs.length], xs⟩

def size (t : Tensor α) : Nat := t.entries.length

def rank (t : Tensor α) : Nat := t.shape.length

def rankLimit : Nat := 64

def scalarWidth : Nat := 8

-- Can 64 bits count the bytes of an array whose entries take `width` bytes? Axes without entries
-- take no part in that.
def isCountable (width : Nat) (shape : List Nat) : Bool :=
  (shape.filter (· ≠ 0)).foldl (· * ·) width < 0x8000000000000000

def map (f : α → β) (t : Tensor α) : Tensor β := ⟨t.shape, t.entries.map f⟩

def indices : List Nat → List (List Nat)
  | [] => [[]]
  | n :: shape => (List.range n).flatMap fun i => (indices shape).map (i :: ·)

-- The position of an index, where an axis of length one takes every index as zero.
def offset : List Nat → List Nat → Nat
  | n :: shape, i :: index => (if n = 1 then 0 else i * sizeOf shape) + offset shape index
  | _, _ => 0

def stretchAxis (m n : Nat) : Option Nat :=
  if m = n then some m else if m = 1 then some n else if n = 1 then some m else none

-- The common shape of two shapes given last axis first.
def stretchReversed : List Nat → List Nat → Option (List Nat)
  | [], shape => some shape
  | shape, [] => some shape
  | m :: s, n :: t => do return (← stretchAxis m n) :: (← stretchReversed s t)

def stretchShape (s t : List Nat) : Option (List Nat) :=
  (stretchReversed s.reverse t.reverse).map List.reverse

def stretchTo (t : Tensor α) (shape : List Nat) : Tensor α where
  shape := shape
  entries :=
    if t.shape = shape then t.entries
    else if sizeOf shape = 0 then []
    else (indices shape).filterMap fun index =>
      t.entries[offset t.shape (index.drop (shape.length - t.shape.length))]?

def zipWith? (f : α → β → γ) (s : Tensor α) (t : Tensor β) : Option (Tensor γ) := do
  let shape ← stretchShape s.shape t.shape
  return ⟨shape, List.zipWith f (s.stretchTo shape).entries (t.stretchTo shape).entries⟩

-- The tensor stretched to exactly the given shape, if it fits. Leading axes of length one beyond
-- the number of axes asked for do not count.
def stretchedTo? (t : Tensor α) (shape : List Nat) : Option (Tensor α) :=
  if t.shape = shape then some t
  else
    let surplus := (t.shape.take (t.shape.length - shape.length)).takeWhile (· = 1)
    let t : Tensor α := ⟨t.shape.drop surplus.length, t.entries⟩
    if stretchShape t.shape shape = some shape then some (t.stretchTo shape) else none

theorem stretchedTo?_shape (t : Tensor α) : t.stretchedTo? t.shape = some t := by
  simp [stretchedTo?]

-- The tensor with its entries along other axes. One axis may be given as negative, and is then as
-- long as the entries make it; they have to fill every shape exactly.
def withAxes? (t : Tensor α) (axes : List Int) : Option (Tensor α) :=
  let known := sizeOf ((axes.filter (0 ≤ ·)).map Int.toNat)
  let missing := if known = 0 then 0 else t.size / known
  let shape := axes.map fun n => if n < 0 then missing else n.toNat
  let isShape := (axes.filter (· < 0)).length ≤ 1 && (known ≠ 0 || axes.all (0 ≤ ·))
  if isShape && shape.length ≤ rankLimit && isCountable scalarWidth shape && sizeOf shape = t.size
  then some ⟨shape, t.entries⟩
  else none

def lastAxes? (t : Tensor α) (count : Nat) : Option (Tensor α) :=
  let shape := t.shape.drop (t.rank - count)
  if t.rank ≤ count ∨ sizeOf shape = t.size then some ⟨shape, t.entries⟩ else none

-- The tensor stretched to entries that are picked one by one. Of axes beyond the number of axes
-- asked for, only the entries count.
def stretchedToSelection? (t : Tensor α) (shape : List Nat) : Option (Tensor α) := do
  (← t.lastAxes? shape.length).stretchedTo? shape

def chunks (t : Tensor α) (width : Nat) (shape : List Nat) : List (List α) :=
  (List.range (sizeOf shape)).map fun i => (t.entries.drop (i * width)).take width

def transpose (t : Tensor α) : Tensor α where
  shape := t.shape.reverse
  entries :=
    if t.entries.isEmpty then []
    else (indices t.shape.reverse).filterMap fun index => t.entries[offset t.shape index.reverse]?

def positions (p : α → Bool) (t : Tensor α) : List Nat :=
  (List.range t.entries.length).filter fun i => t.entries[i]?.any p

def slices (t : Tensor α) (start stop : Nat) : Tensor α :=
  match t.shape with
  | [] => t
  | n :: shape =>
    let step := sizeOf shape
    let stop := min stop n
    ⟨(stop - start) :: shape, (t.entries.take (stop * step)).drop (start * step)⟩

def gather? (t : Tensor α) (picks : List Nat) : Option (Tensor α) :=
  match t.shape with
  | [] => none
  | n :: shape =>
    let step := sizeOf shape
    if picks.all (· < n) then
      some ⟨picks.length :: shape, picks.flatMap fun i => (t.entries.drop (i * step)).take step⟩
    else none

def withSlices (t : Tensor α) (picks : List Nat) (slices : Tensor α) : Tensor α :=
  let step := sizeOf (t.shape.drop 1)
  let place (entries : List α) (i k : Nat) : List α :=
    entries.take (i * step) ++ (slices.entries.drop (k * step)).take step ++
      entries.drop ((i + 1) * step)
  { t with entries := picks.zipIdx.foldl (fun entries (i, k) => place entries i k) t.entries }

def gatherColumns? (t : Tensor α) (picks : List Nat) : Option (Tensor α) :=
  match t.shape with
  | rows :: columns :: shape =>
    let step := sizeOf shape
    if picks.all (· < columns) then
      some ⟨rows :: picks.length :: shape,
        (List.range rows).flatMap fun r => picks.flatMap fun i =>
          (t.entries.drop ((r * columns + i) * step)).take step⟩
    else none
  | _ => none

end Tensor
end NonlinearProgram
