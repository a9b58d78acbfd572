import NonlinearProgram.Tensor
import NonlinearProgram.ValueFault

-- Vectors handed to the library, results it hands out and scratch space it reuses may all be the
-- same memory, so an array is a view, and reading and writing go through the store that holds the
-- buffers.

namespace NonlinearProgram

structure Buffer (α : Type) where
  entries : List α
  shape : List Nat
  writable : Bool := true

-- The leading entries of a buffer, arranged in a shape.
structure View where
  buffer : Nat
  shape : List Nat
deriving DecidableEq, Repr

namespace View

def size (v : View) : Nat := Tensor.sizeOf v.shape

def flat (v : View) : View := ⟨v.buffer, [v.size]⟩

-- How many entries one index along the first axis stands for.
def step (v : View) : Nat := Tensor.sizeOf (v.shape.drop 1)

def length? (v : View) : Option Nat := v.shape.head?

end View

structure Store (α : Type) where
  buffers : List (Buffer α) := []

def memoryLimit : Nat := 0x1000000000

-- Why there is no array with these axes, where an entry takes `width` bytes. No axis is negative,
-- and 64 bits must be able to count the bytes; axes without entries take no part in that. An array
-- that has such an axis takes no memory.
def allocationFault? (width : Nat) (axes : List Int) : Option ValueFault :=
  let shape := axes.map Int.toNat
  if axes.any (· < 0) || !Tensor.isCountable width shape then some .shapeMismatch
  else if memoryLimit ≤ width * Tensor.sizeOf shape then some .outOfMemory
  else none

namespace Store

variable {α : Type}

def alloc (s : Store α) (t : Tensor α) : View × Store α :=
  (⟨s.buffers.length, t.shape⟩, ⟨s.buffers ++ [⟨t.entries, t.shape, true⟩]⟩)

def entries (s : Store α) (v : View) : List α :=
  match s.buffers[v.buffer]? with
  | some b => b.entries.take v.size
  | none => []

def read (s : Store α) (v : View) : Tensor α := ⟨v.shape, s.entries v⟩

def writable (s : Store α) (v : View) : Bool := s.buffers[v.buffer]?.any Buffer.writable

def setEntry (s : Store α) (v : View) (i : Nat) (x : α) : Store α :=
  ⟨s.buffers.modify v.buffer fun b => { b with entries := b.entries.set i x }⟩

def setSlice (s : Store α) (v : View) (i : Nat) (x : α) : Store α :=
  (List.range v.step).foldl (fun s k => s.setEntry v (i * v.step + k) x) s

def setEntries (s : Store α) (v : View) (xs : List α) : Store α :=
  ⟨s.buffers.modify v.buffer fun b =>
    { b with entries := xs.take b.entries.length ++ b.entries.drop xs.length }⟩

def scatter (s : Store α) (v : View) (picks : List Nat) (xs : List α) : Store α :=
  (picks.zip xs).foldl (fun s (i, x) => s.setEntry v i x) s

-- The array behind a view, whatever the view's own shape is.
def whole (s : Store α) (v : View) : Tensor α :=
  match s.buffers[v.buffer]? with
  | some b => ⟨b.shape, b.entries⟩
  | none => ⟨[0], []⟩

def replace (s : Store α) (v : View) (t : Tensor α) : Store α :=
  ⟨s.buffers.modify v.buffer fun b => { b with entries := t.entries, shape := t.shape }⟩

def freeze (s : Store α) (v : View) : Store α :=
  ⟨s.buffers.modify v.buffer fun b => { b with writable := false }⟩

end Store

-- Computations on a store; what was written before a fault stays written.
abbrev StoreM (α : Type) := ExceptT ValueFault (StateM (Store α))

namespace StoreM

variable {α : Type}

def alloc (t : Tensor α) : StoreM α View :=
  modifyGet fun s => s.alloc t

def entries (v : View) : StoreM α (List α) := do return (← get).entries v

def read (v : View) : StoreM α (Tensor α) := do return (← get).read v

def zeros [Zero α] (axes : List Int) : StoreM α View := do
  if let some fault := allocationFault? Tensor.scalarWidth axes then throw fault
  let shape := axes.map Int.toNat
  alloc ⟨shape, List.replicate (Tensor.sizeOf shape) 0⟩

-- All entries of a view assigned from a tensor that stretches to it. A view needs an axis for that.
def assign (v : View) (t : Tensor α) : StoreM α Unit := do
  unless (← get).writable v do throw .readOnly
  if v.shape.isEmpty then throw .indexOutside
  match t.stretchedTo? v.shape with
  | some t => modify (·.setEntries v t.entries)
  | none => throw .shapeMismatch

def assignAt (v : View) (picks : List Nat) (t : Tensor α) : StoreM α Unit := do
  unless (← get).writable v do throw .readOnly
  match t.stretchedToSelection? [picks.length] with
  | some t => modify (·.scatter v picks t.entries)
  | none => throw .shapeMismatch

def fill (v : View) (x : α) : StoreM α Unit := do
  unless (← get).writable v do throw .readOnly
  modify (·.setEntries v (List.replicate v.size x))

end StoreM
end NonlinearProgram
