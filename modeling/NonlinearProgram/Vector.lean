import NonlinearProgram.Communicator
import NonlinearProgram.Layout
import NonlinearProgram.Selection
import NonlinearProgram.Store
import NonlinearProgram.Tensor.Product

-- A vector on a serial layout is held in full by every rank, so its inner products are never summed
-- over ranks.

namespace NonlinearProgram

structure DistributedVector (α : Type) where
  layout : Layout
  view : View
  -- The communicator that inner products use when they are given none.
  communicator : Option (Communicator α)

inductive VectorError where
  | dataLength (length : Nat) (expected : Int)
  | copyLength (length : Nat) (size : Nat)
  | sizesDiffer
  | noCommunicator
deriving DecidableEq, Repr

def VectorError.message : VectorError → String
  | .dataLength n k => s!"Local data has length {n}, layout expects {k}"
  | .copyLength n k => s!"Cannot copy {n} values into local size {k}"
  | .sizesDiffer => "Vectors have different local sizes"
  | .noCommunicator => "dot of a distributed vector needs a communicator"

namespace DistributedVector

variable {α : Type} [Scalar α]

def ofView (layout : Layout) (view : View) (communicator : Option (Communicator α)) :
    Except VectorError (DistributedVector α) :=
  if (view.size : Int) = layout.localSize then .ok ⟨layout, view.flat, communicator⟩
  else .error (.dataLength view.size layout.localSize)

def zeros (layout : Layout) (communicator : Option (Communicator α)) :
    StoreM α (DistributedVector α) := do
  return ⟨layout, ← StoreM.zeros [layout.localSize], communicator⟩

def ofEntries (s : Store α) (xs : List α) : DistributedVector α × Store α :=
  let (view, s) := s.alloc (Tensor.ofList xs)
  (⟨Layout.ofSize xs.length, view, none⟩, s)

def copy (v : DistributedVector α) (s : Store α) : DistributedVector α × Store α :=
  let (view, s) := s.alloc (Tensor.ofList (s.entries v.view))
  ({ v with view := view }, s)

def globalSize (v : DistributedVector α) : Int := v.layout.globalSize

def length? (v : DistributedVector α) : Option Nat :=
  if v.globalSize < 0 then none else some v.globalSize.toNat

def localSize (v : DistributedVector α) : Nat := v.view.size

def copyFrom (v : DistributedVector α) (s : Store α) (xs : List α) : Except VectorError (Store α) :=
  if xs.length = v.localSize then .ok (s.setEntries v.view xs)
  else .error (.copyLength xs.length v.localSize)

-- The inner product of the whole vectors. On a distributed layout the local part is summed over the
-- ranks by the given communicator, or else by the one the vector carries; the ranks may have no
-- sum.
def dot (v w : DistributedVector α) (communicator : Option (Communicator α)) (s : Store α)
    (history : List (Reduction α)) :
    Except VectorError (Except ValueFault α × List (Reduction α)) :=
  if w.localSize ≠ v.localSize then .error .sizesDiffer
  else
    let part := innerProduct (s.entries v.view) (s.entries w.view)
    if !v.layout.isDistributed then .ok (.ok part, history)
    else match communicator <|> v.communicator with
      | none => .error .noCommunicator
      | some c =>
        let (sum, history) := c.reduce history (.scalar part)
        .ok (sum.bind Quantity.toScalar, history)

def text (v : DistributedVector α) : String :=
  s!"DistributedVector(global_size={v.globalSize}, local_size={v.localSize})"

end DistributedVector
end NonlinearProgram
