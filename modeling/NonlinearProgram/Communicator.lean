import NonlinearProgram.RawValue

-- What the peers contribute is not visible from here, so a communicator gives, for its `k`-th sum,
-- a function from the number contributed here to the number everyone receives. Peers can contribute
-- what makes no sum.

namespace NonlinearProgram

structure Communicator (α : Type) where
  name : String
  -- The rank of this process as it is given, which need not be an integer.
  rank : RawValue α
  size : RawValue α
  sum : Nat → Quantity α → Except ValueFault (Quantity α)

structure Reduction (α : Type) where
  communicator : String
  value : Quantity α

namespace Communicator

variable {α : Type} [Scalar α]

def serial (name : String) : Communicator α where
  name := name
  rank := .integer 0
  size := .integer 1
  sum := fun _ x => .ok x

-- Every peer contributes what this process contributes.
def replicated (name : String) (rank size : RawValue α) : Communicator α where
  name := name
  rank := rank
  size := size
  sum := fun _ x => do x.mul (← size.toQuantity)

-- The peers contribute `others[k]` in total to the `k`-th sum, and nothing once the list ends.
def withPeers (name : String) (rank size : RawValue α)
    (others : List (Except ValueFault (Quantity α))) : Communicator α where
  name := name
  rank := rank
  size := size
  sum := fun k x => (others[k]?.getD (.ok (.whole 0))).bind x.add

def position (c : Communicator α) (history : List (Reduction α)) : Nat :=
  history.countP (·.communicator == c.name)

def reduce (c : Communicator α) (history : List (Reduction α)) (x : Quantity α) :
    Except ValueFault (Quantity α) × List (Reduction α) :=
  (c.sum (c.position history) x, history ++ [⟨c.name, x⟩])

end Communicator
end NonlinearProgram
