import NonlinearProgram.Communicator
import NonlinearProgram.RawValue.Fields

namespace NonlinearProgram.Communicator

open RawValue

variable {α : Type} [Scalar α]

-- No communicator for null, the serial one by its name, and peers by a record of the rank, the
-- number of ranks and what the peers add.
def ofValue (name : String) : RawValue α → Except ValueFault (Option (Communicator α))
  | .null => .ok none
  | .text "serial" => .ok (some (serial name))
  | v => do
    let rank ← v.require "rank"
    let size ← v.require "size"
    return some <| match (v.field "add").elements? with
      | some others => withPeers name rank size (others.map toQuantity)
      | none => replicated name rank size

end NonlinearProgram.Communicator
