import NonlinearProgram.Options
import NonlinearProgram.RawValue.Fields

namespace NonlinearProgram.OptionFields

open RawValue

variable {α : Type} [Scalar α]

def numberNames : List String := ["fixed_var_tol", "infinity"]

-- The options among named fields. Every number among them is read, in the order of the fields, and
-- so is any other field but the policy if all of them count as numbers.
def ofValue (allNumbers : Bool) (v : RawValue α) : Except ValueFault (OptionFields α) :=
  match v with
  | .record fields => do
    let numbers := fields.filter fun (key, _) =>
      numberNames.contains key || (allNumbers && key != "fixed_var")
    let given ← numbers.mapM fun (key, x) => do return (key, ← x.toScalar)
    return {
      policy := v.field? "fixed_var"
      tolerance := given.lookup "fixed_var_tol"
      infinity := given.lookup "infinity" }
  | _ => .error .noPart

end NonlinearProgram.OptionFields
