import NonlinearProgram.Fault
import NonlinearProgram.RawValue

namespace NonlinearProgram.Fault

variable {α : Type}

def ofScalar : RawValue α → ValueFault → Fault
  | .text s, .malformed => noNumeral s
  | _, .integerRange => outsideScalars
  | _, _ => noNumber

def ofInteger : RawValue α → ValueFault → Fault
  | .text s, .malformed => noIntegerNumeral s
  | _, .malformed => undefinedInteger
  | _, .integerRange => infiniteInteger
  | _, _ => noNumber

end NonlinearProgram.Fault
