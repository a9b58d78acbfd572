import NonlinearProgram.Text.Quoted
import NonlinearProgram.Word

namespace NonlinearProgram

inductive FaultFamily where
  | arithmetic
  | value
  | linearAlgebra
  | malformedData
  | other
deriving DecidableEq, Repr

structure Fault where
  family : FaultFamily
  name : String
  message : String
  fromStorage : Bool := false
  written : Option String := none
deriving DecidableEq, Repr

namespace Fault

def familyOf (name : String) : FaultFamily :=
  if ["ArithmeticError", "FloatingPointError", "OverflowError", "ZeroDivisionError"].contains
      name then
    .arithmetic
  else if ["ValueError", "UnicodeError", "UnicodeDecodeError", "UnicodeEncodeError"].contains
      name then
    .value
  else if name == "LinAlgError" then .linearAlgebra
  else if name == "FinalizationError" then .malformedData
  else .other

def named (name message : String) : Fault := { family := familyOf name, name, message }

def storage (name message : String) : Fault := { named name message with fromStorage := true }

-- A point at which an evaluation faults this way may be backed off from.
def isRecoverable (f : Fault) : Bool := f.family != .other

def readOnly : Fault := storage "ValueError" "assignment destination is read-only"

def noIndex : Fault := storage "IndexError" ""

def noLength : Fault := storage "TypeError" ""

def noNumber : Fault := storage "TypeError" ""

def noPart : Fault := storage "AttributeError" ""

def noField : Fault := storage "KeyError" ""

def noNumeral (s : String) : Fault :=
  storage "ValueError" s!"could not convert string to float: {Text.quoted s}"

def noIntegerNumeral (s : String) : Fault :=
  storage "ValueError" s!"invalid literal for int() with base 10: {Text.quoted s}"

def undefinedInteger : Fault := storage "ValueError" "cannot convert float NaN to integer"

def infiniteInteger : Fault :=
  storage "OverflowError" "cannot convert float infinity to integer"

def itemCountText (expected count : Nat) : String :=
  if count < expected then
    s!"not enough values to unpack (expected {expected}, got {count})"
  else s!"too many values to unpack (expected {expected})"

def itemCount (expected count : Nat) : Fault :=
  storage "ValueError" (itemCountText expected count)

def outsideScalars : Fault := storage "OverflowError" "int too large to convert to float"

def noType : Fault := storage "ValueError" ""

def valueCount : Fault := storage "TypeError" ""

def outsideInt64 : Fault := storage "OverflowError" "Python int too large to convert to C long"

def outsideInt32 (n : Int) : Fault :=
  if isInt64 n then storage "OverflowError" s!"Python integer {n} out of bounds for int32"
  else outsideInt64

end Fault
end NonlinearProgram
