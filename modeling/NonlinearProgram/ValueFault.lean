
namespace NonlinearProgram

inductive ValueFault where
  | wrongKind
  | malformed
  | integerRange
  | absent
  | noPart
  | shapeMismatch
  | severalAxes
  | indexOutside
  | readOnly
  | divisionByZero
  | outOfMemory
deriving DecidableEq, Repr

end NonlinearProgram
