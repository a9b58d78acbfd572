import NonlinearProgram.RawValue.Fields
import NonlinearProgram.Transformation.Chain

namespace NonlinearProgram

open RawValue

variable {α : Type} [Scalar α]

def Chain.attributes (c : Chain α) : List (String × RawValue α) :=
  [("n_pre", c.userSize), ("n_post", c.internalSize)]

def Remover.attributes (r : Remover α) : List (String × RawValue α) := [
  ("n_fixed", .integer r.fixedIndices.length), ("fixed_indices", ofNats r.fixedIndices),
  ("free_indices", ofNats r.freeIndices), ("fixed_values", ofScalars r.fixedValues)]

-- The widths are those of the last relaxation in the store.
def Relaxer.attributes (r : Relaxer α) (s : Store α) : List (String × RawValue α) := [
  ("n_relaxed", .integer r.relaxedCount), ("tol", .real r.tolerance),
  ("gaps", ofTensor (r.lastGaps s))]

def Transformation.attributes (t : Transformation α) (s : Store α) : List (String × RawValue α) :=
  (Chain.single t).attributes ++ match t with
    | .remover r => r.attributes
    | .relaxer r => r.attributes s
    | .objective m => m.attributes

end NonlinearProgram
