import NonlinearProgram.Bounds.Basic
import NonlinearProgram.Formulation.Evaluation

namespace NonlinearProgram

open FormulationM

namespace Formulation

variable {α : Type} [Scalar α]

-- Where a variable starts by default: half way between two bounds, at the bound nearest to zero if
-- there is one only, and at zero if there is none.
def defaultEntry (hasLower hasUpper : Bool) (lower upper : α) : α :=
  if hasLower && hasUpper then Scalar.midpoint lower upper
  else
    let raised := Scalar.larger 0 (if hasLower then lower else Scalar.negInfinity)
    Scalar.smaller raised (if hasUpper then upper else Scalar.infinity)

def defaultPoint (lowerIndicator upperIndicator lower upper : List α) : List α :=
  List.zipWith (fun (il, iu) (l, u) => defaultEntry (0 < il) (0 < iu) l u)
    (lowerIndicator.zip upperIndicator) (lower.zip upper)

def startingPointName : String := "get_starting_point"

-- The problem's own starting point. One that declines has none, and neither has one that raises a
-- fault one can back off from.
def askStartingPoint (p : Problem α) (c : Core α) : FormulationM α (Option (List α)) := do
  let blank := List.replicate c.userLayout.localSize.toNat 0
  record (.query (.startingPoint c.userSize blank))
  match p.startingPoint c.userSize blank with
  | .ok reply => return if reply.answer.isTrue then some (overlay reply.point blank) else none
  | .error fault =>
    if fault.isRecoverable then
      emit (.callbackRaised startingPointName fault)
      return none
    else throw (.raised fault)

-- Fills a vector with a starting point. The answer is no, and the vector stays as it is, if the
-- problem's own point has entries that are not finite.
def startingPoint (p : Problem α) (out : Argument α) : FormulationM α Bool := do
  let c ← getCore
  let target ← localPart out
  match ← askStartingPoint p c with
  | some xs =>
    if xs.all Scalar.isFinite then
      onStore do
        let y ← c.chain.pointToInternal (← StoreM.alloc (Tensor.ofList xs))
        StoreM.assign target (← StoreM.read y)
      return true
    else
      emit .startNotFinite
      return false
  | none =>
    onStore do
      let point := defaultPoint (← StoreM.entries c.lowerIndicator.view)
        (← StoreM.entries c.upperIndicator.view) (← StoreM.entries c.lower.view)
        (← StoreM.entries c.upper.view)
      StoreM.assign target (Tensor.ofList point)
    emit .startFromBounds
    return true

end Formulation
end NonlinearProgram
