import NonlinearProgram.Json.Printer
import NonlinearProgram.Problem.Quadratic
import NonlinearProgram.RawValue.Fields

-- What a field holds is looked at when it is used, so a problem can be asked for anything that is
-- described well.

namespace NonlinearProgram

open RawValue

variable {α : Type} [Scalar α]

def numberOf (v : RawValue α) : Coefficient α := v.toScalar.mapError (.ofScalar v)

def coefficientOf : RawValue α → Coefficient α
  | .null => .ok 0
  | v => numberOf v

def itemsOf (v : RawValue α) : Except Fault (List (RawValue α)) :=
  v.elements?.elim (.error .noNumber) .ok

def givenOf {β : Type} (item : RawValue α → Except Fault β) (v : RawValue α) : Given β :=
  (itemsOf v).map (·.map item)

-- A list that is asked by position. There is nothing in what counts as false, and named fields have
-- no positions.
def positionsOf {β : Type} (item : RawValue α → Except Fault β) (v : RawValue α) : Given β :=
  match v with
  | .record fields => .ok (fields.map fun _ => .error .noField)
  | v => if v.isTrue then givenOf item v else .ok []

def coefficientsOf (v : RawValue α) : Given α := positionsOf coefficientOf v

def rowsOf (v : RawValue α) : GivenRows α := positionsOf coefficientsOf v

def unpacked (count : Nat) (v : RawValue α) : Except Fault (List (RawValue α)) := do
  let items ← itemsOf v
  if items.length = count then return items else throw (.itemCount count items.length)

def Nonlinearity.ofValue (v : RawValue α) : Except Fault Nonlinearity :=
  (ofText? v.asText).elim (.error .noType) .ok

def typesOf (v : RawValue α) : Except Fault (List Nonlinearity) := do
  (← itemsOf v).mapM Nonlinearity.ofValue

def problemField (key : String) (v : RawValue α) : Except Fault (RawValue α) :=
  (v.field? key).elim (.error .noField) .ok

-- Five or six numbers; the last one is zero unless it is given.
def BlockSizes.ofValue (v : RawValue α) : Except Fault (BlockSizes α) := do
  match ← itemsOf v with
  | [sparse, dense, equalities, inequalities, hessian] =>
    return { sparse, dense, equalityCount := equalities, inequalityCount := inequalities
             hessianCount := hessian }
  | [sparse, dense, equalities, inequalities, hessian, coupling] =>
    return ⟨sparse, dense, equalities, inequalities, hessian, coupling⟩
  | _ => throw .valueCount

def raisableKinds : List String := [
  "ArithmeticError", "FloatingPointError", "IndexError", "KeyError", "LinAlgError", "OverflowError",
  "RuntimeError", "TypeError", "ValueError", "ZeroDivisionError"]

def Fault.ofMessage (name : String) (message : RawValue α) : Fault :=
  { Fault.named name message.plain with
    written := match message with
      | .text _ => none
      | _ => some (Json.render message) }

def Fault.ofValue (v : RawValue α) : Fault :=
  match v.elements? with
  | none => .named "TypeError" s!"cannot unpack non-iterable {v.kindName} object"
  | some [kind, message] =>
    match kind with
    | .list _ | .record _ => .named "TypeError" s!"unhashable type: '{kind.kindName}'"
    | _ =>
      if raisableKinds.contains kind.asText then ofMessage kind.asText message
      else ofMessage "KeyError" kind
  | some items => .named "ValueError" (itemCountText 2 items.length)

def noFields : RawValue α → Fault
  | .null | .flag _ | .integer _ | .real _ => .noNumber
  | _ => .noPart

def Behaviour.ofFields (v : RawValue α) : Behaviour α :=
  let fault := (v.field? "raise").map Fault.ofValue
  let isLate := (v.field "late").isTrue
  { early := if isLate then none else fault
    late := if isLate then fault else none
    pointChanges := (v.field? "mutate_x").elim [] fun changes =>
      match itemsOf changes with
      | .error fault => [.error fault]
      | .ok items => items.map fun change => do
        let pair ← unpacked 2 change
        return (pair.headD .null, numberOf (pair.getLastD .null))
    changesIndices := (v.field "mutate_idx").isTrue
    limit := v.field? "fill"
    answer := (v.field? "ret").map fun
      | .text s => .real <$> numberOf (.text s)
      | answer => .ok answer
    coupling := (v.field? "coupling").getD (.integer 0) }

-- The behaviour on an occasion. One that is not described by named fields raises a fault.
def Behaviour.ofValue : RawValue α → Behaviour α
  | .record fields => .ofFields (.record fields)
  | v => { early := some (noFields v) }

def Behaviour.onOccasion (modes : RawValue α) (o : Occasion) : Behaviour α :=
  match modes with
  | .record _ => (modes.field? o.text).elim {} .ofValue
  | _ => { early := some .noPart }

-- The sizes that a problem reports: a list stands for a tuple, in which numbers can be marked as
-- fractions.
def sizesOfValue : RawValue α → Except Fault (RawValue α)
  | .list items => .tuple <$> items.mapM fun
    | .record fields => do return .real (← numberOf (← problemField "f" (.record fields)))
    | item => .ok item
  | v => .ok v

def patternOf (v : RawValue α) (i : Nat) : Except Fault (List (RawValue α)) :=
  match v with
  | .record _ => (v.field? (toString i)).elim (.ok []) itemsOf
  | v => if v.isTrue then .error .noPart else .ok []

def HessianPlace.ofValue (v : RawValue α) : Except Fault (HessianPlace α) := do
  match ← unpacked 3 v with
  | [i, j, w] => return ⟨i, j, numberOf w⟩
  | _ => throw .noNumber

def Quadratic.ofValue (v : RawValue α) : Quadratic α where
  sizes := problemField "sizes" v >>= sizesOfValue
  distribution := (v.field "distrib").present?.map <|
    givenOf fun x => x.toInteger.mapError (.ofInteger x)
  lower := (v.field? "xl").elim (.ok []) (givenOf numberOf)
  upper := (v.field? "xu").elim (.ok []) (givenOf numberOf)
  types := (v.field "var_types").present?.map typesOf
  constraintLower := (v.field? "clow").elim (.ok []) (givenOf numberOf)
  constraintUpper := (v.field? "cupp").elim (.ok []) (givenOf numberOf)
  constraintTypes := (v.field "cons_types").present?.map typesOf
  blockSizes := problemField "blocks" v >>= BlockSizes.ofValue
  startingPoint := (v.field "x0").present?.map (givenOf numberOf)
  constant := (v.field? "f0").elim (.ok 0) numberOf
  linear := coefficientsOf (v.field "g")
  curvature := coefficientsOf (v.field "q")
  constraintConstants := coefficientsOf (v.field "k")
  constraintLinear := rowsOf (v.field "A")
  constraintCurvature := rowsOf (v.field "Q")
  pattern := patternOf (v.field "pattern")
  hessian :=
    let places := v.field "hess"
    if places.isTrue then givenOf HessianPlace.ofValue places else .ok []
  denseHessian := rowsOf (v.field "H0")
  behaviour := Behaviour.onOccasion ((v.field? "modes").getD (.record []))

def Quadratic.toProblemOfKind (q : Quadratic α) : String → Problem α
  | "mds" => q.toProblem "MDSProblem" false true
  | "both" => q.toProblem "BothProblem" true true
  | "bare" => q.toProblem "BareProblem" false false
  | _ => q.toProblem "DenseProblem" true false

end NonlinearProgram
