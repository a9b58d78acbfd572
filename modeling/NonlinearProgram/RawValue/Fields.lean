import NonlinearProgram.RawValue
import NonlinearProgram.Store

-- What is read has to be there and of the right kind. A number may be given as a text, which is how
-- infinite and undefined ones are written.

namespace NonlinearProgram.RawValue

variable {α : Type}

def field? (key : String) : RawValue α → Option (RawValue α)
  | .record fields => (fields.find? (·.1 == key)).map (·.2)
  | _ => none

def field (key : String) (v : RawValue α) : RawValue α := (v.field? key).getD .null

def require (key : String) : RawValue α → Except ValueFault (RawValue α)
  | .record fields => ((RawValue.record fields).field? key).elim (.error .absent) .ok
  | _ => .error .wrongKind

def isNull : RawValue α → Bool
  | .null => true
  | _ => false

def present? (v : RawValue α) : Option (RawValue α) := if v.isNull then none else some v

def asItems : RawValue α → List (RawValue α)
  | .list items | .tuple items => items
  | _ => []

def asFields : RawValue α → List (String × RawValue α)
  | .record fields => fields
  | _ => []

-- The named fields that a value gives: its own, or pairs of a name and a value, of which the last
-- one counts.
def toFields : RawValue α → Except ValueFault (List (String × RawValue α))
  | .record fields => .ok fields
  | v =>
    match v.elements? with
    | none => .error .wrongKind
    | some pairs => List.reverse <$> pairs.mapM fun pair =>
      match pair.elements? with
      | some [.text key, x] => .ok (key, x)
      | some [_, _] | none => .error .wrongKind
      | some _ => .error .malformed

def asText : RawValue α → String
  | .text s => s
  | _ => ""

mutual

def leaves : RawValue α → List (RawValue α)
  | .list items | .tuple items => leavesOf items
  | v => [v]

def leavesOf : List (RawValue α) → List (RawValue α)
  | [] => []
  | v :: rest => leaves v ++ leavesOf rest

end

mutual

def commonAxes? : RawValue α → Option (List Nat)
  | .list items | .tuple items => (commonAxesOf? items).map (items.length :: ·)
  | _ => some []

def commonAxesOf? : List (RawValue α) → Option (List Nat)
  | [] => some []
  | [v] => commonAxes? v
  | v :: rest => do
    let axes ← commonAxes? v
    if axes = (← commonAxesOf? rest) then some axes else none

end

def tensorAxes (v : RawValue α) : Except ValueFault (List Nat) :=
  match v.commonAxes? with
  | some axes => if axes.length ≤ Tensor.rankLimit then .ok axes else .error .shapeMismatch
  | none => .error .shapeMismatch

-- The tensor that nested lists make up, where every entry is read first.
def nestedTensor {β : Type} (entry : RawValue α → Except ValueFault β) (v : RawValue α) :
    Except ValueFault (Tensor β) := do
  let entries ← v.leaves.mapM entry
  return ⟨← v.tensorAxes, entries⟩

def shapeAxes? : RawValue α → Except ValueFault (Option (List Int))
  | .null => .ok none
  | .integer n => .ok (some [n])
  | .text "" => .ok (some [])
  | .list items => some <$> items.mapM fun
      | .integer n => .ok n
      | _ => .error .wrongKind
  | _ => .error .wrongKind

def arranged {β : Type} (shape : RawValue α) (t : Tensor β) : Except ValueFault (Tensor β) := do
  match ← shapeAxes? shape with
  | none => return t
  | some axes => (t.withAxes? axes).elim (.error .shapeMismatch) .ok

mutual

-- The tensor of scalars that a value describes: nested lists or, where an axis may be empty, a
-- record of its data and its shape.
def toTensor [Scalar α] : RawValue α → Except ValueFault (Tensor α)
  | .record fields => do
    let t ← dataTensor fields
    arranged (← (RawValue.record fields).require "shape") t
  | v => v.nestedTensor toScalar

def dataTensor [Scalar α] : List (String × RawValue α) → Except ValueFault (Tensor α)
  | [] => .error .absent
  | (key, v) :: rest => if key == "data" then toTensor v else dataTensor rest

end

def toMask [Scalar α] (v : RawValue α) : Except ValueFault (List Bool) :=
  Tensor.entries <$> v.nestedTensor fun x => .ok x.isTrue

def scalarUnder [Scalar α] (key : String) (v : RawValue α) : Except ValueFault α := do
  (← v.require key).toScalar

def tensorUnder [Scalar α] (key : String) (v : RawValue α) : Except ValueFault (Tensor α) := do
  (← v.require key).toTensor

def integerUnder [Scalar α] (key : String) (v : RawValue α) : Except ValueFault Int := do
  (← v.require key).toInteger

def nested {β : Type} (item : β → RawValue α) : List Nat → List β → RawValue α
  | [], xs => (xs.map item).headD .null
  | n :: shape, xs =>
    let step := Tensor.sizeOf shape
    .list ((List.range n).map fun i => nested item shape ((xs.drop (i * step)).take step))

def ofTensor (t : Tensor α) : RawValue α := nested .real t.shape t.entries

def ofScalars (xs : List α) : RawValue α := .list (xs.map .real)

def ofRows (rows : List (List α)) : RawValue α := .list (rows.map ofScalars)

def ofIntegers (ns : List Int) : RawValue α := .list (ns.map .integer)

def ofNats (ns : List Nat) : RawValue α := .list (ns.map fun (n : Nat) => .integer n)

def ofTexts (ss : List String) : RawValue α := .list (ss.map .text)

end NonlinearProgram.RawValue
