import NonlinearProgram.Quantity
import NonlinearProgram.Text.Integer
import NonlinearProgram.Text.Quoted

namespace NonlinearProgram

inductive RawValue (α : Type) where
  | null
  | flag (b : Bool)
  | integer (n : Int)
  | real (x : α)
  | text (s : String)
  | tuple (items : List (RawValue α))
  | list (items : List (RawValue α))
  | record (fields : List (String × RawValue α))
  -- A number by the digits it is written with.
  | numeral (digits : String)

namespace RawValue

variable {α : Type} [Scalar α]

def flagText (b : Bool) : String := if b then "True" else "False"

mutual

def shown : RawValue α → String
  | .null => "None"
  | .flag b => flagText b
  | .integer n => toString n
  | .real x => Scalar.text x
  | .text s => Text.quoted s
  | .tuple [x] => "(" ++ x.shown ++ ",)"
  | .tuple items => "(" ++ ", ".intercalate (shownItems items) ++ ")"
  | .list items => "[" ++ ", ".intercalate (shownItems items) ++ "]"
  | .record fields => "\x7b" ++ ", ".intercalate (shownFields fields) ++ "\x7d"
  | .numeral digits => digits

def shownItems : List (RawValue α) → List String
  | [] => []
  | x :: rest => x.shown :: shownItems rest

def shownFields : List (String × RawValue α) → List String
  | [] => []
  | (key, x) :: rest => (Text.quoted key ++ ": " ++ x.shown) :: shownFields rest

end

def kindName : RawValue α → String
  | .null => "NoneType"
  | .flag _ => "bool"
  | .integer _ => "int"
  | .real _ | .numeral _ => "float"
  | .text _ => "str"
  | .tuple _ => "tuple"
  | .list _ => "list"
  | .record _ => "dict"

def plain : RawValue α → String
  | .text s => s
  | v => v.shown

def inDigits : RawValue α → RawValue α
  | .real x => .numeral (Scalar.text x)
  | v => v

-- Does the value count as true? Zeros and everything empty do not.
def isTrue : RawValue α → Bool
  | .null => false
  | .flag b => b
  | .integer n => n != 0
  | .real x => !(x == 0)
  | .text s => !s.isEmpty
  | .tuple items | .list items => !items.isEmpty
  | .record fields => !fields.isEmpty
  | .numeral _ => true

-- The answers that say no: nothing at all, and a false flag.
def isRefusal : RawValue α → Bool
  | .null | .flag false => true
  | _ => false

def toQuantity : RawValue α → Except ValueFault (Quantity α)
  | .flag b => .ok (.whole (if b then 1 else 0))
  | .integer n => .ok (.whole n)
  | .real x => .ok (.scalar x)
  | _ => .error .wrongKind

def ofQuantity : Quantity α → RawValue α
  | .whole n => .integer n
  | .scalar x => .real x

-- The integer a value stands for; a fraction is cut off toward zero.
def toInteger : RawValue α → Except ValueFault Int
  | .text s => (Text.integer? s).elim (.error .malformed) .ok
  | v => do (← v.toQuantity).toInteger

def toScalar : RawValue α → Except ValueFault α
  | .text s => (Scalar.ofText? s).elim (.error .malformed) .ok
  | v => do (← v.toQuantity).toScalar

def elements? : RawValue α → Option (List (RawValue α))
  | .tuple items | .list items => some items
  | .text s => some (s.toList.map fun c => .text c.toString)
  | .record fields => some (fields.map fun (key, _) => .text key)
  | _ => none

end RawValue
end NonlinearProgram
