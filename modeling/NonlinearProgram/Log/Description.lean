import NonlinearProgram.Communicator.Description
import NonlinearProgram.Json.Printer
import NonlinearProgram.Log.Registry
import NonlinearProgram.RawValue.Comparison

namespace NonlinearProgram.Log

open RawValue

variable {α : Type} [Scalar α]

def Level.ofNumber : RawValue α → Except ValueFault Level
  | .integer n => .ok (.number n)
  | .flag b => .ok (.flag b)
  | _ => .error .wrongKind

def Level.ofValue : RawValue α → Except ValueFault Level
  | .text s => ofName s
  | v => ofNumber v

def levelUnder (key : String) (usual : Int) (v : RawValue α) : Except ValueFault Level :=
  (v.field? key).elim (.ok (.number usual)) Level.ofValue

def loggerName : RawValue α → Except ValueFault String
  | .null => .ok packageName
  | .text s => .ok s
  | _ => .error .noPart

-- The name of any logger, where everything that counts as false stands for the root.
def anyLoggerName : RawValue α → Except ValueFault String
  | .text s => .ok s
  | v => if v.isTrue then .error .wrongKind else .ok ""

-- A message or a rank: a text, a number, or any other value in its place.
def FieldValue.ofValue : RawValue α → FieldValue
  | .text s => .text s
  | .integer n => .integer n
  | .flag b => .flag b
  | .real x => .real (Scalar.binary64 x)
  | v => .other v.shown (Json.render v)

-- The filter of a communicator for the rank under a key, where null selects every rank. The first
-- one speaks unless another one is given.
def RankFilter.under (key : String) (v : RawValue α) : Except ValueFault RankFilter := do
  let c : Communicator α ←
    (·.getD (Communicator.serial "")) <$> Communicator.ofValue "" (v.field "comm")
  let selected := ((v.field? key).getD (.integer 0)).present?
  return ⟨.ofValue c.rank, .ofValue c.size, selected.map .ofValue⟩

def templateOf? : RawValue α → Option (Except ValueFault String)
  | .null => none
  | .text s => some (.ok s)
  | v => some (if v.isTrue then .error .wrongKind else .ok "")

def streamOf? : RawValue α → Option String
  | .null => none
  | v => some v.plain

def Registry.configureFrom (v : RawValue α) : Action Unit := do
  let filter ← RankFilter.under "rank" v
  configure (levelUnder "level" warning v) (templateOf? (v.field "format_string"))
    (streamOf? (v.field "stream")) filter

def Registry.logFrom (v : RawValue α) : Action (List Line) := do
  let name ← loggerName (← v.require "name")
  log name (do
    let level ← v.require "level"
    let _ ← v.require "msg"
    Level.ofNumber level) (.ofValue (v.field "msg"))

end NonlinearProgram.Log
