import NonlinearProgram.Log.Registry
import NonlinearProgram.RawValue.Fields

namespace NonlinearProgram.Log

open RawValue

variable {α : Type} [Scalar α]

def Level.toValue : Level → RawValue α
  | .number n => .integer n
  | .flag b => .flag b

def FieldValue.toValue : FieldValue → RawValue α
  | .text s => .text s
  | .integer n => .integer n
  | .flag b => .flag b
  | .real x => .numeral x.text
  | .other _ written => .numeral written

def Handler.toValue : Handler → RawValue α
  | .silent level =>
    .record [("level", level.toValue), ("format", .null), ("filters", .list [])]
  | .stream level template _ filter => .record [
      ("level", level.toValue), ("format", .text template),
      ("filters", .list [.list [filter.ownRank.toValue, filter.groupSize.toValue,
        filter.selected.elim .null FieldValue.toValue]])]

def Logger.toFields (l : Logger) : List (String × RawValue α) := [
  ("name", .text l.name), ("level", l.level.toValue), ("propagate", .flag l.propagates),
  ("same", .flag true), ("handlers", .list (l.handlers.map Handler.toValue))]

def writtenTexts (lines : List Line) : RawValue α :=
  .record (lines.foldl (fun (fields : List (String × RawValue α)) line =>
    let before := (fields.lookup line.stream).elim "" asText
    fields.filter (·.1 != line.stream) ++ [(line.stream, .text (before ++ line.text ++ "\n"))]) [])

def Registry.levelsValue (g : Registry) : RawValue α :=
  .list (g.levels.map fun (name, level) => .list [.text name, level.toValue])

end NonlinearProgram.Log
