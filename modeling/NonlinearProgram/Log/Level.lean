import NonlinearProgram.ValueFault

namespace NonlinearProgram.Log

def debug : Int := 10
def info : Int := 20
def warning : Int := 30
def error : Int := 40

-- A level: a number, or a flag in its place.
inductive Level where
  | number (n : Int)
  | flag (b : Bool)
deriving DecidableEq, Repr

def Level.value : Level → Int
  | .number n => n
  | .flag b => if b then 1 else 0

def upperCase (c : Char) : Char :=
  if c = 'ı' then 'I' else if c = 'ſ' then 'S' else c.toUpper

def levelNames : List (String × Int) := [
  ("CRITICAL", 50), ("FATAL", 50), ("ERROR", 40), ("WARNING", 30), ("WARN", 30), ("INFO", 20),
  ("DEBUG", 10), ("NOTSET", 0)]

def otherNames : List (String × ValueFault) := [
  ("BASIC_FORMAT", .malformed), ("_STYLES", .wrongKind)]

-- The level of a name, which counts in any case; an unknown one is a warning.
def Level.ofName (s : String) : Except ValueFault Level :=
  let upper := String.ofList (s.toList.map upperCase)
  match otherNames.lookup upper with
  | some fault => .error fault
  | none => .ok (.number ((levelNames.lookup upper).getD warning))

def Level.text : Level → String
  | .flag true => "Level True"
  | level =>
    let n := level.value
    if n = 50 then "CRITICAL" else if n = 40 then "ERROR" else if n = 30 then "WARNING"
    else if n = 20 then "INFO" else if n = 10 then "DEBUG" else if n = 0 then "NOTSET"
    else s!"Level {n}"

end NonlinearProgram.Log
