import NonlinearProgram.RawValue

-- Numbers with a fraction are written as texts, unless they are given by their digits.

namespace NonlinearProgram.Json

def escape (c : Char) : List Char :=
  if c = '"' then ['\\', '"']
  else if c = '\\' then ['\\', '\\']
  else if c = '\n' then ['\\', 'n']
  else if c = '\r' then ['\\', 'r']
  else if c = '\t' then ['\\', 't']
  else if c.toNat < 32 then '\\' :: 'u' :: Text.hex 4 c.toNat
  else [c]

def quote (s : String) : String := String.ofList ('"' :: (s.toList.flatMap escape ++ ['"']))

def bracketed (opening closing : String) (items : List String) : String :=
  opening ++ ",".intercalate items ++ closing

-- A number by its digits. Infinite and undefined ones have the words that can be read back.
def numberText : String → String
  | "inf" => "Infinity"
  | "-inf" => "-Infinity"
  | "nan" => "NaN"
  | digits => digits

variable {α : Type} [Scalar α]

mutual

def render : RawValue α → String
  | .null => "null"
  | .flag b => if b then "true" else "false"
  | .integer n => toString n
  | .real x => quote (Scalar.text x)
  | .text s => quote s
  | .tuple items | .list items => bracketed "[" "]" (renderItems items)
  | .record fields => bracketed "\x7b" "\x7d" (renderFields fields)
  | .numeral digits => numberText digits

def renderItems : List (RawValue α) → List String
  | [] => []
  | v :: rest => render v :: renderItems rest

def renderFields : List (String × RawValue α) → List String
  | [] => []
  | (key, v) :: rest => (quote key ++ ":" ++ render v) :: renderFields rest

end

end NonlinearProgram.Json
