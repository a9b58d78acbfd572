import NonlinearProgram.RawValue
import NonlinearProgram.Scalar.Binary64

-- A number without fraction and exponent is an integer; the words `Infinity`, `-Infinity` and `NaN`
-- are numbers as well.

namespace NonlinearProgram.Json

abbrev Reader (β : Type) := StateT (List Char) Option β

namespace Reader

def next : Reader Char := do
  match ← get with
  | c :: rest => set rest; return c
  | [] => failure

def accept (c : Char) : Reader Bool := do
  match ← get with
  | d :: rest => if d = c then do set rest; return true else return false
  | [] => return false

def expect (c : Char) : Reader Unit := do
  unless ← accept c do failure

def skipBlanks : Reader Unit :=
  modify (·.dropWhile fun c => c = ' ' || c = '\t' || c = '\n' || c = '\r')

def word (s : String) : Reader Unit := s.toList.forM expect

def digits : Reader (List Char) := do
  let cs ← get
  set (cs.dropWhile Char.isDigit)
  return cs.takeWhile Char.isDigit

end Reader

open Reader

def decimalValue (ds : List Char) : Nat :=
  ds.foldl (fun n c => 10 * n + (c.toNat - '0'.toNat)) 0

def hexValue? (c : Char) : Option Nat :=
  if '0' ≤ c ∧ c ≤ '9' then some (c.toNat - '0'.toNat)
  else if 'a' ≤ c ∧ c ≤ 'f' then some (c.toNat - 'a'.toNat + 10)
  else if 'A' ≤ c ∧ c ≤ 'F' then some (c.toNat - 'A'.toNat + 10)
  else none

def codeUnit : Reader Nat :=
  (List.range 4).foldlM (fun n _ => do return 16 * n + (← liftM (hexValue? (← next)))) 0

-- The character behind a backslash; two escaped halves of a pair make one character.
def escaped : Reader Char := do
  match ← next with
  | 'n' => return '\n'
  | 't' => return '\t'
  | 'r' => return '\r'
  | 'b' => return '\x08'
  | 'f' => return '\x0c'
  | 'u' =>
    let n ← codeUnit
    if 0xd800 ≤ n ∧ n < 0xdc00 then
      word "\\u"
      return Char.ofNat (0x10000 + (n - 0xd800) * 0x400 + (← codeUnit) - 0xdc00)
    else return Char.ofNat n
  | c => return c

def textTail : Nat → List Char → Reader String
  | 0, _ => failure
  | fuel + 1, read => do
    match ← next with
    | '"' => return String.ofList read.reverse
    | '\\' => textTail fuel ((← escaped) :: read)
    | c => textTail fuel (c :: read)

def infinite (negative : Bool) : Reader (RawValue Float) := do
  word "Infinity"
  return .real (if negative then Scalar.negInfinity else Scalar.infinity)

def number : Reader (RawValue Float) := do
  let negative ← accept '-'
  if (← get).head? = some 'I' then return ← infinite negative
  let whole ← digits
  if whole.isEmpty then failure
  let pointed ← accept '.'
  let fraction ← if pointed then digits else pure []
  let raised ← (do if ← accept 'e' then return true else accept 'E')
  let exponent ← (do
    if !raised then return 0
    let minus ← accept '-'
    unless minus do let _ ← accept '+'
    let ds ← digits
    return if minus then -(decimalValue ds : Int) else decimalValue ds)
  if pointed || raised then
    let d : Decimal := ⟨decimalValue (whole ++ fraction), exponent - fraction.length⟩
    return .real (d.toFloat negative)
  else return .integer (if negative then -(decimalValue whole : Int) else decimalValue whole)

mutual

-- A value of at most `fuel` nested and neighbouring parts.
def value : Nat → Reader (RawValue Float)
  | 0 => failure
  | fuel + 1 => do
    skipBlanks
    match (← get).head? with
    | some '"' => do expect '"'; return .text (← textTail (fuel + 1) [])
    | some '[' => do
      expect '['
      skipBlanks
      if ← accept ']' then return .list [] else return .list (← items fuel)
    | some '\x7b' => do
      expect '\x7b'
      skipBlanks
      if ← accept '\x7d' then return .record [] else return .record (← members fuel)
    | some 't' => do word "true"; return .flag true
    | some 'f' => do word "false"; return .flag false
    | some 'n' => do word "null"; return .null
    | some 'N' => do word "NaN"; return .real Scalar.undefined
    | _ => number

def items : Nat → Reader (List (RawValue Float))
  | 0 => failure
  | fuel + 1 => do
    let v ← value fuel
    skipBlanks
    if ← accept ',' then return v :: (← items fuel)
    expect ']'
    return [v]

def members : Nat → Reader (List (String × RawValue Float))
  | 0 => failure
  | fuel + 1 => do
    skipBlanks
    expect '"'
    let key ← textTail (fuel + 1) []
    skipBlanks
    expect ':'
    let v ← value fuel
    skipBlanks
    if ← accept ',' then return (key, v) :: (← members fuel)
    expect '\x7d'
    return [(key, v)]

end

def parse? (s : String) : Option (RawValue Float) :=
  ((value (2 * s.length + 2)).run s.toList).map (·.1)

end NonlinearProgram.Json
