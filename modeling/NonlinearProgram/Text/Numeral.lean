import NonlinearProgram.Decimal.Basic
import NonlinearProgram.Text.Integer

namespace NonlinearProgram.Text

inductive Numeral where
  | undefined
  | infinite (negative : Bool)
  | decimal (negative : Bool) (d : Decimal)
deriving DecidableEq, Repr

namespace Numeral

def digitsBehind : List Char → List Nat × List Char
  | '_' :: c :: rest =>
    match digitValue? c with
    | some d => let (ds, rest) := digitsBehind rest; (d :: ds, rest)
    | none => ([], '_' :: c :: rest)
  | c :: rest =>
    match digitValue? c with
    | some d => let (ds, rest) := digitsBehind rest; (d :: ds, rest)
    | none => ([], c :: rest)
  | [] => ([], [])

def digitsInFront : List Char → List Nat × List Char
  | c :: rest =>
    match digitValue? c with
    | some d => let (ds, rest) := digitsBehind rest; (d :: ds, rest)
    | none => ([], c :: rest)
  | [] => ([], [])

def whole? (cs : List Char) : Option Nat :=
  match digitsInFront cs with
  | (ds@(_ :: _), []) => some (digitsValue ds)
  | _ => none

def exponent? : List Char → Option Int
  | [] => some 0
  | c :: rest =>
    if c = 'e' ∨ c = 'E' then
      match rest with
      | '-' :: rest => (whole? rest).map fun n => -(n : Int)
      | '+' :: rest => (whole? rest).map Int.ofNat
      | rest => (whole? rest).map Int.ofNat
    else none

def decimal? (cs : List Char) : Option Decimal := do
  let (whole, rest) := digitsInFront cs
  let (fraction, rest) := match rest with
    | '.' :: rest => digitsInFront rest
    | rest => ([], rest)
  if whole.isEmpty && fraction.isEmpty then none
  return ⟨digitsValue (whole ++ fraction), (← exponent? rest) - fraction.length⟩

def unsigned? (negative : Bool) (cs : List Char) : Option Numeral :=
  let word := String.ofList (cs.map Char.toLower)
  if word = "inf" ∨ word = "infinity" then some (.infinite negative)
  else if word = "nan" then some .undefined
  else (decimal? cs).map (.decimal negative)

def ofText? (s : String) : Option Numeral :=
  match trimmed s.toList with
  | '-' :: cs => unsigned? true cs
  | '+' :: cs => unsigned? false cs
  | cs => unsigned? false cs

end Numeral
end NonlinearProgram.Text
