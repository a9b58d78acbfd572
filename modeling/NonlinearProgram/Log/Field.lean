import NonlinearProgram.Text.Measured
import NonlinearProgram.Text.Quoted
import NonlinearProgram.ValueFault

-- A form has flags, a width, a precision and a letter. The letters `s`, `r` and `a` write any value
-- as a text, cut off at the precision; `c` writes one character; all others write numbers, of which
-- `d`, `i` and `u` take the integer part and `o`, `x` and `X` only integers.

namespace NonlinearProgram.Log

inductive FieldValue where
  | text (s : String)
  | integer (n : Int)
  | flag (b : Bool)
  | real (x : Text.Binary64)
  | other (shown written : String)
deriving DecidableEq, Repr

namespace FieldValue

def shown (quote : String → String) : FieldValue → String
  | .text s => quote s
  | .integer n => toString n
  | .flag b => if b then "True" else "False"
  | .real x => x.text
  | .other shown _ => shown

def integerPart? : FieldValue → Option (Int × Bool)
  | .integer n => some (n, true)
  | .flag b => some (if b then 1 else 0, true)
  | .real x => x.integerPart?
  | .text _ | .other _ _ => none

-- Are both values the same? Numbers of different kinds are the same if they have the same value,
-- and an undefined one is not the same as itself.
def isSame (v w : FieldValue) : Bool :=
  match v.integerPart?, w.integerPart? with
  | some (m, true), some (n, true) => m = n
  | _, _ => v = w && v ≠ .real .undefined

def exceedsOne (v : FieldValue) : Except ValueFault Bool :=
  match v, v.integerPart? with
  | _, some (n, whole) => .ok (1 < n || (n = 1 && !whole))
  | .real x, none => .ok (x = .infinite false)
  | _, none => .error .wrongKind

end FieldValue

structure FieldForm where
  leftAligned : Bool := false
  zeroFilled : Bool := false
  signed : Bool := false
  blankSigned : Bool := false
  -- Numbers show their base, and their point even where nothing is behind it.
  alternate : Bool := false
  width : Nat := 0
  precision : Option Nat := none

namespace FieldForm

def decimalValue (digits : List Char) : Nat :=
  digits.foldl (fun n c => 10 * n + (c.toNat - '0'.toNat)) 0

def flag? (form : FieldForm) (c : Char) : Option FieldForm :=
  match c with
  | '-' => some { form with leftAligned := true }
  | '0' => some { form with zeroFilled := true }
  | '+' => some { form with signed := true }
  | ' ' => some { form with blankSigned := true }
  | '#' => some { form with alternate := true }
  | _ => none

def flags (form : FieldForm) : List Char → FieldForm × List Char
  | [] => (form, [])
  | c :: rest =>
    match form.flag? c with
    | some form => form.flags rest
    | none => (form, c :: rest)

-- Flags, width and precision, and what follows them. A point alone stands for no precision at all.
def parse (cs : List Char) : FieldForm × List Char :=
  let (form, cs) := flags {} cs
  let form := { form with width := decimalValue (cs.takeWhile Char.isDigit) }
  match cs.dropWhile Char.isDigit with
  | '.' :: rest =>
    ({ form with precision := some (decimalValue (rest.takeWhile Char.isDigit)) },
      rest.dropWhile Char.isDigit)
  | rest => (form, rest)

-- A value filled up to the width. Zeros go between what is in front of the digits and the digits.
def fill (form : FieldForm) (front digits : List Char) (filler : Char) : List Char :=
  let missing := form.width - (front.length + digits.length)
  if form.leftAligned then front ++ digits ++ List.replicate missing ' '
  else if filler = ' ' then List.replicate missing ' ' ++ front ++ digits
  else front ++ List.replicate missing filler ++ digits

def text (form : FieldForm) (s : String) : List Char :=
  form.fill [] (form.precision.elim s.toList s.toList.take) ' '

def character? (form : FieldForm) : FieldValue → Option (List Char)
  | .text s =>
    match s.toList with
    | [c] => some (form.fill [] [c] ' ')
    | _ => none
  | .integer n =>
    if 0 ≤ n ∧ Nat.isValidChar n.toNat then some (form.fill [] [Char.ofNat n.toNat] ' ') else none
  | .flag b => some (form.fill [] [Char.ofNat (if b then 1 else 0)] ' ')
  | .real _ | .other _ _ => none

def sign (form : FieldForm) (negative : Bool) : List Char :=
  if negative then ['-'] else if form.signed then ['+'] else if form.blankSigned then [' '] else []

def number (form : FieldForm) (negative : Bool) (front digits : List Char) : List Char :=
  form.fill (form.sign negative ++ front) digits (if form.zeroFilled then '0' else ' ')

-- An integer in a base, with at least as many digits as the precision says; `mark` names the base.
def inBase (form : FieldForm) (base : Nat) (mark : Char) (n : Int) : List Char :=
  let digits := Nat.toDigits base n.natAbs
  form.number (n < 0) (if form.alternate && base ≠ 10 then ['0', mark] else [])
    (List.replicate (form.precision.getD 0 - digits.length) '0' ++ digits)

def usualPrecision : Nat := 6

def measured (form : FieldForm) (write : Bool → Nat → Nat → Int → List Char) (x : Text.Binary64) :
    List Char :=
  form.number x.isNegative []
    (x.magnitude (write form.alternate (form.precision.getD usualPrecision)))

def upper (cs : List Char) : List Char := cs.map Char.toUpper

def measured? (form : FieldForm) (letter : Char) (x : Text.Binary64) : Option (List Char) :=
  match letter with
  | 'e' => some (form.measured Text.Measured.scientific x)
  | 'E' => some (upper (form.measured Text.Measured.scientific x))
  | 'f' => some (form.measured Text.Measured.fixed x)
  | 'F' => some (upper (form.measured Text.Measured.fixed x))
  | 'g' => some (form.measured Text.Measured.general x)
  | 'G' => some (upper (form.measured Text.Measured.general x))
  | _ => none

-- An integer in the form a letter asks for. As a measured quantity it has to lie within the range
-- of binary64.
def integer? (form : FieldForm) (letter : Char) (n : Int) : Option (List Char) :=
  match letter with
  | 'd' | 'i' | 'u' => some (form.inBase 10 ' ' n)
  | 'o' => some (form.inBase 8 'o' n)
  | 'x' => some (form.inBase 16 'x' n)
  | 'X' => some (upper (form.inBase 16 'x' n))
  | letter => (Text.Binary64.ofInt? n).bind (form.measured? letter)

-- A number in the form a letter asks for, which can be one for its integer part.
def real? (form : FieldForm) (letter : Char) (x : Text.Binary64) : Option (List Char) :=
  if ['d', 'i', 'u'].contains letter then x.integerPart?.bind fun (n, _) => form.integer? letter n
  else form.measured? letter x

def render? (form : FieldForm) (letter : Char) (v : FieldValue) : Option (List Char) :=
  match letter, v with
  | 'c', v => form.character? v
  | 's', v => some (form.text (v.shown id))
  | 'r', v => some (form.text (v.shown Text.quoted))
  | 'a', v => some (form.text (v.shown Text.quotedAscii))
  | letter, .integer n => form.integer? letter n
  | letter, .flag b => form.integer? letter (if b then 1 else 0)
  | letter, .real x => form.real? letter x
  | _, .text _ | _, .other _ _ => none

end FieldForm
end NonlinearProgram.Log
