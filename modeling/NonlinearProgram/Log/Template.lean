import NonlinearProgram.Log.Field
import NonlinearProgram.Log.Level
import NonlinearProgram.Text.Integer
import NonlinearProgram.Text.WordCharacter

-- Templates for log lines: text with fields `%(name)s`, where flags, a width and a precision may
-- stand between the name and the letter for the form of the value.
--
-- A template is valid if it holds a field anywhere, whether or not a message has a value for it; a
-- field without a value, or of a form that its value does not have, makes no line. A field without
-- a name stands for the record in full, and only the first field of a template can do so.

namespace NonlinearProgram.Log

structure Record where
  logger : String
  level : Level
  message : FieldValue
  rank : Option FieldValue := none

def Record.text (r : Record) : String := r.message.shown id

def Level.field : Level → FieldValue
  | .number n => .integer n
  | .flag b => .flag b

-- The value of a field. A record has no arguments and tells of no fault, its process has one
-- thread, and the time and the place it comes from are not known.
def Record.field? (r : Record) : String → Option FieldValue
  | "levelname" => some (.text r.level.text)
  | "levelno" => some r.level.field
  | "name" => some (.text r.logger)
  | "message" => some (.text r.text)
  | "msg" => some r.message
  | "rank" => r.rank
  | "args" => some (.other "()" "[]")
  | "exc_info" | "exc_text" | "stack_info" => some (.other "None" "null")
  | "processName" => some (.text "MainProcess")
  | "threadName" => some (.text "MainThread")
  | "asctime" | "pathname" | "filename" | "module" | "funcName" => some (.text "")
  | _ => none

def Record.inFull (r : Record) (quote : String → String) : String :=
  let fields := [("name", quote r.logger), ("msg", r.message.shown quote), ("args", "()"),
    ("levelname", quote r.level.text), ("levelno", r.level.field.shown quote),
    ("pathname", quote "")]
  "\x7b" ++ ", ".intercalate (fields.map fun (name, value) => quote name ++ ": " ++ value) ++ "\x7d"

def behindNumber : List Char → List Char
  | '*' :: rest => rest
  | cs => cs.dropWhile fun c => (Text.digitValue? c).isSome

def behindPrecision : List Char → List Char
  | '.' :: rest => if behindNumber rest = rest then '.' :: rest else behindNumber rest
  | cs => cs

def endsField (c : Char) : Bool :=
  "diouxefgcrsa%".toList.contains c.toLower || ['ſ', 'ı', 'İ'].contains c

def startsField (cs : List Char) : Bool :=
  match cs with
  | '(' :: rest =>
    match rest.takeWhile Text.isWordChar, rest.dropWhile Text.isWordChar with
    | _ :: _, ')' :: behind =>
      (behindPrecision (behindNumber (FieldForm.flags {} behind).2)).head?.any endsField
    | _, _ => false
  | _ => false

def isTemplate : List Char → Bool
  | [] => false
  | '%' :: rest => startsField rest || isTemplate rest
  | _ :: rest => isTemplate rest

-- The letter of a field, and what follows it; one letter for the size of a number may stand before
-- it.
def letterOf? : List Char → Option (Char × List Char)
  | 'h' :: c :: rest | 'l' :: c :: rest | 'L' :: c :: rest => some (c, rest)
  | c :: rest => some (c, rest)
  | [] => none

def expandRecord (r : Record) (cs : List Char) : Option (List Char × List Char) := do
  let (form, behind) := FieldForm.parse cs
  let (letter, behind) ← letterOf? behind
  match letter with
  | 's' | 'r' => return (form.text (r.inFull Text.quoted), behind)
  | 'a' => return (form.text (r.inFull Text.quotedAscii), behind)
  | _ => none

def expandField (r : Record) (first : Bool) : List Char → Option (List Char × List Char)
  | '(' :: rest => do
    let v ← r.field? (String.ofList (rest.takeWhile (· ≠ ')')))
    let (form, behind) := FieldForm.parse ((rest.dropWhile (· ≠ ')')).drop 1)
    let (letter, behind) ← letterOf? behind
    return (← form.render? letter v, behind)
  | cs => if first then expandRecord r cs else none

-- The line a template makes of a message; every step takes at least one character. A percent sign
-- behind another one stands for itself.
def expand (r : Record) : Nat → Bool → List Char → Option (List Char)
  | 0, _, _ => none
  | _, _, [] => some []
  | fuel + 1, first, '%' :: '%' :: rest => ('%' :: ·) <$> expand r fuel first rest
  | fuel + 1, first, '%' :: rest => do
    let (text, rest) ← expandField r first rest
    return text ++ (← expand r fuel false rest)
  | fuel + 1, first, c :: rest => (c :: ·) <$> expand r fuel first rest

def render? (template : String) (r : Record) : Option String :=
  (expand r (template.length + 1) true template.toList).map String.ofList

def messageTemplate : String := "%(message)s"

def plainTemplate : String := "[%(levelname)s] %(name)s: %(message)s"

def rankedTemplate : String := "[%(levelname)s] [rank %(rank)d] %(name)s: %(message)s"

end NonlinearProgram.Log
