import NonlinearProgram.Log.Template
import NonlinearProgram.ValueFault

-- Loggers of the package share one configuration: the level, the template, the stream and the
-- filter that decides which rank speaks. A logger keeps handlers that it had before the package
-- asked for it, until the next configuration replaces them. A logger that propagates also hands its
-- messages to the handlers of the loggers above it.

namespace NonlinearProgram.Log

-- Passes messages on the selected rank only, or on all. What stands for a rank or for their number
-- is kept as it is given, and need not be an integer.
structure RankFilter where
  ownRank : FieldValue := .integer 0
  groupSize : FieldValue := .integer 1
  selected : Option FieldValue := some (.integer 0)
deriving DecidableEq, Repr

namespace RankFilter

def passes (f : RankFilter) : Bool := f.selected.all f.ownRank.isSame

-- Do several ranks speak? Where one is selected, their number is not looked at.
def severalSpeak (f : RankFilter) : Except ValueFault Bool :=
  if f.selected.isNone then f.groupSize.exceedsOne else .ok false

end RankFilter

-- What every handler of the package is made from. Level and template are as they were given, even
-- if that is no level or no text; no stream stands for the error stream.
structure Config where
  level : Except ValueFault Level := .ok (.number warning)
  template : Except ValueFault String := .ok plainTemplate
  stream : Option String := none
  filter : RankFilter := {}

inductive Handler where
  | stream (level : Level) (template : String) (stream : String) (filter : RankFilter)
  | silent (level : Level)
deriving DecidableEq, Repr

def errorStream : String := "stderr"

structure Logger where
  name : String
  level : Level := .number 0
  propagates : Bool := true
  handlers : List Handler := []
deriving DecidableEq, Repr

structure Line where
  stream : String
  text : String
deriving DecidableEq, Repr

structure Registry where
  loggers : List Logger := [{ name := "root", level := .number warning }]
  cached : List String := []
  config : Config := {}

def packageName : String := "nlpform"

def fullName (name : String) : String :=
  if name == packageName || name.startsWith (packageName ++ ".") then name
  else packageName ++ "." ++ name

def root : Logger := { name := "root", level := .number warning }

-- Cuts a reversed name behind its dots, where of neighbouring dots only every other one counts.
def enclosingReversed : Nat → List Char → List (List Char)
  | 0, _ => []
  | fuel + 1, reversed =>
    match reversed.dropWhile (· ≠ '.') with
    | '.' :: c :: rest => (c :: rest) :: enclosingReversed fuel rest
    | _ => []

def enclosingNames (name : String) : List String :=
  (enclosingReversed name.length name.toList.reverse).map fun cs => String.ofList cs.reverse

def Handler.level : Handler → Level
  | .stream level _ _ _ => level
  | .silent level => level

def Handler.withLevel (level : Level) : Handler → Handler
  | .stream _ template target filter => .stream level template target filter
  | .silent _ => .silent level

def Handler.write (h : Handler) (r : Record) : List Line :=
  match h with
  | .silent _ => []
  | .stream level template target filter =>
    if level.value ≤ r.level.value && filter.passes then
      match render? template { r with rank := some filter.ownRank } with
      | some text => [⟨target, text⟩]
      | none => []
    else []

-- A new handler, where an empty template stands for the bare message. A template that holds no
-- field makes none.
def Config.handler (c : Config) : Except ValueFault Handler := do
  let level ← c.level
  let given ← c.template
  let template := if given.isEmpty then messageTemplate else given
  if isTemplate template.toList then
    return .stream level template (c.stream.getD errorStream) c.filter
  else throw .malformed

namespace Registry

def find? (g : Registry) (name : String) : Option Logger := g.loggers.find? (·.name == name)

def update (g : Registry) (name : String) (change : Logger → Logger) : Registry :=
  match g.find? name with
  | some _ => { g with
      loggers := g.loggers.map fun l => if l.name == name then change l else l }
  | none => { g with loggers := g.loggers ++ [change { name := name }] }

abbrev Action := ExceptT ValueFault (StateM Registry)

def request (name : String) : Action Logger := do
  let full := fullName name
  let g ← get
  if g.cached.contains full then return (g.find? full).getD { name := full }
  modify (·.update full id)
  if ((← get).find? full).all (·.handlers.isEmpty) then
    let level ← g.config.level
    modify (·.update full fun l => { l with level := level })
    let handler ← g.config.handler
    modify (·.update full fun l => { l with handlers := [handler], propagates := false })
  modify fun g => { g with cached := g.cached ++ [full] }
  return ((← get).find? full).getD { name := full }

def setLevel (level : Level) (g : Registry) : Registry :=
  let g := g.cached.foldl (fun g name => g.update name fun l =>
    { l with level := level, handlers := l.handlers.map (Handler.withLevel level) }) g
  { g with config := { g.config with level := .ok level } }

-- A new configuration: every logger handed out gets its level and, in place of all handlers, one
-- made from it. Without a template the rank is shown where several ranks speak.
def configure (level : Except ValueFault Level) (template : Option (Except ValueFault String))
    (stream : Option String) (filter : RankFilter) : Action Unit := do
  let template ← match template with
    | some template => pure template
    | none => pure (.ok (if ← filter.severalSpeak then rankedTemplate else plainTemplate))
  let config : Config := ⟨level, template, stream, filter⟩
  modify fun g => { g with config := config }
  for name in (← get).cached do
    let level ← level
    modify (·.update name fun l => { l with level := level, handlers := [] })
    let handler ← config.handler
    modify (·.update name fun l => { l with handlers := [handler] })

def addSilent (name : String) (g : Registry) : Registry :=
  g.update (if name.isEmpty then root.name else name) fun l =>
    { l with handlers := l.handlers ++ [.silent (.number 0)] }

-- The loggers above a name, nearest first; each is the nearest existing one above the one before.
def above (g : Registry) : Nat → String → List Logger
  | 0, _ => []
  | fuel + 1, name =>
    match (enclosingNames name).findSome? g.find? with
    | some l => l :: g.above fuel l.name
    | none => (g.find? root.name).toList

def lineage (g : Registry) (l : Logger) : List Logger := l :: g.above (l.name.length + 1) l.name

def effectiveLevel (g : Registry) (l : Logger) : Int :=
  (((g.lineage l).map (·.level.value)).find? (· ≠ 0)).getD 0

def handlersFrom : List Logger → List Handler
  | [] => []
  | l :: rest => l.handlers ++ (if l.propagates then handlersFrom rest else [])

def handlersOf (g : Registry) (l : Logger) : List Handler :=
  handlersFrom (g.lineage l)

-- The lines that a message of a logger makes. Where no handler sees it, a warning goes bare to the
-- error stream.
def emit (g : Registry) (l : Logger) (level : Level) (message : FieldValue) : List Line :=
  if 0 < level.value && g.effectiveLevel l ≤ level.value then
    let record : Record := { logger := l.name, level := level, message := message }
    match g.handlersOf l with
    | [] => if warning ≤ level.value then [⟨errorStream, record.text⟩] else []
    | handlers => handlers.flatMap (·.write record)
  else []

-- A message through the package's logger of a name, which is there even if there is no level to the
-- message.
def log (name : String) (level : Except ValueFault Level) (message : FieldValue) :
    Action (List Line) := do
  let l ← request name
  let level ← level
  return (← get).emit l level message

def startingNames : List String :=
  ["formulation.base", "formulation.dense", "formulation.mds"].map fullName

def initial : Registry :=
  (startingNames.foldl (fun g name => ((request name).run g).2) {})

def levels (g : Registry) : List (String × Level) :=
  (g.cached.filterMap fun name => (g.find? name).map fun l => (name, l.level)).mergeSort
    fun a b => !decide (b.1 < a.1)

end Registry
end NonlinearProgram.Log
