import NonlinearProgram.ValueFault

-- Counts and times stand in a table each, in the order in which the first block of every name
-- ended; sums over all of them follow it. Names are told apart by `==`. Only a listing of all names
-- needs more of them, an order and a text, which not all names have.

namespace NonlinearProgram

abbrev StatsTable (ν β : Type) := List (ν × β)

namespace StatsTable

variable {ν β : Type}

def names (table : StatsTable ν β) : List ν := table.map Prod.fst

variable [BEq ν]

def value (zero : β) (table : StatsTable ν β) (name : ν) : β := (table.lookup name).getD zero

-- A name that was missing stands in the table with zero from then on.
def touch (zero : β) (table : StatsTable ν β) (name : ν) : StatsTable ν β :=
  if (table.lookup name).isSome then table else table ++ [(name, zero)]

def add [Add β] (zero : β) (table : StatsTable ν β) (name : ν) (x : β) : StatsTable ν β :=
  (table.touch zero name).map fun (key, y) => (key, if name == key then y + x else y)

end StatsTable

structure StatsEntry (ν τ : Type) where
  name : ν
  count : Nat
  time : τ

structure Stats (ν τ : Type) where
  counts : StatsTable ν Nat := []
  times : StatsTable ν τ := []

structure StatsStyle (ν τ : Type) where
  precedes : ν → ν → Except ValueFault Bool
  nameText : ν → Except ValueFault String
  timeText : τ → String

def StatsStyle.ofTexts {τ : Type} (timeText : τ → String) : StatsStyle String τ where
  precedes := fun s t => .ok (s < t)
  nameText := .ok
  timeText := timeText

namespace Stats

variable {ν τ : Type}

def record [BEq ν] [Zero τ] [Add τ] (s : Stats ν τ) (name : ν) (duration : τ) : Stats ν τ where
  counts := s.counts.add 0 name 1
  times := s.times.add 0 name duration

def count [BEq ν] (s : Stats ν τ) (name : ν) : Nat := s.counts.value 0 name

def time [BEq ν] [Zero τ] (s : Stats ν τ) (name : ν) : τ := s.times.value 0 name

def totalTime [Zero τ] [Add τ] (s : Stats ν τ) : τ := (s.times.map Prod.snd).foldl (· + ·) 0

def placed (style : StatsStyle ν τ) (name : ν) : List ν → Except ValueFault (List ν)
  | [] => .ok [name]
  | other :: rest => do
    if ← style.precedes other name then return other :: (← placed style name rest)
    else return name :: other :: rest

def sortedNames (style : StatsStyle ν τ) (s : Stats ν τ) : Except ValueFault (List ν) :=
  s.counts.names.foldrM (placed style) []

def sorted [BEq ν] [Zero τ] (style : StatsStyle ν τ) (s : Stats ν τ) :
    Except ValueFault (List (StatsEntry ν τ)) := do
  return (← s.sortedNames style).map fun name => ⟨name, s.count name, s.time name⟩

-- What is listed is looked up in both tables, name by name.
def afterListing [BEq ν] [Zero τ] (style : StatsStyle ν τ) (s : Stats ν τ) : Stats ν τ :=
  match s.sortedNames style with
  | .ok names =>
    ⟨names.foldl (StatsTable.touch 0) s.counts, names.foldl (StatsTable.touch 0) s.times⟩
  | .error _ => s

def padRight (width : Nat) (s : String) : String :=
  s ++ String.ofList (List.replicate (width - s.length) ' ')

def padLeft (width : Nat) (s : String) : String :=
  String.ofList (List.replicate (width - s.length) ' ') ++ s

def line (style : StatsStyle ν τ) (e : StatsEntry ν τ) : Except ValueFault String := do
  let name := padRight 16 (← style.nameText e.name)
  return s!"  {name} {padLeft 8 (toString e.count)} calls  {style.timeText e.time} s"

def listing (style : StatsStyle ν τ) (entries : List (StatsEntry ν τ)) :
    Except ValueFault String := do
  return "\n".intercalate ("Evaluation statistics" :: (← entries.mapM (line style)))

def text [BEq ν] [Zero τ] (style : StatsStyle ν τ) (s : Stats ν τ) : Except ValueFault String := do
  listing style (← s.sorted style)

end Stats
end NonlinearProgram
