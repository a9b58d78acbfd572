import NonlinearProgram.Formulation.Event
import NonlinearProgram.Matrix.Dense
import NonlinearProgram.Matrix.MixedSparseDense
import NonlinearProgram.Matrix.SymBlockDiagonal
import NonlinearProgram.Options
import NonlinearProgram.Stats.Basic

-- What a finalization sets is spread over the formulation: the core, the declared blocks, and
-- scratch arrays that are replaced one by one. A session holds, beside the formulation, everything
-- that an operation can change: the arrays, the matrices, the history of calls into the problem and
-- into the communicator, and the events for the log.

namespace NonlinearProgram

-- The structure derived from a problem. Bounds are those of the internal problem; its vectors
-- cannot be changed.
structure Core (α : Type) where
  userSize : Int
  size : Int
  constraintCount : Nat
  userLayout : Layout
  layout : Layout
  lower : DistributedVector α
  upper : DistributedVector α
  lowerIndicator : DistributedVector α
  upperIndicator : DistributedVector α
  types : List Nonlinearity
  split : ConstraintSplit α
  rhs : DistributedVector α
  inequalityLower : DistributedVector α
  inequalityUpper : DistributedVector α
  inequalityLowerIndicator : DistributedVector α
  inequalityUpperIndicator : DistributedVector α
  lowerCountLocal : Nat
  lowerCount : Int
  upperCountLocal : Nat
  upperCount : Int
  bothCount : Int
  inequalityLowerCount : Nat
  inequalityUpperCount : Nat
  inequalityBothCount : Nat
  policy : FixedPolicy
  fixedCount : Int
  chain : Chain α

namespace Core

variable {α : Type}

def indices (c : Core α) : ConstraintGroup → List Nat
  | .equalities => c.split.equalities
  | .inequalities => c.split.inequalities

def equalityCount (c : Core α) : Nat := c.split.equalities.length

def inequalityCount (c : Core α) : Nat := c.split.inequalities.length

def localSize (c : Core α) : Int := c.layout.localSize

def complementarityCount (c : Core α) : Int :=
  c.inequalityLowerCount + c.inequalityUpperCount + c.lowerCount + c.upperCount

end Core

structure Formulation (α : Type) where
  kind : FormulationKind
  options : Options α
  communicator : Communicator α
  stats : Stats String α := {}
  -- A formulation is finalized as long as it has a core.
  core : Option (Core α) := none
  -- The declared blocks of a mixed formulation.
  blocks : Option (BlockSizes α) := none
  pointScratch : Option View := none
  gradientScratch : Option View := none
  -- Rows over the user's variables, of a dense formulation.
  equalityScratch : Option View := none
  inequalityScratch : Option View := none
  -- Multipliers in the user's order, of a mixed formulation.
  multiplierScratch : Option View := none

def Formulation.rowScratch {α : Type} (f : Formulation α) : ConstraintGroup → Option View
  | .equalities => f.equalityScratch
  | .inequalities => f.inequalityScratch

inductive AnyMatrix (α : Type) where
  | dense (a : DenseMatrix α)
  | mixed (a : MixedMatrix α)
  | sym (a : SymBlockMatrix α)

namespace AnyMatrix

variable {α : Type}

def kind : AnyMatrix α → MatrixKind
  | .dense _ => .dense
  | .mixed _ => .mixedSparseDense
  | .sym _ => .symBlockDiagonal

def typeName : AnyMatrix α → String
  | .dense _ => "DenseMatrix"
  | .mixed _ => "MixedSparseDenseMatrix"
  | .sym _ => "SymBlockDiagMDSMatrix"

def text [Scalar α] : AnyMatrix α → String
  | .dense a => a.text
  | .mixed a => a.text
  | .sym a => a.text

end AnyMatrix

-- What a solver can hand to a formulation; a matrix is named by its number in the session.
inductive Argument (α : Type) where
  | absent
  | array (v : View)
  | vector (v : DistributedVector α)
  | matrix (k : Nat)

structure Session (α : Type) where
  formulation : Formulation α
  store : Store α := {}
  matrices : List (AnyMatrix α) := []
  trace : List (Call α) := []
  events : List (Event α) := []
  clock : α

namespace Session

variable {α : Type}

def reductions (s : Session α) : List (Reduction α) := s.trace.filterMap Call.reduction?

def matrix? (s : Session α) : Argument α → Option (AnyMatrix α)
  | .matrix k => s.matrices[k]?
  | _ => none

def typeName (s : Session α) : Argument α → String
  | .absent => "NoneType"
  | .array _ => "ndarray"
  | .vector _ => "DistributedVector"
  | .matrix k => (s.matrices[k]?).elim "NoneType" AnyMatrix.typeName

def setMatrix (s : Session α) (k : Nat) (a : AnyMatrix α) : Session α :=
  { s with matrices := s.matrices.set k a }

end Session

-- Work in a session; what was done before a failure stays done.
abbrev FormulationM (α : Type) := ExceptT (Failure α) (StateM (Session α))

namespace FormulationM

variable {α β : Type}

def getFormulation : FormulationM α (Formulation α) := do return (← get).formulation

def record (c : Call α) : FormulationM α Unit :=
  modify fun s => { s with trace := s.trace ++ [c] }

def emit (e : Event α) : FormulationM α Unit :=
  modify fun s => { s with events := s.events ++ [e] }

def onStore (act : StoreM α β) : FormulationM α β := fun s =>
  let (r, store) := act s.store
  (r.mapError .numeric, { s with store })

def ofExcept {ε : Type} (reason : ε → Failure α) (r : Except ε β) : FormulationM α β :=
  match r with
  | .ok x => return x
  | .error e => throw (reason e)

def attempt (act : FormulationM α β) : FormulationM α (Except (Failure α) β) := fun s =>
  let (r, s) := act s
  (.ok r, s)

-- The sum of an integer over all ranks, of which the integer part counts.
def sumOverRanks [Scalar α] (c : Communicator α) (n : Int) : FormulationM α Int := do
  let (sum, _) := c.reduce (← get).reductions (.whole n)
  record (.reduction ⟨c.name, .whole n⟩)
  ofExcept .numeric (sum.bind Quantity.toInteger)

def getCore : FormulationM α (Core α) := do
  let f ← getFormulation
  match f.core with
  | some c => return c
  | none => throw (.unfinalized f.kind)

-- A part that no finalization may have set yet.
def getPart (part : Formulation α → Option β) : FormulationM α β := do
  match part (← getFormulation) with
  | some b => return b
  | none => throw .otherKind

def setFormulation (change : Formulation α → Formulation α) : FormulationM α Unit :=
  modify fun s => { s with formulation := change s.formulation }

def timed [Zero α] [Add α] [Sub α] (op : Operation) (act : FormulationM α β) : FormulationM α β :=
  fun s =>
    let (r, t) := act s
    let f := t.formulation
    (r, { t with formulation := { f with stats := f.stats.record op.text (t.clock - s.clock) } })

-- The array behind an argument. An absent one counts as a single undefined entry, and a matrix is
-- no vector.
def localPart [Scalar α] : Argument α → FormulationM α View
  | .absent => onStore (StoreM.alloc ⟨[], [Scalar.undefined]⟩)
  | .array v => return v
  | .vector v => return v.view
  | .matrix _ => throw (.numeric .wrongKind)

end FormulationM
end NonlinearProgram
