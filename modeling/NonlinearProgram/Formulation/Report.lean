import NonlinearProgram.Formulation.Evaluation
import NonlinearProgram.Selection

namespace NonlinearProgram

open FormulationM

structure InternalIterate (α : Type) where
  point : Argument α
  lowerMultipliers : Argument α
  upperMultipliers : Argument α
  equalities : Argument α
  inequalities : Argument α
  equalityMultipliers : Argument α
  inequalityMultipliers : Argument α
  objective : α

def ConstraintSplit.merge {α : Type} [Zero α] (s : ConstraintSplit α)
    (equalities inequalities : List α) : List α :=
  scatter s.inequalities inequalities (scatter s.equalities equalities
    (List.replicate (s.equalities.length + s.inequalities.length) 0))

def ConstraintSplit.merge? {α : Type} [Zero α] (s : ConstraintSplit α)
    (equalities inequalities : Tensor α) : Except ValueFault (List α) :=
  match equalities.stretchedToSelection? [s.equalities.length],
      inequalities.stretchedToSelection? [s.inequalities.length] with
  | some eq, some ineq => .ok (s.merge eq.entries ineq.entries)
  | _, _ => .error .shapeMismatch

namespace Formulation

variable {α : Type} [Scalar α]

def userObjective (f : α) : FormulationM α α := do
  ofExcept .numeric ((← getCore).chain.objectiveToUser f)

def userPoint (x : Argument α) : FormulationM α (Tensor α) := do
  let v ← pointToUser x
  onStore (StoreM.read v)

def userMultipliers (c : Core α) (z : Argument α) : FormulationM α (Tensor α) := do
  let v ← localPart z
  onStore do StoreM.read (← c.chain.multipliersToUser v)

def toUser (i : InternalIterate α) : FormulationM α (Iterate α) := do
  let c ← getCore
  let point ← userPoint i.point
  let lower ← userMultipliers c i.lowerMultipliers
  let upper ← userMultipliers c i.upperMultipliers
  let eq ← localPart i.equalities
  let ineq ← localPart i.inequalities
  let yEq ← localPart i.equalityMultipliers
  let yIneq ← localPart i.inequalityMultipliers
  if eq.size + ineq.size ≠ c.constraintCount ∨ eq.size ≠ c.equalityCount ∨
      yEq.size ≠ c.equalityCount ∨ yIneq.size ≠ c.inequalityCount then
    throw (.breach (.constraintSizes eq.size ineq.size yEq.size yIneq.size c.equalityCount
      c.inequalityCount))
  let constraints ← onStore do c.split.merge? (← StoreM.read eq) (← StoreM.read ineq)
  let multipliers ← onStore do c.split.merge? (← StoreM.read yEq) (← StoreM.read yIneq)
  return {
    n := c.userSize
    point := point
    lowerMultipliers := lower
    upperMultipliers := upper
    m := c.constraintCount
    constraints := constraints
    multipliers := multipliers
    objective := ← userObjective i.objective }

def reportSolution (p : Problem α) (status : SolveStatus) (i : InternalIterate α) :
    FormulationM α Unit := do
  let i ← toUser i
  record (.solution status i)
  ofExcept .raised (p.solution status i)

def reportIterate (p : Problem α) (progress : Progress α) (i : InternalIterate α) :
    FormulationM α Bool := do
  let i ← toUser i
  record (.iterate progress i)
  return (← ofExcept .raised (p.iterate progress i)).isTrue

def summary : FormulationM α String := do
  let f ← getFormulation
  let c ← getCore
  return "\n".intercalate [
    s!"{f.kind.text} summary",
    String.ofList (List.replicate 50 '='),
    s!"Variables:       {c.size} (user: {c.userSize}, local: {c.localSize}, " ++
      s!"ranks: {c.layout.rankCount})",
    s!"  lower bounds:  {c.lowerCount}",
    s!"  upper bounds:  {c.upperCount}",
    s!"  lower+upper:   {c.bothCount}",
    s!"  fixed:         {c.fixedCount} ({c.policy.text})",
    s!"Constraints:     {c.constraintCount}",
    s!"  equalities:    {c.equalityCount}",
    s!"  inequalities:  {c.inequalityCount}",
    s!"    lower:       {c.inequalityLowerCount}",
    s!"    upper:       {c.inequalityUpperCount}",
    s!"    lower+upper: {c.inequalityBothCount}"]

-- What rank `rank` prints: a heading, if there is one, and the summary. Other ranks print nothing.
-- Only a text can be a heading, and everything that counts as false is none.
def printedSummary (heading rank : RawValue α) : FormulationM α String := do
  unless rank.isSame (← getFormulation).communicator.rank do return ""
  let heading ← match heading with
    | .text s => pure s
    | v => if v.isTrue then throw (.numeric .wrongKind) else pure ""
  let text ← summary
  return (if heading.isEmpty then "" else heading ++ "\n") ++ text ++ "\n"

end Formulation
end NonlinearProgram
