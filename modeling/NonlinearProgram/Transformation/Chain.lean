import NonlinearProgram.RawValue.Comparison
import NonlinearProgram.Transformation.Relaxer
import NonlinearProgram.Transformation.Remover

-- A chain applies the maps to the internal problem in the order in which its items were appended,
-- and the maps to the user's problem in the opposite order. The empty chain is the identity.

namespace NonlinearProgram

-- A user-written transformation that changes the objective only. Its size may be given as a value
-- of any kind, and what else it shows under names is its own matter.
structure ObjectiveMap (α : Type) where
  name : String
  size : RawValue α
  attributes : List (String × RawValue α) := []
  toInternal : α → α
  toUser : α → Except ValueFault α

def ObjectiveMap.affine {α : Type} [Scalar α] (size : RawValue α) (a b : α) : ObjectiveMap α where
  name := "AffineObj"
  size := size
  attributes := [("n", size), ("a", .real a), ("b", .real b)]
  toInternal := fun f => a * f + b
  toUser := fun f => if a == 0 then .error .divisionByZero else .ok ((f - b) / a)

inductive Transformation (α : Type) where
  | remover (r : Remover α)
  | relaxer (r : Relaxer α)
  | objective (m : ObjectiveMap α)

inductive TransformationError (α : Type) where
  | valuesLength
  | toleranceNotPositive (given : α)
  | sizesDiffer (expected provided : RawValue α)

def TransformationError.message {α : Type} [Scalar α] : TransformationError α → String
  | .valuesLength => "fixed_values must have the same length as fixed_mask"
  | .toleranceNotPositive x => s!"Relaxation tolerance must be positive, got {Scalar.text x}"
  | .sizesDiffer k n =>
    s!"Transformation expects {k.plain} variables, chain provides {n.plain}"

namespace Transformation

variable {α : Type}

def userSize : Transformation α → RawValue α
  | .remover r => .integer r.userSize
  | .relaxer r => .integer r.mask.length
  | .objective m => m.size

def internalSize : Transformation α → RawValue α
  | .remover r => .integer r.internalSize
  | .relaxer r => .integer r.mask.length
  | .objective m => m.size

def name : Transformation α → String
  | .remover _ => "FixedVarsRemover"
  | .relaxer _ => "FixedVarsRelaxer"
  | .objective m => m.name

variable [Scalar α]

def createRemover (mask : List Bool) (values : List α) (s : Store α) :
    Except (TransformationError α) (Transformation α × Store α) :=
  if values.length = mask.length then
    let (r, s) := Remover.create mask values s
    .ok (.remover r, s)
  else .error .valuesLength

def createRelaxer (mask : List Bool) (tolerance : α) (s : Store α) :
    Except (TransformationError α) (Transformation α × Store α) :=
  match Relaxer.create? mask tolerance s with
  | some (r, s) => .ok (.relaxer r, s)
  | none => .error (.toleranceNotPositive tolerance)

def pointToInternal : Transformation α → View → StoreM α View
  | .remover r, x => r.toInternal x
  | _, x => return x

def pointToUser : Transformation α → View → StoreM α View
  | .remover r, x => r.toUser x
  | _, x => return x

def gradientToInternal : Transformation α → View → StoreM α View
  | .remover r, g => r.gatherNew g
  | _, g => return g

def jacobianToInternal : Transformation α → View → StoreM α View
  | .remover r, jac => r.jacobianToInternal jac
  | _, jac => return jac

def boundsToInternal : Transformation α → View × View → StoreM α (View × View)
  | .remover r, (l, u) => return (← r.gatherNew l, ← r.gatherNew u)
  | .relaxer r, (l, u) => r.relax l u
  | .objective _, bounds => return bounds

def multipliersToUser : Transformation α → View → StoreM α View
  | .remover r, z => r.multipliersToUser z
  | _, z => return z

def objectiveToInternal : Transformation α → α → α
  | .objective m, f => m.toInternal f
  | _, f => f

def objectiveToUser : Transformation α → α → Except ValueFault α
  | .objective m, f => m.toUser f
  | _, f => .ok f

end Transformation

structure Chain (α : Type) where
  userSize : RawValue α
  items : List (Transformation α) := []

namespace Chain

variable {α : Type}

def single (t : Transformation α) : Chain α := ⟨t.userSize, [t]⟩

def internalSize (c : Chain α) : RawValue α :=
  c.items.getLast?.elim c.userSize Transformation.internalSize

def append [Scalar α] (c : Chain α) (t : Transformation α) :
    Except (TransformationError α) (Chain α) :=
  if t.userSize.isSame c.internalSize then .ok { c with items := c.items ++ [t] }
  else .error (.sizesDiffer t.userSize c.internalSize)

def clear (c : Chain α) : Chain α := { c with items := [] }

def text [Scalar α] (c : Chain α) : String :=
  s!"TransformationChain(n_pre={c.userSize.plain}, n_post={c.internalSize.plain}, " ++
    "[" ++ ", ".intercalate (c.items.map Transformation.name) ++ "])"

variable [Scalar α]

def pointToInternal (c : Chain α) (x : View) : StoreM α View :=
  c.items.foldlM (fun v t => t.pointToInternal v) x

def pointToUser (c : Chain α) (x : View) : StoreM α View :=
  c.items.reverse.foldlM (fun v t => t.pointToUser v) x

def gradientToInternal (c : Chain α) (g : View) : StoreM α View :=
  c.items.foldlM (fun v t => t.gradientToInternal v) g

def jacobianToInternal (c : Chain α) (jac : View) : StoreM α View :=
  c.items.foldlM (fun v t => t.jacobianToInternal v) jac

def boundsToInternal (c : Chain α) (bounds : View × View) : StoreM α (View × View) :=
  c.items.foldlM (fun v t => t.boundsToInternal v) bounds

def multipliersToUser (c : Chain α) (z : View) : StoreM α View :=
  c.items.reverse.foldlM (fun v t => t.multipliersToUser v) z

def objectiveToInternal (c : Chain α) (f : α) : α :=
  c.items.foldl (fun f t => t.objectiveToInternal f) f

def objectiveToUser (c : Chain α) (f : α) : Except ValueFault α :=
  c.items.reverse.foldlM (fun f t => t.objectiveToUser f) f

end Chain
end NonlinearProgram
