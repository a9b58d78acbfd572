import NonlinearProgram.Bounds.Basic

namespace NonlinearProgram

inductive Nonlinearity where
  | linear
  | quadratic
  | convex
  | nonlinear
deriving DecidableEq, Repr

namespace Nonlinearity

def all : List Nonlinearity := [.linear, .quadratic, .convex, .nonlinear]

def text : Nonlinearity → String
  | .linear => "linear"
  | .quadratic => "quadratic"
  | .convex => "convex"
  | .nonlinear => "nonlinear"

def ofText? (s : String) : Option Nonlinearity := all.find? (·.text == s)

end Nonlinearity

-- `equalities[k]` is the user's index of the `k`-th equality, likewise for the inequalities.
structure ConstraintSplit (α : Type) where
  equalities : List Nat
  inequalities : List Nat
  rhs : List α
  lower : List α
  upper : List α
  equalityTypes : List Nonlinearity
  inequalityTypes : List Nonlinearity

namespace ConstraintSplit

variable {α : Type} [Scalar α]

def isEquality (infinity lower upper : α) : Bool :=
  lower == upper && hasLower infinity lower && hasUpper infinity upper

def ofBounds (infinity : α) (lower upper : List α) (types : List Nonlinearity) :
    ConstraintSplit α :=
  let mask := List.zipWith (isEquality infinity) lower upper
  let eq := setPositions mask
  let ineq := clearPositions mask
  { equalities := eq
    inequalities := ineq
    rhs := gather lower eq
    lower := gather lower ineq
    upper := gather upper ineq
    equalityTypes := gather types eq
    inequalityTypes := gather types ineq }

def ofBounds? (infinity : α) (lower upper : List α) (types : List Nonlinearity) :
    Option (ConstraintSplit α) :=
  if lower.length = upper.length ∧ types.length = lower.length then
    some (ofBounds infinity lower upper types)
  else none

def lengthMessage : String := "Constraint bounds and types must have the same length"

end ConstraintSplit
end NonlinearProgram
