import NonlinearProgram.RawValue

namespace NonlinearProgram

inductive FixedPolicy where
  | keep
  | remove
  | relax
deriving DecidableEq, Repr

def FixedPolicy.text : FixedPolicy → String
  | .keep => "none"
  | .remove => "fixed"
  | .relax => "relax"

def FixedPolicy.ofText? : String → Option FixedPolicy
  | "none" => some .keep
  | "fixed" => some .remove
  | "relax" => some .relax
  | _ => none

structure Options (α : Type) where
  policy : FixedPolicy
  -- Two present bounds closer than this mark a fixed variable.
  tolerance : α
  -- Bounds of this magnitude or more are absent.
  infinity : α

structure OptionFields (α : Type) where
  policy : Option (RawValue α) := none
  tolerance : Option α := none
  infinity : Option α := none

inductive OptionsError (α : Type) where
  | unknownPolicy (given : RawValue α)
  | toleranceNotPositive (given : α)
  | infinityNotPositive (given : α)

namespace OptionsError

variable {α : Type} [Scalar α]

def message : OptionsError α → String
  | .unknownPolicy v => s!"fixed_var must be one of ('none', 'fixed', 'relax'), got {v.shown}."
  | .toleranceNotPositive x => s!"fixed_var_tol must be positive, got {Scalar.text x}."
  | .infinityNotPositive x => s!"infinity must be positive, got {Scalar.text x}."

end OptionsError

namespace Options

variable {α : Type} [Scalar α]

class Defaults (α : Type) where
  tolerance : α
  infinity : α

instance : Defaults Float := ⟨1e-8, 1e20⟩

def standard [Defaults α] : Options α := ⟨.keep, Defaults.tolerance, Defaults.infinity⟩

-- The policy is checked first, then the tolerance, then the threshold.
def ofFields [Defaults α] (fields : OptionFields α) : Except (OptionsError α) (Options α) := do
  let given := fields.policy.getD (.text FixedPolicy.keep.text)
  let policy ← match given with
    | .text s => (FixedPolicy.ofText? s).elim (.error (.unknownPolicy given)) .ok
    | _ => .error (.unknownPolicy given)
  let tolerance := fields.tolerance.getD Defaults.tolerance
  unless 0 < tolerance do .error (.toleranceNotPositive tolerance)
  let infinity := fields.infinity.getD Defaults.infinity
  unless 0 < infinity do .error (.infinityNotPositive infinity)
  return ⟨policy, tolerance, infinity⟩

def toFields (o : Options α) : OptionFields α where
  policy := some (.text o.policy.text)
  tolerance := some o.tolerance
  infinity := some o.infinity

instance : BEq (Options α) where
  beq a b := a.policy == b.policy && a.tolerance == b.tolerance && a.infinity == b.infinity

def roundTrips [Defaults α] (o : Options α) : Bool :=
  match ofFields o.toFields with
  | .ok o' => o' == o
  | .error _ => false

end Options
end NonlinearProgram
