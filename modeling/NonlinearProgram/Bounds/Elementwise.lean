import NonlinearProgram.Bounds.Basic
import NonlinearProgram.Store

namespace NonlinearProgram.Bounds

variable {α : Type} [Scalar α]

structure Classes (α : Type) where
  lower : Tensor α
  upper : Tensor α
  lowerCount : Nat
  upperCount : Nat
  bothCount : Nat

def countSet (mask : Tensor Bool) : Nat := mask.entries.count true

def classify (infinity : α) (lower upper : Tensor α) : Except ValueFault (Classes α) :=
  let low := lower.map (hasLower infinity)
  let upp := upper.map (hasUpper infinity)
  match Tensor.zipWith? (· && ·) low upp with
  | none => .error .shapeMismatch
  | some both => .ok {
      lower := low.map indicator
      upper := upp.map indicator
      lowerCount := countSet low
      upperCount := countSet upp
      bothCount := countSet both }

-- Can a mask pick from a tensor of this shape? An axis without entries fits every length.
def masks (mask : Tensor Bool) (shape : List Nat) : Bool :=
  mask.shape.length = shape.length && (mask.shape.zip shape).all fun (m, n) => m = 0 || m = n

def fixed (tol infinity : α) (lower upper : Tensor α) : Except ValueFault (Tensor Bool) :=
  let low := lower.map (hasLower infinity)
  let upp := upper.map (hasUpper infinity)
  match Tensor.zipWith? (· && ·) low upp with
  | none => .error .shapeMismatch
  | some both =>
    if masks both upper.shape && masks both lower.shape then
      if upper.shape = lower.shape then
        .ok ⟨lower.shape, fixedMask tol infinity lower.entries upper.entries⟩
      else .ok ⟨lower.shape, lower.entries.map fun _ => false⟩
    else .error .indexOutside

def inconsistent (tol : α) (allowFixed : Bool) (lower upper : Tensor α) :
    Except ValueFault (List Nat) :=
  match Tensor.zipWith? (isInconsistent tol allowFixed) lower upper with
  | none => .error .shapeMismatch
  | some bad => .ok (bad.positions id)

def project (x : Tensor α) (lower upper : Option (Tensor α)) : Except ValueFault (Tensor α) := do
  let raised ← match lower with
    | none => pure x
    | some l => (Tensor.zipWith? Scalar.larger x l).elim (.error .shapeMismatch) .ok
  match upper with
  | none => pure raised
  | some u => (Tensor.zipWith? Scalar.smaller raised u).elim (.error .shapeMismatch) .ok

def symmetricPart (t : Tensor α) : Except ValueFault (Tensor α) :=
  match Tensor.zipWith? (· + ·) t t.transpose with
  | none => .error .shapeMismatch
  | some sum => .ok (sum.map (Scalar.half * ·))

end NonlinearProgram.Bounds
