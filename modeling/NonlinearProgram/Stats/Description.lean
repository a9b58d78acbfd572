import NonlinearProgram.RawValue.Comparison
import NonlinearProgram.Stats.Basic

-- Texts have an order, and so have numbers, but not among each other, and only texts can stand in a
-- written table.

namespace NonlinearProgram.StatsStyle

variable {α τ : Type} [Scalar α]

def ofValues (timeText : τ → String) : StatsStyle (RawValue α) τ where
  precedes
    | .text s, .text t => .ok (s < t)
    | v, w => v.isLess w
  nameText
    | .text s => .ok s
    | .null => .error .wrongKind
    | _ => .error .malformed
  timeText := timeText

end NonlinearProgram.StatsStyle
