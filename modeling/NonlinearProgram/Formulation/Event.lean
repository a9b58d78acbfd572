import NonlinearProgram.Formulation.Failure
import NonlinearProgram.Log.Registry

namespace NonlinearProgram

inductive Event (α : Type) where
  | rejected (m : Malformed α)
  | finalized (summary : String)
  | removalUnsupported (count : Int) (distributed : Bool)
  | removed (count remaining : Int)
  | relaxed (count : Int) (tolerance : α)
  | callbackRaised (operation : String) (fault : Fault)
  | callbackRefused (operation : String)
  | objectiveNotFinite (value : α)
  | startNotFinite
  | startFromBounds
  | wrongMatrix (op : Operation) (given : String)
  | wrongShape (op : Operation) (rows columns expectedRows : Nat) (expectedColumns : Int)

namespace Event

variable {α : Type} [Scalar α]

def level : Event α → Int
  | .finalized _ | .startFromBounds => Log.debug
  | .removed _ _ | .relaxed _ _ => Log.info
  | .removalUnsupported _ _ | .callbackRaised _ _ | .callbackRefused _
  | .objectiveNotFinite _ => Log.warning
  | .rejected _ | .startNotFinite | .wrongMatrix _ _ | .wrongShape _ _ _ _ _ => Log.error

def logger : Event α → String
  | .wrongMatrix _ _ | .wrongShape _ _ _ _ _ => Log.fullName "formulation.dense"
  | _ => Log.fullName "formulation.base"

def message : Event α → String
  | .rejected m => s!"finalize_initialization: {m.message}"
  | .finalized summary => s!"Finalized {summary}"
  | .removalUnsupported count distributed =>
    s!"Removal of {count} fixed variable(s) is not supported for " ++
      (if distributed then "distributed variables" else "this formulation") ++
      "; relaxing them instead"
  | .removed count remaining => s!"Removed {count} fixed variable(s); {remaining} remain"
  | .relaxed count tolerance =>
    s!"Relaxed the bounds of {count} fixed variable(s) to a gap of " ++
      s!"{Scalar.shortText tolerance} * max(1, |value|)"
  | .callbackRaised operation fault =>
    s!"{operation}: user callback raised {fault.name}: {fault.message}"
  | .callbackRefused operation => s!"{operation}: user callback reported failure"
  | .objectiveNotFinite f =>
    s!"{Operation.objective.text}: objective is not finite ({Scalar.text f})"
  | .startNotFinite => "get_starting_point: user initial point has non-finite entries"
  | .startFromBounds => "get_starting_point: using default point from bounds"
  | .wrongMatrix op given =>
    s!"[internal error] {op.text}: {FormulationKind.dense.text} works only with dense matrices, " ++
      s!"got {given}"
  | .wrongShape op rows columns expectedRows expectedColumns =>
    s!"[internal error] {op.text}: Jacobian has local shape ({rows}, {columns}), " ++
      s!"expected ({expectedRows}, {expectedColumns})"

def report (e : Event α) : Log.Registry.Action (List Log.Line) :=
  Log.Registry.log e.logger (.ok (.number e.level)) (.text e.message)

end Event
end NonlinearProgram
