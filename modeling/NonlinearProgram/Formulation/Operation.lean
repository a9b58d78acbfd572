
namespace NonlinearProgram

inductive FormulationKind where
  | dense
  | mixed
deriving DecidableEq, Repr

def FormulationKind.text : FormulationKind → String
  | .dense => "DenseFormulation"
  | .mixed => "MixedSparseDenseFormulation"

inductive ConstraintGroup where
  | equalities
  | inequalities
deriving DecidableEq, Repr

inductive Operation where
  | objective
  | gradient
  | values (group : ConstraintGroup)
  | jacobian (group : ConstraintGroup)
  | hessian
deriving DecidableEq, Repr

def Operation.text : Operation → String
  | .objective => "eval_f"
  | .gradient => "eval_grad_f"
  | .values .equalities => "eval_c"
  | .values .inequalities => "eval_d"
  | .jacobian .equalities => "eval_Jac_c"
  | .jacobian .inequalities => "eval_Jac_d"
  | .hessian => "eval_Hess_Lagr"

end NonlinearProgram
