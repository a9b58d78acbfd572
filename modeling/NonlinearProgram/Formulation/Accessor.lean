import NonlinearProgram.Formulation.Derivative
import NonlinearProgram.Problem.Transcript

namespace NonlinearProgram

open RawValue FormulationM

variable {α : Type} [Scalar α]

namespace Core

def attributes : List (String × (Core α → RawValue α)) := [
  ("n", (.integer ·.size)), ("m", (.integer ·.constraintCount)),
  ("m_eq", (.integer ·.equalityCount)), ("m_ineq", (.integer ·.inequalityCount)),
  ("n_low", (.integer ·.lowerCount)), ("n_upp", (.integer ·.upperCount)),
  ("m_ineq_low", (.integer ·.inequalityLowerCount)),
  ("m_ineq_upp", (.integer ·.inequalityUpperCount)),
  ("n_complem", (.integer ·.complementarityCount)), ("n_local", (.integer ·.localSize)),
  ("n_low_local", (.integer ·.lowerCountLocal)), ("n_upp_local", (.integer ·.upperCountLocal)),
  ("n_bnds_lu", (.integer ·.bothCount)), ("n_ineq_lu", (.integer ·.inequalityBothCount)),
  ("n_user", (.integer ·.userSize)), ("n_fixed", (.integer ·.fixedCount)),
  ("fixed_var_policy", (.text ·.policy.text)),
  ("cons_eq_mapping", (ofNats ·.split.equalities)),
  ("cons_ineq_mapping", (ofNats ·.split.inequalities)), ("vars_type", (ofTypes ·.types)),
  ("cons_eq_type", (ofTypes ·.split.equalityTypes)),
  ("cons_ineq_type", (ofTypes ·.split.inequalityTypes)),
  ("layout", (.text ·.layout.text)), ("chain", (.text ·.chain.text))]

def vectors : List (String × (Core α → DistributedVector α)) := [
  ("xl", lower), ("xu", upper), ("ixl", lowerIndicator), ("ixu", upperIndicator),
  ("dl", inequalityLower), ("du", inequalityUpper), ("idl", inequalityLowerIndicator),
  ("idu", inequalityUpperIndicator), ("crhs", rhs)]

end Core

namespace Formulation

def attributes (f : Formulation α) : List (String × RawValue α) := [
  ("is_finalized", .flag f.core.isSome), ("rank", f.communicator.rank),
  ("num_ranks", f.communicator.size)]

def listedOnly : List String := ["layout", "chain"]

-- What a finalized formulation holds under a name without a form to be shown in.
def finalizedParts : FormulationKind → List String
  | .dense => ["core", "layout", "transformations"]
  | .mixed => ["core", "layout", "transformations", "blocks_info"]

def constantParts : List String := ["options", "comm", "interface", "run_stats"]

def activities : List String :=
  ["clone", "summary", "print_summary", "user_obj", "user_x"] ++
  [.objective, .gradient, .values .equalities, .values .inequalities, .jacobian .equalities,
    .jacobian .inequalities, .hessian].map Operation.text ++
  (Core.vectors (α := α)).map fun (name, _) => "get_" ++ name

def accessor (name : String) : FormulationM α (RawValue α) := do
  let f ← getFormulation
  match f.attributes.lookup name, name, f.kind with
  | some v, _, _ => return v
  | none, "nx_sparse", .mixed => return (← blockSizes).sparse
  | none, "nx_dense", .mixed => return (← blockSizes).dense
  | none, _, kind =>
    if (finalizedParts kind).contains name then
      let _ ← getCore
      throw (.numeric .wrongKind)
    if constantParts.contains name || (activities (α := α)).contains name then
      throw (.numeric .wrongKind)
    match (Core.attributes.filter fun a => !listedOnly.contains a.1).lookup name with
    | some valueOf => return valueOf (← getCore)
    | none => throw .otherKind

def vector (name : String) : FormulationM α (DistributedVector α) := do
  match Core.vectors.lookup name with
  | some vectorOf => return vectorOf (← getCore)
  | none => throw .otherKind

def state : FormulationM α (List (String × RawValue α)) := do
  let c ← getCore
  let f ← getFormulation
  let s ← get
  let attributes := Core.attributes.map fun (name, valueOf) => (name, valueOf c)
  let vectors := Core.vectors.map fun (name, vectorOf) =>
    (name, ofScalars (s.store.entries (vectorOf c).view))
  let blocks := match f.blocks with
    | some b => [("blocks", b.toValue)]
    | none => []
  return attributes ++ f.attributes.drop 1 ++ vectors ++ blocks

end Formulation
end NonlinearProgram
