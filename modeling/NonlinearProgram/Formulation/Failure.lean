import NonlinearProgram.Formulation.Operation
import NonlinearProgram.Matrix.Basic
import NonlinearProgram.Problem.Basic
import NonlinearProgram.Transformation.Chain
import NonlinearProgram.Vector

namespace NonlinearProgram

inductive Malformed (α : Type) where
  | sizes (given : RawValue α)
  | negativeSizes (n m : Int)
  | boundaries (given : List Int) (reason : LayoutError)
  | coverage (covered n : Int)
  | localSizes (total n : Int)
  | variablesRefused
  | variableTypes (count : Nat) (expected : Nat)
  | constraintsRefused
  | constraintTypes (count : Nat) (expected : Nat)
  | variableBounds (count : Nat) (first : Int) (lower upper : α)
  | constraintBounds (count : Nat) (first : Nat) (lower upper : α)
  | distributedBlocks
  | negativeGroups (sparse dense : RawValue α)
  | groupSizes (sparse dense : RawValue α) (n : Int)
  | negativeCount (name : String) (count : RawValue α)
  | coupling (count : RawValue α)
  | declared (reason : String)

namespace Malformed

variable {α : Type} [Scalar α]

def message : Malformed α → String
  | .sizes given => s!"get_prob_sizes returned {given.shown}, expected (n, m)"
  | .negativeSizes n m => s!"Negative problem dimensions: n={n}, m={m}"
  | .boundaries given reason =>
    s!"Invalid variable distribution {integersText given}: " ++ reason.message?.getD ""
  | .coverage k n => s!"Variable distribution covers {k} variables, problem has {n}"
  | .localSizes k n => s!"Local variable counts sum to {k} across ranks, expected {n}"
  | .variablesRefused => "get_vars_info reported failure"
  | .variableTypes k n => s!"get_vars_info produced {k} variable types, expected {n}"
  | .constraintsRefused => "get_cons_info reported failure"
  | .constraintTypes k n => s!"get_cons_info produced {k} constraint types, expected {n}"
  | .variableBounds k i l u =>
    s!"Inconsistent bounds for {k} variable(s); first is " ++
      s!"x[{i}] with xl={Scalar.text l} > xu={Scalar.text u}"
  | .constraintBounds k i l u =>
    s!"Inconsistent bounds for {k} constraint(s); first is " ++
      s!"c[{i}] with clow={Scalar.text l} > cupp={Scalar.text u}"
  | .distributedBlocks => "MDS problems cannot distribute their variables"
  | .negativeGroups s d => s!"Negative variable groups: nx_sparse={s.plain}, nx_dense={d.plain}"
  | .groupSizes s d n =>
    s!"nx_sparse ({s.plain}) + nx_dense ({d.plain}) does not match the number of variables ({n})"
  | .negativeCount name k => s!"{name} must be non-negative, got {k.plain}"
  | .coupling k =>
    "Sparse-dense Hessian coupling is not supported " ++
      s!"(declared nnz_sparse_hess_lagr_sd={k.plain})"
  | .declared reason => reason

end Malformed

-- How a solver and a formulation can disagree on a representation. Numbers that were given are kept
-- as a message shows them.
inductive Breach where
  | pointSize (size : Nat) (expected : Int)
  | gradientSize (size : Nat) (expected : Int)
  | outputSize (op : Operation) (size expected : Nat)
  | constraintSizes (c d yc yd equalities inequalities : Nat)
  | jacobianKind (op : Operation) (given : String)
  | jacobianShape (op : Operation) (rows : Nat) (columns sparseColumns : String)
      (expectedRows : Nat) (sparse dense : String)
  | hessianKind (given : String)
  | hessianShape (sparseSize : String) (denseSize : Nat) (sparse dense : String)
  | multipliersSize (size expected : Nat)
  | coupling (count : String)
  | noHessian
deriving DecidableEq, Repr

def Breach.message : Breach → String
  | .pointSize k n => s!"Point has local size {k}, formulation expects {n}"
  | .gradientSize k n =>
    s!"{Operation.gradient.text}: gradient has local size {k}, formulation expects {n}"
  | .outputSize op k n => s!"{op.text}: output has size {k}, expected {n}"
  | .constraintSizes c d yc yd eq ineq =>
    s!"Constraint vectors of sizes c={c}, d={d}, yc={yc}, yd={yd} " ++
      s!"do not match m_eq={eq}, m_ineq={ineq}"
  | .jacobianKind op given =>
    s!"{op.text}: {FormulationKind.mixed.text} needs a mixed sparse-dense matrix, got {given}"
  | .jacobianShape op rows columns sparseColumns expectedRows sparse dense =>
    s!"{op.text}: matrix of shape ({rows}, {columns}) (n_sp={sparseColumns}) does not match " ++
      s!"{expectedRows} rows with nx_sparse={sparse}, nx_dense={dense}"
  | .hessianKind given =>
    s!"{Operation.hessian.text}: {FormulationKind.mixed.text} needs a block-diagonal MDS " ++
      s!"Hessian, got {given}"
  | .hessianShape sparseSize denseSize sparse dense =>
    s!"{Operation.hessian.text}: Hessian blocks ({sparseSize}, {denseSize}) do not match " ++
      s!"nx_sparse={sparse}, nx_dense={dense}"
  | .multipliersSize k m => s!"{Operation.hessian.text}: lambda has size {k}, expected {m}"
  | .coupling k =>
    s!"{Operation.hessian.text}: user reported {k} nonzero(s) in the sparse-dense " ++
      "coupling block, which this formulation does not support"
  | .noHessian =>
    s!"{FormulationKind.dense.text} is only for quasi-Newton Hessian approximations; " ++
      s!"{Operation.hessian.text} must not be called"

inductive Failure (α : Type) where
  | malformed (m : Malformed α)
  | breach (b : Breach)
  | unfinalized (kind : FormulationKind)
  | cloneUnfinalized
  | otherKind
  | numeric (fault : ValueFault)
  | raised (fault : Fault)
  | layout (e : LayoutError)
  | vector (e : VectorError)
  | matrix (e : MatrixError)
  | transformation (e : TransformationError α)
  | splitLengths

def Failure.ofQuery {α : Type} (fault : Fault) : Failure α :=
  if fault.family = .malformedData then .malformed (.declared fault.message) else .raised fault

-- Faults of storage and of the integer range, and requests that a kind of formulation does not
-- know, have no text of their own.
def Failure.message? {α : Type} [Scalar α] : Failure α → Option String
  | .malformed m => some m.message
  | .breach b => some b.message
  | .unfinalized kind => some s!"{kind.text} has not been finalized"
  | .cloneUnfinalized => some "Problem data changed; cloned formulation failed to finalize"
  | .otherKind | .numeric _ => none
  | .raised fault => some fault.message
  | .layout e => e.message?
  | .vector e => some e.message
  | .matrix e => e.message?
  | .transformation e => some e.message
  | .splitLengths => some ConstraintSplit.lengthMessage

end NonlinearProgram
