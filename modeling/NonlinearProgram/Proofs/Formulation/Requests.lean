import NonlinearProgram.Formulation.StartingPoint
import NonlinearProgram.Proofs.Formulation.Contract
import NonlinearProgram.Proofs.Formulation.Feasibility

namespace NonlinearProgram

open Program FormulationM

variable {α β : Type}

-- Multipliers that the chain of a core takes, whatever their number should be.
def Core.TakesMultipliers (c : Core α) (z : Argument α) : Prop :=
  c.chain.Identical ∨ (z.size : Int) = c.localSize ∨ z.size = 1

-- Vectors of which one has not the size that is expected of it.
def Misfits (vectors : List (Argument α × Int)) : Prop :=
  ∃ x ∈ vectors, (x.1.size : Int) ≠ x.2

@[simp]
theorem misfits_nil : ¬Misfits ([] : List (Argument α × Int)) := by
  simp [Misfits]

@[simp]
theorem misfits_cons {x : Argument α} {n : Int} {vectors : List (Argument α × Int)} :
    Misfits ((x, n) :: vectors) ↔ (x.size : Int) ≠ n ∨ Misfits vectors := by
  simp [Misfits]

-- Vectors that a solver hands over, outside of the scratch arrays.
def Finalized.AllLent (d : Finalized α) (s : Store α) (vectors : List (Argument α × Int)) : Prop :=
  ∀ x ∈ vectors, ∃ w xs, d.Lent s x.1 w xs

theorem Finalized.AllLent.writes_scratch {d : Finalized α} {s t : Store α}
    {vectors : List (Argument α × Int)} (h : d.AllLent s vectors) (hw : s.Writes d.IsScratch t) :
    d.AllLent t vectors := by
  intro x hx
  have ⟨w, xs, hl⟩ := h x hx
  exact ⟨w, xs, hl.writes_scratch hw⟩

namespace InternalIterate

def constraintVectors (i : InternalIterate α) (c : Core α) : List (Argument α × Int) := [
  (i.equalities, c.equalityCount), (i.inequalities, c.inequalityCount),
  (i.equalityMultipliers, c.equalityCount), (i.inequalityMultipliers, c.inequalityCount)]

def vectors (i : InternalIterate α) (c : Core α) : List (Argument α × Int) :=
  (i.point, c.localSize) :: (i.lowerMultipliers, c.localSize) ::
    (i.upperMultipliers, c.localSize) :: i.constraintVectors c

theorem lent {i : InternalIterate α} {d : Finalized α} {s : Store α}
    (h : d.AllLent s (i.vectors d.core)) :
    (∃ w xs, d.Lent s i.point w xs) ∧ (∃ w xs, d.Lent s i.lowerMultipliers w xs) ∧
      (∃ w xs, d.Lent s i.upperMultipliers w xs) ∧ (∃ w xs, d.Lent s i.equalities w xs) ∧
      (∃ w xs, d.Lent s i.inequalities w xs) ∧ (∃ w xs, d.Lent s i.equalityMultipliers w xs) ∧
      ∃ w xs, d.Lent s i.inequalityMultipliers w xs := by
  simpa [Finalized.AllLent, vectors, constraintVectors] using h

def HasTakenMultipliers (i : InternalIterate α) (c : Core α) : Prop :=
  c.TakesMultipliers i.lowerMultipliers ∧ c.TakesMultipliers i.upperMultipliers

-- The sizes with which a report ends in a breach of contract, and those with which it gets through.
-- The point is checked before the multipliers of bounds are mapped, and the vectors of the
-- constraints are checked afterwards.
def Breaches (i : InternalIterate α) (c : Core α) : Prop :=
  (i.point.size : Int) ≠ c.localSize ∨ i.HasTakenMultipliers c ∧ Misfits (i.constraintVectors c)

def Passes (i : InternalIterate α) (c : Core α) : Prop :=
  (i.point.size : Int) = c.localSize ∧ i.HasTakenMultipliers c ∧ ¬Misfits (i.constraintVectors c)

end InternalIterate

namespace Formulation

variable [Scalar α] {p : Problem α} {s t : Session α} {d : Finalized α} {o : Options α}
  {v : Core.Survey α} {y z : Argument α} {w wy : View} {ys zs : List α} {i : InternalIterate α}

theorem Ready.takesMultipliers_iff (h : Ready p d o v s) :
    d.core.TakesMultipliers z ↔ d.core.chain.Takes (v.eliminated o d.core) z.size := by
  have hl : (z.size : Int) = d.core.localSize ↔
      z.size = (clearPositions (v.eliminated o d.core)).length := by
    rw [h.localSize]
    exact Int.natCast_inj
  rw [Core.TakesMultipliers, Chain.Takes, hl]

theorem userMultipliers_takes (h : Ready p d o v s) (hz : d.Lent s.store z w zs)
    (ht : d.core.TakesMultipliers z) :
    ∃ r t, userMultipliers d.core z s = (.ok r, t) ∧ SameTrace s t ∧ Ready p d o v t ∧
      s.store.Writes d.IsScratch t.store := by
  have ⟨u, st, hm, hw, hel⟩ := Chain.multipliersToUser_takes h.eliminates
    (hz.shape.trans (congrArg (List.cons · []) hz.size.symm)) (h.takesMultipliers_iff.mp ht)
  replace hw : s.store.Writes d.IsScratch st := hw.mono fun k hk => by
    have ⟨u, hu, hk⟩ := List.mem_map.mp hk
    exact hk ▸ Finalized.chain_scratch hu
  refine ⟨st.read u, { s with store := st }, ?_, rfl,
    h.undisturbed (h.writes ⟨_, rfl⟩ hw h.writable hel), hw⟩
  rw [userMultipliers, bind_of_ok (localPart_run hz.view s)]
  apply onStore_of_ok
  rw [bind_of_ok hm]
  rfl

theorem userMultipliers_refuses (h : Ready p d o v s) (hz : d.Lent s.store z w zs)
    (ht : ¬d.core.TakesMultipliers z) :
    ∃ t, userMultipliers d.core z s = (.error (.numeric .shapeMismatch), t) ∧ SameTrace s t := by
  have ⟨st, hm⟩ := Chain.multipliersToUser_refuses h.eliminates
    (hz.shape.trans (congrArg (List.cons · []) hz.size.symm)) fun hk =>
    ht (h.takesMultipliers_iff.mpr hk)
  refine ⟨{ s with store := st }, ?_, rfl⟩
  rw [userMultipliers, bind_of_ok (localPart_run hz.view s)]
  simp only [onStore, bind_of_error hm]
  rfl

theorem misfits_constraintVectors (h : Ready p d o v s) :
    Misfits (i.constraintVectors d.core) ↔
      i.equalities.size + i.inequalities.size ≠ d.core.constraintCount ∨
      i.equalities.size ≠ d.core.equalityCount ∨
      i.equalityMultipliers.size ≠ d.core.equalityCount ∨
      i.inequalityMultipliers.size ≠ d.core.inequalityCount := by
  have hm : d.core.equalityCount + d.core.inequalityCount = d.core.constraintCount :=
    h.parts.length
  simp only [InternalIterate.constraintVectors, misfits_cons, misfits_nil, or_false, ne_eq,
    Int.natCast_inj]
  constructor <;> intro hne <;> omega

theorem userPoint_ready {x : Argument α} (h : Ready p d o v s) (hx : d.Lent s.store x w ys)
    (hl : (x.size : Int) = d.core.localSize) :
    ∃ r t, userPoint x s = (.ok r, t) ∧ SameTrace s t ∧ Ready p d o v t ∧
      s.store.Writes d.IsScratch t.store := by
  have ⟨r, t, hp, _, ht, hw, hu⟩ := userPoint_run h hx (h.length_eq (hx.size ▸ hl))
  refine ⟨r, t, hp, ?_, h.undisturbed hu, hw⟩
  rw [ht]
  rfl

section

variable (h : Ready p d o v s) (hi : d.AllLent s.store (i.vectors d.core))

include h hi

theorem toUser_breached (hl : (i.point.size : Int) ≠ d.core.localSize) : Breached (toUser i) s := by
  have ⟨⟨_, _, hx⟩, _⟩ := InternalIterate.lent hi
  rw [toUser]
  refine .after (getCore_run h.finalized) rfl ?_
  exact .bind (.bind (pointToUser_breached h hx hl) _) _

theorem toUser_refused (hl : (i.point.size : Int) = d.core.localSize)
    (hm : ¬i.HasTakenMultipliers d.core) :
    ∃ t, toUser i s = (.error (.numeric .shapeMismatch), t) ∧ SameTrace s t := by
  obtain ⟨⟨_, _, hx⟩, _⟩ := InternalIterate.lent hi
  obtain ⟨_, t₁, h₁, hs₁, hr₁, hw₁⟩ := userPoint_ready h hx hl
  have hi₁ := hi.writes_scratch hw₁
  obtain ⟨_, ⟨_, _, hlow⟩, _⟩ := InternalIterate.lent hi₁
  rw [toUser, bind_of_ok (getCore_run h.finalized), bind_of_ok h₁]
  by_cases ht : d.core.TakesMultipliers i.lowerMultipliers
  case neg =>
    obtain ⟨t, he, hs⟩ := userMultipliers_refuses hr₁ hlow ht
    exact ⟨t, bind_of_error he _, hs₁.trans hs⟩
  case pos =>
    obtain ⟨_, t₂, h₂, hs₂, hr₂, hw₂⟩ := userMultipliers_takes hr₁ hlow ht
    obtain ⟨_, _, ⟨_, _, hupp⟩, _⟩ := InternalIterate.lent (hi₁.writes_scratch hw₂)
    obtain ⟨t, he, hs⟩ := userMultipliers_refuses hr₂ hupp fun hu => hm ⟨ht, hu⟩
    rw [bind_of_ok h₂]
    exact ⟨t, bind_of_error he _, hs₁.trans (hs₂.trans hs)⟩

theorem toUser_checks (hl : (i.point.size : Int) = d.core.localSize)
    (hm : i.HasTakenMultipliers d.core) :
    (Misfits (i.constraintVectors d.core) → Breached (toUser i) s) ∧
      (¬Misfits (i.constraintVectors d.core) → ∃ r t, toUser i s = (.ok r, t) ∧ SameTrace s t) := by
  obtain ⟨⟨_, _, hx⟩, _⟩ := InternalIterate.lent hi
  obtain ⟨_, t₁, h₁, hs₁, hr₁, hw₁⟩ := userPoint_ready h hx hl
  have hi₁ := hi.writes_scratch hw₁
  obtain ⟨_, ⟨_, _, hlow⟩, _⟩ := InternalIterate.lent hi₁
  obtain ⟨_, t₂, h₂, hs₂, hr₂, hw₂⟩ := userMultipliers_takes hr₁ hlow hm.left
  have hi₂ := hi₁.writes_scratch hw₂
  obtain ⟨_, _, ⟨_, _, hupp⟩, _⟩ := InternalIterate.lent hi₂
  obtain ⟨_, t₃, h₃, hs₃, hr₃, hw₃⟩ := userMultipliers_takes hr₂ hupp hm.right
  obtain ⟨_, _, _, ⟨_, _, hc⟩, ⟨_, _, hd⟩, ⟨_, _, hyc⟩, ⟨_, _, hyd⟩⟩ :=
    InternalIterate.lent (hi₂.writes_scratch hw₃)
  rw [toUser]
  constructor
  case left =>
    intro hmis
    refine .after (getCore_run h.finalized) rfl <| .after h₁ hs₁ <| .after h₂ hs₂ <|
      .after h₃ hs₃ <| .after (localPart_run hc.view _) rfl <|
      .after (localPart_run hd.view _) rfl <| .after (localPart_run hyc.view _) rfl <|
      .after (localPart_run hyd.view _) rfl ?_
    rw [hc.view_size, hd.view_size, hyc.view_size, hyd.view_size,
      if_pos ((misfits_constraintVectors h).mp hmis)]
    exact (Breached.of_throw _ t₃).bind _
  case right =>
    intro hfit
    obtain ⟨hcs, hds, hycs, hyds⟩ : i.equalities.size = d.core.equalityCount ∧
        i.inequalities.size = d.core.inequalityCount ∧
        i.equalityMultipliers.size = d.core.equalityCount ∧
        i.inequalityMultipliers.size = d.core.inequalityCount := by
      simpa [InternalIterate.constraintVectors, Int.natCast_inj] using hfit
    constructor
    refine ⟨t₃, ?_, hs₁.trans (hs₂.trans hs₃)⟩
    rw [bind_of_ok (getCore_run h.finalized), bind_of_ok h₁, bind_of_ok h₂, bind_of_ok h₃,
      bind_of_ok (localPart_run hc.view _), bind_of_ok (localPart_run hd.view _),
      bind_of_ok (localPart_run hyc.view _), bind_of_ok (localPart_run hyd.view _),
      hc.view_size, hd.view_size, hyc.view_size, hyd.view_size,
      if_neg fun hmis => hfit ((misfits_constraintVectors h).mpr hmis)]
    dsimp only
    rw [bind_of_ok (merge_run hc hd (hc.size ▸ hcs) (hd.size ▸ hds)),
      bind_of_ok (merge_run hyc hyd (hyc.size ▸ hycs) (hyd.size ▸ hyds)),
      bind_of_ok (userObjective_run hr₃ _)]
    rfl

-- What delivers a report in the user's coordinates and order.
theorem report_outcome {f : Iterate α → FormulationM α β} (hf : ∀ r t, Delivers (f r) t) :
    (Breached (toUser i >>= f) s ↔ i.Breaches d.core) ∧
      (Delivers (toUser i >>= f) s ↔ i.Passes d.core) := by
  rw [InternalIterate.Breaches, InternalIterate.Passes]
  by_cases hl : (i.point.size : Int) = d.core.localSize
  case neg =>
    have hb := (toUser_breached h hi hl).bind f
    simp only [hl, ne_eq, not_false_eq_true, true_or, false_and, iff_true, iff_false]
    exact ⟨hb, fun hd => hd.not_breached hb⟩
  case pos =>
    simp only [hl, ne_eq, not_true_eq_false, false_or, true_and]
    by_cases hm : i.HasTakenMultipliers d.core
    case neg =>
      have ⟨t, he, hs⟩ := toUser_refused h hi hl hm
      simp only [hm, false_and, iff_false]
      exact neither_of_error (bind_of_error he f) hs nofun
    case pos =>
      have ⟨hb, hd⟩ := toUser_checks h hi hl hm
      have hc : Checks (Misfits (i.constraintVectors d.core)) (toUser i >>= f) s := by
        refine ⟨fun hmis => (hb hmis).bind f, fun hfit => ?_⟩
        have ⟨r, t, hr, hs⟩ := hd hfit
        exact .after hr hs (hf r t)
      simp only [hm, true_and]
      exact ⟨hc.breached_iff, hc.delivers_iff⟩

end

theorem reportSolution_outcome (h : Ready p d o v s)
    (hi : d.AllLent s.store (i.vectors d.core)) (status : SolveStatus) :
    (Breached (reportSolution p status i) s ↔ i.Breaches d.core) ∧
      (Delivers (reportSolution p status i) s ↔ i.Passes d.core) :=
  report_outcome h hi fun _ t => (Delivers.record rfl t).bind fun _ s => by
    rw [ofExcept_run]
    rfl

theorem reportIterate_outcome (h : Ready p d o v s)
    (hi : d.AllLent s.store (i.vectors d.core)) (progress : Progress α) :
    (Breached (reportIterate p progress i) s ↔ i.Breaches d.core) ∧
      (Delivers (reportIterate p progress i) s ↔ i.Passes d.core) :=
  report_outcome h hi fun r t => (Delivers.record rfl t).bind fun _ =>
    .bind SameTrace.trans (fun s => by rw [ofExcept_run]; rfl) fun _ _ => rfl

theorem startingPoint_abstains (p : Problem α) (out : Argument α) :
    Abstains (startingPoint p out) := by
  rw [startingPoint]
  refine .bind .getCore fun c => .bind (.localPart out) fun target => .bind ?ask fun answer => ?fill
  case ask =>
    rw [askStartingPoint]
    refine .bind (.record rfl) fun _ => ?_
    cases p.startingPoint c.userSize _
    case ok => exact .pure _
    case error => exact .ite (.bind (.emit _) fun _ => .pure _) (.throw nofun)
  case fill =>
    cases answer
    case none => exact .bind (.onStore _) fun _ => .bind (.emit _) fun _ => .pure _
    case some xs =>
      exact .ite (.bind (.onStore _) fun _ => .pure _) (.bind (.emit _) fun _ => .pure _)

end Formulation

-- What a solver asks of a formulation, or reports to it, with the vectors that it hands over.
inductive Request (α : Type) where
  | objective (x : Argument α) (isNew : RawValue α)
  | gradient (x : Argument α) (isNew : RawValue α) (out : Argument α)
  | values (group : ConstraintGroup) (x : Argument α) (isNew : RawValue α) (out : Argument α)
  | hessian (x : Argument α) (isNew : RawValue α) (factor : α) (multipliers : Argument α)
    (newMultipliers : RawValue α) (out : Argument α)
  | startingPoint (out : Argument α)
  | solution (status : SolveStatus) (i : InternalIterate α)
  | iterate (progress : Progress α) (i : InternalIterate α)

namespace Request

-- The vectors of a request, with the sizes that they should have.
def vectors (c : Core α) : Request α → List (Argument α × Int)
  | .objective x _ => [(x, c.localSize)]
  | .gradient x _ out => [(x, c.localSize), (out, c.localSize)]
  | .values group x _ out => [(x, c.localSize), (out, (c.indices group).length)]
  | .hessian x _ _ multipliers _ _ => [(x, c.localSize), (multipliers, c.constraintCount)]
  | .startingPoint out => [(out, c.localSize)]
  | .solution _ i | .iterate _ i => i.vectors c

variable [Scalar α]

-- The work that a request makes, without its result.
def run (p : Problem α) : Request α → FormulationM α Unit
  | .objective x isNew => do let _ ← Formulation.objective p x isNew
  | .gradient x isNew out => do let _ ← Formulation.gradient p x isNew out
  | .values group x isNew out => do let _ ← Formulation.values p group x isNew out
  | .hessian x isNew factor multipliers newMultipliers out => do
    let _ ← Formulation.hessian p x isNew factor multipliers newMultipliers out
  | .startingPoint out => do let _ ← Formulation.startingPoint p out
  | .solution status i => Formulation.reportSolution p status i
  | .iterate progress i => do let _ ← Formulation.reportIterate p progress i

-- The requests that end in a breach of contract, and those that get through to the problem.
-- Evaluations check all vectors, and the matrix for the Hessian. The vector for a starting point is
-- never checked, and multipliers of bounds only have to be stretched.
def Breaches (d : Finalized α) (s : Session α) (r : Request α) : Prop :=
  match r with
  | .hessian _ _ _ _ _ out => Formulation.takesHessian d s out = false ∨ Misfits (r.vectors d.core)
  | .startingPoint _ => False
  | .solution _ i | .iterate _ i => i.Breaches d.core
  | _ => Misfits (r.vectors d.core)

def Passes (d : Finalized α) (s : Session α) (r : Request α) : Prop :=
  match r with
  | .startingPoint _ => False
  | .solution _ i | .iterate _ i => i.Passes d.core
  | _ => ¬r.Breaches d s

end Request

namespace Formulation

variable [Scalar α] {p : Problem α} {s t u : Session α} {d : Finalized α}

-- Which requests are refused for the sizes of their vectors before the problem is handed anything,
-- and which get through to it. A report is neither if its multipliers cannot be stretched.
theorem requests_checked_iff (hf : finalize p s = (.ok true, t))
    (hd : t.formulation.finalized = some d) (hu : Undisturbed d t u) (r : Request α)
    (hr : d.AllLent u.store (r.vectors d.core)) :
    (Breached (r.run p) u ↔ r.Breaches d u) ∧ (Delivers (r.run p) u ↔ r.Passes d u) := by
  have ⟨v, hF⟩ := finalizes_of_finalized hf hd
  have h := hF.ready.undisturbed hu
  have hk : d.derivatives.kind = u.formulation.kind := kind_of_finalized h.finalized
  cases r
  case objective x isNew =>
    have ⟨⟨_, _, hx⟩, _⟩ := List.forall_mem_cons.mp hr
    have hc := (objective_checks h hx isNew).discard_iff
    simpa [Request.run, Request.Passes, Request.Breaches, Request.vectors] using hc
  case gradient x isNew out =>
    have ⟨⟨_, _, hx⟩, hr⟩ := List.forall_mem_cons.mp hr
    have ⟨⟨_, _, hout⟩, _⟩ := List.forall_mem_cons.mp hr
    have hc := (gradient_checks h hx hout isNew).discard_iff
    rw [or_comm] at hc
    simpa [Request.run, Request.Passes, Request.Breaches, Request.vectors] using hc
  case values group x isNew out =>
    have ⟨⟨_, _, hx⟩, hr⟩ := List.forall_mem_cons.mp hr
    have ⟨⟨_, _, hout⟩, _⟩ := List.forall_mem_cons.mp hr
    have hc : Checks _ (values p group x isNew out) u := values_checks h hx hout isNew
    replace hc := hc.discard_iff
    rw [or_comm] at hc
    simpa [Request.run, Request.Passes, Request.Breaches, Request.vectors] using hc
  case hessian x isNew factor y isNewY out =>
    have ⟨⟨_, _, hx⟩, hr⟩ := List.forall_mem_cons.mp hr
    have ⟨⟨_, _, hy⟩, _⟩ := List.forall_mem_cons.mp hr
    have hc : Checks _ (hessian p x isNew factor y isNewY out) u :=
      hessian_checks h hk hx hy isNew isNewY factor
    replace hc := hc.discard_iff
    rw [or_comm (a := y.size ≠ _)] at hc
    simpa [Request.run, Request.Passes, Request.Breaches, Request.vectors] using hc
  case startingPoint out =>
    have ha := startingPoint_abstains p out
    rw [Request.run, Breached.discard, Delivers.discard]
    exact ⟨iff_of_false (ha.not_breached u) id, iff_of_false (ha.not_delivers u) id⟩
  case solution status i => exact reportSolution_outcome h hr status
  case iterate progress i =>
    rw [Request.run, Breached.discard, Delivers.discard]
    exact reportIterate_outcome h hr progress

-- Where every vector should have one entry, two values of equalities are refused.
theorem requests_checked_iff_sample : ∃ t d u one two,
    finalize sample sampleStart = (.ok true, t) ∧ t.formulation.finalized = some d ∧
    Breached (Request.run sample
      (.solution .success ⟨one, one, one, two, one, one, one, 0⟩)) u ∧
    Delivers (Request.run sample
      (.solution .success ⟨one, one, one, one, one, one, one, 0⟩)) u := by
  have hf := finalize_of_succeeds (p := sample) (s := sampleStart) (by decide +kernel)
  have hdata : ((finalize sample sampleStart).2.formulation.finalized.map fun d =>
      (d.core.localSize, d.core.equalityCount, d.core.inequalityCount)) = some (1, 1, 1) := by
    decide +kernel
  generalize (finalize sample sampleStart).2 = t at hf hdata
  have ⟨v, d, hF⟩ := finalize_eq_true hf
  have hd := hF.finalized
  simp only [hd, Option.map_some, Option.some.injEq, Prod.mk.injEq] at hdata
  have ⟨hl, heq, hineq⟩ := hdata
  have ⟨w₁, u₁, _, hone, _, _, hu₁⟩ := lend_run hF.ready [.finite 3]
  have ⟨w₂, u, _, htwo, _, hw, hu⟩ := lend_run (hF.ready.undisturbed hu₁) [.finite 3, .finite 4]
  have hone' := hone.writes hw id
  have h₁ : ∃ w xs, d.Lent u.store (.array w₁) w xs := ⟨_, _, hone'⟩
  have h₂ : ∃ w xs, d.Lent u.store (.array w₂) w xs := ⟨_, _, htwo⟩
  have ht : d.core.TakesMultipliers (.array w₁) := .inr (.inr hone'.size)
  refine ⟨t, d, u, .array w₁, .array w₂, hf, hd, ?breached, ?delivers⟩
  case breached =>
    refine (requests_checked_iff hf hd (hu₁.trans hu) (.solution _ _) ?_).left.mpr
      (.inr ⟨⟨ht, ht⟩, ?_⟩)
    · simp [Finalized.AllLent, Request.vectors, InternalIterate.vectors,
        InternalIterate.constraintVectors, h₁, h₂]
    · simp [InternalIterate.constraintVectors, htwo.size, heq]
  case delivers =>
    refine (requests_checked_iff hf hd (hu₁.trans hu) (.solution _ _) ?_).right.mpr
      ⟨?_, ⟨ht, ht⟩, ?_⟩
    · simp [Finalized.AllLent, Request.vectors, InternalIterate.vectors,
        InternalIterate.constraintVectors, h₁]
    · simp [hone'.size, hl]
    · simp [InternalIterate.constraintVectors, hone'.size, heq, hineq]

-- Three multipliers for two variables get through, where no variable is eliminated.
theorem wrong_multipliers_delivered : ∃ t d u, ∃ r : Request Exact,
    finalize mixedSample mixedStart = (.ok true, t) ∧ t.formulation.finalized = some d ∧
    Undisturbed d t u ∧ d.AllLent u.store (r.vectors d.core) ∧ Misfits (r.vectors d.core) ∧
    ¬Breached (r.run mixedSample) u ∧ Delivers (r.run mixedSample) u := by
  have hf := finalize_of_succeeds (p := mixedSample) (s := mixedStart) (by decide +kernel)
  have hdata : ((finalize mixedSample mixedStart).2.formulation.finalized.map fun d =>
      (d.core.localSize, d.core.equalityCount, d.core.inequalityCount,
        d.core.chain.items.isEmpty)) = some (2, 1, 2, true) := by decide +kernel
  generalize (finalize mixedSample mixedStart).2 = t at hf hdata
  have ⟨v, d, hF⟩ := finalize_eq_true hf
  have hd := hF.finalized
  simp only [hd, Option.map_some, Option.some.injEq, Prod.mk.injEq, List.isEmpty_iff] at hdata
  have ⟨hl, heq, hineq, hitems⟩ := hdata
  have ⟨w₁, u₁, _, hone, _, _, hu₁⟩ := lend_run hF.ready [.finite 1]
  have hr₁ := hF.ready.undisturbed hu₁
  have ⟨w₂, u₂, _, htwo, _, hw₂, hu₂⟩ := lend_run hr₁ [.finite 1, .finite 3]
  have hr₂ := hr₁.undisturbed hu₂
  have ⟨w₃, u, _, hthree, _, hw, hu⟩ := lend_run hr₂ [.finite 5, .finite 6, .finite 7]
  have hone' := (hone.writes hw₂ id).writes hw id
  have htwo' := htwo.writes hw id
  have h₁ : ∃ w xs, d.Lent u.store (.array w₁) w xs := ⟨_, _, hone'⟩
  have h₂ : ∃ w xs, d.Lent u.store (.array w₂) w xs := ⟨_, _, htwo'⟩
  have h₃ : ∃ w xs, d.Lent u.store (.array w₃) w xs := ⟨_, _, hthree⟩
  let i : InternalIterate Exact := ⟨.array w₂, .array w₃, .array w₂, .array w₁, .array w₂,
    .array w₁, .array w₂, 0⟩
  have hi : d.AllLent u.store (i.vectors d.core) := by
    simp [Finalized.AllLent, i, InternalIterate.vectors, InternalIterate.constraintVectors, h₁, h₂,
      h₃]
  have hp : i.Passes d.core := by
    refine ⟨by simp [i, htwo'.size, hl], ⟨.inl (.inl hitems), .inl (.inl hitems)⟩, ?_⟩
    simp [i, InternalIterate.constraintVectors, hone'.size, htwo'.size, heq, hineq]
  have hdel := (reportSolution_outcome (hr₂.undisturbed hu) hi .success).right.mpr hp
  refine ⟨t, d, u, .solution .success i, hf, hd, hu₁.trans (hu₂.trans hu), hi, ?_,
    hdel.not_breached, hdel⟩
  simp [Request.vectors, i, InternalIterate.vectors, hthree.size, hl]

end Formulation
end NonlinearProgram
