import NonlinearProgram.Proofs.Formulation.Evaluation
import NonlinearProgram.Proofs.Split

namespace NonlinearProgram

open Program FormulationM

variable {α : Type}

-- The entries of what a solver reports.
structure ReportEntries (α : Type) where
  point : List α
  lowerMultipliers : List α
  upperMultipliers : List α
  equalities : List α
  inequalities : List α
  equalityMultipliers : List α
  inequalityMultipliers : List α

-- A report in arrays outside of the scratch arrays, of the sizes that the formulation expects for
-- so many internal variables.
structure InternalIterate.Holds (i : InternalIterate α) (d : Finalized α) (size : Nat)
    (s : Store α) (e : ReportEntries α) : Prop where
  point : ∃ w, d.Lent s i.point w e.point
  lowerMultipliers : ∃ w, d.Lent s i.lowerMultipliers w e.lowerMultipliers
  upperMultipliers : ∃ w, d.Lent s i.upperMultipliers w e.upperMultipliers
  equalities : ∃ w, d.Lent s i.equalities w e.equalities
  inequalities : ∃ w, d.Lent s i.inequalities w e.inequalities
  equalityMultipliers : ∃ w, d.Lent s i.equalityMultipliers w e.equalityMultipliers
  inequalityMultipliers : ∃ w, d.Lent s i.inequalityMultipliers w e.inequalityMultipliers
  variable_sizes : e.point.length = size ∧ e.lowerMultipliers.length = size ∧
    e.upperMultipliers.length = size
  constraint_sizes : e.equalities.length = d.core.equalityCount ∧
    e.inequalities.length = d.core.inequalityCount ∧
    e.equalityMultipliers.length = d.core.equalityCount ∧
    e.inequalityMultipliers.length = d.core.inequalityCount

theorem InternalIterate.Holds.writes_scratch {i : InternalIterate α} {d : Finalized α} {size : Nat}
    {s t : Store α} {e : ReportEntries α} (h : i.Holds d size s e)
    (hw : s.Writes d.IsScratch t) : i.Holds d size t e :=
  { h with
    point := h.point.imp fun _ h => h.writes_scratch hw
    lowerMultipliers := h.lowerMultipliers.imp fun _ h => h.writes_scratch hw
    upperMultipliers := h.upperMultipliers.imp fun _ h => h.writes_scratch hw
    equalities := h.equalities.imp fun _ h => h.writes_scratch hw
    inequalities := h.inequalities.imp fun _ h => h.writes_scratch hw
    equalityMultipliers := h.equalityMultipliers.imp fun _ h => h.writes_scratch hw
    inequalityMultipliers := h.inequalityMultipliers.imp fun _ h => h.writes_scratch hw }

-- What a user gets to see of a report.
structure Iterate.Tells [Scalar α] (r : Iterate α) (v : Core.Survey α) (o : Options α)
    (core : Core α) (e : ReportEntries α) (objective : α) : Prop where
  n : r.n = core.userSize
  m : r.m = core.constraintCount
  point : r.point.entries = v.pointToUser o core e.point
  lowerMultipliers : r.lowerMultipliers.entries = v.multipliersToUser o core e.lowerMultipliers
  upperMultipliers : r.upperMultipliers.entries = v.multipliersToUser o core e.upperMultipliers
  constraints : r.constraints = core.split.merge e.equalities e.inequalities
  multipliers : r.multipliers = core.split.merge e.equalityMultipliers e.inequalityMultipliers
  objective : r.objective = objective

namespace Formulation

variable [Scalar α] {p : Problem α} {s t : Session α} {d : Finalized α} {o : Options α}
  {v : Core.Survey α} {z : Argument α} {w : View} {zs : List α}

theorem Ready.parts (h : Ready p d o v s) : d.core.split.Parts d.core.constraintCount := by
  rw [h.intact.describes.split, h.intact.describes.constraintCount]
  exact ConstraintSplit.parts_ofBounds h.surveyed.constraints_fit.lower
    h.surveyed.constraints_fit.upper

theorem userMultipliers_run (h : Ready p d o v s) (hz : d.Lent s.store z w zs)
    (hl : zs.length = v.internalSize o d.core) :
    ∃ multipliers t, userMultipliers d.core z s = (.ok multipliers, t) ∧
      multipliers.entries = v.multipliersToUser o d.core zs ∧
      t = { s with store := t.store } ∧ s.store.Writes d.IsScratch t.store ∧ Undisturbed d s t := by
  have ⟨u, st, hm, he, hwr, hel⟩ := Chain.multipliersToUser_run h.eliminates
    (hz.shape.trans (congrArg (List.cons · []) hl)) hz.valid
    fun u hu => hz.apart u (List.mem_append_right _ hu)
  replace hwr : s.store.Writes d.IsScratch st := hwr.mono fun k hk => by
    have ⟨u, hu, hk⟩ := List.mem_map.mp hk
    exact hk ▸ Finalized.chain_scratch hu
  refine ⟨st.read u, { s with store := st }, ?_, hz.entries ▸ he, rfl, hwr,
    h.writes ⟨_, rfl⟩ hwr h.writable hel⟩
  rw [userMultipliers, bind_of_ok (localPart_run hz.view s)]
  apply onStore_of_ok
  rw [bind_of_ok hm]
  rfl

theorem userObjective_run (h : Ready p d o v s) (f : α) : userObjective f s = (.ok f, s) := by
  rw [userObjective, bind_of_ok (getCore_run h.finalized), (h.eliminates.objective f).right]
  rfl

theorem merge_run {a b : View} {x y : Argument α} {xs ys : List α}
    (ha : d.Lent s.store x a xs) (hb : d.Lent s.store y b ys)
    (hx : xs.length = d.core.equalityCount) (hy : ys.length = d.core.inequalityCount) :
    onStore (do d.core.split.merge? (← StoreM.read a) (← StoreM.read b)) s =
      (.ok (d.core.split.merge xs ys), s) := by
  have hm : d.core.split.merge? (s.store.read a) (s.store.read b) =
      .ok (d.core.split.merge (s.store.entries a) (s.store.entries b)) :=
    ConstraintSplit.merge?_of_shape (ha.shape.trans (congrArg (List.cons · []) hx))
      (hb.shape.trans (congrArg (List.cons · []) hy))
  rw [ha.entries, hb.entries] at hm
  apply onStore_of_ok
  rw [bind_of_ok (StoreM.read_run a _), bind_of_ok (StoreM.read_run b _), hm]
  rfl

-- What a solver reports arrives in the user's coordinates and in the user's order.
theorem toUser_run {i : InternalIterate α} {e : ReportEntries α} (h : Ready p d o v s)
    (hi : i.Holds d (v.internalSize o d.core) s.store e) :
    ∃ r t, toUser i s = (.ok r, t) ∧ r.Tells v o d.core e i.objective ∧
      t = { s with store := t.store } ∧ Undisturbed d s t := by
  have ⟨hx, hzl, hzu⟩ := hi.variable_sizes
  have ⟨heq, hineq, hyeq, hyineq⟩ := hi.constraint_sizes
  have ⟨_, hpoint⟩ := hi.point
  have ⟨x, t₁, h₁, hxe, ht₁, hw₁, hu₁⟩ := userPoint_run h hpoint hx
  have hr₁ := h.undisturbed hu₁
  have hi₁ := hi.writes_scratch hw₁
  have ⟨_, hlow⟩ := hi₁.lowerMultipliers
  have ⟨low, t₂, h₂, hle, ht₂, hw₂, hu₂⟩ := userMultipliers_run hr₁ hlow hzl
  have hr₂ := hr₁.undisturbed hu₂
  have hi₂ := hi₁.writes_scratch hw₂
  have ⟨_, hupp⟩ := hi₂.upperMultipliers
  have ⟨upp, t₃, h₃, hue, ht₃, hw₃, hu₃⟩ := userMultipliers_run hr₂ hupp hzu
  have hr₃ := hr₂.undisturbed hu₃
  have hi₃ := hi₂.writes_scratch hw₃
  have ⟨c, hc⟩ := hi₃.equalities
  have ⟨dd, hd⟩ := hi₃.inequalities
  have ⟨yc, hyc⟩ := hi₃.equalityMultipliers
  have ⟨yd, hyd⟩ := hi₃.inequalityMultipliers
  have hcs : c.size = d.core.equalityCount := (View.size_of_shape hc.shape).trans heq
  have hds : dd.size = d.core.inequalityCount := (View.size_of_shape hd.shape).trans hineq
  have hycs : yc.size = d.core.equalityCount := (View.size_of_shape hyc.shape).trans hyeq
  have hyds : yd.size = d.core.inequalityCount := (View.size_of_shape hyd.shape).trans hyineq
  have hsum : d.core.equalityCount + d.core.inequalityCount = d.core.constraintCount :=
    h.parts.length
  constructor
  refine ⟨t₃, ?run, ?tells, by rw [ht₃, ht₂, ht₁], hu₁.trans (hu₂.trans hu₃)⟩
  case run =>
    rw [toUser, bind_of_ok (getCore_run h.finalized), bind_of_ok h₁, bind_of_ok h₂, bind_of_ok h₃,
      bind_of_ok (localPart_run hc.view _), bind_of_ok (localPart_run hd.view _),
      bind_of_ok (localPart_run hyc.view _), bind_of_ok (localPart_run hyd.view _),
      if_neg (by omega)]
    dsimp only
    rw [bind_of_ok (merge_run hc hd heq hineq), bind_of_ok (merge_run hyc hyd hyeq hyineq),
      bind_of_ok (userObjective_run hr₃ _)]
    rfl
  case tells => exact ⟨rfl, rfl, hxe, hle, hue, rfl, rfl, rfl⟩

theorem reportSolution_run {i : InternalIterate α} {e : ReportEntries α} (h : Ready p d o v s)
    (hi : i.Holds d (v.internalSize o d.core) s.store e) (status : SolveStatus) :
    ∃ r t, reportSolution p status i s = ((p.solution status r).mapError .raised, t) ∧
      r.Tells v o d.core e i.objective ∧ t.trace = s.trace ++ [.solution status r] ∧
      Undisturbed d s t := by
  have ⟨r, t, hr, htells, ht, hu⟩ := toUser_run h hi
  refine ⟨r, t.traced [.solution status r], ?_, htells, by rw [ht]; rfl,
    ⟨hu.formulation, hu.constants, hu.scratch, hu.held⟩⟩
  rw [reportSolution, bind_of_ok hr, bind_of_ok (record_run _ t), ofExcept_run]

theorem reportIterate_run {i : InternalIterate α} {e : ReportEntries α} (h : Ready p d o v s)
    (hi : i.Holds d (v.internalSize o d.core) s.store e) (progress : Progress α) :
    ∃ r t, reportIterate p progress i s =
        (((p.iterate progress r).map RawValue.isTrue).mapError .raised, t) ∧
      r.Tells v o d.core e i.objective ∧ t.trace = s.trace ++ [.iterate progress r] ∧
      Undisturbed d s t := by
  have ⟨r, t, hr, htells, ht, hu⟩ := toUser_run h hi
  refine ⟨r, t.traced [.iterate progress r], ?_, htells, by rw [ht]; rfl,
    ⟨hu.formulation, hu.constants, hu.scratch, hu.held⟩⟩
  rw [reportIterate, bind_of_ok hr, bind_of_ok (record_run _ t)]
  cases p.iterate progress r <;> rfl

end Formulation
end NonlinearProgram
