import NonlinearProgram.Proofs.Formulation.Evaluation

namespace NonlinearProgram

open Program FormulationM

variable {α : Type} [Scalar α]

namespace Formulation

-- A point in an array of its own.
def lend (xs : List α) : FormulationM α (Argument α) := do
  return .array (← onStore (StoreM.alloc (Tensor.ofList xs)))

-- What evaluations deliver for a point, and what becomes of a point.
def objectiveAt (p : Problem α) (y : List α) (isNew : RawValue α) : FormulationM α (Option α) := do
  objective p (← lend y) isNew

def valuesAt (p : Problem α) (group : ConstraintGroup) (y : List α) (isNew : RawValue α) :
    FormulationM α (Option (List α)) := do
  let c ← getCore
  let x ← lend y
  let out ← onStore (StoreM.alloc (Tensor.ofList (List.replicate (c.indices group).length 0)))
  if ← values p group x isNew (.array out) then return some (← onStore (StoreM.entries out))
  else return none

def userPointAt (y : List α) : FormulationM α (List α) := do
  return (← userPoint (← lend y)).entries

def internalPointAt (x : List α) : FormulationM α (List α) := do
  let c ← getCore
  let v ← onStore (StoreM.alloc (Tensor.ofList x))
  onStore do StoreM.entries (← c.chain.pointToInternal v)

variable {p : Problem α} {s t : Session α} {d : Finalized α} {o : Options α}
  {v : Core.Survey α} {ys xs : List α}

-- A new array is outside of the scratch arrays, and behind all arrays that there are.
theorem alloc_lent (h : Ready p d o v s) (xs : List α) :
    ∃ w t, onStore (StoreM.alloc (Tensor.ofList xs)) s = (.ok w, t) ∧
      d.Lent t.store (.array w) w xs ∧ t.store.writable w ∧ w.buffer = s.store.buffers.length ∧
      t = { s with store := t.store } ∧ s.store.Writes (fun _ => False) t.store ∧
      Undisturbed d s t := by
  have ho : (s.store.alloc (Tensor.ofList xs)).2.Owns (s.store.alloc (Tensor.ofList xs)).1 _ :=
    .alloc (by simp [Tensor.ofList, Tensor.sizeOf])
  have hw : s.store.Writes (fun _ => False) (s.store.alloc (Tensor.ofList xs)).2 := .alloc _
  refine ⟨_, _, onStore_of_ok (StoreM.alloc_run _ _), ?lent, ho.writable, rfl, rfl, hw,
    ?undisturbed⟩
  case lent =>
    refine ⟨rfl, rfl, ho.valid, Store.entries_alloc_ofList xs, fun u hu he => ?_⟩
    exact Nat.lt_irrefl _ (he ▸ (h.scratch_valid hu).left.lt_length)
  case undisturbed =>
    exact h.writes ⟨_, rfl⟩ hw (fun _ => False.elim) (h.eliminates.writes hw fun _ _ => id)

theorem lend_run (h : Ready p d o v s) (xs : List α) :
    ∃ w t, lend xs s = (.ok (.array w), t) ∧ d.Lent t.store (.array w) w xs ∧
      t = { s with store := t.store } ∧ s.store.Writes (fun _ => False) t.store ∧
      Undisturbed d s t := by
  have ⟨w, t, ha, hx, _, _, ht, hw, hu⟩ := alloc_lent h xs
  exact ⟨w, t, bind_of_ok ha _, hx, ht, hw, hu⟩

theorem objectiveAt_run {f : List α → α} (h : Ready p d o v s)
    (hf : p.HasObjective d.core.userSize v.layout.localSize.toNat f)
    (hl : ys.length = v.internalSize o d.core) (isNew : RawValue α) :
    (objectiveAt p ys isNew s).1 = .ok (if Scalar.isFinite (f (v.pointToUser o d.core ys)) then
      some (f (v.pointToUser o d.core ys)) else none) := by
  have ⟨w, t, hr, hx, _, _, hu⟩ := lend_run h ys
  have ⟨_, ho, _⟩ := objective_run (h.undisturbed hu) hf hx hl isNew
  rw [objectiveAt, bind_of_ok hr, ho]

theorem valuesAt_run {g : List α → Nat → α} (h : Ready p d o v s)
    (hg : p.HasConstraints d.core.userSize v.layout.localSize.toNat d.core.constraintCount g)
    (hl : ys.length = v.internalSize o d.core) (group : ConstraintGroup) (isNew : RawValue α) :
    (valuesAt p group ys isNew s).1 =
      .ok (some ((d.core.indices group).map (g (v.pointToUser o d.core ys)))) := by
  have ⟨a, t, hr, hx, _, _, hu⟩ := lend_run h ys
  have h' := h.undisturbed hu
  have ⟨b, t', ha, hout, hw, hb', _, hwr, hu'⟩ :=
    alloc_lent h' (List.replicate (d.core.indices group).length 0)
  have hne : a.buffer ≠ b.buffer := Nat.ne_of_lt (hb' ▸ hx.valid.lt_length)
  have hz : (List.replicate (d.core.indices group).length (0 : α)).length =
      (d.core.indices group).length := by simp
  have ⟨t'', hv, hd, _⟩ :=
    values_run (h'.undisturbed hu') hg (hx.writes hwr id) hl hout hz hw hne isNew
  rw [valuesAt, bind_of_ok (getCore_run h.finalized), bind_of_ok hr, bind_of_ok ha, bind_of_ok hv]
  exact congrArg (Except.ok ∘ some) hd.entries

theorem userPointAt_run (h : Ready p d o v s) (hl : ys.length = v.internalSize o d.core) :
    (userPointAt ys s).1 = .ok (v.pointToUser o d.core ys) := by
  have ⟨a, t, hr, hx, _, _, hu⟩ := lend_run h ys
  have ⟨point, t', hp, he, _⟩ := userPoint_run (h.undisturbed hu) hx hl
  rw [userPointAt, bind_of_ok hr, bind_of_ok hp, ← he]
  rfl

theorem internalPointAt_run (h : Ready p d o v s)
    (hl : xs.length = (v.eliminated o d.core).length) :
    (internalPointAt xs s).1 = .ok (v.pointToInternal o d.core xs) := by
  have ⟨a, t, hr, hx, _, _, _, _, hu⟩ := alloc_lent h xs
  have ⟨w, st, hp, he, _⟩ := Chain.pointToInternal_run (h.undisturbed hu).eliminates
    (hx.shape.trans (congrArg (List.cons · []) hl)) hx.valid
  have hrun : (do StoreM.entries (← d.core.chain.pointToInternal a) : StoreM α (List α)) t.store =
      (.ok (restrict (v.eliminated o d.core) xs), st) := by
    rw [bind_of_ok hp, StoreM.entries_run, he, hx.entries]
  rw [internalPointAt, bind_of_ok (getCore_run h.finalized), bind_of_ok hr, onStore_of_ok hrun]
  rfl

end Formulation
end NonlinearProgram
