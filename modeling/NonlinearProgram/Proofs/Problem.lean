import NonlinearProgram.Formulation.Evaluation
import NonlinearProgram.Proofs.Store

namespace NonlinearProgram

variable {α ρ : Type}

namespace Store

theorem setSlice_of_shape {s : Store α} {v : View} {n : Nat} (h : v.shape = [n]) (i : Nat) (x : α) :
    s.setSlice v i x = s.update v.buffer (·.set i x) := by
  have hs : v.step = 1 := by simp [View.step, Tensor.sizeOf, h]
  rw [setSlice_eq_update, hs]
  simp

end Store

-- Entries overwritten one after the other, from a position on.
def overwrite : Nat → List α → List α → List α
  | _, [], ys => ys
  | k, x :: xs, ys => overwrite (k + 1) xs (ys.set k x)

theorem overwrite_eq {k : Nat} {xs ys : List α} (h : k + xs.length ≤ ys.length) :
    overwrite k xs ys = ys.take k ++ xs ++ ys.drop (k + xs.length) := by
  induction xs generalizing k ys
  case nil => simp [overwrite]
  case cons x xs hi =>
    rw [List.length_cons] at h
    have hk : k < (ys.set k x).length := by rw [List.length_set]; omega
    have ht : (ys.set k x).take (k + 1) = ys.take k ++ [x] := by
      rw [List.take_succ_eq_append_getElem hk, List.getElem_set_self, List.take_set,
        List.set_eq_of_length_le (List.length_take_le k ys)]
    rw [overwrite, hi (by rw [List.length_set]; omega), List.drop_set_of_lt (by omega), ht,
      List.length_cons, List.append_assoc (ys.take k), List.singleton_append,
      show k + 1 + xs.length = k + (xs.length + 1) by omega]

namespace Callback

-- Overwrites the output from a position on, and goes on.
def fill : Nat → List α → Callback α ρ → Callback α ρ
  | _, [], next => next
  | k, x :: xs, next => .write .output k x (fill (k + 1) xs next)

theorem run_fill {slots : Slot → Option View} {out : View} {n k : Nat} {a : Arena α} {xs : List α}
    (hs : slots .output = some out) (ho : out.shape = [n]) (hw : a.store.writable out)
    (hk : k + xs.length ≤ n) (next : Callback α ρ) :
    (fill k xs next).run slots a =
      next.run slots { a with store := a.store.update out.buffer (overwrite k xs) } := by
  induction xs generalizing k a
  case nil =>
    have hu : a.store.update out.buffer (overwrite k []) = a.store :=
      congrArg Store.mk (List.modify_id out.buffer a.store.buffers)
    rw [fill, hu]
  case cons x xs hi =>
    have hlt : k < n := by
      rw [List.length_cons] at hk
      omega
    have he : a.withEntry out k x =
        .ok { a with store := a.store.update out.buffer (·.set k x) } := by
      simp [Arena.withEntry, hw, View.length?, ho, hlt, Store.setSlice_of_shape ho]
    have hw' : (a.store.update out.buffer (·.set k x)).writable out :=
      (Store.writable_update _).trans hw
    have hk' : k + 1 + xs.length ≤ n := by
      rw [List.length_cons] at hk
      omega
    simp only [fill, run, hs, he]
    rw [hi hw' hk']
    simp only [Store.update_update]
    rfl

-- A callback that overwrites all entries in order leaves the output with the given entries.
theorem run_fill_zero {slots : Slot → Option View} {out : View} {a : Arena α} {xs : List α}
    (hs : slots .output = some out) (ho : out.shape = [xs.length]) (hv : a.store.Valid out)
    (hw : a.store.writable out) (next : Callback α ρ) :
    (fill 0 xs next).run slots a =
      next.run slots { a with store := a.store.setEntries out xs } := by
  have ⟨b, hb, hl⟩ := hv
  rw [View.size_of_shape ho] at hl
  have he : overwrite 0 xs b.entries =
      xs.take b.entries.length ++ b.entries.drop xs.length := by
    rw [overwrite_eq (by omega), List.take_of_length_le hl]
    simp
  rw [run_fill hs ho hw (by omega), Store.setEntries_eq_update,
    Store.update_congr (g := fun ys => xs.take ys.length ++ ys.drop xs.length) hb he]

end Callback

namespace Problem

variable [Scalar α]

-- A problem that answers with its objective, and changes nothing.
def HasObjective (p : Problem α) (n : Int) (size : Nat) (f : List α → α) : Prop :=
  ∀ (arena : Arena α) (x : View) (isNew : RawValue α), x.shape = [size] → arena.store.Valid x →
    ∃ answer, (p.evaluate (.objective ⟨n, arena.store.read x, isNew⟩)).run
        (Formulation.slots x none none) arena = (.ok answer, arena) ∧
      answer.isRefusal = false ∧ answer.toScalar = .ok (f (arena.store.entries x))

-- A problem that fills the output with the values of the constraints it is asked for, and changes
-- nothing else.
def HasConstraints (p : Problem α) (n : Int) (size m : Nat) (g : List α → Nat → α) : Prop :=
  ∀ (arena : Arena α) (x out : View) (isNew : RawValue α) (indices : List Nat), x.shape = [size] →
    arena.store.Valid x → out.shape = [indices.length] → arena.store.Valid out →
    arena.store.writable out → x.buffer ≠ out.buffer → (∀ i ∈ indices, i < m) →
    ∃ answer, (p.evaluate (.constraints ⟨n, arena.store.read x, isNew⟩ m indices
        (arena.store.read out))).run (Formulation.slots x (some out) none) arena =
        (.ok answer, { arena with
          store := arena.store.setEntries out (indices.map (g (arena.store.entries x))) }) ∧
      answer.isRefusal = false

-- Evaluations of a given objective and of given constraints; of derivatives, there are none.
def evaluateBy (f : List α → α) (g : List α → Nat → α) : Evaluation α → Callback α (RawValue α)
  | .objective x => .done (.real (f x.entries.entries))
  | .constraints x _ indices _ =>
    Callback.fill 0 (indices.map (g x.entries.entries)) (.done (.flag true))
  | _ => .done (.flag true)

-- A problem without bounds, whose objective and constraints are given functions.
def ofFunctions (n : Int) (m : Nat) (f : List α → α) (g : List α → Nat → α) : Problem α where
  name := "Functions"
  offersDense := true
  offersBlocks := true
  sizes := .ok (.tuple [.integer n, .integer m])
  distribution := fun _ _ => .ok { answer := .flag false }
  variableBounds := fun _ _ => .ok { answer := .flag true }
  constraintBounds := fun _ _ => .ok { answer := .flag true }
  blockSizes := .ok ⟨.integer 0, .integer n, .integer 0, .integer 0, .integer 0, .integer 0⟩
  startingPoint := fun _ _ => .ok { answer := .flag false }
  evaluate := evaluateBy f g
  solution := fun _ _ => .ok ()
  iterate := fun _ _ => .ok (.flag true)

variable {p : Problem α} {n : Int} {m size : Nat} {f : List α → α} {g : List α → Nat → α}

theorem hasObjective_of_evaluate (h : p.evaluate = evaluateBy f g) : p.HasObjective n size f := by
  intro arena x isNew _ _
  exact ⟨.real (f (arena.store.entries x)), by rw [h]; rfl, rfl, rfl⟩

omit [Scalar α] in
theorem hasConstraints_of_evaluate (h : p.evaluate = evaluateBy f g) :
    p.HasConstraints n size m g := by
  intro arena x out isNew indices _ _ ho hv hw _ _
  refine ⟨.flag true, ?_, rfl⟩
  rw [h]
  exact Callback.run_fill_zero rfl (by simpa using ho) hv hw _

end Problem
end NonlinearProgram
