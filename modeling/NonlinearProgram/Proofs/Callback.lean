import NonlinearProgram.Problem.Callback
import NonlinearProgram.Proofs.Store

namespace NonlinearProgram

theorem Rows.map_length_setEntry {α : Type} (a : Rows α) (i j : Nat) (x : α) :
    (a.setEntry i j x).map List.length = a.map List.length := by
  refine List.ext_getElem? fun k => ?_
  simp only [setEntry, List.getElem?_map, List.getElem?_modify]
  cases a[k]?
  case none => rfl
  case some row => by_cases h : i = k <;> simp [h]

namespace Callback

variable {α ρ : Type} {slots : Slot → Option View} {a : Arena α}

-- What a callback can write to: arrays that it was handed, if they can be written at all.
def Reach (slots : Slot → Option View) (s : Store α) (k : Nat) : Prop :=
  ∃ slot v, slots slot = some v ∧ v.buffer = k ∧ s.writable v

theorem length_foldl_set (xs : List α) (js : List Nat) (f : Nat → Nat) (x : α) :
    (js.foldl (fun xs j => xs.set (f j) x) xs).length = xs.length := by
  induction js generalizing xs
  case nil => rfl
  case cons j js hi => rw [List.foldl_cons, hi, List.length_set]

theorem setSlice_writes {s : Store α} {v : View} (i : Nat) (x : α) {touched : Nat → Prop}
    (h : touched v.buffer) : s.Writes touched (s.setSlice v i x) := by
  rw [Store.setSlice_eq_update]
  exact .update h fun xs => length_foldl_set xs _ _ x

theorem withEntry_eq_ok {b : Arena α} {v : View} {i : Nat} {x : α}
    (h : a.withEntry v i x = .ok b) :
    a.store.writable v ∧ b = { a with store := a.store.setSlice v i x } := by
  rw [Arena.withEntry] at h
  by_cases hw : a.store.writable v
  case neg => simp [hw] at h
  case pos =>
    simp only [hw, Bool.not_true, Bool.false_eq_true, if_false] at h
    split at h <;> cases h
    exact ⟨hw, rfl⟩

theorem withTriplet_eq (a : Arena α) (k : Nat) (row column : Except Fault Int) (x : α) :
    ∃ triplets, (a.withTriplet k row column x).2 =
      { a with workspace := { a.workspace with triplets := triplets } } := by
  rw [Arena.withTriplet]
  cases Arena.index32 row <;> cases Arena.index32 column <;> exact ⟨_, rfl⟩

-- A relation between arenas that every step of a callback establishes, a whole run establishes. A
-- step overwrites an entry of an array, or it changes the workspace, but not the form of its rows.
theorem run_keeps (slots : Slot → Option View) {R : Arena α → Arena α → Prop} (hr : ∀ a, R a a)
    (ht : ∀ {a b c}, R a b → R b c → R a c)
    (hentry : ∀ {a : Arena α} {slot v} i x, slots slot = some v → a.store.writable v →
      R a { a with store := a.store.setSlice v i x })
    (hwork : ∀ {a : Arena α} {w}, w.dense.map List.length = a.workspace.dense.map List.length →
      R a { a with workspace := w })
    (c : Callback α ρ) (a : Arena α) : R a (c.run slots a).2 := by
  induction c generalizing a
  case done => exact hr a
  case raise => exact hr a
  case read slot i next ih =>
    rw [run]
    cases (slots slot).elim (.error .noIndex) (a.entry · i)
    case error => exact hr a
    case ok x => exact ih x a
  case write slot i x next ih =>
    rw [run]
    cases hs : slots slot
    case none => exact ih a
    case some v =>
      dsimp only
      cases hb : a.withEntry v i x
      case error => exact hr a
      case ok b =>
        obtain ⟨hw, rfl⟩ := withEntry_eq_ok hb
        exact ht (hentry i x hs hw) (ih _)
  case setTriplet k row column x next ih =>
    obtain ⟨triplets, hs⟩ := withTriplet_eq a k row column x
    have hstep : R a (a.withTriplet k row column x).2 := hs ▸ hwork rfl
    rw [run]
    cases hb : a.withTriplet k row column x
    case mk fault b =>
      rw [hb] at hstep
      cases fault
      case some => exact hstep
      case none => exact ht hstep (ih b)
  case setDense i j x next ih => exact ht (hwork (Rows.map_length_setEntry _ i j x)) (ih _)
  case setCoupling n next ih =>
    exact ht (hwork (w := { a.workspace with coupling := n }) rfl) (ih _)

-- Nothing else is within its reach, whatever it does.
theorem run_writes (c : Callback α ρ) (slots : Slot → Option View) (a : Arena α) :
    a.store.Writes (Reach slots a.store) (c.run slots a).2.store := by
  have reach {s t : Store α} (h : ∀ v, t.writable v = s.writable v) :
      Reach slots t = Reach slots s := by
    funext k
    simp only [Reach, h]
  have hrun := c.run_keeps slots (a := a) (R := fun a b =>
    (∀ v, b.store.writable v = a.store.writable v) ∧ a.store.Writes (Reach slots a.store) b.store)
  refine (hrun (fun a => ⟨fun _ => rfl, .refl _ _⟩) ?trans ?entry
    fun _ => ⟨fun _ => rfl, .refl _ _⟩).right
  case trans =>
    intro a b c ⟨hw₁, h₁⟩ ⟨hw₂, h₂⟩
    exact ⟨fun v => (hw₂ v).trans (hw₁ v), h₁.and_then (reach hw₁ ▸ h₂)⟩
  case entry =>
    intro a slot v i x hs hw
    refine ⟨fun v' => ?_, setSlice_writes i x ⟨slot, v, hs, rfl, hw⟩⟩
    rw [Store.setSlice_eq_update, Store.writable_update]

-- No array is new, and the rows of the matrix stay as long as they are.
theorem run_length (c : Callback α ρ) (slots : Slot → Option View) (a : Arena α) :
    (c.run slots a).2.store.buffers.length = a.store.buffers.length := by
  refine c.run_keeps slots (a := a)
    (R := fun a b => b.store.buffers.length = a.store.buffers.length)
    (fun _ => rfl) (fun h₁ h₂ => h₂.trans h₁) (fun i x _ _ => ?_) fun _ => rfl
  simp [Store.setSlice_eq_update, Store.update]

theorem run_form (c : Callback α ρ) (slots : Slot → Option View) (a : Arena α) :
    (c.run slots a).2.workspace.dense.map List.length = a.workspace.dense.map List.length :=
  c.run_keeps slots (a := a)
    (R := fun a b => b.workspace.dense.map List.length = a.workspace.dense.map List.length)
    (fun _ => rfl) (fun h₁ h₂ => h₂.trans h₁) (fun _ _ _ _ => rfl) id

end Callback
end NonlinearProgram
