import NonlinearProgram.Formulation.Basic

namespace NonlinearProgram.Program

variable {ε δ σ β γ : Type}

-- A program is a computation that changes a state and can fail, such as work on a store or work in
-- a session. What it changed before a failure stays changed.
theorem bind_run (x : ExceptT ε (StateM σ) β) (f : β → ExceptT ε (StateM σ) γ) (s : σ) :
    (x >>= f) s = match x s with
      | (.ok a, t) => f a t
      | (.error e, t) => (.error e, t) := by
  have h : (x >>= f) s = ExceptT.bindCont f (x s).1 (x s).2 := rfl
  rw [h]
  match x s with
  | (.ok a, t) => rfl
  | (.error e, t) => rfl

theorem bind_of_ok {x : ExceptT ε (StateM σ) β} {s t : σ} {a : β} (h : x s = (.ok a, t))
    (f : β → ExceptT ε (StateM σ) γ) : (x >>= f) s = f a t := by
  rw [bind_run, h]

theorem bind_of_error {x : ExceptT ε (StateM σ) β} {s t : σ} {e : ε} (h : x s = (.error e, t))
    (f : β → ExceptT ε (StateM σ) γ) : (x >>= f) s = (.error e, t) := by
  rw [bind_run, h]

theorem bind_eq_ok {x : ExceptT ε (StateM σ) β} {f : β → ExceptT ε (StateM σ) γ} {s t : σ}
    {b : γ} : (x >>= f) s = (.ok b, t) ↔ ∃ a u, x s = (.ok a, u) ∧ f a u = (.ok b, t) := by
  constructor
  case mp =>
    intro h
    rw [bind_run] at h
    cases hx : x s
    case mk r u =>
      rw [hx] at h
      cases r
      case ok a => exact ⟨a, u, rfl, h⟩
      case error e => cases h
  case mpr =>
    intro ⟨a, u, hx, hf⟩
    rw [bind_of_ok hx, hf]

@[simp]
theorem pure_run (a : β) (s : σ) : (pure a : ExceptT ε (StateM σ) β) s = (.ok a, s) := rfl

@[simp]
theorem throw_run (e : ε) (s : σ) : (throw e : ExceptT ε (StateM σ) β) s = (.error e, s) := rfl

@[simp]
theorem get_run (s : σ) : (get : ExceptT ε (StateM σ) σ) s = (.ok s, s) := rfl

@[simp]
theorem modify_run (f : σ → σ) (s : σ) :
    (modify f : ExceptT ε (StateM σ) PUnit) s = (.ok ⟨⟩, f s) := rfl

@[simp]
theorem ok_eq_ok {a b : β} {s t : σ} :
    @Eq (Id (Except ε β × σ)) (.ok a, s) (.ok b, t) ↔ a = b ∧ s = t := by
  constructor
  case mp => intro h; cases h; exact ⟨rfl, rfl⟩
  case mpr => intro ⟨hb, ht⟩; rw [hb, ht]

@[simp]
theorem error_ne_ok {e : ε} {b : β} {s t : σ} :
    ¬@Eq (Id (Except ε β × σ)) (.error e, s) (.ok b, t) := by
  intro h
  cases h

theorem ite_run {c : Prop} [Decidable c] (x y : ExceptT ε (StateM σ) β) (s : σ) :
    (if c then x else y) s = if c then x s else y s := by
  split <;> rfl

theorem throw_bind_run (e : ε) (f : β → ExceptT ε (StateM σ) γ) (s : σ) :
    (throw e >>= f) s = (.error e, s) := rfl

-- A program with another result, or without one, changes the state in the same way.
theorem return_run (x : ExceptT ε (StateM σ) β) (g : β → γ) (s : σ) :
    ((do return g (← x) : ExceptT ε (StateM σ) γ) s).2 = (x s).2 := by
  rw [bind_run]
  cases x s
  case mk r t => cases r <;> rfl

theorem discard_run (x : ExceptT ε (StateM σ) β) (s : σ) :
    ((do let _ ← x : ExceptT ε (StateM σ) Unit) s).2 = (x s).2 :=
  return_run x (fun _ => ()) s

-- Results that come without a state.
theorem except_bind_eq_ok {x : Except ε β} {f : β → Except ε γ} {c : γ} :
    (x >>= f) = .ok c ↔ ∃ b, x = .ok b ∧ f b = .ok c := by
  constructor
  case mp =>
    intro h
    cases x
    case error => cases h
    case ok b => exact ⟨b, rfl, h⟩
  case mpr =>
    intro ⟨b, hx, hf⟩
    rw [hx]
    exact hf

theorem mapError_eq_ok {x : Except ε β} {f : ε → δ} {b : β} :
    x.mapError f = .ok b ↔ x = .ok b := by
  cases x <;> constructor <;> intro h <;> cases h <;> rfl

-- A check that comes first, and what follows where nothing is refused.
theorem refusal_eq_ok {check : Except ε Bool} {f : ε → δ} {e : δ} {k : Unit → Except δ β} {b : β} :
    (check.mapError f >>= fun refused => if refused = true then throw e >>= k else k ()) = .ok b ↔
      check = .ok false ∧ k () = .ok b := by
  constructor
  case mp =>
    intro h
    obtain ⟨refused, hcheck, h⟩ := except_bind_eq_ok.mp h
    rw [mapError_eq_ok] at hcheck
    cases refused
    case true => cases h
    case false => exact ⟨hcheck, h⟩
  case mpr =>
    rintro ⟨rfl, h⟩
    exact h

-- A relation between states that every run of the program establishes, whatever its outcome.
def Keeps (R : σ → σ → Prop) (x : ExceptT ε (StateM σ) β) : Prop :=
  ∀ s, R s (x s).2

namespace Keeps

variable {R : σ → σ → Prop} {x : ExceptT ε (StateM σ) β} {f : β → ExceptT ε (StateM σ) γ}

theorem of_run (h : Keeps R x) {s t : σ} {r : Except ε β} (hs : x s = (r, t)) : R s t := by
  have := h s
  rwa [hs] at this

theorem pure (hr : ∀ s, R s s) (a : β) : Keeps R (pure a : ExceptT ε (StateM σ) β) :=
  fun s => hr s

theorem bind (ht : ∀ {s t u}, R s t → R t u → R s u) (hx : Keeps R x) (hf : ∀ a, Keeps R (f a)) :
    Keeps R (x >>= f) := by
  intro s
  cases hs : x s
  case mk r t =>
    have h := hx.of_run hs
    cases r
    case ok a => rw [bind_of_ok hs]; exact ht h (hf a t)
    case error e => rw [bind_of_error hs]; exact h

theorem foldlM {ι : Type} {f : β → ι → ExceptT ε (StateM σ) β} {items : List ι}
    (hr : ∀ s, R s s) (ht : ∀ {s t u}, R s t → R t u → R s u)
    (h : ∀ i ∈ items, ∀ b, Keeps R (f b i)) (b : β) : Keeps R (items.foldlM f b) := by
  induction items generalizing b
  case nil => exact .pure hr b
  case cons i items hi =>
    have ⟨hf, h⟩ := List.forall_mem_cons.mp h
    exact .bind ht (hf b) (hi h)

end Keeps
end NonlinearProgram.Program
