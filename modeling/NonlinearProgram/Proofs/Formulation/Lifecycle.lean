import Mathlib.Logic.Relation
import NonlinearProgram.Proofs.Formulation.Effects
import NonlinearProgram.Proofs.Formulation.Lagrangian
import NonlinearProgram.Proofs.Formulation.Progress

-- A formulation is finalized again and again, by a problem that may answer differently each time,
-- and used in between. All that it holds comes from one of these calls, or it is not finalized.

namespace NonlinearProgram

open Program FormulationM Relation

variable {α : Type} [Scalar α]

-- The scratch arrays are of the sizes that the core asks for and no two are the same, and the
-- blocks go together with the core.
structure Finalized.Sound (d : Finalized α) (s : Store α) : Prop where
  point : s.Owns d.point [d.core.userLayout.localSize.toNat]
  gradient : s.Owns d.gradient [d.core.userLayout.localSize.toNat]
  derivatives : d.derivatives.Fit d.core s
  distinct : (d.arrays.map View.buffer).Nodup
  blocks : ∀ b ∈ d.derivatives.blocks?, b.Admissible d.core

theorem Finalized.Sound.writes {d : Finalized α} {s t : Store α} {touched : Nat → Prop}
    (h : d.Sound s) (hw : s.Writes touched t) : d.Sound t :=
  { h with
    point := h.point.writes hw
    gradient := h.gradient.writes hw
    derivatives := h.derivatives.owns fun _ _ _ h => h.writes hw }

namespace Formulation

-- There is memory for the scratch arrays of the data that a finalization accepts.
def Affords (p : Problem α) (s : Session α) : Prop :=
  ∀ core blocks t, derive p s = (.ok (core, blocks), t) → core.Affordable blocks

-- A finalization that succeeded left these parts, with arrays that were not there before.
structure Leaves (p : Problem α) (s t : Session α) (d : Finalized α) : Prop where
  returned : finalize p s = (.ok true, t)
  finalized : t.formulation.finalized = some d
  fresh : ∀ w ∈ d.scratch, s.store.buffers.length ≤ w.buffer ∧ w.buffer < t.store.buffers.length

-- One thing after the other that can happen to a formulation. Beside what is done with it, solvers
-- write into arrays and make new ones.
inductive Step : Session α → Session α → Prop
  | finalize {s : Session α} (p : Problem α) (ha : Affords p s) :
    Step s (Formulation.finalize p s).2
  | use {s : Session α} (p : Problem α) (u : Usage α) : Step s (u.run p s).2
  | elsewhere {s t : Session α} (hf : t.formulation = s.formulation)
    (hw : s.store.Writes (fun _ => True) t.store) : Step s t

variable {p : Problem α} {s t : Session α}

theorem leaves_of_finalize (h : finalize p s = (.ok true, t)) :
    ∃ d, Leaves p s t d ∧ d.Sound t.store := by
  obtain ⟨v, d, _, _, _, _, _, hderive, _, hF, _⟩ := parts_of_finalize h
  have hi := hF.intact
  have hl : v.layout = d.core.userLayout := hi.describes.userLayout.symm
  refine ⟨d, ⟨h, hF.finalized, fun w hw => ⟨finalize_fresh h hF.finalized w hw, ?_⟩⟩,
    hl ▸ hi.point, hl ▸ hi.gradient, hi.derivatives, hi.distinct, fun b hb => ?_⟩
  · exact (hF.ready.scratch_valid hw).left.lt_length
  · rw [hb] at hderive
    exact derive_admissible hderive

-- A finalization that ends with a fault did not touch anything.
theorem finalize_eq_error (ha : Affords p s) {e : Failure α} (h : finalize p s = (.error e, t)) :
    t.formulation = s.formulation ∧ s.store.Writes (fun _ => False) t.store := by
  have hw := finalize_writes p s
  rw [h] at hw
  refine ⟨?_, hw⟩
  obtain ⟨m, u, _, hf⟩ | ⟨e', u, _, hd, hf⟩ | ⟨core, blocks, u, hd, _⟩ := finalize_cases p s
  case inl => cases (hf.symm.trans h)
  case inr.inl =>
    cases hf.symm.trans h
    have hadds := (derive_adds p s).formulation
    rwa [hd] at hadds
  case inr.inr =>
    have ⟨u, hf, _⟩ := finalize_of_derived hd (ha core blocks u hd)
    cases hf.symm.trans h

section

variable {β : Type}

omit [Scalar α]

end

section

variable (h : s.formulation.core = none)

include h

end

end Formulation

namespace Formulation

variable {start s t : Session α}

-- All that a formulation holds comes from one call that succeeded, or it is not finalized.
inductive Whole (start s : Session α) : Prop
  | unfinalized (h : s.formulation.core = none)
  | finalized {p : Problem α} {s₀ t₀ : Session α} {d : Finalized α}
    (hs : ReflTransGen Step start s₀) (hl : Leaves p s₀ t₀ d) (ht : ReflTransGen Step t₀ s)
    (hd : s.formulation.finalized = some d) (hsound : d.Sound s.store)

namespace Whole

-- What changes no part of the formulation and keeps the form of all arrays.
theorem keeps (h : Whole start s)
    (hf : ∃ stats, t.formulation = { s.formulation with stats := stats })
    (hw : s.store.Writes (fun _ => True) t.store) (hs : Step s t) : Whole start t := by
  obtain ⟨_, hf⟩ := hf
  cases h
  case unfinalized h => exact .unfinalized (hf ▸ h)
  case finalized hs₀ hl ht hd hsound =>
    exact .finalized hs₀ hl (ht.tail hs) (hf ▸ hd) (hsound.writes hw)

theorem step (hr : ReflTransGen Step start s) (h : Whole start s) (hs : Step s t) :
    Whole start t := by
  cases hs
  case finalize p ha =>
    cases hf : finalize p s
    case mk r t =>
      cases r
      case error e =>
        have ⟨hform, hw⟩ := finalize_eq_error ha hf
        have hs : Step s (finalize p s).2 := .finalize p ha
        rw [hf] at hs
        exact h.keeps ⟨_, hform⟩ (hw.mono fun _ => False.elim) hs
      case ok answer =>
        cases answer
        case false =>
          have ⟨m, u, _, ht⟩ := finalize_eq_false hf
          exact .unfinalized (ht ▸ rfl)
        case true =>
          have ⟨d, hl, hsound⟩ := leaves_of_finalize hf
          exact .finalized hr hl .refl hl.finalized hsound
  case use p u =>
    have he := u.effect p s
    exact h.keeps he.formulation he.store (.use p u)
  case elsewhere hf hw => exact h.keeps ⟨_, hf⟩ hw (.elsewhere hf hw)

theorem of_steps (h₀ : start.formulation.core = none) (h : ReflTransGen Step start s) :
    Whole start s := by
  induction h
  case refl => exact .unfinalized h₀
  case tail hr hs ih => exact ih.step hr hs

end Whole

end Formulation
end NonlinearProgram
