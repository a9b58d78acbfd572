import NonlinearProgram.Proofs.Formulation.Contract
import NonlinearProgram.Proofs.Formulation.Effects
import NonlinearProgram.Proofs.Formulation.Repetition
import NonlinearProgram.Proofs.Mirror
import NonlinearProgram.Proofs.Tensor

-- Two formulations of one problem do the same work in sessions that are alike, each in scratch
-- arrays of its own. What the scratch arrays hold may differ.

namespace NonlinearProgram

open Program FormulationM Callback

variable {α β γ : Type}

theorem FormulationM.onStore_of_error {act : StoreM α β} {s : Session α} {e : ValueFault}
    {st : Store α} (h : act s.store = (.error e, st)) :
    onStore act s = (.error (.numeric e), { s with store := st }) := by
  simp only [onStore, h]
  rfl

-- What a problem is asked, apart from what a scratch array holds that it is to fill.
def Evaluation.blank [Zero α] : Evaluation α → Evaluation α
  | .gradient x out => .gradient x (out.map fun _ => 0)
  | .denseJacobian x m indices rows => .denseJacobian x m indices (rows.map (·.map fun _ => 0))
  | e => e

def Evaluation.point : Evaluation α → Point α
  | .objective x | .gradient x _ | .constraints x _ _ _ | .denseJacobian x _ _ _
  | .blockJacobian x _ _ _ | .hessian x _ _ _ _ _ => x

def Evaluation.multipliers? : Evaluation α → Option (List α)
  | .hessian _ _ _ ys _ _ => some ys
  | _ => none

def Call.blank [Zero α] : Call α → Call α
  | .evaluation e => .evaluation e.blank
  | c => c

-- Two formulations of one surveyed problem, the calls that were made before, and the multipliers in
-- the order of the problem's constraints, if there are any.
structure Twins (α : Type) where
  problem : Problem α
  options : Options α
  survey : Core.Survey α
  first : Finalized α
  second : Finalized α
  before : List (Call α)
  duals? : Option (List α)

namespace Twins

variable {T : Twins α} {u w : View}

-- An array that is no scratch array of either of them.
def Outside (T : Twins α) (k : Nat) : Prop := ¬T.first.IsScratch k ∧ ¬T.second.IsScratch k

-- One array outside, or scratch arrays that serve the same purpose.
def Counterparts (T : Twins α) (u w : View) : Prop :=
  w = u ∧ T.Outside u.buffer ∨
    ∃ i : Nat, T.first.arrays[i]? = some u ∧ T.second.arrays[i]? = some w

theorem isScratch_of_getElem? {d : Finalized α} {i : Nat} (h : d.arrays[i]? = some u) :
    d.IsScratch u.buffer :=
  ⟨u, List.mem_append_left _ (List.mem_of_getElem? h), rfl⟩

theorem Counterparts.eq_of_outside (h : T.Counterparts u w)
    (ho : T.Outside u.buffer ∨ T.Outside w.buffer) : w = u := by
  obtain ⟨rfl, _⟩ | ⟨i, hu, hw⟩ := h
  · rfl
  · obtain ho | ho := ho
    · exact absurd (isScratch_of_getElem? hu) ho.left
    · exact absurd (isScratch_of_getElem? hw) ho.right

-- A counterpart of a scratch array is one as well.
theorem Counterparts.outside_iff (h : T.Counterparts u w) :
    T.Outside u.buffer ↔ T.Outside w.buffer := by
  constructor
  · exact fun ho => h.eq_of_outside (.inl ho) ▸ ho
  · exact fun ho => h.eq_of_outside (.inr ho) ▸ ho

theorem counterparts_point (T : Twins α) : T.Counterparts T.first.point T.second.point :=
  .inr ⟨0, rfl, rfl⟩

theorem counterparts_gradient (T : Twins α) : T.Counterparts T.first.gradient T.second.gradient :=
  .inr ⟨1, rfl, rfl⟩

variable [Scalar α] {a a' b b' : Session α} {s t : Store α}

-- The eliminated variables have their fixed values.
def AtFixed (T : Twins α) (xs : List α) : Prop :=
  ∀ i ∈ setPositions (T.survey.eliminated T.options T.first.core),
    xs[i]? = (Core.midpoints T.survey.variableData)[i]?

-- An evaluation at a point like this, with the multipliers.
structure Proper (T : Twins α) (e : Evaluation α) : Prop where
  point : T.AtFixed e.point.entries.entries
  multipliers : ∀ ys ∈ e.multipliers?, ∀ zs ∈ T.duals?, ys = zs

-- Since then, the problem was asked the same on both sides.
def Asked (T : Twins α) (calls calls' : List (Call α)) : Prop :=
  ∃ new new', calls = T.before ++ new ∧ calls' = T.before ++ new' ∧
    new'.map Call.blank = new.map Call.blank ∧
    ∀ e, .evaluation e ∈ new → T.Proper e

theorem Asked.append {calls calls' : List (Call α)} {e e' : Evaluation α} (h : T.Asked calls calls')
    (he : e'.blank = e.blank) (hx : T.Proper e) :
    T.Asked (calls ++ [.evaluation e]) (calls' ++ [.evaluation e']) := by
  obtain ⟨new, new', rfl, rfl, hb, hf⟩ := h
  refine ⟨new ++ [.evaluation e], new' ++ [.evaluation e'], List.append_assoc ..,
    List.append_assoc .., by simp [hb, Call.blank, he], fun e₁ hm => ?_⟩
  rcases List.mem_append.mp hm with hm | hm
  · exact hf e₁ hm
  · cases List.mem_singleton.mp hm
    exact hx

theorem Asked.mem_drop {calls calls' : List (Call α)} (h : T.Asked calls calls') (c : Call α) :
    c ∈ (calls ++ [c]).drop T.before.length := by
  obtain ⟨new, _, rfl, _⟩ := h
  simp

-- Sessions that are alike, each with one of the two formulations.
structure Alongside (T : Twins α) (a b : Session α) : Prop where
  first : Formulation.Ready T.problem T.first T.options T.survey a
  second : Formulation.Ready T.problem T.second T.options T.survey b
  core : T.second.core.Alike T.first.core
  blocks : T.second.derivatives.blocks? = T.first.derivatives.blocks?
  apart : ∀ k, T.first.IsScratch k → ¬T.second.IsScratch k
  kind : b.formulation.kind = a.formulation.kind
  arrays : b.store.buffers.length = a.store.buffers.length
  outside : ∀ k, T.Outside k → b.store.buffers[k]? = a.store.buffers[k]?
  matrices : b.matrices = a.matrices
  events : b.events = a.events
  trace : T.Asked a.trace b.trace

namespace Alongside

theorem userSize (h : T.Alongside a b) : T.second.core.userSize = T.first.core.userSize :=
  h.second.intact.describes.userSize.trans h.first.intact.describes.userSize.symm

theorem constraintCount (h : T.Alongside a b) :
    T.second.core.constraintCount = T.first.core.constraintCount :=
  h.second.intact.describes.constraintCount.trans h.first.intact.describes.constraintCount.symm

theorem userLayout (h : T.Alongside a b) : T.second.core.userLayout = T.first.core.userLayout :=
  h.second.intact.describes.userLayout.trans h.first.intact.describes.userLayout.symm

theorem split (h : T.Alongside a b) : T.second.core.split = T.first.core.split :=
  h.second.intact.describes.split.trans h.first.intact.describes.split.symm

theorem indices (h : T.Alongside a b) (group : ConstraintGroup) :
    T.second.core.indices group = T.first.core.indices group := by
  cases group <;> simp only [Core.indices, h.split]

theorem localSize (h : T.Alongside a b) : T.second.core.localSize = T.first.core.localSize := by
  rw [Core.localSize, h.core.layout, Core.localSize]

-- The same shape, with room for all entries.
theorem owns (h : T.Alongside a b) {i : Nat} (hu : T.first.arrays[i]? = some u)
    (hw : T.second.arrays[i]? = some w) :
    ∃ shape, a.store.Owns u shape ∧ b.store.Owns w shape := by
  have hp := h.first.intact.point
  have hp' := h.second.intact.point
  have hg := h.first.intact.gradient
  have hg' := h.second.intact.gradient
  have hd := h.first.intact.derivatives
  have hd' := h.second.intact.derivatives
  have hb := h.blocks
  rw [Finalized.arrays] at hu hw
  rcases i with _ | _ | i
  case zero => cases hu; cases hw; exact ⟨_, hp, hp'⟩
  case succ.zero => cases hu; cases hw; exact ⟨_, hg, hg'⟩
  case succ.succ =>
    simp only [List.getElem?_cons_succ] at hu hw
    cases h₁ : T.first.derivatives <;> cases h₂ : T.second.derivatives <;>
      simp only [h₁, h₂, Derivatives.blocks?, reduceCtorEq] at hb hd hd' hu hw
    case dense.dense =>
      simp only [Derivatives.Fit, Core.equalityCount, Core.inequalityCount, h.split,
        h.userLayout] at hd hd'
      rcases i with _ | _ | i
      case zero => cases hu; cases hw; exact ⟨_, hd.left, hd'.left⟩
      case succ.zero => cases hu; cases hw; exact ⟨_, hd.right, hd'.right⟩
      case succ.succ => cases hu
    case mixed.mixed =>
      simp only [Derivatives.Fit, h.constraintCount] at hd hd'
      rcases i with _ | i
      case zero => cases hu; cases hw; exact ⟨_, hd, hd'⟩
      case succ => cases hu

theorem shape (h : T.Alongside a b) (hc : T.Counterparts u w) : w.shape = u.shape := by
  obtain ⟨rfl, _⟩ | ⟨i, hu, hw⟩ := hc
  · rfl
  · obtain ⟨shape, hu, hw⟩ := h.owns hu hw
    exact hw.left.trans hu.left.symm

-- Scratch arrays for the same purpose have as many entries.
theorem lengths (h : T.Alongside a b) {i : Nat} (hu : T.first.arrays[i]? = some u)
    (hw : T.second.arrays[i]? = some w) :
    (a.store.entries u).length = u.size ∧ (b.store.entries w).length = u.size := by
  obtain ⟨_, ho, ho'⟩ := h.owns hu hw
  have hshape := h.shape (.inr ⟨i, hu, hw⟩)
  exact ⟨Store.length_entries ho.valid,
    (Store.length_entries ho'.valid).trans (congrArg Tensor.sizeOf hshape)⟩

-- Scratch arrays for different purposes are different arrays.
theorem buffer_eq_iff (h : T.Alongside a b) {u' w' : View} (hc : T.Counterparts u w)
    (hc' : T.Counterparts u' w') : u'.buffer = u.buffer ↔ w'.buffer = w.buffer := by
  have index {d : Finalized α} (hd : (d.arrays.map View.buffer).Nodup) {i j : Nat} {u u' : View}
      (hu : d.arrays[i]? = some u) (hu' : d.arrays[j]? = some u') :
      u'.buffer = u.buffer ↔ i = j := by
    constructor
    case mp =>
      intro he
      have hi : i < (d.arrays.map View.buffer).length := by
        simpa using (List.getElem?_eq_some_iff.mp hu).choose
      exact (List.getElem?_inj hi hd).mp (by simp [hu, hu', he])
    case mpr =>
      rintro rfl
      cases hu.symm.trans hu'
      rfl
  by_cases ho : T.Outside u.buffer
  case pos =>
    obtain rfl := hc.eq_of_outside (.inl ho)
    constructor
    · exact fun he => hc'.eq_of_outside (.inl (he ▸ ho)) ▸ he
    · exact fun he => hc'.eq_of_outside (.inr (he ▸ ho)) ▸ he
  case neg =>
    by_cases ho' : T.Outside u'.buffer
    case pos =>
      exact iff_of_false (fun he => ho (he ▸ ho'))
        fun he => ho (hc.outside_iff.mpr (he ▸ hc'.outside_iff.mp ho'))
    case neg =>
      obtain ⟨i, hu, hw⟩ := hc.resolve_left fun hs => ho hs.right
      obtain ⟨j, hu', hw'⟩ := hc'.resolve_left fun hs => ho' hs.right
      rw [index h.first.intact.distinct hu hu', index h.second.intact.distinct hw hw']

-- What is handed to the problem is no array of the transformations.
theorem apart_first (h : T.Alongside a b) (hc : T.Counterparts u w) {r : View}
    (hr : r ∈ T.first.core.chain.scratch) : u.buffer ≠ r.buffer := by
  obtain ⟨rfl, ho, _⟩ | ⟨i, hu, _⟩ := hc
  · exact fun he => ho (he ▸ Finalized.chain_scratch hr)
  · exact h.first.intact.separate u (List.mem_of_getElem? hu) r hr

theorem apart_second (h : T.Alongside a b) (hc : T.Counterparts u w) {r : View}
    (hr : r ∈ T.second.core.chain.scratch) : w.buffer ≠ r.buffer := by
  obtain ⟨rfl, _, ho⟩ | ⟨i, _, hw⟩ := hc
  · exact fun he => ho (he ▸ Finalized.chain_scratch hr)
  · exact h.second.intact.separate w (List.mem_of_getElem? hw) r hr

-- The stores change in both sessions, alike outside of the scratch arrays, and the fixed values
-- stay where they are.
theorem stores {touched touched' : Nat → Prop} (h : T.Alongside a b)
    (hs : a.store.Writes touched s) (ht : b.store.Writes touched' t)
    (hw : ∀ {k x}, a.store.buffers[k]? = some x → touched k → x.writable)
    (hw' : ∀ {k x}, b.store.buffers[k]? = some x → touched' k → x.writable)
    (he : T.first.core.chain.Eliminates (T.survey.eliminated T.options T.first.core)
      (Core.midpoints T.survey.variableData) s)
    (he' : T.second.core.chain.Eliminates (T.survey.eliminated T.options T.second.core)
      (Core.midpoints T.survey.variableData) t)
    (hl : t.buffers.length = s.buffers.length)
    (ho : ∀ k, T.Outside k → t.buffers[k]? = s.buffers[k]?) :
    T.Alongside { a with store := s } { b with store := t } :=
  { h with
    first := h.first.undisturbed (h.first.writes ⟨_, rfl⟩ hs hw he)
    second := h.second.undisturbed (h.second.writes ⟨_, rfl⟩ ht hw' he')
    arrays := hl
    outside := ho }

theorem outside_length (h : T.Alongside a b) : T.Outside a.store.buffers.length := by
  constructor
  · rintro ⟨u, hu, he⟩
    exact Nat.ne_of_lt (h.first.scratch_valid hu).left.lt_length he
  · rintro ⟨u, hu, he⟩
    exact Nat.ne_of_lt (h.second.scratch_valid hu).left.lt_length (he.trans h.arrays.symm)

-- Both make the same new array.
theorem alloc (h : T.Alongside a b) (x : Tensor α) :
    T.Alongside { a with store := (a.store.alloc x).2 } { b with store := (b.store.alloc x).2 } ∧
      (b.store.alloc x).1 = (a.store.alloc x).1 ∧ T.Outside (a.store.alloc x).1.buffer := by
  have hs : a.store.Writes (fun _ => False) (a.store.alloc x).2 := .alloc x
  have ht : b.store.Writes (fun _ => False) (b.store.alloc x).2 := .alloc x
  refine ⟨h.stores hs ht (fun _ => False.elim) (fun _ => False.elim)
    (h.first.eliminates.writes hs fun _ _ => id) (h.second.eliminates.writes ht fun _ _ => id)
    ?length fun k hk => ?outside, ?view, h.outside_length⟩
  case length => simp [Store.alloc, h.arrays]
  case outside =>
    simp only [Store.alloc, List.getElem?_append, h.arrays, h.outside k hk]
  case view => simp [Store.alloc, h.arrays]

-- Both overwrite a scratch array for the same purpose, each in its own way.
theorem update_scratch (h : T.Alongside a b) {i : Nat} (hu : T.first.arrays[i]? = some u)
    (hw : T.second.arrays[i]? = some w) {f g : List α → List α}
    (hf : ∀ xs, (f xs).length = xs.length) (hg : ∀ xs, (g xs).length = xs.length) :
    T.Alongside { a with store := a.store.update u.buffer f }
      { b with store := b.store.update w.buffer g } := by
  have hs : a.store.Writes (· = u.buffer) (a.store.update u.buffer f) := .update rfl hf
  have ht : b.store.Writes (· = w.buffer) (b.store.update w.buffer g) := .update rfl hg
  have hmem := List.mem_of_getElem? hu
  have hmem' := List.mem_of_getElem? hw
  refine h.stores hs ht
    (fun hb hk => h.first.writable hb (hk ▸ isScratch_of_getElem? hu))
    (fun hb hk => h.second.writable hb (hk ▸ isScratch_of_getElem? hw))
    (h.first.eliminates.writes hs fun r hr he => h.first.intact.separate u hmem r hr he.symm)
    (h.second.eliminates.writes ht fun r hr he => h.second.intact.separate w hmem' r hr he.symm)
    ?length fun k hk => ?outside
  case length => simp [Store.update, h.arrays]
  case outside =>
    rw [Store.buffers_update_of_ne, Store.buffers_update_of_ne, h.outside k hk]
    · rintro rfl
      exact hk.left (isScratch_of_getElem? hu)
    · rintro rfl
      exact hk.right (isScratch_of_getElem? hw)

theorem setEntries_scratch (h : T.Alongside a b) {i : Nat} (hu : T.first.arrays[i]? = some u)
    (hw : T.second.arrays[i]? = some w) (xs ys : List α) :
    T.Alongside { a with store := a.store.setEntries u xs }
      { b with store := b.store.setEntries w ys } := by
  simp only [Store.setEntries_eq_update]
  exact h.update_scratch hu hw (Store.length_setEntries xs) (Store.length_setEntries ys)

-- Both overwrite the same array outside, in the same way.
theorem update_outside (h : T.Alongside a b) (ho : T.Outside u.buffer) (hw : a.store.writable u)
    {f : List α → List α} (hf : ∀ xs, (f xs).length = xs.length) :
    T.Alongside { a with store := a.store.update u.buffer f }
      { b with store := b.store.update u.buffer f } := by
  have hs : a.store.Writes (· = u.buffer) (a.store.update u.buffer f) := .update rfl hf
  have ht : b.store.Writes (· = u.buffer) (b.store.update u.buffer f) := .update rfl hf
  have hchain {d : Finalized α} (hd : ¬d.IsScratch u.buffer) (r : View)
      (hr : r ∈ d.core.chain.scratch) : r.buffer ≠ u.buffer :=
    fun he => hd (he ▸ Finalized.chain_scratch hr)
  have hwritable {x : Buffer α} (hx : a.store.buffers[u.buffer]? = some x) : x.writable := by
    rwa [Store.writable_of_buffer hx] at hw
  refine h.stores hs ht (fun hb hk => hwritable (hk ▸ hb))
    (fun hb hk => hwritable (by rw [← h.outside _ ho, ← hk, hb]))
    (h.first.eliminates.writes hs (hchain ho.left))
    (h.second.eliminates.writes ht (hchain ho.right)) ?length fun k hk => ?outside
  case length => simp [Store.update, h.arrays]
  case outside => simp only [Store.update, List.getElem?_modify, h.outside k hk]

end Alongside

-- Work ends in the same way on both sides, with results that go together.
inductive Ends (T : Twins α) (post : β → β → Session α → Session α → Prop) (s : Store α) :
    Except (Failure α) β × Session α → Except (Failure α) β × Session α → Prop
  | ok {x y : β} {a b : Session α} (h : T.Alongside a b)
    (hs : s.Writes (fun _ => True) a.store) (hp : post x y a b) :
    Ends T post s (.ok x, a) (.ok y, b)
  | error {e : Failure α} {a b : Session α} (h : T.Alongside a b)
    (hs : s.Writes (fun _ => True) a.store) : Ends T post s (.error e, a) (.error e, b)

-- The problem is asked the same on both sides. If it does what it should with what it is asked, the
-- work ends in the same way.
structure Accord (T : Twins α) (should : Evaluation α → Prop)
    (post : β → β → Session α → Session α → Prop) (x y : FormulationM α β) (a b : Session α) :
    Prop where
  trace : T.Asked (x a).2.trace (y b).2.trace
  ends : (∀ e, .evaluation e ∈ (x a).2.trace.drop T.before.length → should e) →
    T.Ends post a.store (x a) (y b)

-- It does not matter what the problem does.
abbrev Unison (T : Twins α) (post : β → β → Session α → Session α → Prop) (x y : FormulationM α β)
    (a b : Session α) : Prop := T.Accord (fun _ => True) post x y a b

theorem Ends.writes {post : β → β → Session α → Session α → Prop}
    {x y : Except (Failure α) β × Session α} (h : T.Ends post t x y)
    (hs : s.Writes (fun _ => True) t) : T.Ends post s x y := by
  cases h
  case ok h ht hp => exact .ok h (hs.and_then ht) hp
  case error h ht => exact .error h (hs.and_then ht)

theorem Ends.outcome {r r' : Except (Failure α) β}
    (h : T.Ends (fun i j _ _ => j = i) s (r, a) (r', b)) : r' = r ∧ T.Alongside a b := by
  cases h
  case ok hp _ h => exact ⟨congrArg Except.ok hp, h⟩
  case error _ h => exact ⟨rfl, h⟩

namespace Accord

variable {should : Evaluation α → Prop} {mid post : β → β → Session α → Session α → Prop}
  {last : γ → γ → Session α → Session α → Prop} {x y : FormulationM α β}
  {f g : β → FormulationM α γ} {i j : β}

theorem of_ends (h : T.Ends post a.store (x a) (y b)) : T.Accord should post x y a b := by
  refine ⟨?_, fun _ => h⟩
  generalize x a = r at h
  generalize y b = r' at h
  cases h
  case ok h _ _ => exact h.trace
  case error h _ => exact h.trace

theorem of_ok (hx : x a = (.ok i, a')) (hy : y b = (.ok j, b')) (h : T.Alongside a' b')
    (hs : a.store.Writes (fun _ => True) a'.store) (hp : post i j a' b') :
    T.Accord should post x y a b :=
  .of_ends (by rw [hx, hy]; exact .ok h hs hp)

theorem of_error {e : Failure α} (hx : x a = (.error e, a')) (hy : y b = (.error e, b'))
    (h : T.Alongside a' b') (hs : a.store.Writes (fun _ => True) a'.store) :
    T.Accord should post x y a b :=
  .of_ends (by rw [hx, hy]; exact .error h hs)

theorem pure (h : T.Alongside a b) (hp : post i j a b) :
    T.Accord should post (pure i) (pure j) a b :=
  .of_ends (.ok h (.refl _ _) hp)

theorem throw (h : T.Alongside a b) (e : Failure α) :
    T.Accord should post (throw e) (throw e) a b :=
  .of_ends (.error h (.refl _ _))

theorem throw_bind (h : T.Alongside a b) (e : Failure α) (f g : β → FormulationM α γ) :
    T.Accord should last (MonadExcept.throw e >>= f) (MonadExcept.throw e >>= g) a b :=
  .of_ends (.error h (.refl _ _))

theorem bind (hx : T.Unison mid x y a b)
    (hf : ∀ i j a' b', T.Alongside a' b' → a.store.Writes (fun _ => True) a'.store →
      mid i j a' b' → T.Accord should last (f i) (g j) a' b') :
    T.Accord should last (x >>= f) (y >>= g) a b := by
  have h := hx.ends fun _ _ => trivial
  constructor
  all_goals
    rw [bind_run, bind_run]
    generalize x a = r at h
    generalize y b = r' at h
    cases h
  case trace.ok h hs hp => exact (hf _ _ _ _ h hs hp).trace
  case trace.error h _ => exact h.trace
  case ends.ok h hs hp => exact fun hsure => ((hf _ _ _ _ h hs hp).ends hsure).writes hs
  case ends.error h hs => exact fun _ => .error h hs

theorem next (hx : T.Unison (fun i j _ _ => j = i) x y a b)
    (hf : ∀ i a' b', T.Alongside a' b' → a.store.Writes (fun _ => True) a'.store →
      T.Accord should last (f i) (g i) a' b') :
    T.Accord should last (x >>= f) (y >>= g) a b :=
  hx.bind fun i _ a' b' h hs hp => hp ▸ hf i a' b' h hs

-- What follows asks nothing.
theorem bind_quiet (hx : T.Accord should mid x y a b) (hfx : ∀ i, Keeps SameTrace (f i))
    (hgx : ∀ j, Keeps SameTrace (g j))
    (hf : ∀ i j a' b', T.Alongside a' b' → a.store.Writes (fun _ => True) a'.store →
      mid i j a' b' → T.Unison last (f i) (g j) a' b') :
    T.Accord should last (x >>= f) (y >>= g) a b := by
  constructor
  case trace =>
    rw [SameTrace.of_bind hfx a, SameTrace.of_bind hgx b]
    exact hx.trace
  case ends =>
    rw [SameTrace.of_bind hfx a]
    intro hsure
    have hx : T.Unison mid x y a b := ⟨hx.trace, fun _ => hx.ends hsure⟩
    exact (hx.bind hf).ends fun _ _ => trivial

-- What only reads is done on both sides.
theorem after (hx : x a = (.ok i, a)) (hy : y b = (.ok j, b))
    (h : T.Accord should last (f i) (g j) a b) : T.Accord should last (x >>= f) (y >>= g) a b := by
  constructor
  · rw [bind_of_ok hx, bind_of_ok hy]
    exact h.trace
  · rw [bind_of_ok hx, bind_of_ok hy]
    exact h.ends

theorem ite {c c' : Prop} [Decidable c] [Decidable c'] {x' y' : FormulationM α β} (hc : c' ↔ c)
    (hx : c → T.Accord should post x y a b) (hy : ¬c → T.Accord should post x' y' a b) :
    T.Accord should post (if c then x else x') (if c' then y else y') a b := by
  by_cases h : c
  case pos => rw [if_pos h, if_pos (hc.mpr h)]; exact hx h
  case neg => rw [if_neg h, if_neg (mt hc.mp h)]; exact hy h

theorem mono {post' : β → β → Session α → Session α → Prop} (h : T.Accord should post x y a b)
    (hp : ∀ i j a' b', post i j a' b' → post' i j a' b') : T.Accord should post' x y a b := by
  refine ⟨h.trace, fun hsure => ?_⟩
  have h := h.ends hsure
  generalize x a = r at h ⊢
  generalize y b = r' at h ⊢
  cases h
  case ok h hs hp' => exact .ok h hs (hp _ _ _ _ hp')
  case error h hs => exact .error h hs

-- Where each side is known to write, nothing else changes.
theorem writing {touched touched' : Nat → Prop} (h : T.Accord should post x y a b)
    (hx : a.store.Writes touched (x a).2.store) (hy : b.store.Writes touched' (y b).2.store) :
    T.Accord should (fun i j a' b' => post i j a' b' ∧ a.store.Writes touched a'.store ∧
      b.store.Writes touched' b'.store) x y a b := by
  refine ⟨h.trace, fun hshould => ?_⟩
  have h := h.ends hshould
  generalize x a = r at h hx ⊢
  generalize y b = r' at h hy ⊢
  cases h
  case ok h hs hp => exact .ok h hs ⟨hp, hx, hy⟩
  case error h hs => exact .error h hs

theorem of_unison (h : T.Unison post x y a b) : T.Accord should post x y a b :=
  ⟨h.trace, fun _ => h.ends fun _ _ => trivial⟩

end Accord

-- On both sides, what was finalized and its arrays are as they were.
theorem Alongside.of_same {a' b' : Session α} (h : T.Alongside a b)
    (ha : a'.formulation.finalized = a.formulation.finalized ∧ a'.store = a.store)
    (hb : b'.formulation.finalized = b.formulation.finalized ∧ b'.store = b.store)
    (hm : b'.matrices = a'.matrices) (he : b'.events = a'.events)
    (ht : T.Asked a'.trace b'.trace) : T.Alongside a' b' where
  first := ⟨h.first.surveyed, ha.left.trans h.first.finalized, ha.right ▸ h.first.intact⟩
  second := ⟨h.second.surveyed, hb.left.trans h.second.finalized, hb.right ▸ h.second.intact⟩
  core := h.core
  blocks := h.blocks
  apart := h.apart
  kind := by
    rw [← Formulation.kind_of_finalized (ha.left.trans h.first.finalized),
      ← Formulation.kind_of_finalized (hb.left.trans h.second.finalized),
      Formulation.kind_of_finalized h.first.finalized,
      Formulation.kind_of_finalized h.second.finalized, h.kind]
  arrays := by rw [ha.right, hb.right, h.arrays]
  outside k hk := by rw [ha.right, hb.right, h.outside k hk]
  matrices := hm
  events := he
  trace := ht

-- Only the statistics change, and they may differ.
theorem Alongside.counted (h : T.Alongside a b) (op : Operation) (s t : Session α) :
    T.Alongside (s.counted op a) (t.counted op b) :=
  h.of_same ⟨rfl, rfl⟩ ⟨rfl, rfl⟩ h.matrices h.events h.trace

theorem Accord.timed {should : Evaluation α → Prop} {x y : FormulationM α β} (op : Operation)
    (h : T.Accord should (fun i j _ _ => j = i) x y a b) :
    T.Accord should (fun i j _ _ => j = i) (timed op x) (timed op y) a b := by
  refine ⟨h.trace, fun hshould => ?_⟩
  have h := h.ends hshould
  rw [timed_run (rfl : x a = ((x a).1, (x a).2)), timed_run (rfl : y b = ((y b).1, (y b).2))]
  generalize x a = r at h ⊢
  generalize y b = r' at h ⊢
  cases h
  case ok h hs hpost => exact .ok (h.counted op a b) hs hpost
  case error h hs => exact .error (h.counted op a b) hs

namespace Alongside

theorem eliminated (h : T.Alongside a b) : T.survey.eliminated T.options T.second.core =
    T.survey.eliminated T.options T.first.core := by
  simp only [Core.Survey.eliminated, h.core.policy, h.core.fixedCount]

-- Arrays outside hold the same.
theorem read_outside (h : T.Alongside a b) (ho : T.Outside u.buffer) :
    b.store.read u = a.store.read u := by
  simp only [Store.read, Store.entries, h.outside _ ho]

theorem writable_outside (h : T.Alongside a b) (ho : T.Outside u.buffer) :
    b.store.writable u = a.store.writable u := by
  simp only [Store.writable, h.outside _ ho]

end Alongside

-- A vector that the solver hands over has an array outside, if it has one.
def Lends (T : Twins α) (s : Store α) (x : Argument α) : Prop :=
  ∀ u ∈ x.view?, T.Outside u.buffer ∧ s.Valid u

omit [Scalar α] in
theorem Lends.writes {x : Argument α} {touched : Nat → Prop} (h : T.Lends s x)
    (hw : s.Writes touched t) : T.Lends t x :=
  fun u hu => ⟨(h u hu).left, hw.valid (h u hu).right⟩

theorem localPart_accord {x : Argument α} (h : T.Alongside a b) (hx : T.Lends a.store x) :
    T.Unison (fun u w a' _ => (w = u ∧ T.Outside u.buffer ∧ a'.store.Valid u) ∧
        ∀ v ∈ x.view?, u = v ∧ a'.store = a.store)
      (localPart x) (localPart x) a b := by
  cases x
  case absent =>
    obtain ⟨halloc, hview, ho⟩ := h.alloc ⟨[], [Scalar.undefined]⟩
    exact .of_ends (.ok halloc (.alloc _) ⟨⟨hview, ho, Store.valid_alloc _ rfl⟩, nofun⟩)
  case array u => exact .pure h ⟨⟨rfl, hx u rfl⟩, by rintro _ ⟨⟩; exact ⟨rfl, rfl⟩⟩
  case vector v => exact .pure h ⟨⟨rfl, hx v.view rfl⟩, by rintro _ ⟨⟩; exact ⟨rfl, rfl⟩⟩
  case matrix => exact .throw h _

omit [Scalar α] in
-- What a view holds has as many entries as its shape asks for.
theorem full_read (h : s.Valid u) : (s.read u).Full :=
  Store.length_entries h

-- Where nothing is eliminated, every point will do.
theorem Alongside.atFixed (h : T.Alongside a b) (hi : T.first.core.chain.Identical) (xs : List α) :
    T.AtFixed xs := by
  have he := h.first.eliminates
  intro i hm
  cases he
  case kept hmask _ =>
    rw [hmask] at hm
    have hmem := List.mem_of_getElem? (mem_setPositions.mp hm)
    simp at hmem
  case removed r hr _ => simp [Chain.Identical, hr] at hi

-- A point is mapped to an array of its own on both sides, or stays where it is.
theorem chain_pointToUser_accord (h : T.Alongside a b) (ho : T.Outside u.buffer)
    (hv : a.store.Valid u) :
    T.Unison (fun w w' a' b' => w = u ∧ w' = u ∧ a'.store.Valid u ∧
        T.AtFixed (a'.store.read u).entries ∨ w ≠ u ∧ w' ≠ u ∧
        w.shape = [T.survey.layout.localSize.toNat] ∧ a'.store.Valid w ∧
        b'.store.read w' = a'.store.read w ∧ T.AtFixed (a'.store.read w).entries)
      (onStore (T.first.core.chain.pointToUser u)) (onStore (T.second.core.chain.pointToUser u))
      a b := by
  have hread := h.read_outside ho
  have he := h.first.eliminates
  have he' := h.second.eliminates
  rw [h.eliminated] at he'
  cases he
  case kept hi _ _ =>
    have hi' := h.core.chain.identical.mpr hi
    exact .of_ok (onStore_of_ok (hi.foldlM (fun _ _ _ => rfl) u a.store).right)
      (onStore_of_ok (hi'.foldlM (fun _ _ _ => rfl) u b.store).right) h (.refl _ _)
      (.inl ⟨rfl, rfl, hv, h.atFixed hi _⟩)
  case removed r hi hr =>
    cases he'
    case kept hi' _ _ => simpa [Chain.Identical, hi] using h.core.chain.identical.mp hi'
    case removed r' hi' hr' =>
      have hmem := Finalized.chain_scratch (Chain.mem_scratch_of_remover hi List.mem_cons_self)
      have hmem' := Finalized.chain_scratch (Chain.mem_scratch_of_remover hi' List.mem_cons_self)
      cases hy : (a.store.read u).stretchedToSelection?
        [(clearPositions (T.survey.eliminated T.options T.first.core)).length]
      case none =>
        have hrun := r.toUser_of_not_stretched hr hy
        have hrun' := r'.toUser_of_not_stretched hr' (hread ▸ hy)
        rw [← Chain.pointToUser_of_remover hi] at hrun
        rw [← Chain.pointToUser_of_remover hi'] at hrun'
        exact .of_error (onStore_of_error hrun) (onStore_of_error hrun') h (.refl _ _)
      case some y =>
        have hl := (full_read hv).stretchedToSelection? hy
        obtain ⟨hrun, he, hint⟩ := r.toUser_of_stretched hr hy hl rfl
        obtain ⟨hrun', he', hint'⟩ := r'.toUser_of_stretched hr' (hread ▸ hy) hl rfl
        rw [← Chain.pointToUser_of_remover hi] at hrun
        rw [← Chain.pointToUser_of_remover hi'] at hrun'
        have hshape := hint.userPoint.left
        refine .of_ok (onStore_of_ok hrun) (onStore_of_ok hrun') ?_ (.scatter trivial)
          (.inr ⟨fun he => ho.left (he ▸ hmem), fun he => ho.right (he ▸ hmem'), ?shape,
            hint.userPoint.valid, ?read, hint.held⟩)
        case shape => rw [hshape, h.first.length_eliminated]
        case read => rw [Store.read, Store.read, he, he', hshape, hint'.userPoint.left]
        refine h.stores (.scatter rfl) (.scatter rfl) (fun hb hk => h.first.writable hb (hk ▸ hmem))
          (fun hb hk => h.second.writable hb (hk ▸ hmem')) (.removed r hi hint)
          (by rw [h.eliminated]; exact .removed r' hi' hint') ?length fun k hk => ?outside
        case length => simp [Store.scatter_eq_update, Store.update, h.arrays]
        case outside =>
          rw [Store.scatter_eq_update, Store.scatter_eq_update, Store.buffers_update_of_ne,
            Store.buffers_update_of_ne, h.outside k hk]
          · exact fun he => hk.left (he ▸ hmem)
          · exact fun he => hk.right (he ▸ hmem')

-- Scratch arrays for the same purpose take the same entries.
theorem assign_scratch_accord {i : Nat} {x : Tensor α} (h : T.Alongside a b)
    (hu : T.first.arrays[i]? = some u) (hw : T.second.arrays[i]? = some w) (hx : x.Full)
    (hs : x.shape = u.shape) (hne : u.shape ≠ []) :
    T.Unison (fun _ _ a' b' => a'.store.Valid u ∧ a'.store.read u = x ∧ b'.store.read w = x)
      (onStore (StoreM.assign u x)) (onStore (StoreM.assign w x)) a b := by
  obtain ⟨shape, ho, ho'⟩ := h.owns hu hw
  have hshape : w.shape = u.shape := ho'.left.trans ho.left.symm
  have hl : x.entries.length = u.size := hx.trans (congrArg Tensor.sizeOf hs)
  have hl' : x.entries.length = w.size := hl.trans (congrArg Tensor.sizeOf hshape.symm)
  have hrun := StoreM.assign_run ho.writable hs hne
  have hrun' := StoreM.assign_run ho'.writable (hs.trans hshape.symm) (hshape ▸ hne)
  have hsw : a.store.Writes (fun _ => True) (a.store.setEntries u x.entries) := .setEntries trivial
  refine .of_ok (onStore_of_ok hrun) (onStore_of_ok hrun') (h.setEntries_scratch hu hw _ _) hsw
    ⟨hsw.valid ho.valid, ?_, ?_⟩
  · rw [Store.read, Store.entries_setEntries ho.valid hl, ← hs]
  · rw [Store.read, Store.entries_setEntries ho'.valid hl', hshape, ← hs]

-- Counterparts that hold the same.
structure Twin (T : Twins α) (s t : Store α) (u w : View) : Prop where
  counterparts : T.Counterparts u w
  valid : s.Valid u
  read : t.read w = s.read u

-- Both problems see the same point, with the fixed values in their places.
theorem pointToUser_accord {x : Argument α} (h : T.Alongside a b) (hx : T.Lends a.store x) :
    T.Unison (fun u w a' b' => T.Twin a'.store b'.store u w ∧ T.AtFixed (a'.store.read u).entries)
      (Formulation.pointToUser x) (Formulation.pointToUser x) a b := by
  refine (localPart_accord h hx).bind fun u w a b h _ hw => ?_
  obtain ⟨⟨rfl, ho, hv⟩, _⟩ := hw
  refine .after (getCore_run h.first.finalized) (getCore_run h.second.finalized) ?_
  rw [h.localSize]
  refine .ite .rfl (fun _ => .throw_bind h _ _ _) fun _ => ?_
  refine (chain_pointToUser_accord h ho hv).bind fun w w' a b h _ hw => ?_
  obtain ⟨rfl, rfl, hv, hfixed⟩ | ⟨hne, hne', hshape, hv, hread, hfixed⟩ := hw
  · rw [if_pos rfl]
    exact .pure h ⟨⟨.inl ⟨rfl, ho⟩, hv, h.read_outside ho⟩, hfixed⟩
  · rw [if_neg hne, if_neg hne']
    have hp := h.first.intact.point.left
    refine .after (getPart_run (Formulation.finalized_eq_some.mp h.first.finalized).right.left)
      (getPart_run (Formulation.finalized_eq_some.mp h.second.finalized).right.left) ?_
    simp only [onStore_bind, bind_assoc]
    refine .after (onStore_read_run w a) (onStore_read_run w' b) ?_
    rw [hread]
    refine (assign_scratch_accord h (i := 0) rfl rfl (full_read hv) (hshape.trans hp.symm)
      (by simp [hp])).bind fun _ _ a b h _ hw => ?_
    obtain ⟨hv, hread, hread'⟩ := hw
    exact .pure h ⟨⟨T.counterparts_point, hv, hread'.trans hread.symm⟩, hread ▸ hfixed⟩

-- What is handed over are counterparts, and scratch arrays where something is to be overwritten.
structure Hands (T : Twins α) (pairs : Pairs) (stale : Set Nat) : Prop where
  counterparts : ∀ {slot u w}, pairs slot = some (u, w) → T.Counterparts u w
  scratch : ∀ {u w}, pairs .output = some (u, w) → stale.Nonempty →
    ¬T.Outside u.buffer ∧ u.step = 1

omit [Scalar α] in
-- What is known of an array outside is known of all its entries.
theorem Hands.outdated_empty {pairs : Pairs} {stale stale' : Set Nat} {slot : Slot}
    (hc : T.Hands pairs stale) (hp : pairs slot = some (u, w)) (ho : T.Outside u.buffer)
    (hs : stale' ⊆ stale) : outdated stale' slot = ∅ := by
  rw [outdated]
  split
  case isFalse => rfl
  case isTrue hslot =>
    subst hslot
    have hn := Set.not_nonempty_iff_eq_empty.mp fun hn => (hc.scratch hp hn).left ho
    exact Set.subset_eq_empty hs hn

namespace Alongside

variable {pairs : Pairs} {stale : Set Nat} {cells : Set (Nat × Nat)}

theorem evaluated (h : T.Alongside a b) {e e' : Evaluation α} (he : e'.blank = e.blank)
    (hx : T.Proper e) :
    T.Alongside (a.traced [.evaluation e]) (b.traced [.evaluation e']) :=
  h.of_same ⟨rfl, rfl⟩ ⟨rfl, rfl⟩ h.matrices h.events (h.trace.append he hx)

theorem emitted (h : T.Alongside a b) (e : Event α) :
    T.Alongside { a with events := a.events ++ [e] } { b with events := b.events ++ [e] } :=
  h.of_same ⟨rfl, rfl⟩ ⟨rfl, rfl⟩ h.matrices (congrArg (· ++ [e]) h.events) h.trace

theorem setMatrix (h : T.Alongside a b) (k : Nat) (x : AnyMatrix α) :
    T.Alongside (a.setMatrix k x) (b.setMatrix k x) :=
  h.of_same ⟨rfl, rfl⟩ ⟨rfl, rfl⟩ (congrArg (·.set k x) h.matrices) h.events h.trace

theorem pairs_match (h : T.Alongside a b) (hc : T.Hands pairs stale) : pairs.Match where
  shape hp := h.shape (hc.counterparts hp)
  shared hp hp' := h.buffer_eq_iff (hc.counterparts hp) (hc.counterparts hp')

-- Whole buffers agree where views read the same.
theorem agrees (h : T.Alongside a b) (ht : T.Twin a.store b.store u w) :
    ∃ x y, a.store.buffers[u.buffer]? = some x ∧ b.store.buffers[w.buffer]? = some y ∧
      Buffer.Agrees ∅ x y := by
  obtain ⟨rfl, ho⟩ | ⟨i, hu, hw⟩ := ht.counterparts
  · obtain ⟨x, hx, _⟩ := ht.valid
    exact ⟨x, x, hx, (h.outside _ ho).trans hx, .refl _ x⟩
  · obtain ⟨shape, ⟨_, x, hx, hlx, hwx⟩, ⟨_, y, hy, hly, hwy⟩⟩ := h.owns hu hw
    have he := congrArg Tensor.entries ht.read
    simp only [Store.read, Store.entries_of_buffer hx, Store.entries_of_buffer hy, ← hlx, ← hly,
      List.take_length] at he
    exact ⟨x, y, hx, hy, hwy.trans hwx.symm, congrArg List.length he, fun j _ => by rw [he]⟩

-- Nothing is known of what scratch arrays hold.
theorem agrees_stale (h : T.Alongside a b) {i : Nat} (hu : T.first.arrays[i]? = some u)
    (hw : T.second.arrays[i]? = some w) :
    ∃ x y, a.store.buffers[u.buffer]? = some x ∧ b.store.buffers[w.buffer]? = some y ∧
      Buffer.Agrees {j | j < u.size} x y := by
  obtain ⟨shape, ⟨hsx, x, hx, hlx, hwx⟩, ⟨hsy, y, hy, hly, hwy⟩⟩ := h.owns hu hw
  have hl : w.size = u.size := congrArg Tensor.sizeOf (hsy.trans hsx.symm)
  refine ⟨x, y, hx, hy, hwy.trans hwx.symm, by rw [hlx, hly, hl], fun j hj => ?_⟩
  simp only [Set.mem_ofPred_eq, Nat.not_lt] at hj
  rw [List.getElem?_eq_none (by omega), List.getElem?_eq_none (by omega)]

-- Where something is written to in both, or in none, it is alike afterwards if it was before.
theorem handed_outside {c c' : Callback α (RawValue α)} {ws ws' : Workspace α} {k : Nat}
    (h : T.Alongside a b) (hc : T.Hands pairs stale)
    (hcon : Concludes pairs stale cells (c.run pairs.left ⟨a.store, ws⟩)
      (c'.run pairs.right ⟨b.store, ws'⟩)) (hk : T.Outside k) :
    (c'.run pairs.right ⟨b.store, ws'⟩).2.store.buffers[k]? =
      (c.run pairs.left ⟨a.store, ws⟩).2.store.buffers[k]? := by
  have hw := c.run_writes pairs.left ⟨a.store, ws⟩
  have hw' := c'.run_writes pairs.right ⟨b.store, ws'⟩
  have hl := c.run_length pairs.left ⟨a.store, ws⟩
  have hl' := c'.run_length pairs.right ⟨b.store, ws'⟩
  have hsame := h.outside k hk
  cases hz : a.store.buffers[k]?
  case none =>
    have hlt := List.getElem?_eq_none_iff.mp hz
    rw [List.getElem?_eq_none (hl.trans_le hlt),
      List.getElem?_eq_none ((hl'.trans h.arrays).trans_le hlt)]
  case some z =>
    rw [hz] at hsame
    by_cases hp : ∃ slot u w, pairs slot = some (u, w) ∧ u.buffer = k
    case neg =>
      rw [hw.rest hz, hw'.rest hsame]
      · rintro ⟨slot, w, hslot, rfl, _⟩
        obtain ⟨⟨u, w⟩, hp', rfl⟩ := Option.map_eq_some_iff.mp hslot
        obtain rfl := (hc.counterparts hp').eq_of_outside (.inr hk)
        exact hp ⟨slot, w, w, hp', rfl⟩
      · rintro ⟨slot, u, hslot, rfl, _⟩
        obtain ⟨⟨u, w⟩, hp', rfl⟩ := Option.map_eq_some_iff.mp hslot
        exact hp ⟨slot, u, w, hp', rfl⟩
    case pos =>
      obtain ⟨slot, u, w, hp, rfl⟩ := hp
      obtain rfl := (hc.counterparts hp).eq_of_outside (.inl hk)
      obtain ⟨stale', hsub, _, _, hm, _⟩ := hcon.mirrors
      obtain ⟨x, y, hx, hy, ha⟩ := hm.arrays hp
      rw [hc.outdated_empty hp hk hsub] at ha
      obtain ⟨x', hx', hshape, _⟩ := hw.form hz
      obtain ⟨y', hy', hshape', _⟩ := hw'.form hsame
      cases hx.symm.trans hx'
      cases hy.symm.trans hy'
      have hentries := ha.eq_entries
      have hwritable := ha.writable
      rw [hx, hy]
      cases x
      cases y
      simp_all

-- A callback that concludes on both sides leaves them alike, as it only writes to what it is
-- handed.
theorem concluded {c c' : Callback α (RawValue α)} {ws ws' : Workspace α}
    (h : T.Alongside a b) (hc : T.Hands pairs stale)
    (hcon : Concludes pairs stale cells (c.run pairs.left ⟨a.store, ws⟩)
      (c'.run pairs.right ⟨b.store, ws'⟩)) :
    T.Alongside { a with store := (c.run pairs.left ⟨a.store, ws⟩).2.store }
      { b with store := (c'.run pairs.right ⟨b.store, ws'⟩).2.store } := by
  have hw := c.run_writes pairs.left ⟨a.store, ws⟩
  have hw' := c'.run_writes pairs.right ⟨b.store, ws'⟩
  have hl := c.run_length pairs.left ⟨a.store, ws⟩
  have hl' := c'.run_length pairs.right ⟨b.store, ws'⟩
  refine h.stores hw hw' ?left ?right (h.first.eliminates.writes hw ?keep)
    (h.second.eliminates.writes hw' ?keep') (hl'.trans (h.arrays.trans hl.symm))
    fun k hk => h.handed_outside hc hcon hk
  case left =>
    rintro k x hx ⟨slot, u, _, rfl, hu⟩
    rwa [Store.writable_of_buffer hx] at hu
  case right =>
    rintro k x hx ⟨slot, u, _, rfl, hu⟩
    rwa [Store.writable_of_buffer hx] at hu
  case keep =>
    rintro r hr ⟨slot, u, hslot, hk, _⟩
    obtain ⟨⟨u, w⟩, hp, rfl⟩ := Option.map_eq_some_iff.mp hslot
    exact h.apart_first (hc.counterparts hp) hr hk
  case keep' =>
    rintro r hr ⟨slot, w, hslot, hk, _⟩
    obtain ⟨⟨u, w⟩, hp, rfl⟩ := Option.map_eq_some_iff.mp hslot
    exact h.apart_second (hc.counterparts hp) hr hk

end Alongside

-- What the problem is handed on both sides.
def handed (point : View × View) (output multipliers : Option (View × View)) : Pairs
  | .point => some point
  | .output => output
  | .multipliers => multipliers

theorem handed_left (point : View × View) (output multipliers : Option (View × View)) :
    (handed point output multipliers).left =
      Formulation.slots point.1 (output.map Prod.fst) (multipliers.map Prod.fst) := by
  funext slot
  cases slot <;> rfl

theorem handed_right (point : View × View) (output multipliers : Option (View × View)) :
    (handed point output multipliers).right =
      Formulation.slots point.2 (output.map Prod.snd) (multipliers.map Prod.snd) := by
  funext slot
  cases slot <;> rfl

section

variable {q : Problem α} {e e' : Evaluation α} {ws ws' : Workspace α} {stale : Set Nat}
  {cells : Set (Nat × Nat)}

theorem invoke_accord {should : Evaluation α → Prop} {pairs : Pairs} (h : T.Alongside a b)
    (hc : T.Hands pairs stale) (he : e'.blank = e.blank) (hx : T.Proper e)
    (hq : should e → q.evaluate e' = q.evaluate e ∧ (q.evaluate e).Fills stale cells)
    (hm : Mirrors pairs stale cells ⟨a.store, ws⟩ ⟨b.store, ws'⟩) :
    T.Accord should (fun r r' a' b' => Concludes pairs stale cells (r.1, ⟨a'.store, r.2⟩)
        (r'.1, ⟨b'.store, r'.2⟩) ∧ r.2.dense.map List.length = ws.dense.map List.length)
      (Formulation.invoke q e pairs.left ws) (Formulation.invoke q e' pairs.right ws') a b := by
  constructor
  case trace =>
    rw [Formulation.invoke_trace, Formulation.invoke_trace]
    exact h.trace.append he hx
  case ends =>
    rw [Formulation.invoke_trace]
    intro hshould
    obtain ⟨hqe, hfills⟩ := hq (hshould e (h.trace.mem_drop _))
    have hcon := hfills.concludes (h.pairs_match hc) (fun hp hn => (hc.scratch hp hn).right) hm
    rw [Formulation.invoke_run rfl, Formulation.invoke_run rfl, hqe]
    exact .ok ((h.concluded hc hcon).evaluated he hx)
      (((q.evaluate e).run_writes pairs.left ⟨a.store, ws⟩).mono fun _ _ => trivial)
      ⟨hcon, (q.evaluate e).run_form pairs.left ⟨a.store, ws⟩⟩

theorem judge_accord (h : T.Alongside a b) (op : Operation) (r : Except Fault (RawValue α)) :
    T.Unison (fun x y a' b' => y = x ∧ a'.store = a.store ∧ b'.store = b.store ∧
        (x.isSome → ∃ answer, r = .ok answer ∧ answer.isRefusal = false))
      (Formulation.judge op r) (Formulation.judge op r) a b := by
  cases r
  case error fault =>
    refine .ite .rfl (fun _ => ?_) fun _ => .throw h _
    exact .of_ends (.ok (h.emitted _) (.refl _ _) ⟨rfl, rfl, rfl, nofun⟩)
  case ok answer =>
    refine .ite .rfl (fun _ => ?_) fun hr => ?_
    · exact .of_ends (.ok (h.emitted _) (.refl _ _) ⟨rfl, rfl, rfl, nofun⟩)
    · exact .pure h ⟨rfl, rfl, rfl, fun _ => ⟨answer, rfl, by simpa using hr⟩⟩

theorem judge_unison (h : T.Alongside a b) (op : Operation) (r : Except Fault (RawValue α)) :
    T.Unison (fun x y _ _ => y = x) (Formulation.judge op r) (Formulation.judge op r) a b :=
  (judge_accord h op r).mono fun _ _ _ _ hp => hp.left

theorem emit_unison (h : T.Alongside a b) (e : Event α) :
    T.Unison (fun i j _ _ => j = i) (emit e) (emit e) a b :=
  .of_ends (.ok (h.emitted e) (.refl _ _) rfl)

theorem setMatrix_unison (h : T.Alongside a b) (k : Nat) (x : AnyMatrix α) :
    T.Unison (fun i j _ _ => j = i) (modify (·.setMatrix k x) : FormulationM α Unit)
      (modify (·.setMatrix k x)) a b :=
  .of_ends (.ok (h.setMatrix k x) (.refl _ _) rfl)

theorem ofExcept_unison {ε : Type} (h : T.Alongside a b) (reason : ε → Failure α) (r : Except ε β) :
    T.Unison (fun i j _ _ => j = i) (ofExcept reason r) (ofExcept reason r) a b := by
  cases r
  case error e => exact .throw h _
  case ok x => exact .pure h rfl

end
end Twins
end NonlinearProgram
