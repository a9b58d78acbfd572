import NonlinearProgram.Proofs.Program
import NonlinearProgram.Proofs.Selection

namespace NonlinearProgram

variable {α β : Type} {s t u : Store α} {v w : View} {xs : List α} {k : Nat}

namespace Tensor

theorem sizeOf_singleton (n : Nat) : sizeOf [n] = n := by
  simp [sizeOf]

theorem sizeOf_pair (m n : Nat) : sizeOf [m, n] = m * n := by
  simp [sizeOf]

end Tensor

namespace View

theorem size_of_shape {n : Nat} (h : v.shape = [n]) : v.size = n := by
  rw [size, h, Tensor.sizeOf_singleton]

theorem size_of_shape_pair {m n : Nat} (h : v.shape = [m, n]) : v.size = m * n := by
  rw [size, h, Tensor.sizeOf_pair]

end View

namespace Store

theorem entries_of_buffer {b : Buffer α} (h : s.buffers[v.buffer]? = some b) :
    s.entries v = b.entries.take v.size := by
  simp [entries, h]

theorem writable_of_buffer {b : Buffer α} (h : s.buffers[v.buffer]? = some b) :
    s.writable v = b.writable := by
  simp [writable, h]

-- A view into a buffer that has enough entries for it.
def Valid (s : Store α) (v : View) : Prop :=
  ∃ b, s.buffers[v.buffer]? = some b ∧ v.size ≤ b.entries.length

theorem length_entries (h : s.Valid v) : (s.entries v).length = v.size := by
  have ⟨b, hb, hl⟩ := h
  simp [entries_of_buffer hb, hl]

theorem length_entries_of_shape {n : Nat} (h : s.Valid v) (hs : v.shape = [n]) :
    (s.entries v).length = n :=
  (length_entries h).trans (View.size_of_shape hs)

theorem length_entries_of_shape_pair {m n : Nat} (h : s.Valid v) (hs : v.shape = [m, n]) :
    (s.entries v).length = m * n :=
  (length_entries h).trans (View.size_of_shape_pair hs)

theorem Valid.lt_length (h : s.Valid v) : v.buffer < s.buffers.length := by
  have ⟨b, hb, _⟩ := h
  exact List.getElem?_eq_some_iff.mp hb |>.choose

-- The entries of one buffer changed; all writes to arrays are of this kind.
def update (s : Store α) (k : Nat) (f : List α → List α) : Store α :=
  ⟨s.buffers.modify k fun b => { b with entries := f b.entries }⟩

theorem modify_append_last (bs : List (Buffer α)) (b : Buffer α) (f : Buffer α → Buffer α) :
    (bs ++ [b]).modify bs.length f = bs ++ [f b] := by
  exact List.modifyTailIdx_add (List.modifyHead f) 0 bs [b]

theorem update_update (f g : List α → List α) :
    (s.update k f).update k g = s.update k (g ∘ f) := by
  simp only [update, List.modify_modify_eq]
  rfl

theorem foldl_update (f : β → List α → List α) (ys : List β) :
    ys.foldl (fun s y => s.update k (f y)) s =
      s.update k fun xs => ys.foldl (fun xs y => f y xs) xs := by
  induction ys generalizing s
  case nil => exact (congrArg mk (List.modify_id k s.buffers)).symm
  case cons y ys hi => rw [List.foldl_cons, hi, update_update]; rfl

theorem setSlice_eq_update (i : Nat) (x : α) :
    s.setSlice v i x = s.update v.buffer fun xs =>
      (List.range v.step).foldl (fun xs j => xs.set (i * v.step + j) x) xs :=
  foldl_update (fun j xs => xs.set (i * v.step + j) x) _

theorem setEntries_eq_update :
    s.setEntries v xs = s.update v.buffer fun ys =>
      xs.take ys.length ++ ys.drop xs.length := rfl

theorem length_setEntries (xs ys : List α) :
    (xs.take ys.length ++ ys.drop xs.length).length = ys.length := by
  simp
  omega

theorem scatter_eq_update (picks : List Nat) :
    s.scatter v picks xs = s.update v.buffer (NonlinearProgram.scatter picks xs) :=
  foldl_update (fun (p : Nat × α) ys => ys.set p.1 p.2) _

theorem buffers_update_self {b : Buffer α} (h : s.buffers[k]? = some b) (f : List α → List α) :
    (s.update k f).buffers[k]? = some { b with entries := f b.entries } := by
  simp [update, h]

theorem buffers_update_of_ne {j : Nat} (h : j ≠ k) (f : List α → List α) :
    (s.update k f).buffers[j]? = s.buffers[j]? := by
  simp [update, Ne.symm h]

theorem writable_update (f : List α → List α) : (s.update k f).writable v = s.writable v := by
  simp only [writable, update, List.getElem?_modify]
  cases s.buffers[v.buffer]? <;> by_cases h : k = v.buffer <;> simp [h]

theorem update_congr {b : Buffer α} {f g : List α → List α} (hb : s.buffers[k]? = some b)
    (h : f b.entries = g b.entries) : s.update k f = s.update k g := by
  refine congrArg mk (List.ext_getElem? fun j => ?_)
  by_cases hj : j = k
  case pos => simp [hj, hb, h]
  case neg => simp [Ne.symm hj]

-- One store becomes another by writes into some of its buffers, which keep their form, and by new
-- buffers.
structure Writes (touched : Nat → Prop) (s t : Store α) : Prop where
  form : ∀ {k : Nat} {b : Buffer α}, s.buffers[k]? = some b → ∃ b', t.buffers[k]? = some b' ∧
    b'.shape = b.shape ∧ b'.writable = b.writable ∧ b'.entries.length = b.entries.length
  rest : ∀ {k : Nat} {b : Buffer α}, s.buffers[k]? = some b → ¬touched k → t.buffers[k]? = some b

namespace Writes

variable {touched other : Nat → Prop}

theorem refl (touched : Nat → Prop) (s : Store α) : Writes touched s s where
  form h := ⟨_, h, rfl, rfl, rfl⟩
  rest h _ := h

theorem trans (h₁ : Writes touched s t) (h₂ : Writes other t u)
    (h : ∀ k, k < s.buffers.length → other k → touched k) : Writes touched s u where
  form hb := by
    have ⟨_, hb', hs, hw, hl⟩ := h₁.form hb
    have ⟨_, hb'', hs', hw', hl'⟩ := h₂.form hb'
    exact ⟨_, hb'', hs'.trans hs, hw'.trans hw, hl'.trans hl⟩
  rest hb hk := by
    have hlt := List.getElem?_eq_some_iff.mp hb |>.choose
    exact h₂.rest (h₁.rest hb hk) fun ho => hk (h _ hlt ho)

theorem and_then (h₁ : Writes touched s t) (h₂ : Writes touched t u) : Writes touched s u :=
  h₁.trans h₂ fun _ _ => id

theorem mono (h : Writes touched s t) (ht : ∀ k, touched k → other k) : Writes other s t where
  form := h.form
  rest hb hk := h.rest hb fun h => hk (ht _ h)

theorem length_le (h : Writes touched s t) : s.buffers.length ≤ t.buffers.length := by
  cases hs : s.buffers.length
  case zero => exact Nat.zero_le _
  case succ n =>
    have hn : n < s.buffers.length := by omega
    have ⟨_, hb, _⟩ := h.form (List.getElem?_eq_getElem hn)
    exact List.getElem?_eq_some_iff.mp hb |>.choose

theorem append {bs : List (Buffer α)} (h : t.buffers = s.buffers ++ bs) : Writes touched s t := by
  have h {k : Nat} {b} (hb : s.buffers[k]? = some b) : t.buffers[k]? = some b := by
    have hk := List.getElem?_eq_some_iff.mp hb |>.choose
    rw [h, List.getElem?_append_left hk, hb]
  exact { form hb := ⟨_, h hb, rfl, rfl, rfl⟩, rest hb _ := h hb }

theorem alloc (x : Tensor α) : Writes touched s (s.alloc x).2 :=
  .append rfl

theorem update {f : List α → List α} (hk : touched k) (hf : ∀ xs, (f xs).length = xs.length) :
    Writes touched s (s.update k f) where
  form {j b} hb := by
    by_cases hj : j = k
    case pos =>
      subst hj
      exact ⟨_, buffers_update_self hb f, rfl, rfl, hf _⟩
    case neg => exact ⟨_, (buffers_update_of_ne hj f).trans hb, rfl, rfl, rfl⟩
  rest {j b} hb hj := by
    have hne : j ≠ k := fun h => hj (h ▸ hk)
    exact (buffers_update_of_ne hne f).trans hb

theorem setEntries (hk : touched v.buffer) : Writes touched s (s.setEntries v xs) := by
  rw [setEntries_eq_update]
  exact .update hk (length_setEntries xs)

theorem scatter {picks : List Nat} (hk : touched v.buffer) :
    Writes touched s (s.scatter v picks xs) := by
  rw [scatter_eq_update]
  exact .update hk (length_scatter picks xs)

theorem valid (h : Writes touched s t) (hv : s.Valid v) : t.Valid v := by
  have ⟨b, hb, hl⟩ := hv
  have ⟨b', hb', _, _, hl'⟩ := h.form hb
  exact ⟨b', hb', hl' ▸ hl⟩

theorem writable (h : Writes touched s t) (hv : s.Valid v) : t.writable v = s.writable v := by
  have ⟨b, hb, _⟩ := hv
  have ⟨b', hb', _, hw, _⟩ := h.form hb
  rw [writable_of_buffer hb, writable_of_buffer hb', hw]

theorem entries (h : Writes touched s t) (hv : s.Valid v) (hk : ¬touched v.buffer) :
    t.entries v = s.entries v := by
  have ⟨b, hb, _⟩ := hv
  rw [entries_of_buffer hb, entries_of_buffer (h.rest hb hk)]

end Writes

theorem entries_update (f : List α → List α) {b : Buffer α}
    (h : s.buffers[v.buffer]? = some b) :
    (s.update v.buffer f).entries v = (f b.entries).take v.size :=
  entries_of_buffer (buffers_update_self h f)

theorem entries_setEntries (hv : s.Valid v) (hl : xs.length = v.size) :
    (s.setEntries v xs).entries v = xs := by
  have ⟨b, hb, hle⟩ := hv
  rw [setEntries_eq_update, entries_update _ hb, List.take_of_length_le (by omega : xs.length ≤ _),
    List.take_left' hl]

theorem entries_scatter (hv : s.Valid v) (picks : List Nat) :
    (s.scatter v picks xs).entries v = NonlinearProgram.scatter picks xs (s.entries v) := by
  have ⟨b, hb, _⟩ := hv
  rw [scatter_eq_update, entries_update _ hb, entries_of_buffer hb]
  clear hb
  generalize b.entries = ys
  induction picks generalizing xs ys
  case nil => rfl
  case cons i picks hi =>
    cases xs
    case nil => rfl
    case cons x xs => rw [scatter_cons, scatter_cons, hi, List.take_set]

theorem entries_replace_of_ne (h : v.buffer ≠ w.buffer) (x : Tensor α) :
    (s.replace w x).entries v = s.entries v := by
  simp [entries, replace, Ne.symm h]

theorem buffers_replace_of_ne (h : k ≠ v.buffer) (x : Tensor α) :
    (s.replace v x).buffers[k]? = s.buffers[k]? := by
  simp [replace, Ne.symm h]

theorem whole_replace {b : Buffer α} {x : Tensor α} (h : s.buffers[v.buffer]? = some b) :
    (s.replace v x).whole v = x := by
  simp [whole, replace, h]

-- A whole array of its own that can be written.
def Owns (s : Store α) (v : View) (shape : List Nat) : Prop :=
  v.shape = shape ∧ ∃ b, s.buffers[v.buffer]? = some b ∧ b.entries.length = v.size ∧ b.writable

namespace Owns

variable {shape : List Nat}

theorem valid (h : s.Owns v shape) : s.Valid v := by
  have ⟨_, b, hb, hl, _⟩ := h
  exact ⟨b, hb, by omega⟩

theorem writable (h : s.Owns v shape) : s.writable v := by
  have ⟨_, b, hb, _, hw⟩ := h
  rw [writable_of_buffer hb, hw]

theorem writes {touched : Nat → Prop} (h : s.Owns v shape) (hw : Writes touched s t) :
    t.Owns v shape := by
  have ⟨hs, b, hb, hl, hw'⟩ := h
  have ⟨b', hb', _, hw'', hl'⟩ := hw.form hb
  exact ⟨hs, b', hb', hl'.trans hl, hw'' ▸ hw'⟩

theorem alloc {x : Tensor α} (h : x.entries.length = Tensor.sizeOf x.shape) :
    (s.alloc x).2.Owns (s.alloc x).1 x.shape :=
  ⟨rfl, ⟨x.entries, x.shape, true⟩, by simp [Store.alloc], h, rfl⟩

end Owns

theorem valid_alloc (x : Tensor α) (h : x.entries.length = Tensor.sizeOf x.shape) :
    (s.alloc x).2.Valid (s.alloc x).1 :=
  (Owns.alloc h).valid

theorem entries_alloc {x : Tensor α} (h : x.entries.length = Tensor.sizeOf x.shape) :
    (s.alloc x).2.entries (s.alloc x).1 = x.entries := by
  have hb : (s.alloc x).2.buffers[(s.alloc x).1.buffer]? = some ⟨x.entries, x.shape, true⟩ := by
    simp [Store.alloc]
  rw [entries_of_buffer hb]
  exact List.take_of_length_le (Nat.le_of_eq h)

theorem entries_alloc_ofList (xs : List α) :
    (s.alloc (Tensor.ofList xs)).2.entries (s.alloc (Tensor.ofList xs)).1 = xs :=
  entries_alloc (by simp [Tensor.ofList, Tensor.sizeOf])

-- Arrays made since, no two of them the same.
structure MadeSince (s : Store α) (vs : List View) : Prop where
  distinct : (vs.map View.buffer).Nodup
  fresh : ∀ w ∈ vs, s.buffers.length ≤ w.buffer

namespace MadeSince

theorem singleton (h : s.buffers.length ≤ v.buffer) : s.MadeSince [v] :=
  ⟨List.pairwise_singleton _ _, by simpa using h⟩

theorem cons {vs : List View} (h : t.MadeSince vs) (hs : s.buffers.length ≤ v.buffer)
    (ht : v.buffer < t.buffers.length) : s.MadeSince (v :: vs) where
  distinct := by
    refine List.nodup_cons.mpr ⟨fun hm => ?_, h.distinct⟩
    have ⟨w, hw, he⟩ := List.mem_map.mp hm
    exact absurd (he ▸ h.fresh w hw) (Nat.not_le_of_lt ht)
  fresh := by
    refine List.forall_mem_cons.mpr ⟨hs, fun w hw => ?_⟩
    exact Nat.le_trans hs (Nat.le_trans (Nat.le_of_lt ht) (h.fresh w hw))

end MadeSince

-- A whole array that cannot be written.
structure Constant (s : Store α) (v : View) (xs : List α) : Prop where
  shape : v.shape = [xs.length]
  buffer : s.buffers[v.buffer]? = some ⟨xs, [xs.length], false⟩

-- All arrays that cannot be written stay as they are.
def SameConstants (s t : Store α) : Prop :=
  ∀ {k : Nat} {b : Buffer α}, s.buffers[k]? = some b → b.writable = false → t.buffers[k]? = some b

namespace Constant

theorem entries (h : s.Constant v xs) : s.entries v = xs := by
  rw [entries_of_buffer h.buffer, View.size_of_shape h.shape]
  exact List.take_length

theorem same (h : s.Constant v xs) (hc : s.SameConstants t) : t.Constant v xs :=
  ⟨h.shape, hc h.buffer rfl⟩

end Constant

theorem SameConstants.trans (h₁ : s.SameConstants t) (h₂ : t.SameConstants u) :
    s.SameConstants u :=
  fun hb hw => h₂ (h₁ hb hw) hw

-- Writes into arrays that can be written, if there are any, leave the others alone.
theorem Writes.sameConstants {touched : Nat → Prop} (h : s.Writes touched t)
    (hk : ∀ {k b}, s.buffers[k]? = some b → touched k → b.writable) : s.SameConstants t := by
  intro k b hb hw
  refine h.rest hb fun ht => ?_
  have := hk hb ht
  simp [hw] at this

theorem Writes.sameConstants_of_none (h : s.Writes (fun _ => False) t) : s.SameConstants t :=
  h.sameConstants fun _ => False.elim

-- The store with one more array, which cannot be written.
def frozen (s : Store α) (xs : List α) : Store α :=
  ⟨s.buffers ++ [⟨xs, [xs.length], false⟩]⟩

theorem freeze_alloc (s : Store α) (xs : List α) :
    (s.alloc (Tensor.ofList xs)).2.freeze (s.alloc (Tensor.ofList xs)).1 = s.frozen xs :=
  congrArg mk (modify_append_last s.buffers _ _)

theorem constant_frozen (s : Store α) (xs : List α) :
    (s.frozen xs).Constant ⟨s.buffers.length, [xs.length]⟩ xs :=
  ⟨rfl, by simp [frozen]⟩

theorem Writes.frozen {touched : Nat → Prop} (xs : List α) : s.Writes touched (s.frozen xs) :=
  .append rfl

end Store

namespace Tensor

theorem lastAxes?_of_shape {x : Tensor α} {n : Nat} (h : x.shape = [n]) :
    x.lastAxes? 1 = some x := by
  simp [lastAxes?, rank, h]
  simp [← h]

theorem stretchedToSelection?_of_shape {x : Tensor α} {n : Nat} (h : x.shape = [n]) :
    x.stretchedToSelection? [n] = some x := by
  have hs : x.stretchedTo? [n] = some x := h ▸ x.stretchedTo?_shape
  simp [stretchedToSelection?, lastAxes?_of_shape h, hs]

theorem stretchShape_eq_right {m n : Nat} : stretchShape [m] [n] = some [n] ↔ m = n ∨ m = 1 := by
  have hs : stretchShape [m] [n] = (stretchAxis m n).map fun k => [k] := by
    simp only [stretchShape, stretchReversed, List.reverse_singleton]
    cases stretchAxis m n <;> rfl
  rw [hs, stretchAxis]
  split
  case isTrue hm => simp [hm]
  case isFalse hm =>
    split
    case isTrue h1 => simp [h1]
    case isFalse h1 => split <;> simp [hm, h1]

-- A vector is stretched to picked entries if it has as many entries as are picked, or just one.
theorem isSome_stretchedToSelection? {x : Tensor α} {m n : Nat} (h : x.shape = [m]) :
    (x.stretchedToSelection? [n]).isSome ↔ m = n ∨ m = 1 := by
  by_cases hm : m = n
  case pos =>
    rw [stretchedToSelection?_of_shape (hm ▸ h)]
    simp [hm]
  case neg =>
    rw [← stretchShape_eq_right]
    simp [stretchedToSelection?, lastAxes?_of_shape h, stretchedTo?, h, hm]

end Tensor

namespace StoreM

open Program

@[simp]
theorem alloc_run (x : Tensor α) (s : Store α) :
    alloc x s = (.ok (s.alloc x).1, (s.alloc x).2) := rfl

@[simp]
theorem entries_run (v : View) (s : Store α) : entries v s = (.ok (s.entries v), s) := rfl

@[simp]
theorem read_run (v : View) (s : Store α) : read v s = (.ok (s.read v), s) := rfl

theorem assign_run {x : Tensor α} (hw : s.writable v) (hx : x.shape = v.shape)
    (hv : v.shape ≠ []) : assign v x s = (.ok ⟨⟩, s.setEntries v x.entries) := by
  have hx' : x.stretchedTo? v.shape = some x := hx ▸ x.stretchedTo?_shape
  simp [assign, bind_run, hw, hv, hx']

theorem assignAt_of_stretched {x y : Tensor α} {picks : List Nat} (hw : s.writable v)
    (hx : x.stretchedToSelection? [picks.length] = some y) :
    assignAt v picks x s = (.ok ⟨⟩, s.scatter v picks y.entries) := by
  simp [assignAt, bind_run, hw, hx]

theorem assignAt_of_not_stretched {x : Tensor α} {picks : List Nat} (hw : s.writable v)
    (hx : x.stretchedToSelection? [picks.length] = none) :
    assignAt v picks x s = (.error .shapeMismatch, s) := by
  simp [assignAt, bind_run, hw, hx]

theorem assignAt_run {x : Tensor α} {picks : List Nat} (hw : s.writable v)
    (hx : x.shape = [picks.length]) :
    assignAt v picks x s = (.ok ⟨⟩, s.scatter v picks x.entries) :=
  assignAt_of_stretched hw (Tensor.stretchedToSelection?_of_shape hx)

theorem fill_run (hw : s.writable v) (x : α) :
    fill v x s = (.ok ⟨⟩, s.setEntries v (List.replicate v.size x)) := by
  simp [fill, bind_run, hw]

variable {touched : Nat → Prop}

-- Whether an array is assigned to, and what it then holds, depends on the array only in so far as it
-- can be written.
theorem assign_outcome (v : View) (x : Tensor α) (b : Bool) :
    (∃ e, ∀ s, s.writable v = b → assign v x s = (.error e, s)) ∨
      b = true ∧ ∃ ys, ∀ s, s.writable v = b → assign v x s = (.ok ⟨⟩, s.setEntries v ys) := by
  cases b
  case false => exact .inl ⟨.readOnly, fun s hw => by simp [assign, bind_run, hw]⟩
  case true =>
    by_cases hv : v.shape = []
    case pos => exact .inl ⟨.indexOutside, fun s hw => by simp [assign, bind_run, hw, hv]⟩
    case neg =>
      cases hx : x.stretchedTo? v.shape
      case none => exact .inl ⟨.shapeMismatch, fun s hw => by simp [assign, bind_run, hw, hv, hx]⟩
      case some y =>
        exact .inr ⟨rfl, y.entries, fun s hw => by simp [assign, bind_run, hw, hv, hx]⟩

theorem assign_cases (v : View) (x : Tensor α) (s : Store α) :
    (assign v x s).2 = s ∨ s.writable v ∧ ∃ ys, (assign v x s).2 = s.setEntries v ys := by
  cases hw : s.writable v
  case false => simp [assign, bind_run, hw]
  case true =>
    by_cases hv : v.shape = []
    case pos => simp [assign, bind_run, hw, hv]
    case neg =>
      cases hx : x.stretchedTo? v.shape
      case none => simp [assign, bind_run, hw, hv, hx]
      case some y => exact .inr ⟨rfl, y.entries, by simp [assign, bind_run, hw, hv, hx]⟩

-- What programs write, whatever their outcome. Only what can be written is assigned to.
theorem assign_writes_writable (v : View) (x : Tensor α) (s : Store α) :
    s.Writes (fun k => k = v.buffer ∧ s.writable v) (assign v x s).2 := by
  obtain h | ⟨hw, ys, h⟩ := assign_cases v x s
  · rw [h]
    exact .refl _ s
  · rw [h]
    exact .setEntries ⟨rfl, hw⟩

theorem assign_writes (x : Tensor α) (hk : touched v.buffer) :
    Keeps (Store.Writes touched) (assign v x) :=
  fun s => (assign_writes_writable v x s).mono fun _ h => h.left ▸ hk

theorem assignAt_cases (v : View) (picks : List Nat) (x : Tensor α) (s : Store α) :
    (assignAt v picks x s).2 = s ∨ ∃ ys, (assignAt v picks x s).2 = s.scatter v picks ys := by
  cases hw : s.writable v
  case false => simp [assignAt, bind_run, hw]
  case true =>
    cases hx : x.stretchedToSelection? [picks.length]
    case none => exact .inl (congrArg Prod.snd (assignAt_of_not_stretched hw hx))
    case some y => exact .inr ⟨_, congrArg Prod.snd (assignAt_of_stretched hw hx)⟩

theorem assignAt_writes (picks : List Nat) (x : Tensor α) (hk : touched v.buffer) :
    Keeps (Store.Writes touched) (assignAt v picks x) := by
  intro s
  cases assignAt_cases v picks x s
  case inl h =>
    rw [h]
    exact .refl touched s
  case inr h =>
    have ⟨_, h⟩ := h
    rw [h]
    exact .scatter hk

theorem fill_writes (x : α) (hk : touched v.buffer) :
    Keeps (Store.Writes touched) (fill v x) := by
  intro s
  cases hw : s.writable v
  case false => simpa [fill, bind_run, hw] using .refl touched s
  case true => exact fill_run hw x ▸ .setEntries hk

theorem entries_writes (v : View) : Keeps (Store.Writes touched) (entries v : StoreM α _) :=
  fun s => .refl touched s

theorem read_writes (v : View) : Keeps (Store.Writes touched) (read v : StoreM α _) :=
  fun s => .refl touched s

theorem alloc_writes (x : Tensor α) : Keeps (Store.Writes touched) (alloc x) :=
  fun _ => .alloc x

theorem pure_writes {β : Type} (b : β) :
    Keeps (Store.Writes touched) (pure b : StoreM α β) :=
  .pure (.refl touched) b

theorem throw_writes {β : Type} (e : ValueFault) :
    Keeps (Store.Writes touched) (throw e : StoreM α β) :=
  fun s => .refl touched s

theorem bind_writes {β γ : Type} {x : StoreM α β} {f : β → StoreM α γ}
    (hx : Keeps (Store.Writes touched) x) (hf : ∀ b, Keeps (Store.Writes touched) (f b)) :
    Keeps (Store.Writes touched) (x >>= f) :=
  .bind .and_then hx hf

end StoreM
end NonlinearProgram
