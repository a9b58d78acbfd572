import Mathlib.Order.BooleanAlgebra.Set
import NonlinearProgram.Proofs.Callback

-- Two runs of a callback, on arrays and matrices that differ in what the callback is to overwrite
-- at most, have the same outcome.

namespace NonlinearProgram

variable {α : Type}

-- Two arrays of the same length, with the same entries where they are not stale.
structure Buffer.Agrees (stale : Set Nat) (x y : Buffer α) : Prop where
  writable : y.writable = x.writable
  length : y.entries.length = x.entries.length
  entries : ∀ i ∉ stale, y.entries[i]? = x.entries[i]?

namespace Buffer.Agrees

variable {x y : Buffer α} {stale : Set Nat}

theorem refl (stale : Set Nat) (x : Buffer α) : Agrees stale x x :=
  ⟨rfl, rfl, fun _ _ => rfl⟩

theorem mono {stale' : Set Nat} (h : Agrees stale x y) (hs : stale ⊆ stale') : Agrees stale' x y :=
  { h with entries := fun i hi => h.entries i fun hm => hi (hs hm) }

theorem eq_entries (h : Agrees ∅ x y) : y.entries = x.entries :=
  List.ext_getElem? fun i => h.entries i (Set.notMem_empty i)

theorem getElem?_foldl_set {xs ys : List α} (hl : ys.length = xs.length) {i : Nat}
    (h : ys[i]? = xs[i]?) (js : List Nat) (f : Nat → Nat) (a : α) :
    (js.foldl (fun ys j => ys.set (f j) a) ys)[i]? =
      (js.foldl (fun xs j => xs.set (f j) a) xs)[i]? := by
  induction js generalizing xs ys
  case nil => exact h
  case cons j js ih =>
    refine ih (by simp [hl]) ?_
    simp only [List.getElem?_set, h, hl]

-- The same entries overwritten in both.
theorem foldl_set (h : Agrees stale x y) (js : List Nat) (f : Nat → Nat) (a : α) :
    Agrees stale { x with entries := js.foldl (fun xs j => xs.set (f j) a) x.entries }
      { y with entries := js.foldl (fun xs j => xs.set (f j) a) y.entries } where
  writable := h.writable
  length := by simp only [Callback.length_foldl_set, h.length]
  entries i hi := getElem?_foldl_set h.length (h.entries i hi) js f a

theorem set (h : Agrees stale x y) (i : Nat) (a : α) :
    Agrees (stale \ {i}) { x with entries := x.entries.set i a }
      { y with entries := y.entries.set i a } where
  writable := h.writable
  length := by simp [h.length]
  entries j hj := by
    simp only [List.getElem?_set, h.length]
    by_cases hij : i = j
    case pos => simp [hij]
    case neg =>
      have hs : j ∉ stale := fun hs => hj ⟨hs, Ne.symm hij⟩
      simp [hij, h.entries j hs]

end Buffer.Agrees

namespace Rows

-- Matrices of the same form, with the same entries apart from some cells.
structure Agree (cells : Set (Nat × Nat)) (a b : Rows α) : Prop where
  form : b.map List.length = a.map List.length
  entries : ∀ i j, (i, j) ∉ cells → (b[i]?.bind (·[j]?)) = a[i]?.bind (·[j]?)

theorem Agree.eq {a b : Rows α} (h : Agree ∅ a b) : b = a := by
  have hlen : b.length = a.length := by simpa using congrArg List.length h.form
  refine List.ext_getElem hlen fun i hb ha => List.ext_getElem? fun j => ?_
  simpa [hb, ha] using h.entries i j (Set.notMem_empty _)

theorem Agree.setEntry {cells : Set (Nat × Nat)} {a b : Rows α} (h : Agree cells a b) (i j : Nat)
    (x : α) : Agree (cells \ {(i, j)}) (a.setEntry i j x) (b.setEntry i j x) where
  form := by rw [map_length_setEntry, map_length_setEntry, h.form]
  entries k l hkl := by
    have hrows : b[k]?.map List.length = a[k]?.map List.length := by
      simpa using congrArg (·[k]?) h.form
    have hcell (hne : (k, l) ≠ (i, j)) := h.entries k l fun hc => hkl ⟨hc, hne⟩
    simp only [Rows.setEntry, List.getElem?_modify]
    cases hb : b[k]?
    case none =>
      rw [hb, Option.map_none, eq_comm, Option.map_eq_none_iff] at hrows
      simp [hrows]
    case some row' =>
      rw [hb, Option.map_some, eq_comm, Option.map_eq_some_iff] at hrows
      obtain ⟨row, ha, hl⟩ := hrows
      rw [hb, ha] at hcell
      by_cases hk : i = k
      case neg => simpa [hk, ha] using hcell fun he => hk (Prod.mk.inj he).left.symm
      case pos =>
        subst hk
        by_cases hj : j = l
        case pos => simp [ha, hj, List.getElem?_set, hl]
        case neg =>
          simpa [ha, List.getElem?_set, hj] using hcell fun he => hj (Prod.mk.inj he).right.symm

end Rows

namespace Callback

-- The arrays that two runs of a callback are handed for the same purpose.
abbrev Pairs := Slot → Option (View × View)

namespace Pairs

def left (pairs : Pairs) (slot : Slot) : Option View := (pairs slot).map Prod.fst

def right (pairs : Pairs) (slot : Slot) : Option View := (pairs slot).map Prod.snd

-- The arrays have the same shapes, and two of them are the same array in both runs or in none.
structure Match (pairs : Pairs) : Prop where
  shape : ∀ {slot v w}, pairs slot = some (v, w) → w.shape = v.shape
  shared : ∀ {slot slot' v w v' w'}, pairs slot = some (v, w) → pairs slot' = some (v', w') →
    (v'.buffer = v.buffer ↔ w'.buffer = w.buffer)

-- An output of which entries are out of date is overwritten entry by entry.
def Flat (pairs : Pairs) (stale : Set Nat) : Prop :=
  ∀ {v w}, pairs .output = some (v, w) → stale.Nonempty → v.step = 1

theorem Flat.mono {pairs : Pairs} {stale stale' : Set Nat} (h : pairs.Flat stale)
    (hs : stale' ⊆ stale) : pairs.Flat stale' :=
  fun hp hn => h hp (hn.mono hs)

end Pairs

-- Where the array for a purpose may be out of date.
def outdated (stale : Set Nat) (slot : Slot) : Set Nat := if slot = .output then stale else ∅

-- What is out of date after an entry was written.
def written (slot : Slot) (i : Nat) (stale : Set Nat) : Set Nat :=
  if slot = .output then stale \ {i} else stale

theorem written_subset (slot : Slot) (i : Nat) (stale : Set Nat) :
    written slot i stale ⊆ stale := by
  rw [written]
  split
  · exact Set.sdiff_subset
  · exact subset_rfl

theorem outdated_subset_written {slot slot' : Slot} (h : ¬(slot = .output ∧ slot' = .output))
    (i : Nat) (stale : Set Nat) : outdated stale slot' ⊆ outdated (written slot i stale) slot' := by
  cases slot <;> cases slot' <;> simp_all [outdated, written]

-- What two runs of a callback have before them is the same, apart from entries of the output and
-- cells of the matrix that are still to be written.
structure Mirrors (pairs : Pairs) (stale : Set Nat) (cells : Set (Nat × Nat)) (a b : Arena α) :
    Prop where
  arrays : ∀ {slot v w}, pairs slot = some (v, w) → ∃ x y, a.store.buffers[v.buffer]? = some x ∧
    b.store.buffers[w.buffer]? = some y ∧ Buffer.Agrees (outdated stale slot) x y
  triplets : b.workspace.triplets = a.workspace.triplets
  dense : Rows.Agree cells a.workspace.dense b.workspace.dense
  coupling : b.workspace.coupling = a.workspace.coupling

-- The callback overwrites the entries and the cells, unless it refuses or raises a fault, and it
-- does not read an entry before.
def Fills : Callback α (RawValue α) → Set Nat → Set (Nat × Nat) → Prop
  | done r, stale, cells => r.isRefusal = false → stale = ∅ ∧ cells = ∅
  | raise _, _, _ => True
  | read slot i next, stale, cells => i ∉ outdated stale slot ∧ ∀ x, (next x).Fills stale cells
  | write slot i _ next, stale, cells =>
    next.Fills (written slot i stale) cells
  | setTriplet _ _ _ _ next, stale, cells => next.Fills stale cells
  | setDense i j _ next, stale, cells => next.Fills stale (cells \ {(i, j)})
  | setCoupling _ next, stale, cells => next.Fills stale cells

-- Where nothing is out of date, every callback will do.
theorem fills_nothing (c : Callback α (RawValue α)) : c.Fills ∅ ∅ := by
  induction c
  case done => exact fun _ => ⟨rfl, rfl⟩
  case raise => trivial
  case read slot i next ih =>
    refine ⟨?_, ih⟩
    cases slot <;> simp [outdated]
  case write slot i x next ih => cases slot <;> simpa [Fills, written] using ih
  case setTriplet ih => exact ih
  case setDense ih => simpa [Fills] using ih
  case setCoupling ih => exact ih

namespace Mirrors

variable {pairs : Pairs} {stale : Set Nat} {cells : Set (Nat × Nat)} {a b : Arena α} {slot : Slot}
  {v w : View} {i : Nat}

theorem entry (h : Mirrors pairs stale cells a b) (hp : pairs slot = some (v, w))
    (hs : w.shape = v.shape) (hi : i ∉ outdated stale slot) : b.entry w i = a.entry v i := by
  have ⟨x, y, hx, hy, ha⟩ := h.arrays hp
  have hsize : w.size = v.size := congrArg Tensor.sizeOf hs
  have he : (b.store.entries w)[i]? = (a.store.entries v)[i]? := by
    rw [Store.entries_of_buffer hx, Store.entries_of_buffer hy, List.getElem?_take,
      List.getElem?_take, hsize, ha.entries i hi]
  simp only [Arena.entry, hs, he]

-- What is up to date reads the same.
theorem read_eq (h : Mirrors pairs stale cells a b) (hp : pairs slot = some (v, w))
    (hs : w.shape = v.shape) (hu : outdated stale slot = ∅) : b.store.read w = a.store.read v := by
  have ⟨x, y, hx, hy, ha⟩ := h.arrays hp
  have hsize : w.size = v.size := congrArg Tensor.sizeOf hs
  rw [hu] at ha
  rw [Store.read, Store.read, Store.entries_of_buffer hx, Store.entries_of_buffer hy, ha.eq_entries,
    hs, hsize]

-- The same entries overwritten in both runs.
theorem setSlice (hm : pairs.Match) (hf : pairs.Flat stale) (h : Mirrors pairs stale cells a b)
    (hp : pairs slot = some (v, w)) (i : Nat) (x : α) :
    Mirrors pairs (written slot i stale) cells
      { a with store := a.store.setSlice v i x } { b with store := b.store.setSlice w i x } where
  arrays {slot' v' w'} hp' := by
    have ⟨c, d, hc, hd, ha⟩ := h.arrays hp'
    have hstep : w.step = v.step := by rw [View.step, View.step, hm.shape hp]
    simp only [Store.setSlice_eq_update, hstep]
    by_cases hb : v'.buffer = v.buffer
    case neg =>
      have hb' : w'.buffer ≠ w.buffer := fun he => hb ((hm.shared hp hp').mpr he)
      rw [Store.buffers_update_of_ne hb, Store.buffers_update_of_ne hb']
      refine ⟨c, d, hc, hd, ha.mono (outdated_subset_written ?_ i stale)⟩
      rintro ⟨rfl, rfl⟩
      cases hp.symm.trans hp'
      exact hb rfl
    case pos =>
      have hb' : w'.buffer = w.buffer := (hm.shared hp hp').mp hb
      rw [hb] at hc
      rw [hb'] at hd
      rw [hb, hb', Store.buffers_update_self hc, Store.buffers_update_self hd]
      refine ⟨_, _, rfl, rfl, ?_⟩
      by_cases ho : slot = .output ∧ slot' = .output
      case neg => exact (ha.foldl_set _ _ x).mono (outdated_subset_written ho i stale)
      case pos =>
        obtain ⟨rfl, rfl⟩ := ho
        rcases stale.eq_empty_or_nonempty with rfl | hn
        · exact (ha.foldl_set _ _ x).mono (by simp [outdated])
        · simpa [outdated, written, hf hp hn] using ha.set i x
  triplets := h.triplets
  dense := h.dense
  coupling := h.coupling

-- An entry is overwritten in both runs, or in none for the same reason.
theorem withEntry (hm : pairs.Match) (hf : pairs.Flat stale) (h : Mirrors pairs stale cells a b)
    (hp : pairs slot = some (v, w)) (i : Nat) (x : α) :
    (∃ e, a.withEntry v i x = .error e ∧ b.withEntry w i x = .error e) ∨
      ∃ a' b', a.withEntry v i x = .ok a' ∧ b.withEntry w i x = .ok b' ∧
        Mirrors pairs (written slot i stale) cells a' b' := by
  have ⟨c, _, hc, hd, ha⟩ := h.arrays hp
  simp only [Arena.withEntry, Store.writable_of_buffer hc, Store.writable_of_buffer hd,
    ha.writable, View.length?, hm.shape hp]
  by_cases hw : c.writable
  case neg => simp [hw]
  case pos =>
    by_cases hi : v.shape.head?.any (i < ·)
    case neg => simp [hw, hi]
    case pos => exact .inr ⟨_, _, by simp [hw, hi], by simp [hw, hi], h.setSlice hm hf hp i x⟩

-- Nothing can be out of date where there is no array.
theorem absent (h : Mirrors pairs stale cells a b) (hp : pairs slot = none) (i : Nat) :
    Mirrors pairs (written slot i stale) cells a b :=
  { h with
    arrays := fun hp' => by
      have ⟨c, d, hc, hd, ha⟩ := h.arrays hp'
      refine ⟨c, d, hc, hd, ha.mono (outdated_subset_written ?_ i stale)⟩
      rintro ⟨rfl, rfl⟩
      cases hp.symm.trans hp' }

theorem setEntry (h : Mirrors pairs stale cells a b) (i j : Nat) (x : α) :
    Mirrors pairs stale (cells \ {(i, j)})
      { a with workspace := { a.workspace with dense := a.workspace.dense.setEntry i j x } }
      { b with workspace := { b.workspace with dense := b.workspace.dense.setEntry i j x } } :=
  ⟨h.arrays, h.triplets, h.dense.setEntry i j x, h.coupling⟩

-- The same indices and the same value kept in both runs, or the same fault.
theorem withTriplet (h : Mirrors pairs stale cells a b) (k : Nat) (row column : Except Fault Int)
    (x : α) : (b.withTriplet k row column x).1 = (a.withTriplet k row column x).1 ∧
      Mirrors pairs stale cells (a.withTriplet k row column x).2
        (b.withTriplet k row column x).2 := by
  simp only [Arena.withTriplet]
  cases Arena.index32 row
  case error => exact ⟨rfl, h⟩
  case ok n =>
    have ht (f : Triplet α → Triplet α) : b.workspace.triplets.modify k f =
        a.workspace.triplets.modify k f := by rw [h.triplets]
    cases Arena.index32 column
    all_goals exact ⟨rfl, h.arrays, ht _, h.dense, h.coupling⟩

end Mirrors

-- Two runs give the same answer, and then mirror each other. If they do not refuse, nothing is left
-- to be written.
structure Concludes (pairs : Pairs) (stale : Set Nat) (cells : Set (Nat × Nat))
    (x y : Except Fault (RawValue α) × Arena α) : Prop where
  answer : y.1 = x.1
  mirrors : ∃ stale' ⊆ stale, ∃ cells' ⊆ cells, Mirrors pairs stale' cells' x.2 y.2 ∧
    ∀ r, x.1 = .ok r → r.isRefusal = false → stale' = ∅ ∧ cells' = ∅

namespace Concludes

variable {pairs : Pairs} {stale stale' : Set Nat} {cells cells' : Set (Nat × Nat)} {a b : Arena α}
  {x y : Except Fault (RawValue α) × Arena α}

theorem mono (h : Concludes pairs stale' cells' x y) (hs : stale' ⊆ stale) (hc : cells' ⊆ cells) :
    Concludes pairs stale cells x y := by
  have ⟨ha, stale₁, hs₁, cells₁, hc₁, hm⟩ := h
  exact ⟨ha, stale₁, hs₁.trans hs, cells₁, hc₁.trans hc, hm⟩

theorem of_error (h : Mirrors pairs stale cells a b) (e : Fault) :
    Concludes pairs stale cells (.error e, a) (.error e, b) :=
  ⟨rfl, stale, subset_rfl, cells, subset_rfl, h, nofun⟩

-- Nothing is left to be written after a success.
theorem filled {r : RawValue α} {r' : Except Fault (RawValue α)}
    (h : Concludes pairs stale cells (.ok r, a) (r', b)) (hr : r.isRefusal = false) :
    Mirrors pairs ∅ ∅ a b := by
  obtain ⟨_, _, _, _, hm, he⟩ := h.mirrors
  obtain ⟨rfl, rfl⟩ := he r rfl hr
  exact hm

-- Where nothing is out of date at first, the workspaces are the same in the end.
theorem workspace_eq {r r' : Except Fault (RawValue α)} (h : Concludes pairs ∅ ∅ (r, a) (r', b)) :
    b.workspace = a.workspace := by
  obtain ⟨_, _, cells, hc, hm, _⟩ := h.mirrors
  obtain rfl := Set.subset_empty_iff.mp hc
  have htriplets := hm.triplets
  have hdense := hm.dense.eq
  have hcoupling := hm.coupling
  cases ha : a.workspace
  cases hb : b.workspace
  simp_all

end Concludes

-- The induction is on the callback; what is still to be written gets less with every step.
theorem Fills.concludes {pairs : Pairs} (hm : pairs.Match) {c : Callback α (RawValue α)}
    {stale : Set Nat} {cells : Set (Nat × Nat)} {a b : Arena α} (hflat : pairs.Flat stale)
    (hf : c.Fills stale cells) (h : Mirrors pairs stale cells a b) :
    Concludes pairs stale cells (c.run pairs.left a) (c.run pairs.right b) := by
  induction c generalizing stale cells a b
  case done r =>
    refine ⟨rfl, stale, subset_rfl, cells, subset_rfl, h, fun r' hr => ?_⟩
    cases hr
    exact hf
  case raise e => exact .of_error h e
  case read slot i next ih =>
    obtain ⟨hi, hf⟩ := hf
    simp only [run, Pairs.left, Pairs.right]
    cases hp : pairs slot
    case none => exact .of_error h _
    case some pair =>
      have he := h.entry hp (hm.shape hp) hi
      simp only [Option.map_some, Option.elim_some, he]
      cases a.entry pair.1 i
      case error e => exact .of_error h e
      case ok x => exact ih x hflat (hf x) h
  case write slot i x next ih =>
    have hsub := written_subset slot i stale
    simp only [run, Pairs.left, Pairs.right]
    cases hp : pairs slot
    case none => exact (ih (hflat.mono hsub) hf (h.absent hp i)).mono hsub subset_rfl
    case some pair =>
      obtain ⟨e, ha, hb⟩ | ⟨a', b', ha, hb, h'⟩ := h.withEntry hm hflat hp i x
      · simp only [Option.map_some, ha, hb]
        exact .of_error h e
      · simp only [Option.map_some, ha, hb]
        exact (ih (hflat.mono hsub) hf h').mono hsub subset_rfl
  case setTriplet k row column x next ih =>
    obtain ⟨hr, h'⟩ := h.withTriplet k row column x
    simp only [run]
    cases hb : b.withTriplet k row column x
    case mk r' b' =>
      cases ha : a.withTriplet k row column x
      case mk r a' =>
        rw [ha, hb] at hr h'
        obtain rfl : r' = r := hr
        cases r'
        case none => exact ih hflat hf h'
        case some e => exact .of_error h' e
  case setDense i j x next ih =>
    exact (ih hflat hf (h.setEntry i j x)).mono subset_rfl Set.sdiff_subset
  case setCoupling n next ih => exact ih hflat hf ⟨h.arrays, h.triplets, h.dense, rfl⟩

end Callback
end NonlinearProgram
