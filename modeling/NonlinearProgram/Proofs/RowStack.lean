import NonlinearProgram.Matrix.RowStack
import NonlinearProgram.Proofs.Formulation.Finalization
import NonlinearProgram.Proofs.Rows

-- The rows of a stack are the leading ones of storage that was allocated in whole. Whoever looks at
-- the rows keeps a view that is as long as the stack was then, and can write through it later on.
-- Numbers of rows are integers here.

namespace NonlinearProgram

open Program

variable {α : Type}

theorem Rows.zeros_append [Zero α] (m n k : Nat) :
    zeros m k ++ zeros n k = (zeros (m + n) k : Rows α) := by
  simp only [zeros, List.map_const', List.length_range, List.replicate_append_replicate]

namespace DenseMatrix

-- All of the rows that were allocated. Those that have never been active are zeros.
def allocated [Zero α] (a : DenseMatrix α) : Rows α :=
  a.storage ++ Rows.zeros (a.capacity - a.storage.length) a.localColumns

def withLeading (a : DenseMatrix α) (count : Nat) (rows : Rows α) : DenseMatrix α :=
  { a with storage := rows ++ a.storage.drop count }

structure Bounded (a : DenseMatrix α) : Prop extends a.WellFormed where
  stored : a.storage.length ≤ a.capacity

variable {a b : DenseMatrix α} {rows : Rows α} {row : List α} {count : Nat}

theorem length_withLeading (hc : count ≤ a.storage.length) (hr : rows.length = count) :
    (a.withLeading count rows).storage.length = a.storage.length := by
  rw [withLeading, List.length_append, List.length_drop, hr, Nat.add_sub_cancel' hc]

theorem length_withRowCount [Zero α] (a : DenseMatrix α) (count : Nat) :
    a.storage.length ≤ (a.withRowCount count).storage.length := by
  rw [withRowCount, List.length_append]
  exact Nat.le_add_right ..

theorem length_withNext [Zero α] (a : DenseMatrix α) (row : List α) :
    a.storage.length ≤ (a.withNext row).storage.length := by
  rw [withNext, List.length_set]
  exact a.length_withRowCount _

namespace Bounded

theorem rows_le (h : a.Bounded) : a.rows ≤ a.capacity := h.rows.trans h.stored

theorem length_active (h : a.Bounded) : a.active.length = a.rows := List.length_take_of_le h.rows

theorem withLeading (h : a.Bounded) (hc : count ≤ a.storage.length)
    (hr : rows.map List.length = List.replicate count a.localColumns) :
    (a.withLeading count rows).Bounded := by
  obtain ⟨hlen, hcol⟩ := List.eq_replicate_iff.mp hr
  rw [List.length_map] at hlen
  have hstorage := length_withLeading hc hlen
  refine ⟨⟨hstorage ▸ h.rows, fun row hrow => ?_⟩, hstorage ▸ h.stored⟩
  cases List.mem_append.mp hrow
  case inl hrow => exact hcol _ (List.mem_map_of_mem hrow)
  case inr hrow => exact h.columns row (List.mem_of_mem_drop hrow)

variable [Zero α]

theorem form (h : a.Bounded) :
    a.allocated.map List.length = List.replicate a.capacity a.localColumns := by
  have hstored : a.storage.map List.length = List.replicate a.storage.length a.localColumns :=
    List.eq_replicate_iff.mpr ⟨List.length_map _, by simpa using h.columns⟩
  have hsum : a.storage.length + (a.capacity - a.storage.length) = a.capacity :=
    Nat.add_sub_cancel' h.stored
  rw [allocated, List.map_append, hstored, Rows.form_zeros, List.replicate_append_replicate, hsum]

theorem leading_eq (h : count ≤ a.storage.length) : a.leading count = a.allocated.take count :=
  (List.take_append_of_le_length h).symm

theorem active_eq (h : a.Bounded) : a.active = a.allocated.take a.rows := leading_eq h.rows

-- Rows that become active for the first time are the zeros that were allocated.
theorem allocated_withRowCount (h : a.Bounded) (hc : count ≤ a.capacity) :
    (a.withRowCount count).allocated = a.allocated := by
  have hstored := h.stored
  have hsum : count - a.storage.length +
      (a.capacity - (a.storage.length + (count - a.storage.length))) =
        a.capacity - a.storage.length := by
    omega
  simp only [allocated, withRowCount, List.append_assoc, List.length_append, Rows.length_zeros]
  exact congrArg (a.storage ++ ·) ((Rows.zeros_append ..).trans (congrArg (Rows.zeros · _) hsum))

theorem withRowCount (h : a.Bounded) (hc : count ≤ a.capacity) :
    (a.withRowCount count).Bounded := by
  refine ⟨h.toWellFormed.withRowCount count, ?_⟩
  have hstored := h.stored
  simp only [DenseMatrix.withRowCount, List.length_append, Rows.length_zeros]
  omega

theorem allocated_withLeading (hc : count ≤ a.storage.length) (hr : rows.length = count) :
    (a.withLeading count rows).allocated = rows ++ a.allocated.drop count := by
  rw [allocated, allocated, length_withLeading hc hr, List.drop_append_of_le_length hc,
    ← List.append_assoc]
  rfl

omit [Zero α] in
theorem fill (h : a.Bounded) (x : α) : (a.fill x).Bounded := by
  refine withLeading h h.rows ?_
  rw [← h.toWellFormed.form]
  simp [Function.comp_def]

theorem allocated_setToZero (h : a.Bounded) :
    a.setToZero.allocated = Rows.zeros a.rows a.localColumns ++ a.allocated.drop a.rows := by
  have hcol := (List.eq_replicate_iff.mp h.toWellFormed.form).right
  have hzeros : (a.active.map fun row => row.map fun _ => (0 : α)) =
      Rows.zeros a.rows a.localColumns := by
    rw [Rows.zeros, List.map_const', List.length_range, List.eq_replicate_iff, List.length_map]
    refine ⟨h.length_active, fun row hrow => ?_⟩
    obtain ⟨old, hold, rfl⟩ := List.mem_map.mp hrow
    rw [List.map_const', hcol _ (List.mem_map_of_mem hold)]
  rw [setToZero, DenseMatrix.fill, hzeros]
  exact allocated_withLeading h.rows (Rows.length_zeros ..)

theorem allocated_withNext (h : a.Bounded) (hroom : a.rows < a.capacity) (row : List α) :
    (a.withNext row).allocated = a.allocated.set a.rows row := by
  have hstored : a.rows < (a.withRowCount (a.rows + 1)).storage.length :=
    (h.toWellFormed.withRowCount (a.rows + 1)).rows
  rw [← h.allocated_withRowCount hroom, allocated, allocated, List.set_append_left _ _ hstored,
    DenseMatrix.withNext, List.length_set]
  rfl

theorem appendRow (h : a.Bounded) (hb : a.appendRow row = .ok b) : b.Bounded := by
  refine ⟨h.toWellFormed.appendRow hb, ?_⟩
  obtain ⟨⟨hroom, _⟩, rfl⟩ := appendRow_eq_ok.mp hb
  rw [DenseMatrix.withNext, List.length_set]
  exact (h.withRowCount hroom).stored

end Bounded
end DenseMatrix

variable [Scalar α]

theorem RawValue.isLess_integers (m n : Int) :
    (integer m : RawValue α).isLess (.integer n) = .ok (decide (m < n)) := rfl

namespace RowStack

variable {a b : RowStack α} {n : Int}

-- A new stack has all of its room at once, and as many active rows as it was asked for.
theorem create_integers {rows columns capacity : Int} {layout : Option Layout}
    (h : create (.integer rows) (.integer columns) layout (.integer capacity) = .ok a) :
    0 ≤ rows ∧ rows ≤ (if 0 < capacity then capacity else rows) ∧ ∃ l : Layout,
      a = ⟨⟨l, rows.toNat, (if 0 < capacity then capacity else rows).toNat,
        Rows.zeros rows.toNat l.localSize.toNat⟩, .integer rows⟩ := by
  obtain ⟨hnegative, h⟩ := refusal_eq_ok.mp h
  rw [RawValue.anyNegative_integers, Except.ok.injEq] at hnegative
  have hrows : 0 ≤ rows := by
    by_contra hneg
    simp [lt_of_not_ge hneg] at hnegative
  obtain ⟨l, _, h⟩ := except_bind_eq_ok.mp h
  split at h
  case isFalse => cases h
  case isTrue =>
    obtain ⟨reserved, hreserved, h⟩ := except_bind_eq_ok.mp h
    rw [mapError_eq_ok, RawValue.isLess_integers] at hreserved
    cases hreserved
    by_cases hc : 0 < capacity
    case pos =>
      rw [if_pos (decide_eq_true hc)] at h
      obtain ⟨hsmall, h⟩ := refusal_eq_ok.mp h
      rw [RawValue.isLess_integers, Except.ok.injEq, decide_eq_false_iff_not, not_lt] at hsmall
      obtain ⟨given, hgiven, h⟩ := except_bind_eq_ok.mp h
      cases hgiven
      obtain ⟨total, htotal, h⟩ := except_bind_eq_ok.mp h
      cases htotal
      split at h
      case h_1 => cases h
      case h_2 =>
        cases h
        rw [if_pos hc]
        exact ⟨hrows, hsmall, l, rfl⟩
    case neg =>
      rw [if_neg (by simpa using hc)] at h
      obtain ⟨given, hgiven, h⟩ := except_bind_eq_ok.mp h
      cases hgiven
      obtain ⟨total, htotal, h⟩ := except_bind_eq_ok.mp h
      cases htotal
      split at h
      case h_1 => cases h
      case h_2 =>
        cases h
        rw [if_neg hc]
        exact ⟨hrows, le_rfl, l, rfl⟩

theorem setRowCount_integer (a : RowStack α) (n : Int) : a.setRowCount (.integer n) =
    if 0 ≤ n ∧ n ≤ a.matrix.capacity then .ok ⟨a.matrix.withRowCount n.toNat, .integer n⟩
    else .error (.rowCount (toString n) a.matrix.capacity) := by
  have hset : a.setRowCount (.integer n) =
      if (decide (n < 0) || decide ((a.matrix.capacity : Int) < n)) = true then
        .error (.rowCount (toString n) a.matrix.capacity)
      else .ok ⟨a.matrix.withRowCount n.toNat, .integer n⟩ := rfl
  rw [hset, ← ite_not]
  exact if_congr (by simp) rfl rfl

-- The number of rows is the one that was last asked for, and an integer.
structure Counted (a : RowStack α) : Prop where
  count : a.count = .integer a.matrix.rows
  bounded : a.matrix.Bounded

namespace Counted

theorem active_eq (h : a.Counted) :
    a.active = .ok (a.matrix.allocated.take a.matrix.rows) := by
  rw [active, h.count, ← h.bounded.active_eq]
  rfl

theorem appendRow_eq_ok (h : a.Counted) {row : List α} : a.appendRow row = .ok b ↔
    (a.matrix.rows < a.matrix.capacity ∧
      (row.length = a.matrix.localColumns ∨ row.length = 1)) ∧
      b = { matrix := a.matrix.withNext (Rows.stretched a.matrix.localColumns row) } := by
  rw [appendRow, h.count]
  constructor
  case mp =>
    intro hb
    obtain ⟨m, hm, hb⟩ := except_bind_eq_ok.mp hb
    cases hb
    obtain ⟨hfits, rfl⟩ := DenseMatrix.appendRow_eq_ok.mp hm
    exact ⟨hfits, rfl⟩
  case mpr =>
    rintro ⟨hfits, rfl⟩
    exact except_bind_eq_ok.mpr ⟨_, DenseMatrix.appendRow_eq_ok.mpr ⟨hfits, rfl⟩, rfl⟩

theorem fill_eq (h : a.Counted) (x : α) :
    a.fill x = .ok { a with matrix := a.matrix.fill x } := by
  rw [fill, h.active_eq]
  rfl

end Counted
end RowStack

inductive StackCall (α : Type) where
  | appendRow (row : List α)
  | setRowCount (count : Int)
  | setToZero
  -- Looks at the active rows, and keeps the view.
  | look
  -- Writes through one of the views that are kept, which then shows these rows.
  | write (view : Nat) (rows : Rows α)

-- A stack with the views of it that are kept: of each, how many rows it shows.
structure ViewedStack (α : Type) where
  stack : RowStack α
  views : List Nat := []

namespace ViewedStack

def matrix (s : ViewedStack α) : DenseMatrix α := s.stack.matrix

def call (s : ViewedStack α) : StackCall α → Except MatrixError (ViewedStack α)
  | .appendRow row => do return { s with stack := ← s.stack.appendRow row }
  | .setRowCount count => do return { s with stack := ← s.stack.setRowCount (.integer count) }
  | .setToZero => do return { s with stack := ← s.stack.fill 0 }
  | .look => do
    let rows ← s.stack.active.mapError .storage
    return { s with views := s.views ++ [rows.length] }
  | .write view rows =>
    match s.views[view]? with
    | none => .error (.storage .absent)
    | some count =>
      if rows.map List.length = List.replicate count s.matrix.localColumns then
        .ok { s with stack := { s.stack with matrix := s.matrix.withLeading count rows } }
      else .error (.storage .shapeMismatch)

-- Calls one after the other. One that fails leaves everything as it was.
def after (s : ViewedStack α) (calls : List (StackCall α)) : ViewedStack α :=
  calls.foldl (fun s c => (s.call c).toOption.getD s) s

end ViewedStack

namespace StackCall

def writes : StackCall α → Bool
  | .setRowCount _ | .look => false
  | _ => true

def Allowed (s : ViewedStack α) : StackCall α → Prop
  | .appendRow row => s.matrix.rows < s.matrix.capacity ∧
      (row.length = s.matrix.localColumns ∨ row.length = 1)
  | .setRowCount count => 0 ≤ count ∧ count ≤ s.matrix.capacity
  | .setToZero | .look => True
  | .write view rows => ∃ count, s.views[view]? = some count ∧
      rows.map List.length = List.replicate count s.matrix.localColumns

-- How many rows are active after a call that succeeded.
def rowsAfter (s : ViewedStack α) : StackCall α → Nat
  | .appendRow _ => s.matrix.rows + 1
  | .setRowCount count => count.toNat
  | _ => s.matrix.rows

-- The whole storage after a call that succeeded.
def storageAfter (s : ViewedStack α) : StackCall α → Rows α
  | .appendRow row => s.matrix.allocated.set s.matrix.rows
      (Rows.stretched s.matrix.localColumns row)
  | .setRowCount _ | .look => s.matrix.allocated
  | .setToZero => Rows.zeros s.matrix.rows s.matrix.localColumns ++
      s.matrix.allocated.drop s.matrix.rows
  | .write _ rows => rows ++ s.matrix.allocated.drop rows.length

end StackCall

namespace ViewedStack

-- What holds of a stack at any time after it was made as `a`.
structure Intact (a : RowStack α) (s : ViewedStack α) : Prop extends s.stack.Counted where
  layout : s.matrix.layout = a.matrix.layout
  capacity : s.matrix.capacity = a.matrix.capacity
  views : ∀ count ∈ s.views, count ≤ s.matrix.storage.length

-- What is left of one state by a call that leads to another one.
structure Leaves (a : RowStack α) (c : StackCall α) (s t : ViewedStack α) : Prop
    extends t.Intact a where
  rows : t.matrix.rows = c.rowsAfter s
  storage : t.matrix.allocated = c.storageAfter s

variable {a : RowStack α} {s t : ViewedStack α} {c : StackCall α}

namespace Intact

theorem appendRow (h : s.Intact a) {row : List α}
    (hc : (StackCall.appendRow row).Allowed s) :
    ∃ t, s.call (.appendRow row) = .ok t ∧ Leaves a (.appendRow row) s t := by
  have hrow : s.matrix.appendRow row = .ok _ := DenseMatrix.appendRow_eq_ok.mpr ⟨hc, rfl⟩
  have hstack := h.toCounted.appendRow_eq_ok.mpr ⟨hc, rfl⟩
  refine ⟨_, except_bind_eq_ok.mpr ⟨_, hstack, rfl⟩, ?_⟩
  exact {
    count := rfl
    bounded := h.bounded.appendRow hrow
    layout := h.layout
    capacity := h.capacity
    views := fun count hcount => (h.views count hcount).trans (s.matrix.length_withNext _)
    rows := rfl
    storage := h.bounded.allocated_withNext hc.left _ }

theorem setRowCount (h : s.Intact a) {count : Int}
    (hc : (StackCall.setRowCount count).Allowed s) :
    ∃ t, s.call (.setRowCount count) = .ok t ∧ Leaves a (.setRowCount count) s t := by
  have hset : s.stack.setRowCount (.integer count) = .ok _ :=
    (s.stack.setRowCount_integer count).trans (if_pos hc)
  have hle : count.toNat ≤ s.matrix.capacity := Int.toNat_le.mpr hc.right
  refine ⟨_, except_bind_eq_ok.mpr ⟨_, hset, rfl⟩, ?_⟩
  exact {
    count := congrArg RawValue.integer (Int.toNat_of_nonneg hc.left).symm
    bounded := h.bounded.withRowCount hle
    layout := h.layout
    capacity := h.capacity
    views := fun k hk => (h.views k hk).trans (s.matrix.length_withRowCount _)
    rows := rfl
    storage := h.bounded.allocated_withRowCount hle }

theorem setToZero (h : s.Intact a) :
    ∃ t, s.call .setToZero = .ok t ∧ Leaves a .setToZero s t := by
  have hlen : (s.matrix.active.map fun row => row.map fun _ => (0 : α)).length = s.matrix.rows :=
    (List.length_map _).trans h.bounded.length_active
  refine ⟨_, except_bind_eq_ok.mpr ⟨_, h.toCounted.fill_eq 0, rfl⟩, ?_⟩
  exact {
    count := h.count
    bounded := h.bounded.fill 0
    layout := h.layout
    capacity := h.capacity
    views := fun k hk => (h.views k hk).trans
      (DenseMatrix.length_withLeading h.bounded.rows hlen).ge
    rows := rfl
    storage := h.bounded.allocated_setToZero }

theorem look (h : s.Intact a) : ∃ t, s.call .look = .ok t ∧ Leaves a .look s t := by
  refine ⟨_, except_bind_eq_ok.mpr ⟨_, mapError_eq_ok.mpr h.toCounted.active_eq, rfl⟩, ?_⟩
  exact { h with
    views := by
      intro count hcount
      cases List.mem_append.mp hcount
      case inl hcount => exact h.views count hcount
      case inr hcount =>
        rw [List.mem_singleton.mp hcount]
        exact (List.length_take_le ..).trans h.bounded.rows
    rows := rfl
    storage := rfl }

theorem write (h : s.Intact a) {view : Nat} {rows : Rows α}
    (hc : (StackCall.write view rows).Allowed s) :
    ∃ t, s.call (.write view rows) = .ok t ∧ Leaves a (.write view rows) s t := by
  obtain ⟨count, hview, hform⟩ := hc
  have hle := h.views count (List.mem_of_getElem? hview)
  have hlen : rows.length = count := by simpa using congrArg List.length hform
  refine ⟨_, by rw [ViewedStack.call, hview]; exact if_pos hform, ?_⟩
  exact {
    count := h.count
    bounded := h.bounded.withLeading hle hform
    layout := h.layout
    capacity := h.capacity
    views := fun k hk => (h.views k hk).trans (DenseMatrix.length_withLeading hle hlen).ge
    rows := rfl
    storage := (DenseMatrix.Bounded.allocated_withLeading hle hlen).trans (hlen ▸ rfl) }

-- One case for each kind of call.
theorem call_of_allowed (h : s.Intact a) (hc : c.Allowed s) :
    ∃ t, s.call c = .ok t ∧ Leaves a c s t := by
  cases c
  case appendRow => exact h.appendRow hc
  case setRowCount => exact h.setRowCount hc
  case setToZero => exact h.setToZero
  case look => exact h.look
  case write => exact h.write hc

theorem allowed_of_call (h : s.Intact a) (ht : s.call c = .ok t) : c.Allowed s := by
  cases c
  case appendRow row =>
    obtain ⟨b, hb, _⟩ := except_bind_eq_ok.mp ht
    exact (h.toCounted.appendRow_eq_ok.mp hb).left
  case setRowCount count =>
    obtain ⟨b, hb, _⟩ := except_bind_eq_ok.mp ht
    by_contra hc
    have herror := (s.stack.setRowCount_integer count).trans (if_neg hc)
    cases herror.symm.trans hb
  case setToZero => exact trivial
  case look => exact trivial
  case write view rows =>
    rw [call] at ht
    split at ht
    case h_1 => cases ht
    case h_2 count hview =>
      split at ht
      case isTrue hform => exact ⟨count, hview, hform⟩
      case isFalse => cases ht

theorem leaves (h : s.Intact a) (ht : s.call c = .ok t) : Leaves a c s t := by
  obtain ⟨u, hu, hleaves⟩ := h.call_of_allowed (h.allowed_of_call ht)
  cases hu.symm.trans ht
  exact hleaves

end Intact

theorem after_cons (s : ViewedStack α) (c : StackCall α) (calls : List (StackCall α)) :
    s.after (c :: calls) = ((s.call c).toOption.getD s).after calls := rfl

theorem intact_of_create {rows columns capacity : Int} {layout : Option Layout}
    (h : RowStack.create (.integer rows) (.integer columns) layout (.integer capacity) = .ok a) :
    (a.matrix.capacity : Int) = (if 0 < capacity then capacity else rows) ∧
      Intact a ⟨a, []⟩ := by
  obtain ⟨hrows, hle, l, rfl⟩ := RowStack.create_integers h
  refine ⟨Int.toNat_of_nonneg (hrows.trans hle), ?_⟩
  exact {
    count := congrArg RawValue.integer (Int.toNat_of_nonneg hrows).symm
    bounded := ⟨DenseMatrix.wellFormed_zeros .., (Rows.length_zeros ..).le.trans
      (Int.toNat_le_toNat hle)⟩
    layout := rfl
    capacity := rfl
    views := fun _ hcount => nomatch hcount }

-- The induction is on the calls; each of them keeps what holds, or fails.
theorem Intact.after (h : s.Intact a) (calls : List (StackCall α)) : (s.after calls).Intact a := by
  induction calls generalizing s
  case nil => exact h
  case cons c calls ih =>
    rw [after_cons]
    cases hc : s.call c
    case error => exact ih h
    case ok t => exact ih (h.leaves hc).toIntact

theorem Intact.allocated_after (h : s.Intact a) {calls : List (StackCall α)}
    (hw : ∀ c ∈ calls, c.writes = false) :
    (s.after calls).matrix.allocated = s.matrix.allocated := by
  induction calls generalizing s
  case nil => rfl
  case cons c calls ih =>
    obtain ⟨hc, hcalls⟩ := List.forall_mem_cons.mp hw
    rw [after_cons]
    cases ht : s.call c
    case error => exact ih h hcalls
    case ok t =>
      have hleaves := h.leaves ht
      refine (ih hleaves.toIntact hcalls).trans (hleaves.storage.trans ?_)
      cases c
      case setRowCount => rfl
      case look => rfl
      all_goals cases hc

-- A stack of rows and its storage after any calls, of which any may have failed. The number of
-- active rows is between zero and the capacity, and neither that nor the columns ever change. The
-- active rows are the leading ones of storage that is there in whole. A call succeeds exactly if it
-- is allowed, and leaves what is said of it; one that fails leaves everything. Rows that were given
-- up are the same when they are active again, if nothing has been written in between.
theorem within_storage {rows columns capacity : Int} {layout : Option Layout} {a : RowStack α}
    (h : RowStack.create (.integer rows) (.integer columns) layout (.integer capacity) = .ok a)
    (calls : List (StackCall α)) :
    let s := after ⟨a, []⟩ calls
    (s.stack.count = .integer s.matrix.rows ∧ s.matrix.rows ≤ s.matrix.capacity ∧
      (s.matrix.capacity : Int) = (if 0 < capacity then capacity else rows) ∧
      s.matrix.localColumns = a.matrix.localColumns) ∧
    (s.matrix.allocated.map List.length =
        List.replicate s.matrix.capacity s.matrix.localColumns ∧
      s.stack.active = .ok (s.matrix.allocated.take s.matrix.rows)) ∧
    (∀ c, ((∃ t, s.call c = .ok t) ↔ c.Allowed s) ∧
      (∀ t, s.call c = .ok t →
        t.matrix.rows = c.rowsAfter s ∧ t.matrix.allocated = c.storageAfter s) ∧
      ∀ e, s.call c = .error e → s.after [c] = s) ∧
    ∀ rest, (∀ c ∈ rest, c.writes = false) →
      (s.after rest).matrix.allocated = s.matrix.allocated ∧
      ((s.after rest).matrix.rows = s.matrix.rows →
        (s.after rest).stack.active = s.stack.active) := by
  intro s
  obtain ⟨hcapacity, hstart⟩ := intact_of_create h
  have hs : s.Intact a := hstart.after calls
  refine ⟨⟨hs.count, hs.bounded.rows_le, ?capacity, ?columns⟩,
    ⟨hs.bounded.form, hs.toCounted.active_eq⟩, fun c => ⟨⟨?allowed, ?succeeds⟩, ?leaves, ?fails⟩,
    ?same⟩
  case capacity => rw [hs.capacity, ← hcapacity]
  case columns => exact congrArg (fun l : Layout => l.localSize.toNat) hs.layout
  case allowed =>
    rintro ⟨t, ht⟩
    exact hs.allowed_of_call ht
  case succeeds =>
    intro hc
    obtain ⟨t, ht, _⟩ := hs.call_of_allowed hc
    exact ⟨t, ht⟩
  case leaves =>
    intro t ht
    have hleaves := hs.leaves ht
    exact ⟨hleaves.rows, hleaves.storage⟩
  case fails =>
    intro e he
    rw [after_cons, he]
    rfl
  case same =>
    intro rest hw
    have hstorage := hs.allocated_after hw
    refine ⟨hstorage, fun hrows => ?_⟩
    rw [(hs.after rest).toCounted.active_eq, hs.toCounted.active_eq]
    exact congrArg Except.ok (congrArg₂ List.take hrows hstorage)

-- Room for two rows of two columns. A third row is refused, the second one is given up, and what is
-- written through a view from before is there when that row is active again.
theorem within_storage_regrown : ∃ a s : ViewedStack Exact,
    RowStack.create (.integer 0) (.integer 2) none (.integer 2) = .ok a.stack ∧
    s = after ⟨a.stack, []⟩ [.appendRow [.finite 1, .finite 2], .appendRow [.finite 5],
      .appendRow [.finite 3, .finite 4], .look, .setRowCount 1,
      .write 0 [[.finite 7, .finite 8], [.finite 9, .finite 9]]] ∧
    s.matrix.rows = 1 ∧ s.stack.active = .ok [[.finite 7, .finite 8]] ∧
    (s.after [.setRowCount 2]).matrix.allocated =
      [[.finite 7, .finite 8], [.finite 9, .finite 9]] := by
  have hcreate : RowStack.create (.integer 0) (.integer 2) none (.integer 2) =
      .ok (⟨⟨.ofSize 2, 0, 2, []⟩, .integer 0⟩ : RowStack Exact) := rfl
  refine ⟨⟨_, []⟩, _, hcreate, rfl, rfl, ?_⟩
  obtain ⟨_, ⟨_, hactive⟩, _, hsame⟩ := within_storage hcreate [.appendRow [.finite 1, .finite 2],
    .appendRow [.finite 5], .appendRow [.finite 3, .finite 4], .look, .setRowCount 1,
    .write 0 [[.finite 7, .finite 8], [.finite 9, .finite 9]]]
  exact ⟨hactive, (hsame [.setRowCount 2] (by simp [StackCall.writes])).left.trans rfl⟩

end ViewedStack
end NonlinearProgram
