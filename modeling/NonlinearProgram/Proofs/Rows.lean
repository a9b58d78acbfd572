import NonlinearProgram.Matrix.Dense
import NonlinearProgram.Proofs.Callback
import NonlinearProgram.Proofs.Derivatives
import NonlinearProgram.Proofs.Problem

-- Dense matrices row by row: what is picked out of a Jacobian, what a problem writes, and what is
-- stored of it.

namespace NonlinearProgram

open Program

variable {α ρ : Type}

namespace Rows

-- Does a matrix consist of these rows and columns of another one, of which the rows are given?
structure Selects (a : Rows α) (g : Nat → List α) (rows columns : List Nat) : Prop where
  form : a.map List.length = List.replicate rows.length columns.length
  entries : ∀ r i : Nat, rows[r]? = some i → ∀ k j : Nat, columns[k]? = some j →
    a[r]?.bind (·[k]?) = (g i)[j]?

theorem form_map {β : Type} {f : β → List α} {ys : List β} {n : Nat}
    (h : ∀ y ∈ ys, (f y).length = n) :
    (ys.map f).map List.length = List.replicate ys.length n := by
  rw [List.map_map, List.eq_replicate_iff]
  refine ⟨by rw [List.length_map], fun k hk => ?_⟩
  obtain ⟨y, hy, rfl⟩ := List.mem_map.mp hk
  exact h y hy

section

variable [Zero α]

theorem length_zeros (m n : Nat) : (zeros m n : Rows α).length = m := by
  rw [zeros, List.length_map, List.length_range]

theorem length_of_mem_zeros {m n : Nat} {row : List α} (h : row ∈ zeros m n) : row.length = n := by
  obtain ⟨_, _, rfl⟩ := List.mem_map.mp h
  exact List.length_replicate

theorem form_zeros (m n : Nat) : (zeros m n : Rows α).map List.length = List.replicate m n := by
  rw [List.eq_replicate_iff, List.length_map, length_zeros]
  refine ⟨rfl, fun k hk => ?_⟩
  obtain ⟨row, hrow, rfl⟩ := List.mem_map.mp hk
  exact length_of_mem_zeros hrow

end

-- A row over so many columns: a single value is repeated over all of them.
def stretched (columns : Nat) : List α → List α
  | [x] => List.replicate columns x
  | row => row

theorem length_stretched {columns : Nat} {row : List α}
    (h : row.length = columns ∨ row.length = 1) : (stretched columns row).length = columns := by
  rw [stretched.eq_def]
  split
  case h_1 => exact List.length_replicate
  case h_2 hne =>
    refine h.resolve_right fun hone => ?_
    obtain ⟨x, rfl⟩ := List.length_eq_one_iff.mp hone
    exact hne x rfl

theorem selects_map {g : Nat → List α} {rows columns : List Nat}
    (h : ∀ i ∈ rows, ∀ j ∈ columns, j < (g i).length) :
    Selects (rows.map fun i => gather (g i) columns) g rows columns where
  form := form_map fun i hi => length_gather (h i hi)
  entries := by
    intro r i hr k j hk
    have hi := h i (List.mem_of_getElem? hr)
    rw [List.getElem?_map, hr, Option.map_some, Option.bind_some, getElem?_gather hi, hk,
      Option.bind_some]

theorem form_ofEntries {xs : List α} {m n : Nat} (h : xs.length = m * n) :
    (ofEntries m n xs).map List.length = List.replicate m n := by
  have hrow := form_map fun r hr => length_row h (List.mem_range.mp hr)
  rwa [List.length_range] at hrow

theorem length_flatten {a : Rows α} {m n : Nat} (h : a.map List.length = List.replicate m n) :
    a.flatten.length = m * n := by
  simp [h]

theorem ofEntries_flatMap {f : Nat → List α} {m n : Nat} (h : ∀ r < m, (f r).length = n) :
    ofEntries m n ((List.range m).flatMap f) = (List.range m).map f :=
  List.map_congr_left fun _ hr => row_flatMap h (List.mem_range.mp hr)

-- A matrix that is stored row by row is found again.
theorem ofEntries_flatten {a : Rows α} {m n : Nat}
    (h : a.map List.length = List.replicate m n) : ofEntries m n a.flatten = a := by
  obtain ⟨hm, hn⟩ := List.eq_replicate_iff.mp h
  rw [List.length_map] at hm
  have ha : (List.range m).map (fun r => a[r]?.getD []) = a := by
    refine List.ext_getElem (by rw [List.length_map, List.length_range, hm]) fun r _ hr => ?_
    simp [hr]
  have hrow : ∀ r < m, (a[r]?.getD []).length = n := by
    intro r hr
    rw [← hm] at hr
    rw [List.getElem?_eq_getElem hr]
    exact hn _ (List.mem_map_of_mem (List.getElem_mem hr))
  calc
    ofEntries m n a.flatten
      = ofEntries m n ((List.range m).flatMap fun r => a[r]?.getD []) := by
        rw [List.flatMap_def, ha]
    _ = a := by rw [ofEntries_flatMap hrow, ha]

end Rows

namespace Callback

-- Overwrites a row of the matrix from a column on, and goes on.
def setRow (r : Nat) : Nat → List α → Callback α ρ → Callback α ρ
  | _, [], next => next
  | j, x :: xs, next => .setDense r j x (setRow r (j + 1) xs next)

-- Overwrites the rows of the matrix from a row on, and goes on.
def setRows : Nat → Rows α → Callback α ρ → Callback α ρ
  | _, [], next => next
  | r, xs :: rows, next => setRow r 0 xs (setRows (r + 1) rows next)

variable {slots : Slot → Option View} {a : Arena α}

theorem run_setRow (r j : Nat) (xs : List α) (next : Callback α ρ) :
    (setRow r j xs next).run slots a = next.run slots { a with workspace := { a.workspace with
      dense := a.workspace.dense.modify r (overwrite j xs) } } := by
  induction xs generalizing j a
  case nil =>
    have hid : a.workspace.dense.modify r (overwrite j []) = a.workspace.dense :=
      List.modify_id r a.workspace.dense
    rw [setRow, hid]
  case cons x xs ih =>
    simp only [setRow, run, ih, Rows.setEntry, List.modify_modify_eq]
    rfl

-- The induction is on the rows still to be written; those in front of them are done.
theorem run_setRows {front old : Rows α} {rows : Rows α} (ha : a.workspace.dense = front ++ old)
    (h : old.map List.length = rows.map List.length) (next : Callback α ρ) :
    (setRows front.length rows next).run slots a = next.run slots { a with
      workspace := { a.workspace with dense := front ++ rows } } := by
  induction rows generalizing front old a
  case nil =>
    have hold : old = [] := by simpa using h
    subst hold
    rw [setRows, ← ha]
  case cons xs rows ih =>
    cases old
    case nil => cases h
    case cons ys old =>
      obtain ⟨hxs, hrows⟩ := List.cons.inj h
      have hys : overwrite 0 xs ys = xs := by
        rw [overwrite_eq (by omega), List.take_zero, List.nil_append,
          List.drop_of_length_le (by omega), List.append_nil]
      have hmod : (front ++ ys :: old).modify front.length (overwrite 0 xs) =
          (front ++ [xs]) ++ old := by
        rw [List.modify_eq_set_getElem?, List.getElem?_append_right (Nat.le_refl _)]
        simp [hys]
      have hlen : front.length + 1 = (front ++ [xs]).length := by simp
      rw [setRows, run_setRow, hlen,
        ih (show _ = (front ++ [xs]) ++ old by rw [ha, hmod]) hrows]
      simp

end Callback

namespace Problem

-- A problem that, unless it refuses, leaves the rows of its Jacobian that it is asked for in the
-- matrix. What else it does is its own matter.
def FillsJacobian (p : Problem α) (n : Int) (size m : Nat) (g : List α → Nat → List α) :
    Prop :=
  ∀ (arena : Arena α) (x : View) (isNew : RawValue α) (indices : List Nat), x.shape = [size] →
    arena.store.Valid x → (∀ i ∈ indices, i < m) →
    arena.workspace.dense.map List.length = List.replicate indices.length size →
    ∀ answer result, (p.evaluate (.denseJacobian ⟨n, arena.store.read x, isNew⟩ m indices
        arena.workspace.dense)).run (Formulation.slots x none none) arena = (.ok answer, result) →
      answer.isRefusal = false →
      result.workspace.dense = indices.map (g (arena.store.entries x))

variable {p : Problem α} {n : Int} {size m : Nat} {g : List α → Nat → List α}

-- The rows that are asked for have an entry for each variable, as those that are handed over do.
theorem FillsJacobian.rows_eq (h : p.FillsJacobian n size m g) {st : Store α} {rows : Rows α}
    {result : Arena α} {x : View} {isNew answer : RawValue α} {indices : List Nat}
    (hx : x.shape = [size]) (hv : st.Valid x) (hi : ∀ i ∈ indices, i < m)
    (hform : rows.map List.length = List.replicate indices.length size)
    (hrun : (p.evaluate (.denseJacobian ⟨n, st.read x, isNew⟩ m indices rows)).run
      (Formulation.slots x none none) ⟨st, { dense := rows }⟩ = (.ok answer, result))
    (ha : answer.isRefusal = false) :
    result.workspace.dense = indices.map (g (st.entries x)) ∧
      ∀ i ∈ indices, (g (st.entries x) i).length = size := by
  have hrows := h ⟨st, { dense := rows }⟩ x isNew indices hx hv hi hform answer result hrun ha
  have hkept := Callback.run_form (p.evaluate (.denseJacobian ⟨n, st.read x, isNew⟩ m indices rows))
    (Formulation.slots x none none) ⟨st, { dense := rows }⟩
  rw [hrun, hrows, hform, List.map_map, List.eq_replicate_iff] at hkept
  exact ⟨hrows, fun i hi => hkept.right _ (List.mem_map_of_mem hi)⟩

-- The problem with a Jacobian that is a given function.
def withJacobian (p : Problem α) (g : List α → Nat → List α) : Problem α :=
  { p with
    evaluate := fun
      | .denseJacobian x _ indices _ =>
        Callback.setRows 0 (indices.map (g x.entries.entries)) (.done (.flag true))
      | e => p.evaluate e }

theorem fillsJacobian_withJacobian (h : ∀ x i, (g x i).length = size) :
    (p.withJacobian g).FillsJacobian n size m g := by
  intro arena x isNew indices _ _ _ hform answer result hrun _
  have hrows : arena.workspace.dense.map List.length =
      (indices.map (g (arena.store.entries x))).map List.length := by
    rw [hform, Rows.form_map fun i _ => h _ i]
  have hset := @Callback.run_setRows _ _ (Formulation.slots x none none) _ [] _ _
    (List.nil_append _).symm hrows (.done (.flag true) : Callback α (RawValue α))
  cases hrun.symm.trans hset
  rfl

end Problem

namespace DenseMatrix

-- All active rows are stored, and there is an entry for each local column in whatever is stored.
structure WellFormed (a : DenseMatrix α) : Prop where
  rows : a.rows ≤ a.storage.length
  columns : ∀ row ∈ a.storage, row.length = a.localColumns

variable {a b : DenseMatrix α} {rows : Rows α} {row given : List α}

section

variable [Zero α]

def withNext (a : DenseMatrix α) (row : List α) : DenseMatrix α :=
  let grown := a.withRowCount (a.rows + 1)
  { grown with storage := grown.storage.set a.rows row }

theorem wellFormed_zeros (l : Layout) (m k : Nat) :
    WellFormed (⟨l, m, k, Rows.zeros m l.localSize.toNat⟩ : DenseMatrix α) :=
  ⟨(Rows.length_zeros ..).ge, fun _ => Rows.length_of_mem_zeros⟩

omit [Zero α] in
theorem rowOf_eq_ok : a.rowOf row = .ok given ↔
    (row.length = a.localColumns ∨ row.length = 1) ∧
      given = Rows.stretched a.localColumns row := by
  rw [rowOf.eq_def, Rows.stretched.eq_def]
  split
  case h_1 => simp [eq_comm]
  case h_2 hne =>
    have hone : row.length ≠ 1 := fun hlen => by
      obtain ⟨x, rfl⟩ := List.length_eq_one_iff.mp hlen
      exact hne x rfl
    split
    case isTrue hlen => simp [hlen, eq_comm]
    case isFalse hlen => simp [hlen, hone]

theorem appendRow_eq_ok : a.appendRow row = .ok b ↔
    (a.rows < a.capacity ∧ (row.length = a.localColumns ∨ row.length = 1)) ∧
      b = a.withNext (Rows.stretched a.localColumns row) := by
  rw [appendRow]
  by_cases hroom : a.rows < a.capacity
  case neg => simp [hroom, throw, throwThe, MonadExceptOf.throw]
  case pos =>
    simp only [hroom, if_true, true_and, except_bind_eq_ok, rowOf_eq_ok]
    constructor
    case mp =>
      rintro ⟨_, ⟨hfits, rfl⟩, hb⟩
      cases hb
      exact ⟨hfits, rfl⟩
    case mpr =>
      rintro ⟨hfits, rfl⟩
      exact ⟨_, ⟨hfits, rfl⟩, rfl⟩

end

theorem active_withActive (h : rows.length = a.rows) : (a.withActive rows).active = rows :=
  List.take_left' h

namespace WellFormed

theorem form (h : a.WellFormed) :
    a.active.map List.length = List.replicate a.rows a.localColumns := by
  rw [active, leading, List.eq_replicate_iff, List.length_map, List.length_take,
    Nat.min_eq_left h.rows]
  refine ⟨rfl, fun n hn => ?_⟩
  obtain ⟨row, hrow, rfl⟩ := List.mem_map.mp hn
  exact h.columns row (List.mem_of_mem_take hrow)

theorem withActive (h : a.WellFormed)
    (hr : rows.map List.length = List.replicate a.rows a.localColumns) :
    (a.withActive rows).WellFormed := by
  obtain ⟨hlen, hcol⟩ := List.eq_replicate_iff.mp hr
  rw [List.length_map] at hlen
  constructor
  case rows =>
    change a.rows ≤ (rows ++ a.storage.drop a.rows).length
    rw [List.length_append]
    omega
  case columns =>
    intro row hrow
    cases List.mem_append.mp hrow
    case inl hrow => exact hcol _ (List.mem_map_of_mem hrow)
    case inr hrow => exact h.columns row (List.mem_of_mem_drop hrow)

variable [Zero α]

theorem withRowCount (h : a.WellFormed) (count : Nat) : (a.withRowCount count).WellFormed := by
  constructor
  case rows =>
    change count ≤ (a.storage ++ Rows.zeros (count - a.storage.length) a.localColumns).length
    rw [List.length_append, Rows.length_zeros]
    omega
  case columns =>
    intro row hrow
    cases List.mem_append.mp hrow
    case inl hrow => exact h.columns row hrow
    case inr hrow => exact Rows.length_of_mem_zeros hrow

theorem appendRow (h : a.WellFormed) (hb : a.appendRow row = .ok b) : b.WellFormed := by
  obtain ⟨⟨_, hfits⟩, rfl⟩ := appendRow_eq_ok.mp hb
  have hgrown := h.withRowCount (a.rows + 1)
  refine ⟨(List.length_set ..).symm ▸ hgrown.rows, fun other hother => ?_⟩
  cases List.mem_or_eq_of_mem_set hother
  case inl hother => exact hgrown.columns other hother
  case inr hother => exact hother ▸ Rows.length_stretched hfits

end WellFormed

variable [Zero α]

-- How a matrix comes to be: it is made, its rows are counted anew, one is appended, all get one
-- value, or others of the same form.
inductive Made : DenseMatrix α → Prop
  | created {a : DenseMatrix α} {rows columns capacity : Int} {layout : Option Layout}
      (h : create rows columns layout capacity = .ok a) : Made a
  | counted {a b : DenseMatrix α} {rows : Int} (ha : Made a) (h : a.setRowCount rows = .ok b) :
      Made b
  | appended {a b : DenseMatrix α} {row : List α} (ha : Made a) (h : a.appendRow row = .ok b) :
      Made b
  | filled {a : DenseMatrix α} (ha : Made a) (x : α) : Made (a.fill x)
  | overwritten {a : DenseMatrix α} {rows : Rows α} (ha : Made a)
      (h : rows.map List.length = a.active.map List.length) : Made (a.withActive rows)

theorem wellFormed_of_create {rows columns capacity : Int} {layout : Option Layout}
    (h : create rows columns layout capacity = .ok a) : a.WellFormed := by
  by_cases hn : rows < 0 ∨ columns < 0
  case pos =>
    rw [create, if_pos hn] at h
    cases h
  case neg =>
    rw [create, if_neg hn] at h
    cases layout
    all_goals
      obtain ⟨l, _, h⟩ := except_bind_eq_ok.mp h
      by_cases hl : l.globalSize ≠ columns
      case pos => simp [hl, bind, Except.bind] at h
      case neg =>
        by_cases hc : 0 < capacity ∧ capacity < rows
        case pos => simp [hl, hc, bind, Except.bind] at h
        case neg =>
          simp only [hl, hc, if_false] at h
          generalize (if 0 < capacity then capacity else rows) = total at h
          cases hf : allocationFault? Tensor.scalarWidth [total, l.localSize]
          case some => simp [hf, bind, Except.bind] at h
          case none =>
            simp only [hf, pure, Except.pure, Except.ok.injEq] at h
            exact h ▸ wellFormed_zeros l _ _

-- The induction is on how the matrix came to be.
theorem Made.wellFormed (h : Made a) : a.WellFormed := by
  induction h
  case created h => exact wellFormed_of_create h
  case counted rows _ h ih =>
    rw [setRowCount] at h
    split at h
    case isFalse => cases h
    case isTrue =>
      cases h
      exact ih.withRowCount rows.toNat
  case appended _ h ih => exact ih.appendRow h
  case filled x _ ih =>
    refine ih.withActive ?_
    rw [← ih.form]
    simp [Function.comp_def]
  case overwritten _ h ih => exact ih.withActive (h.trans ih.form)

end DenseMatrix
end NonlinearProgram
