import NonlinearProgram.Matrix.RowOrder
import Mathlib.Data.List.Perm.Basic

-- However triplets are put in order, none is lost and none is made up.

namespace NonlinearProgram.RowOrder

variable {α : Type} {row heap : Array (Triplet α)}

theorem swapIfInBounds_perm (row : Array (Triplet α)) (i j : Nat) :
    (row.swapIfInBounds i j).Perm row := by
  rw [Array.swapIfInBounds_def]
  split
  case isFalse => exact .refl row
  case isTrue hi =>
    split
    case isFalse => exact .refl row
    case isTrue hj => exact Array.swap_perm hi hj

theorem skipBelow_le (pivot : Int) {i : Nat} (hi : i ≤ row.size) :
    skipBelow row pivot i ≤ row.size := by
  fun_induction skipBelow row pivot i
  case case1 i h ih => exact ih h.left
  case case2 => exact hi

theorem skipAbove_le (row : Array (Triplet α)) (pivot : Int) (j : Nat) :
    skipAbove row pivot j ≤ j := by
  fun_induction skipAbove row pivot j
  case case1 => exact Nat.le_refl 0
  case case2 j h ih => exact Nat.le_succ_of_le ih
  case case3 => exact Nat.le_refl _

-- A row is cut by exchanges, at a place within it.
theorem cut_perm (pivot : Int) (fuel : Nat) {i j : Nat} (hi : i ≤ row.size)
    (hj : j ≤ row.size + 1) :
    (cut pivot fuel row i j).1.Perm row ∧ (cut pivot fuel row i j).2 ≤ row.size := by
  induction fuel generalizing row i j
  case zero => exact ⟨.refl row, hi⟩
  case succ fuel ih =>
    have hbelow := skipBelow_le pivot hi
    have habove := skipAbove_le row pivot (j - 1)
    rw [cut]
    split
    case isFalse => exact ⟨.refl row, hbelow⟩
    case isTrue hlt =>
      generalize skipBelow row pivot i = low at *
      generalize skipAbove row pivot (j - 1) = high at *
      have hswap := swapIfInBounds_perm row low high
      generalize row.swapIfInBounds low high = next at *
      have hsize := hswap.size_eq
      obtain ⟨hperm, hle⟩ := @ih next (low + 1) high (by omega) (by omega)
      exact ⟨hperm.trans hswap, hsize ▸ hle⟩

theorem sink_perm (size fuel : Nat) (heap : Array (Triplet α)) (hole : Nat) :
    (sink size fuel heap hole).1.Perm heap := by
  induction fuel generalizing heap hole
  case zero => exact .refl heap
  case succ fuel ih =>
    rw [sink]
    dsimp only
    split
    case isTrue => exact (ih _ _).trans (swapIfInBounds_perm heap _ _)
    case isFalse => exact .refl heap

theorem rise_perm (top fuel : Nat) (heap : Array (Triplet α)) (hole : Nat) :
    (rise top fuel heap hole).Perm heap := by
  induction fuel generalizing heap hole
  case zero => exact .refl heap
  case succ fuel ih =>
    rw [rise]
    split
    case isTrue => exact (ih _ _).trans (swapIfInBounds_perm heap _ _)
    case isFalse => exact .refl heap

theorem settle_perm (size : Nat) (heap : Array (Triplet α)) (top : Nat) :
    (settle size heap top).Perm heap :=
  (rise_perm _ _ _ _).trans (sink_perm _ _ _ _)

theorem foldl_perm {f : Array (Triplet α) → Nat → Array (Triplet α)}
    (hf : ∀ heap i, (f heap i).Perm heap) (positions : List Nat) (heap : Array (Triplet α)) :
    (positions.foldl f heap).Perm heap := by
  induction positions generalizing heap
  case nil => exact .refl heap
  case cons i positions ih => exact (ih _).trans (hf heap i)

theorem heapSorted_perm (piece : Array (Triplet α)) : (heapSorted piece).Perm piece :=
  (foldl_perm (fun _ _ => (settle_perm _ _ _).trans (swapIfInBounds_perm _ _ _)) _ _).trans
    (foldl_perm (settle_perm _) _ _)

-- The pivots keep the place of a cut between both ends; that it is within the row is enough here.
theorem cutToPieces_perm (depth first : Nat) {last : Nat} (hl : last ≤ row.size) :
    (cutToPieces depth first last row).Perm row := by
  induction depth generalizing first last row
  case zero =>
    rw [cutToPieces]
    split
    case isTrue => exact .refl row
    case isFalse hlong =>
      have hparts : row.extract 0 first ++ row.extract first last ++ row.extract last row.size =
          row := by
        have hlast : max first last = last := by omega
        rw [Array.extract_append_extract, hlast, Array.extract_append_extract, Nat.zero_min,
          Nat.zero_min, Nat.max_eq_right hl, Array.extract_size]
      have hperm := ((Array.Perm.refl (row.extract 0 first)).append
        (heapSorted_perm (row.extract first last))).append
          (Array.Perm.refl (row.extract last row.size))
      rwa [hparts] at hperm
  case succ depth ih =>
    rw [cutToPieces]
    split
    case isTrue => exact .refl row
    case isFalse hlong =>
      dsimp only
      have hswap := swapIfInBounds_perm row first
        (middle row (first + 1) (first + (last - first) / 2) (last - 1))
      generalize row.swapIfInBounds first
        (middle row (first + 1) (first + (last - first) / 2) (last - 1)) = front at hswap
      have hsize := hswap.size_eq
      have hfirst : first + 1 ≤ front.size := by omega
      have hlast : last ≤ front.size + 1 := by omega
      obtain ⟨hcut, hbetween⟩ := cut_perm (columnAt front first) (last - first) hfirst hlast
      generalize cut (columnAt front first) (last - first) front (first + 1) last = parts
        at hcut hbetween
      have hupper : (cutToPieces depth parts.2 last parts.1).Perm parts.1 :=
        ih _ (by rw [hcut.size_eq, hsize]; exact hl)
      have hlower : (cutToPieces depth first parts.2 (cutToPieces depth parts.2 last parts.1)).Perm
          (cutToPieces depth parts.2 last parts.1) :=
        ih _ (by rw [hupper.size_eq, hcut.size_eq]; exact hbetween)
      exact hlower.trans (hupper.trans (hcut.trans hswap))

theorem sorted_perm (row : List (Triplet α)) : (sorted row).Perm row := by
  have hlast : row.length ≤ row.toArray.size := Nat.le_of_eq List.size_toArray.symm
  have hpieces := cutToPieces_perm (2 * Nat.log2 row.length) 0 hlast
  exact (List.mergeSort_perm _ _).trans hpieces.toList

-- Taken together, the rows have the triplets of the list. The induction is on the list without the
-- row of its first triplet.
theorem rowsOf_perm (triplets : List (Triplet α)) : (rowsOf triplets).flatten.Perm triplets := by
  induction hn : triplets.length using Nat.strongRecOn generalizing triplets
  case ind n ih =>
    cases triplets
    case nil => exact .refl []
    case cons t rest =>
      let others := rest.filter fun s => !(s.row == t.row)
      have hothers : (t :: rest).filter (fun s => !(s.row == t.row)) = others := by simp [others]
      have hkeys : ((t :: rest).map Triplet.row).eraseDups =
          t.row :: (others.map Triplet.row).eraseDups := by
        rw [List.map_cons, List.eraseDups_cons, List.filter_map]
        rfl
      have hrest : ∀ i ∈ (others.map Triplet.row).eraseDups,
          (t :: rest).filter (·.row == i) = others.filter (·.row == i) := by
        intro i hi
        obtain ⟨s, hs, rfl⟩ := List.mem_map.mp (List.mem_eraseDups.mp hi)
        have hne : (s.row == t.row) = false := by simpa using (List.mem_filter.mp hs).right
        rw [← hothers, List.filter_filter]
        refine List.filter_congr fun r _ => ?_
        by_cases hr : r.row = s.row
        case pos => simp [hr, hne]
        case neg => simp [hr]
      have hlength : others.length < n := by
        rw [← hn, List.length_cons]
        exact Nat.lt_succ_of_le (List.length_filter_le _ _)
      have hperm := ih others.length hlength others rfl
      rw [rowsOf, hkeys, List.map_cons, List.flatten_cons, List.map_congr_left hrest]
      exact ((List.Perm.refl _).append hperm).trans (hothers ▸ List.filter_append_perm _ _)

theorem arranged_perm (triplets : List (Triplet α)) : (arranged triplets).Perm triplets := by
  rw [arranged]
  split
  case isTrue => exact .refl triplets
  case isFalse =>
    have hrows : ((rowsOf triplets).flatMap sorted).Perm ((rowsOf triplets).flatMap id) :=
      List.Perm.flatMap_left _ fun row _ => sorted_perm row
    rw [List.flatMap_id] at hrows
    exact hrows.trans (rowsOf_perm triplets)

end NonlinearProgram.RowOrder
