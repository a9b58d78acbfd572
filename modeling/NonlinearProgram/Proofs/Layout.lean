import Mathlib.Algebra.BigOperators.Fin
import NonlinearProgram.Layout.Description
import NonlinearProgram.Proofs.Selection

namespace NonlinearProgram.Layout

variable {mask : List Bool} {layout l : Layout} {bounds : List Int} {ranks : Nat}

-- A space that one rank has as a whole.
theorem localSize_whole (n : Int) : localSize ⟨[0, n], 0⟩ = n := by
  simp [localSize, start, stop, boundary]

theorem globalSize_whole (n : Int) : globalSize ⟨[0, n], 0⟩ = n := rfl

theorem localSize_ofSize (n : Nat) : (ofSize n).localSize = n := localSize_whole n

theorem ranksOf_eq_ok (h : ranksOf bounds = .ok ranks) :
    bounds.length = ranks + 1 ∧ bounds[0]? = some 0 := by
  rw [ranksOf.eq_def] at h
  split at h
  case isTrue => cases h
  case isFalse =>
    match bounds, h with
    | first :: second :: rest, h =>
      dsimp only at h
      split_ifs at h with hf
      cases h
      simpa using hf

theorem isInt64_of_ranksOf (h : ranksOf bounds = .ok ranks) :
    bounds.any (!isInt64 ·) = false := by
  rw [ranksOf.eq_def] at h
  split at h
  case isTrue => cases h
  case isFalse hb => exact Bool.not_eq_true _ ▸ hb

theorem ranksOf_of_ofBoundaries {r : Int} (h : ofBoundaries bounds r = .ok l) :
    ∃ ranks, ranksOf bounds = .ok ranks ∧ 0 ≤ r ∧ r < ranks ∧ l = ⟨bounds, r.toNat⟩ := by
  rw [ofBoundaries] at h
  cases hr : ranksOf bounds
  case error e => simp [hr, bind, Except.bind] at h
  case ok ranks =>
    simp only [hr, bind, Except.bind] at h
    split at h <;> cases h
    case isTrue hlt => exact ⟨ranks, rfl, hlt.left, hlt.right, rfl⟩

theorem ofBoundaries_eq_ok {r : Int} (h : ofBoundaries bounds r = .ok l) :
    l = ⟨bounds, r.toNat⟩ :=
  have ⟨_, _, _, _, hl⟩ := ranksOf_of_ofBoundaries h
  hl

theorem ofBoundaries_rank {r : Nat} (h : ranksOf bounds = .ok ranks) (hr : r < ranks) :
    ofBoundaries bounds r = .ok ⟨bounds, r⟩ := by
  have hr' : (r : Int) < ranks := Int.ofNat_lt.mpr hr
  simp [ofBoundaries, h, bind, Except.bind, hr']
  rfl

-- The slices of all ranks make up the whole space.
theorem sum_localSize {layouts : Fin ranks → Layout} (h : ranksOf bounds = .ok ranks)
    (hb : ∀ r, layouts r = ⟨bounds, r⟩) : ∑ r, (layouts r).localSize = bounds.getLastD 0 := by
  have ⟨hl, hz⟩ := ranksOf_eq_ok h
  have hs (r : Fin ranks) : (layouts r).localSize =
      bounds[r.val + 1]?.getD 0 - bounds[r.val]?.getD 0 := by rw [hb]; rfl
  simp only [hs]
  rw [Fin.sum_univ_eq_sum_range (fun i => bounds[i + 1]?.getD 0 - bounds[i]?.getD 0),
    Finset.sum_range_sub (fun i => bounds[i]?.getD 0), hz, List.getLastD_eq_getLast?,
    List.getLast?_eq_getElem?, hl]
  simp

theorem serial_eq_ok {n : Int} (h : serial n = .ok l) : l = ⟨[0, n], 0⟩ := by
  rw [serial] at h
  split at h
  case isTrue => cases h
  case isFalse => exact ofBoundaries_eq_ok h

theorem count_map_not (mask : List Bool) : (mask.map not).count true = mask.count false := by
  induction mask
  case nil => rfl
  case cons b mask hi => cases b <;> simp [hi]

theorem reduced_eq_ok (h : layout.reduced (mask.map not) = .ok l) :
    l = ⟨[0, ((clearPositions mask).length : Int)], 0⟩ := by
  rw [reduced] at h
  split at h
  case isTrue => cases h
  case isFalse =>
    split at h
    case isTrue => cases h
    case isFalse =>
      have hc : (mask.map not).count true = (clearPositions mask).length := by
        rw [length_clearPositions, count_map_not]
      rw [serial_eq_ok h, hc]

theorem ranksOf_pair {n : Int} (hn : 0 ≤ n) (h : isInt64 n) : ranksOf [0, n] = .ok 1 := by
  have hb : (n - 0).bmod (2 ^ 64) = n := by
    simp only [isInt64, Bool.and_eq_true, decide_eq_true_eq] at h
    rw [Int.sub_zero, Int.bmod_eq_of_le_mul_two] <;> omega
  have hs : wrappedSteps [0, n] = [n] := congrArg (· :: []) hb
  have hz : isInt64 0 := by decide
  simp [ranksOf, h, hz, hs, hn]

theorem serial_of_isInt64 {n : Int} (hn : 0 ≤ n) (h : isInt64 n) : serial n = .ok ⟨[0, n], 0⟩ := by
  rw [serial, if_neg (Int.not_lt.mpr hn)]
  exact ofBoundaries_rank (ranksOf_pair hn h) Nat.one_pos

-- No slice ends at a number that takes more than 64 bits.
theorem serial_of_not_isInt64 {n : Int} (hn : 0 ≤ n) (h : isInt64 n = false) :
    serial n = .error (.value .integerRange) := by
  rw [serial, if_neg (Int.not_lt.mpr hn), ofBoundaries]
  simp [ranksOf, h]
  rfl

-- Boundaries of 64 bits are only refused for a reason that has a text.
theorem ofBoundaries_ne_value {r : Int} {fault : ValueFault}
    (h : bounds.any (!isInt64 ·) = false) : ofBoundaries bounds r ≠ .error (.value fault) := by
  have hr : ranksOf bounds ≠ .error (.value fault) := by
    rw [ranksOf.eq_def]
    simp only [h, Bool.false_eq_true, if_false]
    split
    · split_ifs <;> simp
    · simp
  rw [ofBoundaries]
  cases hb : ranksOf bounds
  case error e =>
    intro he
    cases he
    exact hr hb
  case ok ranks =>
    simp only [bind, Except.bind]
    split <;> simp [pure, Except.pure, throw, throwThe, MonadExceptOf.throw]

-- A layout that is not spread over ranks has a single slice.
theorem eq_pair_of_not_isDistributed {r : Int} (h : ofBoundaries bounds r = .ok l)
    (hd : l.isDistributed = false) : ∃ n, isInt64 n ∧ l = ⟨[0, n], 0⟩ := by
  have ⟨ranks, hr, hr₀, hlt, hl⟩ := ranksOf_of_ofBoundaries h
  have ⟨hlen, hfirst⟩ := ranksOf_eq_ok hr
  have hranks : ranks ≤ 1 := by
    simpa [hl, isDistributed, rankCount, hlen] using hd
  have hrank : r.toNat = 0 := by omega
  match bounds, hlen, hfirst with
  | [first, n], _, hfirst =>
    cases Option.some.inj hfirst
    have hv := isInt64_of_ranksOf hr
    simp only [List.any_cons, List.any_nil, Bool.or_eq_false_iff, Bool.not_eq_false'] at hv
    exact ⟨n, hv.right.left, by rw [hl, hrank]⟩
  | [], hlen, _ | [_], hlen, _ | _ :: _ :: _ :: _, hlen, _ =>
    simp only [List.length_cons, List.length_nil] at hlen
    omega

-- A layout with a single slice can do without any of its variables.
theorem exists_reduced {r : Int} (h : ofBoundaries bounds r = .ok l)
    (hd : l.isDistributed = false) (hm : l.localSize = mask.length) :
    ∃ reduced, l.reduced (mask.map not) = .ok reduced := by
  have ⟨n, hn, hl⟩ := eq_pair_of_not_isDistributed h hd
  have hsize : n = mask.length := by
    simpa [hl, localSize, start, stop, boundary] using hm
  have hle : (mask.map not).count true ≤ mask.length := by
    simpa using List.count_le_length (l := mask.map not)
  have hcount : isInt64 ((mask.map not).count true) := by
    simp only [isInt64, Bool.and_eq_true, decide_eq_true_eq] at hn ⊢
    omega
  have hglobal : ((mask.map not).length : Int) = l.globalSize := by
    simp [hl, globalSize, hsize]
  rw [reduced, if_neg (by simp [hd]), if_neg (not_not.mpr hglobal)]
  exact ⟨_, serial_of_isInt64 (Int.natCast_nonneg _) hcount⟩

end NonlinearProgram.Layout
