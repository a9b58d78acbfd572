import NonlinearProgram.Proofs.Faithful
import NonlinearProgram.Proofs.Formulation.Independence
import NonlinearProgram.Proofs.Formulation.Indicators

-- A solver starts at a point of the problem's own, or else at one that lies within all bounds that
-- are marked as present.

namespace NonlinearProgram

open Program FormulationM

variable {α : Type} [Scalar α]

namespace Scalar

variable [CentredScalar α] {x : α}

theorem defined_of_isFinite (h : isFinite x) : ¬isUndefined x := RoundedScalar.defined_of_finite h

theorem larger_zero (h : ¬isUndefined x) : larger 0 x = if x < 0 then 0 else x := by
  rw [larger, if_neg (defined_of_isFinite CentredScalar.finite_zero), if_neg h]

theorem smaller_of_isFinite {y : α} (h : isFinite x) (hy : ¬isUndefined y) :
    smaller x y = if x < y then x else y := by
  rw [smaller, if_neg (defined_of_isFinite h), if_neg hy]

theorem larger_zero_negInfinity : larger 0 (negInfinity : α) = 0 := by
  have h := CentredScalar.negInfinity_lt (CentredScalar.finite_zero (α := α))
  rw [larger_zero (LawfulScalar.defined_of_le (LawfulScalar.le_of_lt h)).left, if_pos h]

theorem smaller_infinity (h : isFinite x) : smaller x infinity = x := by
  have h' := CentredScalar.lt_infinity h
  have hd := (LawfulScalar.defined_of_le (LawfulScalar.le_of_lt h')).right
  rw [smaller_of_isFinite h hd, if_pos h']

end Scalar

theorem zero_lt_indicator [LawfulScalar α] (b : Bool) : decide ((0 : α) < indicator b) = b := by
  cases b
  case false => exact decide_eq_false fun h => LawfulScalar.not_le_of_lt h (LawfulScalar.le_of_lt h)
  case true => exact decide_eq_true LawfulScalar.zero_lt_one

namespace Box

-- Is a value within the bounds that are marked as present?
structure Admits (b : Box α) (x : α) : Prop where
  lower : b.lowerMark == 1 → b.lower ≤ x
  upper : b.upperMark == 1 → x ≤ b.upper

-- Between zero and `z`, both included.
def TowardZero (x z : α) : Prop := 0 ≤ x ∧ x ≤ z ∨ z ≤ x ∧ x ≤ 0

-- Where to start by default: half way between two bounds, otherwise at the value within the bound
-- that is nearest to zero, if there is a bound.
structure StartsAt (b : Box α) (x : α) : Prop where
  finite : Scalar.isFinite x
  admitted : b.Admits x
  midpoint : b.TwoSided → x = Scalar.midpoint b.lower b.upper
  nearest : ¬b.TwoSided → ∀ z, b.lowerMark == 1 ∨ b.upperMark == 1 → b.Admits z → TowardZero x z
  free : ¬b.lowerMark == 1 → ¬b.upperMark == 1 → x = 0

-- What is marked as present is finite, and so is what is half way between.
structure Startable (b : Box α) : Prop where
  lower : b.lowerMark == 1 → Scalar.isFinite b.lower
  upper : b.upperMark == 1 → Scalar.isFinite b.upper
  midpoint : b.TwoSided → Scalar.isFinite (Scalar.midpoint b.lower b.upper)

instance (b : Box α) : Decidable b.Startable :=
  decidable_of_iff ((b.lowerMark == 1 → Scalar.isFinite b.lower) ∧
      (b.upperMark == 1 → Scalar.isFinite b.upper) ∧
      (b.TwoSided → Scalar.isFinite (Scalar.midpoint b.lower b.upper)))
    ⟨fun ⟨hl, hu, hm⟩ => ⟨hl, hu, hm⟩, fun h => ⟨h.lower, h.upper, h.midpoint⟩⟩

open Formulation Scalar

variable [CentredScalar α] {infinity l u x : α} {b : Box α} {o : Options α} {policy : FixedPolicy}

theorem finite_of_twoSided (h2 : (ofBounds infinity (l, u)).TwoSided) (h : l ≤ u) :
    isFinite l ∧ isFinite u := by
  have ⟨hl, hu⟩ := twoSided_ofBounds.mp h2
  exact ⟨RoundedScalar.finite_of_between hl (LawfulScalar.lt_of_le_of_lt h hu),
    RoundedScalar.finite_of_between (LawfulScalar.lt_of_lt_of_le hl h) hu⟩

theorem lowerMark_ofBounds : (ofBounds infinity (l, u)).lowerMark == 1 ↔ -infinity < l := by
  rw [ofBounds, indicator_beq_one, hasLower_iff]

theorem upperMark_ofBounds : (ofBounds infinity (l, u)).upperMark == 1 ↔ u < infinity := by
  rw [ofBounds, indicator_beq_one, hasUpper_iff]

-- A bound that a finite value is within is finite, as it is on this side of the threshold.
theorem StartsAt.startable (h : (ofBounds infinity (l, u)).StartsAt x) :
    (ofBounds infinity (l, u)).Startable where
  lower hm := RoundedScalar.finite_of_between (lowerMark_ofBounds.mp hm)
    (LawfulScalar.lt_of_le_of_lt (h.admitted.lower hm) (CentredScalar.lt_infinity h.finite))
  upper hm := RoundedScalar.finite_of_between
    (LawfulScalar.lt_of_lt_of_le (CentredScalar.negInfinity_lt h.finite) (h.admitted.upper hm))
    (upperMark_ofBounds.mp hm)
  midpoint h2 := h.midpoint h2 ▸ h.finite

theorem zero_le_zero : (0 : α) ≤ 0 :=
  LawfulScalar.le_refl (defined_of_isFinite CentredScalar.finite_zero)

theorem towardZero_zero (hx : ¬isUndefined x) : TowardZero 0 x :=
  (LawfulScalar.le_total (defined_of_isFinite CentredScalar.finite_zero) hx).imp
    (fun h => ⟨zero_le_zero, h⟩) fun h => ⟨h, zero_le_zero⟩

theorem defaultEntry_lower (h : isFinite l) :
    defaultEntry true false l u = if l < 0 then 0 else l := by
  have hd := defined_of_isFinite h
  simp only [defaultEntry, Bool.and_false, Bool.false_eq_true, if_false, if_true, larger_zero hd]
  split
  case isTrue => exact smaller_infinity CentredScalar.finite_zero
  case isFalse => exact smaller_infinity h

theorem defaultEntry_upper (h : isFinite u) :
    defaultEntry false true l u = if 0 < u then 0 else u := by
  simp only [defaultEntry, Bool.false_and, Bool.false_eq_true, if_false, if_true,
    larger_zero_negInfinity]
  exact smaller_of_isFinite CentredScalar.finite_zero (defined_of_isFinite h)

theorem defaultEntry_free : defaultEntry false false l u = 0 := by
  simp only [defaultEntry, Bool.false_and, Bool.false_eq_true, if_false, larger_zero_negInfinity]
  exact smaller_infinity CentredScalar.finite_zero

section

variable (hs : (ofBounds infinity (l, u)).Startable)

include hs

theorem startsAt_midpoint (hl : -infinity < l) (hu : u < infinity) (h : l ≤ u) :
    (ofBounds infinity (l, u)).StartsAt (midpoint l u) := by
  have h2 : (ofBounds infinity (l, u)).TwoSided := twoSided_ofBounds.mpr ⟨hl, hu⟩
  have ⟨hfl, hfu⟩ := finite_of_twoSided h2 h
  exact {
    finite := hs.midpoint h2
    admitted.lower := fun _ => CentredScalar.le_midpoint hfl hfu h (hs.midpoint h2)
    admitted.upper := fun _ => CentredScalar.midpoint_le hfl hfu h (hs.midpoint h2)
    midpoint := fun _ => rfl
    nearest := fun h => absurd h2 h
    free := fun h => absurd h2.left h }

theorem startsAt_lower (hl : -infinity < l) (hu : ¬u < infinity) :
    (ofBounds infinity (l, u)).StartsAt (if l < 0 then 0 else l) := by
  have hf : isFinite l := hs.lower (lowerMark_ofBounds.mpr hl)
  have hd := defined_of_isFinite hf
  have hd0 : ¬isUndefined (0 : α) := defined_of_isFinite CentredScalar.finite_zero
  have hno : ¬(ofBounds infinity (l, u)).upperMark == 1 := fun h => hu (upperMark_ofBounds.mp h)
  split
  case isTrue h =>
    exact {
      finite := CentredScalar.finite_zero
      admitted := ⟨fun _ => LawfulScalar.le_of_lt h, fun h => absurd h hno⟩
      midpoint := fun h => absurd h.right hno
      nearest := fun _ z hm ha => towardZero_zero
        (LawfulScalar.defined_of_le (ha.lower (hm.resolve_right hno))).right
      free := fun h => absurd (lowerMark_ofBounds.mpr hl) h }
  case isFalse h =>
    have h0 : 0 ≤ l := LawfulScalar.le_of_not_lt hd0 hd h
    exact {
      finite := hf
      admitted := ⟨fun _ => LawfulScalar.le_refl hd, fun h => absurd h hno⟩
      midpoint := fun h => absurd h.right hno
      nearest := fun _ z hm ha => .inl ⟨h0, ha.lower (hm.resolve_right hno)⟩
      free := fun h => absurd (lowerMark_ofBounds.mpr hl) h }

theorem startsAt_upper (hl : ¬-infinity < l) (hu : u < infinity) :
    (ofBounds infinity (l, u)).StartsAt (if 0 < u then 0 else u) := by
  have hf : isFinite u := hs.upper (upperMark_ofBounds.mpr hu)
  have hd := defined_of_isFinite hf
  have hd0 : ¬isUndefined (0 : α) := defined_of_isFinite CentredScalar.finite_zero
  have hno : ¬(ofBounds infinity (l, u)).lowerMark == 1 := fun h => hl (lowerMark_ofBounds.mp h)
  split
  case isTrue h =>
    exact {
      finite := CentredScalar.finite_zero
      admitted := ⟨fun h => absurd h hno, fun _ => LawfulScalar.le_of_lt h⟩
      midpoint := fun h => absurd h.left hno
      nearest := fun _ z hm ha => towardZero_zero
        (LawfulScalar.defined_of_le (ha.upper (hm.resolve_left hno))).left
      free := fun _ h => absurd (upperMark_ofBounds.mpr hu) h }
  case isFalse h =>
    have h0 : u ≤ 0 := LawfulScalar.le_of_not_lt hd hd0 h
    exact {
      finite := hf
      admitted := ⟨fun h => absurd h hno, fun _ => LawfulScalar.le_refl hd⟩
      midpoint := fun h => absurd h.left hno
      nearest := fun _ z hm ha => .inr ⟨ha.upper (hm.resolve_left hno), h0⟩
      free := fun _ h => absurd (upperMark_ofBounds.mpr hu) h }

end

theorem startsAt_zero (hl : ¬-infinity < l) (hu : ¬u < infinity) :
    (ofBounds infinity (l, u)).StartsAt 0 := by
  have hnl : ¬(ofBounds infinity (l, u)).lowerMark == 1 := fun h => hl (lowerMark_ofBounds.mp h)
  have hnu : ¬(ofBounds infinity (l, u)).upperMark == 1 := fun h => hu (upperMark_ofBounds.mp h)
  exact {
    finite := CentredScalar.finite_zero
    admitted := ⟨fun h => absurd h hnl, fun h => absurd h hnu⟩
    midpoint := fun h => absurd h.left hnl
    nearest := fun _ _ hm => absurd hm (not_or.mpr ⟨hnl, hnu⟩)
    free := fun _ _ => rfl }

-- The default is where to start, unless a bound that is marked is infinite or a midpoint overflows.
theorem startsAt_defaultEntry_iff (h : -infinity < l → u < infinity → l ≤ u) :
    (ofBounds infinity (l, u)).StartsAt
        (defaultEntry (hasLower infinity l) (hasUpper infinity u) l u) ↔
      (ofBounds infinity (l, u)).Startable := by
  refine ⟨StartsAt.startable, fun hs => ?_⟩
  by_cases hl : -infinity < l <;> by_cases hu : u < infinity
  all_goals simp only [hasLower, hasUpper, hl, hu, decide_true, decide_false]
  · exact startsAt_midpoint hs hl hu (h hl hu)
  · have hf : isFinite l := hs.lower (lowerMark_ofBounds.mpr hl)
    rw [defaultEntry_lower hf]
    exact startsAt_lower hs hl hu
  · have hf : isFinite u := hs.upper (upperMark_ofBounds.mpr hu)
    rw [defaultEntry_upper hf]
    exact startsAt_upper hs hl hu
  · rw [defaultEntry_free]
    exact startsAt_zero hl hu

-- Two bounds that are both present are in order, whatever became of fixed variables.
theorem le_of_present {bounds : α × α} (ht : 0 < o.tolerance)
    (hp : policy = .keep ↔ o.policy = .keep)
    (hc : ¬isInconsistent o.tolerance (o.policy != .keep) bounds.1 bounds.2)
    (h : treated o policy bounds = some b) (h2 : b.TwoSided) : b.lower ≤ b.upper := by
  by_cases hk : o.policy = .keep
  case neg => exact LawfulScalar.le_of_lt (lt_of_twoSided ht hp hk h h2)
  case pos =>
    have hnot : ¬isTreated o bounds := fun h => (isTreated_iff.mp h).left hk
    rw [treated.eq_def, if_neg hnot] at h
    cases h
    obtain ⟨hl, hu, hcross⟩ := of_consistent hc
    apply LawfulScalar.le_of_not_lt hl hu
    intro hlt
    have hallowed := hcross hlt
    simp [hk] at hallowed

end Box
namespace Problem

-- What a problem makes of the question for a starting point: it supplies one, written over zeros,
-- or it has none, whatever it may have written.
inductive Offers (p : Problem α) (c : Core α) : Option (List α) → Prop
  | supplied {reply : StartReply α}
      (h : p.startingPoint c.userSize (List.replicate c.userLayout.localSize.toNat 0) = .ok reply)
      (ha : reply.answer.isTrue) :
      Offers p c (some (overlay reply.point (List.replicate c.userLayout.localSize.toNat 0)))
  | declined {reply : StartReply α}
      (h : p.startingPoint c.userSize (List.replicate c.userLayout.localSize.toNat 0) = .ok reply)
      (ha : reply.answer.isTrue = false) : Offers p c none
  | raised {fault : Fault}
      (h : p.startingPoint c.userSize (List.replicate c.userLayout.localSize.toNat 0) =
        .error fault)
      (hr : fault.isRecoverable) : Offers p c none

theorem Offers.length_eq {p : Problem α} {c : Core α} {xs : List α} (h : p.Offers c (some xs)) :
    xs.length = c.userLayout.localSize.toNat := by
  cases h
  rw [length_overlay, List.length_replicate]

theorem offers_of_declines {p : Problem α}
    (h : p.startingPoint = fun _ _ => .ok { answer := .flag false }) {c : Core α} :
    p.Offers c none :=
  .declined (by rw [h]) rfl

end Problem

namespace Formulation

variable {p : Problem α} {s t : Session α} {d : Finalized α} {o : Options α} {v : Core.Survey α}
  {x : Argument α} {w : View} {ys xs : List α} {r : Option (List α)}

-- Asking leaves all arrays alone.
theorem askStartingPoint_run (h : p.Offers d.core r) (s : Session α) :
    ∃ t, askStartingPoint p d.core s = (.ok r, t) ∧ t.store = s.store := by
  rw [askStartingPoint, bind_of_ok (record_run _ s)]
  cases h
  case supplied h ha =>
    simp only [h, ha, if_true]
    exact ⟨_, rfl, Eq.refl s.store⟩
  case declined h ha =>
    simp only [h, ha, Bool.false_eq_true, if_false]
    exact ⟨_, rfl, Eq.refl s.store⟩
  case raised h hr =>
    simp only [h, hr, if_true]
    exact ⟨_, rfl, Eq.refl s.store⟩

-- A fault that one cannot back off from is passed on.
theorem askStartingPoint_cases (p : Problem α) (d : Finalized α) (s : Session α) :
    (∃ r, p.Offers d.core r) ∨ ∃ e, (askStartingPoint p d.core s).1 = .error e := by
  cases h : p.startingPoint d.core.userSize (List.replicate d.core.userLayout.localSize.toNat 0)
  case ok reply =>
    cases ha : reply.answer.isTrue
    case false => exact .inl ⟨_, .declined h ha⟩
    case true => exact .inl ⟨_, .supplied h ha⟩
  case error fault =>
    cases hr : fault.isRecoverable
    case true => exact .inl ⟨_, .raised h hr⟩
    case false =>
      refine .inr ⟨.raised fault, ?_⟩
      rw [askStartingPoint, bind_of_ok (record_run _ s), h]
      simp only [hr, Bool.false_eq_true, if_false]
      rfl

theorem startingPoint_rejects (h : Ready p d o v s) (hx : x.view? = some w)
    (hs : p.Offers d.core (some xs)) (hf : xs.all Scalar.isFinite = false) :
    ∃ t, startingPoint p x s = (.ok false, t) ∧ t.store = s.store := by
  obtain ⟨t, ha, hst⟩ := askStartingPoint_run hs s
  rw [startingPoint, bind_of_ok (getCore_run h.finalized)]
  rw [bind_of_ok (localPart_run hx s), bind_of_ok ha]
  simp only [hf, Bool.false_eq_true, if_false]
  exact ⟨_, rfl, hst⟩

section

variable (h : Ready p d o v s) (hx : d.Lent s.store x w ys)
  (hl : (ys.length : Int) = d.core.localSize) (hw : s.store.writable w)

include h hx hl hw

-- The problem's own point is copied without the variables that are eliminated.
theorem startingPoint_accepts (hs : p.Offers d.core (some xs))
    (hf : xs.all Scalar.isFinite) :
    ∃ t, startingPoint p x s = (.ok true, t) ∧
      t.store.entries w = gather xs d.core.freeVariables := by
  have hlen : xs.length = (v.eliminated o d.core).length := by
    rw [hs.length_eq, h.intact.describes.userLayout, h.length_eliminated]
  have hc : s.store.Writes (fun _ => False) (s.store.alloc (Tensor.ofList xs)).2 := .alloc _
  have hn : (s.store.alloc (Tensor.ofList xs)).2.Owns (s.store.alloc (Tensor.ofList xs)).1 _ :=
    .alloc (by simp [Tensor.ofList, Tensor.sizeOf])
  obtain ⟨y, st, hm, he, hwr, _, hy⟩ := Chain.pointToInternal_run
    (h.eliminates.writes hc fun _ _ => id) (hn.left.trans (congrArg (List.cons · []) hlen)) hn.valid
  replace hwr : s.store.Writes d.IsScratch st := (hc.mono fun _ => False.elim).and_then <|
    hwr.mono fun k hk => by
      obtain ⟨u, hu, rfl⟩ := List.mem_map.mp hk
      exact Finalized.chain_scratch hu
  have hx' := hx.writes_scratch hwr
  have hsize : y.shape = w.shape := by rw [hy, hx.shape, h.length_eq hl, Core.Survey.internalSize]
  obtain ⟨t, ha, hst⟩ := askStartingPoint_run hs s
  have hrun : (do
      let y ← d.core.chain.pointToInternal (← StoreM.alloc (Tensor.ofList xs))
      StoreM.assign w (← StoreM.read y) : StoreM α Unit) t.store =
        (.ok ⟨⟩, st.setEntries w (st.entries y)) := by
    rw [hst, bind_of_ok (StoreM.alloc_run _ _), bind_of_ok hm, bind_of_ok (StoreM.read_run y st)]
    exact StoreM.assign_run (hwr.writable hx.valid ▸ hw) hsize (by simp [hx.shape])
  rw [startingPoint, bind_of_ok (getCore_run h.finalized)]
  rw [bind_of_ok (localPart_run hx.view s), bind_of_ok ha]
  simp only [hf, if_true]
  rw [bind_of_ok (onStore_of_ok hrun)]
  refine ⟨_, rfl, ?_⟩
  have hfill : (st.setEntries w (st.entries y)).entries w = st.entries y := by
    apply Store.entries_setEntries hx'.valid
    rw [he, Store.entries_alloc_ofList, length_restrict hlen, View.size_of_shape hx.shape,
      h.length_eq hl]
    rfl
  rw [h.freeVariables]
  exact hfill.trans (he.trans (by rw [Store.entries_alloc_ofList]; rfl))

omit h hx hl hw in
theorem defaultPoint_eq (core : Core α) (st : Store α) :
    defaultPoint (st.entries core.lowerIndicator.view) (st.entries core.upperIndicator.view)
      (st.entries core.lower.view) (st.entries core.upper.view) =
    (core.boxes st).map fun b =>
      defaultEntry (0 < b.lowerMark) (0 < b.upperMark) b.lower b.upper := by
  rw [defaultPoint, Core.boxes, List.zipWith_comm, List.map_map]
  change _ = List.map _ (List.zipWith Prod.mk _ _)
  rw [List.map_zipWith]
  rfl

-- What is chosen by default depends on the bounds of the internal variables only.
theorem startingPoint_defaults (hs : p.Offers d.core none) :
    ∃ t, startingPoint p x s = (.ok true, t) ∧
      t.store.entries w = (d.core.boxes s.store).map fun b =>
        defaultEntry (0 < b.lowerMark) (0 < b.upperMark) b.lower b.upper := by
  obtain ⟨t, ha, hst⟩ := askStartingPoint_run hs s
  have hfit : v.variableData.Fits (v.fixed o).length :=
    Core.fixedVariables_fits h.surveyed.variables_fit ▸ h.surveyed.variables_fit
  have hlen := h.intact.describes.length_boxes hfit
  rw [startingPoint, bind_of_ok (getCore_run h.finalized)]
  rw [bind_of_ok (localPart_run hx.view s), bind_of_ok ha]
  have hrun : (do
      let point := defaultPoint (← StoreM.entries d.core.lowerIndicator.view)
        (← StoreM.entries d.core.upperIndicator.view) (← StoreM.entries d.core.lower.view)
        (← StoreM.entries d.core.upper.view)
      StoreM.assign w (Tensor.ofList point) : StoreM α Unit) t.store =
        (.ok ⟨⟩, s.store.setEntries w ((d.core.boxes s.store).map fun b =>
          defaultEntry (0 < b.lowerMark) (0 < b.upperMark) b.lower b.upper)) := by
    rw [hst, bind_of_ok (StoreM.entries_run _ _), bind_of_ok (StoreM.entries_run _ _),
      bind_of_ok (StoreM.entries_run _ _), bind_of_ok (StoreM.entries_run _ _)]
    simp only [defaultPoint_eq]
    refine StoreM.assign_run hw ?_ (by simp [hx.shape])
    rw [Tensor.ofList, List.length_map, hx.shape, Int.natCast_inj.mp (hlen.trans hl.symm)]
  dsimp only
  rw [bind_of_ok (onStore_of_ok hrun)]
  refine ⟨_, rfl, ?_⟩
  refine Store.entries_setEntries hx.valid ?_
  rw [List.length_map, View.size_of_shape hx.shape]
  exact Int.natCast_inj.mp (hlen.trans hl.symm)

end

-- The answer is no only for a point that the problem supplies.
theorem startingPoint_eq_false (h : Ready p d o v s) (hx : d.Lent s.store x w ys)
    (hl : (ys.length : Int) = d.core.localSize) (hw : s.store.writable w)
    (hfalse : (startingPoint p x s).1 = .ok false) :
    ∃ xs, p.Offers d.core (some xs) ∧ xs.all Scalar.isFinite = false := by
  rcases askStartingPoint_cases p d s with ⟨_ | xs, hs⟩ | ⟨e, he⟩
  case inl.none =>
    obtain ⟨t, ht, _⟩ := startingPoint_defaults h hx hl hw hs
    rw [ht] at hfalse
    cases hfalse
  case inl.some =>
    cases hall : xs.all Scalar.isFinite
    case false => exact ⟨xs, hs, hall⟩
    case true =>
      obtain ⟨t, ht, _⟩ := startingPoint_accepts h hx hl hw hs hall
      rw [ht] at hfalse
      cases hfalse
  case inr =>
    rw [startingPoint, bind_of_ok (getCore_run h.finalized)] at hfalse
    rw [bind_of_ok (localPart_run hx.view s), bind_of_error (Prod.ext he rfl)] at hfalse
    cases hfalse

variable [CentredScalar α]

-- A point is written, and the answer is yes, unless the problem supplies one with an entry that is
-- not finite. What is written by default is where to start, exactly if the bounds that are marked
-- as present are finite and the middle between two of them does not overflow.
theorem starting_point_usable_iff {u : Session α} (hf : finalize p s = (.ok true, t))
    (hd : t.formulation.finalized = some d) (ht : 0 < s.formulation.options.tolerance)
    (hc : s.formulation.communicator.Covers) (hu : Relation.ReflTransGen (Used d) t u)
    (hx : d.Lent u.store x w ys) (hl : (ys.length : Int) = d.core.localSize)
    (hw : u.store.writable w) :
    ((startingPoint p x u).1 = .ok false ↔
      ∃ xs, p.Offers d.core (some xs) ∧ ∃ z ∈ xs, ¬Scalar.isFinite z) ∧
    ((startingPoint p x u).1 = .ok false → (startingPoint p x u).2.store = u.store) ∧
    (∀ xs, p.Offers d.core (some xs) → (∀ z ∈ xs, Scalar.isFinite z) →
      ∃ t', startingPoint p x u = (.ok true, t') ∧
        t'.store.entries w = gather xs d.core.freeVariables) ∧
    (p.Offers d.core none → ∃ t', startingPoint p x u = (.ok true, t') ∧
      List.Forall₂ (fun b z => b.StartsAt z ↔ b.Startable) (d.core.boxes u.store)
        (t'.store.entries w)) := by
  have ⟨v, hF⟩ := finalizes_of_finalized hf hd
  have hr := hF.ready.undisturbed (hF.ready.history hu)
  have hany {xs : List α} : xs.all Scalar.isFinite = false ↔ ∃ z ∈ xs, ¬Scalar.isFinite z := by
    simp [List.all_eq_false]
  refine ⟨⟨fun h => ?_, ?_⟩, fun h => ?_, fun xs hs hfin => ?_, fun hs => ?_⟩
  case refine_1 =>
    obtain ⟨xs, hs, hall⟩ := startingPoint_eq_false hr hx hl hw h
    exact ⟨xs, hs, hany.mp hall⟩
  case refine_2 =>
    rintro ⟨xs, hs, hz⟩
    obtain ⟨t', ht', _⟩ := startingPoint_rejects hr hx.view hs (hany.mpr hz)
    rw [ht']
  case refine_3 =>
    obtain ⟨xs, hs, hall⟩ := startingPoint_eq_false hr hx hl hw h
    obtain ⟨t', ht', hst⟩ := startingPoint_rejects hr hx.view hs hall
    rw [ht', hst]
  case refine_4 => exact startingPoint_accepts hr hx hl hw hs (List.all_eq_true.mpr hfin)
  case refine_5 =>
    obtain ⟨t', ht', he⟩ := startingPoint_defaults hr hx hl hw hs
    refine ⟨t', ht', ?_⟩
    rw [he, List.forall₂_map_right_iff, List.forall₂_same]
    intro b hb
    have hb' : b ∈ d.core.boxes t.store := by
      rwa [hF.intact.describes.boxes, ← hr.intact.describes.boxes]
    rw [hF.boxes hc] at hb'
    obtain ⟨bounds, hbounds, htr⟩ := List.mem_filterMap.mp hb'
    have hle := Box.le_of_present ht hF.policy_eq_keep (hF.consistent hbounds) htr
    rw [hr.intact.describes.boxes] at hb
    obtain ⟨⟨l, up⟩, _, rfl⟩ := List.mem_map.mp hb
    rw [Box.ofBounds, zero_lt_indicator, zero_lt_indicator]
    exact Box.startsAt_defaultEntry_iff fun h h' => hle (Box.twoSided_ofBounds.mpr ⟨h, h'⟩)

-- A variable between two bounds, one below a bound and one above a bound.
def boundedSample : Problem Float :=
  { Problem.ofFunctions 3 0 (fun _ => 0) fun _ _ => 0 with
    variableBounds := fun _ _ => .ok {
      lower := [0, -1 / 0, 3]
      upper := [1, 5, 1 / 0]
      answer := .flag true } }

theorem starting_point_usable_iff_bounded : ∃ t d u w t',
    finalize boundedSample (relaxing 1e-8 1e20) = (.ok true, t) ∧
    t.formulation.finalized = some d ∧
    d.core.boxes u.store = [⟨0, 1, 1, 1⟩, ⟨-1 / 0, 5, 0, 1⟩, ⟨3, 1 / 0, 1, 0⟩] ∧
    startingPoint boundedSample (.array w) u = (.ok true, t') ∧
    List.Forall₂ Box.StartsAt (d.core.boxes u.store) (t'.store.entries w) := by
  obtain ⟨t, d, hf, hd, hb⟩ := finalized_of_data (p := boundedSample) (s := relaxing 1e-8 1e20)
    (f := fun d s => (d.core.boxes s, d.core.localSize))
    (b := ([⟨0, 1, 1, 1⟩, ⟨-1 / 0, 5, 0, 1⟩, ⟨3, 1 / 0, 1, 0⟩], 3)) (by decide +kernel)
    (by decide +kernel)
  obtain ⟨hboxes, hsize⟩ := Prod.mk.inj hb
  obtain ⟨v, hF⟩ := finalizes_of_finalized hf hd
  obtain ⟨w, u, _, hx, hw, _, hu, hwr, hun⟩ := alloc_lent hF.ready [9, 9, 9]
  have hused : Relation.ReflTransGen (Used d) t u :=
    .single (.elsewhere (by rw [hu]) (hwr.mono fun _ => False.elim))
  obtain ⟨_, _, _, hdefault⟩ := starting_point_usable_iff hf hd (by decide +kernel)
    (Communicator.covers_serial _) hused hx hsize.symm hw
  obtain ⟨t', ht', hall⟩ := hdefault (Problem.offers_of_declines rfl)
  have hboxes' : d.core.boxes u.store = [⟨0, 1, 1, 1⟩, ⟨-1 / 0, 5, 0, 1⟩, ⟨3, 1 / 0, 1, 0⟩] := by
    rw [(hF.ready.undisturbed hun).intact.describes.boxes, ← hF.intact.describes.boxes, hboxes]
  have hstart : ∀ b ∈ [(⟨0, 1, 1, 1⟩ : Box Float), ⟨-1 / 0, 5, 0, 1⟩, ⟨3, 1 / 0, 1, 0⟩],
      b.Startable := by decide +kernel
  rw [← hboxes'] at hstart
  exact ⟨t, d, u, w, t', hf, hd, hboxes', ht',
    ((List.forall₂_and_left ..).mpr ⟨hstart, hall⟩).imp fun _ _ h => h.right.mpr h.left⟩

-- The middle between two finite bounds overflows on the way.
theorem midpoint_overflows : ∃ t d w u t',
    finalize (between 1e308 12e307) (relaxing 1e-8 (1 / 0)) = (.ok true, t) ∧
    t.formulation.finalized = some d ∧ d.core.boxes u.store = [⟨1e308, 12e307, 1, 1⟩] ∧
    startingPoint (between 1e308 12e307) (.array w) u = (.ok true, t') ∧
    t'.store.entries w = [1 / 0] ∧ ¬Scalar.isFinite (1 / 0 : Float) ∧
    ¬List.Forall₂ Box.StartsAt (d.core.boxes u.store) (t'.store.entries w) := by
  obtain ⟨t, d, hf, hd, hb⟩ := finalized_of_data (p := between 1e308 12e307)
    (s := relaxing 1e-8 (1 / 0)) (f := fun d s => (d.core.boxes s, d.core.localSize))
    (b := ([⟨1e308, 12e307, 1, 1⟩], 1)) (by decide +kernel) (by decide +kernel)
  obtain ⟨hboxes, hsize⟩ := Prod.mk.inj hb
  obtain ⟨v, hF⟩ := finalizes_of_finalized hf hd
  obtain ⟨w, u, _, hx, hw, _, hu, hwr, hun⟩ := alloc_lent hF.ready [0]
  have hr := hF.ready.undisturbed hun
  have hboxes' : d.core.boxes u.store = [⟨1e308, 12e307, 1, 1⟩] := by
    rw [hr.intact.describes.boxes, ← hF.intact.describes.boxes, hboxes]
  obtain ⟨t', ht', he⟩ := startingPoint_defaults (p := between 1e308 12e307) hr hx hsize.symm hw
    (Problem.offers_of_declines rfl)
  have hentry : [(⟨1e308, 12e307, 1, 1⟩ : Box Float)].map (fun b =>
      defaultEntry (0 < b.lowerMark) (0 < b.upperMark) b.lower b.upper) = [1 / 0] := by
    decide +kernel
  rw [hboxes', hentry] at he
  have hinf : ¬Scalar.isFinite (1 / 0 : Float) := by decide +kernel
  refine ⟨t, d, w, u, t', hf, hd, hboxes', ht', he, hinf, fun h => ?_⟩
  rw [hboxes', he, List.forall₂_cons] at h
  exact hinf h.left.finite

end Formulation
end NonlinearProgram
