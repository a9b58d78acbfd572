import NonlinearProgram.Formulation.Core
import NonlinearProgram.Proofs.Program

namespace NonlinearProgram

open Program

variable {α β γ : Type} {s t : Session α} {b : β}

@[simp]
theorem Call.reduction?_query (q : Query α) : (Call.query q).reduction? = none := rfl

@[simp]
theorem Call.reduction?_reduction (r : Reduction α) : (Call.reduction r).reduction? = some r := rfl

namespace Session

-- The session after more calls, of which it keeps the history only.
def traced (s : Session α) (calls : List (Call α)) : Session α :=
  { s with trace := s.trace ++ calls }

@[simp]
theorem store_traced (calls : List (Call α)) : (s.traced calls).store = s.store := rfl

@[simp]
theorem reductions_traced (calls : List (Call α)) :
    (s.traced calls).reductions = s.reductions ++ calls.filterMap Call.reduction? := by
  simp [traced, reductions]

theorem traced_traced (first second : List (Call α)) :
    (s.traced first).traced second = s.traced (first ++ second) := by
  simp [traced]

theorem traced_nil : s.traced [] = s := by
  simp [traced]

end Session

namespace FormulationM

theorem record_run (c : Call α) (s : Session α) : record c s = (.ok ⟨⟩, s.traced [c]) := rfl

theorem ofExcept_run {ε : Type} (reason : ε → Failure α) (r : Except ε β) (s : Session α) :
    ofExcept reason r s = (r.mapError reason, s) := by
  cases r <;> rfl

theorem ofExcept_eq_ok {ε : Type} {reason : ε → Failure α} {r : Except ε β} :
    ofExcept reason r s = (.ok b, t) ↔ r = .ok b ∧ t = s := by
  rw [ofExcept_run]
  constructor
  case mp =>
    intro h
    cases r <;> cases h
    exact ⟨rfl, rfl⟩
  case mpr =>
    rintro ⟨rfl, rfl⟩
    rfl

theorem onStore_of_ok {act : StoreM α β} {st : Store α} (h : act s.store = (.ok b, st)) :
    onStore act s = (.ok b, { s with store := st }) := by
  simp only [onStore, h]
  rfl

theorem reject_bind_run (m : Malformed α) (f : β → FormulationM α γ) (s : Session α) :
    (reject m >>= f) s = (.error (.malformed m), s) := rfl

theorem reject_unless {c : Prop} [Decidable c] {m : Malformed α} {f : γ → FormulationM α β}
    {x : FormulationM α β} :
    (if c then reject m >>= f else x) s = (.ok b, t) ↔ ¬c ∧ x s = (.ok b, t) := by
  rw [ite_run, reject_bind_run]
  split <;> simp_all

theorem reject_else {c : Prop} [Decidable c] {m : Malformed α} {f : γ → FormulationM α β}
    {x : FormulationM α β} :
    (if c then x else reject m >>= f) s = (.ok b, t) ↔ c ∧ x s = (.ok b, t) := by
  rw [ite_run, reject_bind_run]
  split <;> simp_all

-- The work ends because the data of the problem are malformed.
def Rejects (x : FormulationM α β) (s t : Session α) : Prop :=
  ∃ reason, x s = (.error (.malformed reason), t)

theorem Rejects.bind {x : FormulationM α β} (h : Rejects x s t) (f : β → FormulationM α γ) :
    Rejects (x >>= f) s t :=
  have ⟨reason, h⟩ := h
  ⟨reason, bind_of_error h f⟩

theorem Rejects.after {x : FormulationM α β} {f : β → FormulationM α γ} {u : Session α}
    (hx : x s = (.ok b, t)) (h : Rejects (f b) t u) : Rejects (x >>= f) s u := by
  rwa [Rejects, bind_of_ok hx]

theorem ask_run (q : Query α) (answer : Except Fault β) (s : Session α) :
    ask q answer s = (answer.mapError .ofQuery, s.traced [.query q]) := by
  rw [ask, bind_of_ok (record_run _ s), ofExcept_run]

theorem ask_eq_ok {q : Query α} {answer : Except Fault β} :
    ask q answer s = (.ok b, t) ↔ answer = .ok b ∧ t = s.traced [.query q] := by
  rw [ask, bind_of_ok (record_run _ s), ofExcept_eq_ok]

theorem arrayLength_eq_ok {n : Int} {k : Nat} :
    arrayLength n s = (.ok k, t) ↔
      allocationFault? Tensor.scalarWidth [n] = none ∧ k = n.toNat ∧ t = s := by
  rw [arrayLength]
  cases allocationFault? Tensor.scalarWidth [n]
  case none => simp [eq_comm]
  case some fault => simp

-- No array has a negative length.
theorem nonneg_of_allocationFault? {width : Nat} {n : Int}
    (h : allocationFault? width [n] = none) : 0 ≤ n := by
  apply Decidable.byContradiction
  intro hn
  simp [allocationFault?, show n < 0 by omega] at h

theorem sumOverRanks_run [Scalar α] (c : Communicator α) (n : Int) (s : Session α) :
    sumOverRanks c n s =
      (((c.sum (c.position s.reductions) (.whole n)).bind Quantity.toInteger).mapError .numeric,
        s.traced [.reduction ⟨c.name, .whole n⟩]) := by
  rw [sumOverRanks, bind_of_ok (get_run s)]
  exact (bind_of_ok (record_run _ s) _).trans (ofExcept_run ..)

theorem sumOverRanks_eq_ok [Scalar α] {c : Communicator α} {n total : Int} :
    sumOverRanks c n s = (.ok total, t) ↔
      (c.sum (c.position s.reductions) (.whole n)).bind Quantity.toInteger = .ok total ∧
        t = s.traced [.reduction ⟨c.name, .whole n⟩] := by
  rw [sumOverRanks_run, ← ofExcept_run, ofExcept_eq_ok]

theorem sumOverRanks_of_total [Scalar α] {c : Communicator α} {n total : Int}
    (h : c.sum (c.position s.reductions) (.whole n) = .ok (.whole total)) :
    sumOverRanks c n s = (.ok total, s.traced [.reduction ⟨c.name, .whole n⟩]) :=
  sumOverRanks_eq_ok.mpr ⟨congrArg (Except.bind · Quantity.toInteger) h, rfl⟩

end FormulationM

open FormulationM

-- What stands in arrays once an answer is written into them.
def declaredBy (query : Declared α → Except Fault (BoundsReply α)) (blank : Declared α) :
    Declared α :=
  match query blank with
  | .ok reply => reply.onto blank
  | .error _ => blank

theorem length_overlay (given current : List β) :
    (overlay given current).length = current.length := by
  simp [overlay]
  omega

theorem BoundsReply.length_onto (r : BoundsReply α) (d : Declared α) :
    (r.onto d).lower.length = d.lower.length ∧ (r.onto d).upper.length = d.upper.length :=
  ⟨length_overlay .., length_overlay ..⟩

-- As many bounds and types as there are variables or constraints.
structure Declared.Fits (d : Declared α) (count : Nat) : Prop where
  lower : d.lower.length = count
  upper : d.upper.length = count
  types : d.types.length = count

-- A problem that does not decline to spread its variables over so many ranks.
def Problem.Distributes [Scalar α] (p : Problem α) (n : Int) (ranks : Nat) : Prop :=
  ∀ reply, p.distribution n (List.replicate (ranks + 1) 0) = .ok reply → reply.answer.isTrue

-- A reply with which a problem gives bounds, and as many types as there have to be.
def BoundsReply.Accepted [Scalar α] (r : BoundsReply α) (count : Nat) : Prop :=
  r.answer.isTrue ∧ (r.onto (Core.undeclared count)).types.length = count

instance [Scalar α] (r : BoundsReply α) (count : Nat) : Decidable (r.Accepted count) :=
  inferInstanceAs (Decidable (_ ∧ _))

namespace Core

variable [Scalar α] {p : Problem α} {o : Options α} {c : Communicator α} {n m : Int}
  {d : Declared α} {l : Layout} {v : Survey α} {count : Nat}

theorem undeclared_fits (n : Nat) : (undeclared n : Declared α).Fits n := by
  constructor <;> simp [undeclared]

-- Bounds written into arrays for so many fit if the types do.
theorem onto_fits {r : BoundsReply α} (h : (r.onto (undeclared count)).types.length = count) :
    (r.onto (undeclared count)).Fits count where
  lower := (r.length_onto _).left.trans (undeclared_fits count).lower
  upper := (r.length_onto _).right.trans (undeclared_fits count).upper
  types := h

section

variable {q : Declared α → Query α} {answer : Declared α → Except Fault (BoundsReply α)}
  {refused : Malformed α} {mistyped : Nat → Nat → Malformed α}

theorem askBounds_eq_ok (h : askBounds q answer refused mistyped count s = (.ok d, t)) :
    d = declaredBy answer (undeclared count) ∧ d.Fits count ∧
      t = s.traced [.query (q (undeclared count))] := by
  rw [askBounds, bind_eq_ok] at h
  have ⟨reply, u, hq, h⟩ := h
  have ⟨hr, hu⟩ := ask_eq_ok.mp hq
  have ⟨_, h⟩ := reject_unless.mp h
  have ⟨hl, h⟩ := reject_unless.mp h
  have ⟨hd, ht⟩ := ok_eq_ok.mp h
  subst hd hu ht
  refine ⟨?_, onto_fits (Decidable.not_not.mp hl), rfl⟩
  simp only [declaredBy, hr]

theorem askBounds_of_accepted {reply : BoundsReply α} (h : answer (undeclared count) = .ok reply)
    (ha : reply.Accepted count) (s : Session α) :
    askBounds q answer refused mistyped count s =
      (.ok (reply.onto (undeclared count)), s.traced [.query (q (undeclared count))]) := by
  rw [askBounds, bind_of_ok (ask_eq_ok.mpr ⟨h, rfl⟩)]
  simp [ha.left, ha.right]

-- A reply that does not hold what is asked for is rejected.
theorem askBounds_of_not_accepted {reply : BoundsReply α}
    (h : answer (undeclared count) = .ok reply) (ha : ¬reply.Accepted count) (s : Session α) :
    Rejects (askBounds q answer refused mistyped count) s
      (s.traced [.query (q (undeclared count))]) := by
  rw [Rejects, askBounds, bind_of_ok (ask_eq_ok.mpr ⟨h, rfl⟩)]
  simp only [ite_run, reject_bind_run]
  split
  case isTrue => exact ⟨_, rfl⟩
  case isFalse hr =>
    split
    case isTrue => exact ⟨_, rfl⟩
    case isFalse hl =>
      exact (ha ⟨by simpa using hr, Decidable.not_not.mp hl⟩).elim

end

section

variable {allowFixed : Bool} {report : Nat → Nat → α → α → Malformed α}

theorem checkBounds_of_nil (h : inconsistentPositions o.tolerance allowFixed d.lower d.upper = [])
    (s : Session α) : checkBounds o allowFixed report d s = (.ok ⟨⟩, s) := by
  simp [checkBounds, h]

theorem checkBounds_of_ne_nil
    (h : inconsistentPositions o.tolerance allowFixed d.lower d.upper ≠ []) (s : Session α) :
    Rejects (checkBounds o allowFixed report d) s s := by
  have ⟨i, rest, hp⟩ := List.exists_cons_of_ne_nil h
  exact ⟨_, by simp only [checkBounds, hp]; rfl⟩

theorem checkBounds_eq_ok (h : checkBounds o allowFixed report d s = (.ok ⟨⟩, t)) :
    inconsistentPositions o.tolerance allowFixed d.lower d.upper = [] ∧ t = s := by
  by_cases hp : inconsistentPositions o.tolerance allowFixed d.lower d.upper = []
  case pos =>
    rw [checkBounds_of_nil hp] at h
    exact ⟨hp, (ok_eq_ok.mp h).right.symm⟩
  case neg =>
    have ⟨_, hr⟩ : Rejects (checkBounds o allowFixed report d) s s := checkBounds_of_ne_nil hp s
    exact (error_ne_ok (hr.symm.trans h)).elim

end

theorem pairOf_keeps (given : RawValue α) : Keeps (fun s t => t = s) (pairOf given) := by
  intro s
  rw [pairOf]
  cases given.elements?
  case none => rfl
  case some items =>
    dsimp only
    generalize (items.take 3).mapM RawValue.toInteger = r
    match r with
    | .ok [n, m] => rfl
    | .ok [] | .ok [_] | .ok (_ :: _ :: _ :: _) => rfl
    | .error e => cases e <;> rfl

theorem askSizes_eq_ok (h : askSizes p s = (.ok (n, m), t)) :
    0 ≤ n ∧ 0 ≤ m ∧ t = s.traced [.query .sizes] := by
  rw [askSizes, bind_eq_ok] at h
  have ⟨given, u, hq, h⟩ := h
  have ⟨_, hu⟩ := ask_eq_ok.mp hq
  have ⟨pair, w, hp, h⟩ := bind_eq_ok.mp h
  have hw := (pairOf_keeps given).of_run hp
  have ⟨hn, h⟩ := reject_unless.mp h
  have ⟨hpair, ht⟩ := ok_eq_ok.mp h
  cases hpair
  subst hu hw ht
  exact ⟨by omega, by omega, rfl⟩

-- The sizes are the two integers that the problem gives.
theorem askSizes_reads (h : askSizes p s = (.ok (n, m), t)) :
    ∃ given items, p.sizes = .ok given ∧ given.elements? = some items ∧
      (items.take 3).mapM RawValue.toInteger = .ok [n, m] := by
  rw [askSizes, bind_eq_ok] at h
  have ⟨given, u, hq, h⟩ := h
  have ⟨hgiven, _⟩ := ask_eq_ok.mp hq
  have ⟨pair, w, hp, h⟩ := bind_eq_ok.mp h
  have ⟨_, h⟩ := reject_unless.mp h
  cases (ok_eq_ok.mp h).left
  rw [pairOf] at hp
  cases hitems : given.elements?
  case none =>
    simp only [hitems] at hp
    exact (error_ne_ok hp).elim
  case some items =>
    refine ⟨given, items, hgiven, hitems, ?_⟩
    simp only [hitems] at hp
    generalize (items.take 3).mapM RawValue.toInteger = r at hp ⊢
    match r with
    | .ok [_, _] =>
      cases (ok_eq_ok.mp hp).left
      rfl
    | .ok [] | .ok [_] | .ok (_ :: _ :: _ :: _) => exact (error_ne_ok hp).elim
    | .error e => cases e <;> exact (error_ne_ok hp).elim

-- How the layout of the variables comes about: every rank holds all of them, or every rank the
-- slice that its rank number gives it.
inductive LaidOut (c : Communicator α) (n : Int) (l : Layout) (history : List (Reduction α)) :
    List (Reduction α) → Prop
  | serial (hl : Layout.serial n = .ok l) : LaidOut c n l history []
  | sliced {boundaries : List Int} (hl : Layout.seenFrom c.rank boundaries = .ok l)
      (hc : (c.size.plus (.integer 1) >>= RawValue.exactInteger) = .ok (boundaries.length : Int))
      (hn : l.globalSize = n)
      (hs : (c.sum (c.position history) (.whole l.localSize)).bind Quantity.toInteger = .ok n) :
      LaidOut c n l history [⟨c.name, .whole l.localSize⟩]

-- What a problem answers to the question for a distribution, and what comes of it.
theorem askLayout_cases (h : askLayout p n c s = (.ok l, t)) :
    ∃ (k : Nat) (reply : DistributionReply α),
      (c.size.plus (.integer 1) >>= RawValue.exactInteger) = .ok (k : Int) ∧
      p.distribution n (List.replicate k 0) = .ok reply ∧
      (reply.answer.isTrue = false ∧ Layout.serial n = .ok l ∧
          t = s.traced [.query (.distribution n (List.replicate k 0))] ∨
        reply.answer.isTrue ∧
          Layout.seenFrom c.rank (overlay reply.boundaries (List.replicate k 0)) = .ok l ∧
          l.globalSize = n ∧
          (c.sum (c.position s.reductions) (.whole l.localSize)).bind Quantity.toInteger = .ok n ∧
          t = s.traced [.query (.distribution n (List.replicate k 0)),
            .reduction ⟨c.name, .whole l.localSize⟩]) := by
  rw [askLayout, bind_eq_ok] at h
  have ⟨size, u₁, h₁, h⟩ := h
  have ⟨hsize, hu₁⟩ := ofExcept_eq_ok.mp h₁
  have ⟨k, u₂, h₂, h⟩ := bind_eq_ok.mp h
  have ⟨hk, hk', hu₂⟩ := arrayLength_eq_ok.mp h₂
  have hnn := nonneg_of_allocationFault? hk
  have ⟨reply, u₃, h₃, h⟩ := bind_eq_ok.mp h
  have ⟨hreply, hu₃⟩ := ask_eq_ok.mp h₃
  subst hu₁ hu₂ hu₃
  refine ⟨k, reply, by rw [hk', Int.toNat_of_nonneg hnn]; exact hsize, hreply, ?_⟩
  simp only [ite_run, throw_bind_run] at h
  split at h
  case isTrue => exact (error_ne_ok h).elim
  case isFalse =>
    split at h
    case isTrue ha =>
      have ⟨hl, ht⟩ := ofExcept_eq_ok.mp h
      exact .inl ⟨by simpa using ha, hl, ht⟩
    case isFalse ha =>
      have ⟨l', u₄, h₄, h⟩ := bind_eq_ok.mp h
      have ⟨hl, hu₄⟩ := ofExcept_eq_ok.mp h₄
      have ⟨hn, h⟩ := reject_unless.mp h
      have ⟨total, u₅, h₅, h⟩ := bind_eq_ok.mp h
      have ⟨hs, hu₅⟩ := sumOverRanks_eq_ok.mp h₅
      have ⟨htotal, h⟩ := reject_unless.mp h
      have ⟨hl', ht⟩ := ok_eq_ok.mp h
      subst hu₄ hu₅ hl' ht
      rw [Decidable.not_not] at hn htotal
      subst htotal
      exact .inr ⟨by simpa using ha, hl, hn, by simpa [List.filterMap_cons] using hs,
        Session.traced_traced ..⟩

theorem askLayout_eq_ok (h : askLayout p n c s = (.ok l, t)) :
    ∃ calls, t = s.traced calls ∧ LaidOut c n l s.reductions (calls.filterMap Call.reduction?) := by
  have ⟨k, reply, hk, _, h⟩ := askLayout_cases h
  rcases h with ⟨_, hl, ht⟩ | ⟨_, hl, hn, hs, ht⟩
  case inl => exact ⟨_, ht, .serial hl⟩
  case inr =>
    refine ⟨_, ht, .sliced hl ?_ hn hs⟩
    rwa [length_overlay, List.length_replicate]

-- A problem that does not decline gives every rank the slice of its rank number.
theorem askLayout_of_distributes {ranks r : Nat} (h : askLayout p n c s = (.ok l, t))
    (hr : c.rank = .integer r) (hs : c.size = .integer ranks) (hd : p.Distributes n ranks) :
    ∃ reply, p.distribution n (List.replicate (ranks + 1) 0) = .ok reply ∧
      Layout.ofBoundaries (overlay reply.boundaries (List.replicate (ranks + 1) 0)) r = .ok l ∧
      l.globalSize = n ∧
      (c.sum (c.position s.reductions) (.whole l.localSize)).bind Quantity.toInteger = .ok n := by
  have ⟨k, reply, hk, hreply, h⟩ := askLayout_cases h
  rw [hs] at hk
  have hk : (ranks : Int) + 1 = k := Except.ok.inj hk
  obtain rfl : k = ranks + 1 := by omega
  rcases h with ⟨ha, _⟩ | ⟨_, hl, hn, hsum, _⟩
  case inl => rw [hd reply hreply] at ha; cases ha
  case inr =>
    rw [hr, Layout.seenFrom_integer] at hl
    exact ⟨reply, hreply, hl, hn, hsum⟩

-- What a survey says fits together, and what is said of variables and constraints is what the
-- problem declares.
structure Surveyed (p : Problem α) (o : Options α) (v : Survey α) : Prop where
  size : 0 ≤ v.size
  localSize : 0 ≤ v.layout.localSize
  variableData : v.variableData =
    declaredBy (p.variableBounds v.size) (undeclared v.layout.localSize.toNat)
  constraintData : v.constraintData =
    declaredBy (p.constraintBounds v.constraintCount) (undeclared v.constraintCount)
  variables_fit : v.variableData.Fits v.layout.localSize.toNat
  constraints_fit : v.constraintData.Fits v.constraintCount
  variables_consistent : inconsistentPositions o.tolerance (o.policy != .keep)
    v.variableData.lower v.variableData.upper = []
  constraints_consistent : inconsistentPositions o.tolerance false v.constraintData.lower
    v.constraintData.upper = []

theorem survey_eq_ok (h : survey p o c s = (.ok v, t)) :
    Surveyed p o v ∧ ∃ calls, t = s.traced calls ∧
      LaidOut c v.size v.layout s.reductions (calls.filterMap Call.reduction?) := by
  rw [survey, bind_eq_ok] at h
  have ⟨(n, m), u₁, h₁, h⟩ := h
  have ⟨hn, hm, hu₁⟩ := askSizes_eq_ok h₁
  have ⟨l, u₂, h₂, h⟩ := bind_eq_ok.mp h
  have ⟨calls, hu₂, hl⟩ := askLayout_eq_ok h₂
  have ⟨k, u₃, h₃, h⟩ := bind_eq_ok.mp h
  have ⟨hk, hk', hu₃⟩ := arrayLength_eq_ok.mp h₃
  have ⟨variableData, u₄, h₄, h⟩ := bind_eq_ok.mp h
  have ⟨hv, hvf, hu₄⟩ := askBounds_eq_ok h₄
  have ⟨m', u₅, h₅, h⟩ := bind_eq_ok.mp h
  have ⟨_, hm', hu₅⟩ := arrayLength_eq_ok.mp h₅
  have ⟨constraintData, u₆, h₆, h⟩ := bind_eq_ok.mp h
  have ⟨hc, hcf, hu₆⟩ := askBounds_eq_ok h₆
  have ⟨_, u₇, h₇, h⟩ := bind_eq_ok.mp h
  have ⟨hvc, hu₇⟩ := checkBounds_eq_ok h₇
  have ⟨_, u₈, h₈, h⟩ := bind_eq_ok.mp h
  have ⟨hcc, hu₈⟩ := checkBounds_eq_ok h₈
  have ⟨hr, ht⟩ := ok_eq_ok.mp h
  subst hr ht hu₁ hu₂ hu₃ hu₄ hu₅ hu₆ hu₇ hu₈ hk' hm'
  constructor
  case left =>
    exact ⟨hn, nonneg_of_allocationFault? hk, hv, hc, hvf, hcf, hvc, hcc⟩
  case right =>
    refine ⟨_, by simp only [Session.traced_traced]; rfl, ?_⟩
    simpa [List.filterMap_cons] using hl

end Core
end NonlinearProgram
