import NonlinearProgram.Proofs.Formulation.Query
import NonlinearProgram.Proofs.Layout
import NonlinearProgram.Proofs.Transformation

namespace NonlinearProgram.Core

open Program FormulationM

variable {α : Type} {s t : Session α} {layout : Layout}

theorem create_eq_ok {make : Store α → Except (TransformationError α) (Transformation α × Store α)}
    {item : Transformation α} : create make s = (.ok item, t) ↔
      ∃ st, make s.store = .ok (item, st) ∧ t = { s with store := st } := by
  constructor
  case mp =>
    intro h
    rw [create, bind_of_ok (get_run s), bind_eq_ok] at h
    obtain ⟨⟨item', st⟩, u, hm, h⟩ := h
    obtain ⟨hm, rfl⟩ := ofExcept_eq_ok.mp hm
    obtain ⟨_, _, hu, h⟩ := bind_eq_ok.mp h
    obtain ⟨_, rfl⟩ := ok_eq_ok.mp hu
    obtain ⟨rfl, rfl⟩ := ok_eq_ok.mp h
    exact ⟨st, hm, rfl⟩
  case mpr =>
    rintro ⟨st, hm, rfl⟩
    rw [create, bind_of_ok (get_run s), bind_of_ok (ofExcept_eq_ok.mpr ⟨hm, rfl⟩)]
    rfl

variable [Scalar α] {o : Options α} {d : Declared α} {mask : List Bool} {count : Int}
  {policy : FixedPolicy} {treated : Treatment α}

-- The variables that are gone where the fixed ones are the masked ones.
def eliminatedMask (policy : FixedPolicy) (mask : List Bool) (count : Int) : List Bool :=
  if policy = .remove ∧ 0 < count then mask else List.replicate mask.length false

-- What the eliminated variables are set to.
def midpoints (d : Declared α) : List α := List.zipWith Scalar.midpoint d.lower d.upper

-- All that a treatment of the masked variables can be: the identity, or one transformation that is
-- made for it.
inductive TreatRun (o : Options α) (layout : Layout) (d : Declared α) (mask : List Bool)
    (count : Int) (s : Session α) : FixedPolicy → Treatment α → Session α → Prop
  | identity {policy : FixedPolicy} (h : count ≤ 0 ∨ policy = .keep) :
      TreatRun o layout d mask count s policy
        ⟨{ userSize := .integer d.lower.length }, layout, d.types⟩ s
  | removed {item : Transformation α} {st : Store α} {chain : Chain α} {reduced : Layout}
      (hc : 0 < count)
      (hmake : Transformation.createRemover mask (midpoints d) s.store = .ok (item, st))
      (hchain : Chain.append { userSize := .integer d.lower.length } item = .ok chain)
      (hreduced : layout.reduced (mask.map not) = .ok reduced) :
      TreatRun o layout d mask count s .remove
        ⟨chain, reduced, gather d.types (clearPositions mask)⟩
        { s with store := st, events := s.events ++ [.removed count reduced.globalSize] }
  | relaxed {item : Transformation α} {st : Store α} {chain : Chain α} (hc : 0 < count)
      (hmake : Transformation.createRelaxer mask o.tolerance s.store = .ok (item, st))
      (hchain : Chain.append { userSize := .integer d.lower.length } item = .ok chain) :
      TreatRun o layout d mask count s .relax ⟨chain, layout, d.types⟩
        { s with store := st, events := s.events ++ [.relaxed count o.tolerance] }

theorem treat_run_iff : treat policy o layout d mask count s = (.ok treated, t) ↔
    TreatRun o layout d mask count s policy treated t := by
  rw [treat.eq_def]
  constructor
  case mp =>
    intro h
    by_cases hc : count ≤ 0
    case pos =>
      cases policy
      all_goals
        simp only [hc, if_true] at h
        obtain ⟨rfl, rfl⟩ := ok_eq_ok.mp h
        exact .identity (.inl hc)
    case neg =>
      have hpos : 0 < count := by omega
      simp only [hc, if_false] at h
      cases policy
      case keep =>
        obtain ⟨rfl, rfl⟩ := ok_eq_ok.mp h
        exact .identity (.inr rfl)
      case remove =>
        obtain ⟨item, _, h₁, h⟩ := bind_eq_ok.mp h
        obtain ⟨chain, _, h₂, h⟩ := bind_eq_ok.mp h
        obtain ⟨reduced, _, h₃, h⟩ := bind_eq_ok.mp h
        obtain ⟨st, hmake, rfl⟩ := create_eq_ok.mp h₁
        obtain ⟨hchain, rfl⟩ := ofExcept_eq_ok.mp h₂
        obtain ⟨hreduced, rfl⟩ := ofExcept_eq_ok.mp h₃
        obtain ⟨rfl, rfl⟩ := ok_eq_ok.mp h
        exact .removed hpos hmake hchain hreduced
      case relax =>
        obtain ⟨item, _, h₁, h⟩ := bind_eq_ok.mp h
        obtain ⟨chain, _, h₂, h⟩ := bind_eq_ok.mp h
        obtain ⟨st, hmake, rfl⟩ := create_eq_ok.mp h₁
        obtain ⟨hchain, rfl⟩ := ofExcept_eq_ok.mp h₂
        obtain ⟨rfl, rfl⟩ := ok_eq_ok.mp h
        exact .relaxed hpos hmake hchain
  case mpr =>
    intro h
    cases h
    case identity h =>
      cases policy
      case keep => rfl
      all_goals
        simp only [h.resolve_right (by simp), if_true]
        rfl
    case removed hc hmake hchain hreduced =>
      simp only [Int.not_le.mpr hc, if_false]
      rw [← midpoints, bind_of_ok (create_eq_ok.mpr ⟨_, hmake, rfl⟩),
        bind_of_ok (ofExcept_eq_ok.mpr ⟨hchain, rfl⟩),
        bind_of_ok (ofExcept_eq_ok.mpr ⟨hreduced, rfl⟩)]
      rfl
    case relaxed hc hmake hchain =>
      simp only [Int.not_le.mpr hc, if_false]
      rw [bind_of_ok (create_eq_ok.mpr ⟨_, hmake, rfl⟩),
        bind_of_ok (ofExcept_eq_ok.mpr ⟨hchain, rfl⟩)]
      rfl

-- The bounds after the treatment of the masked variables.
def treatedBounds (policy : FixedPolicy) (o : Options α) (d : Declared α) (mask : List Bool)
    (count : Int) : List α × List α :=
  if count ≤ 0 then (d.lower, d.upper)
  else match policy with
    | .keep => (d.lower, d.upper)
    | .remove => (restrict mask d.lower, restrict mask d.upper)
    | .relax =>
      let bounds := Relaxer.widenedBounds mask o.tolerance d.lower d.upper
      (bounds.map Prod.fst, bounds.map Prod.snd)

-- The chain for so many fixed variables, by the policy in force.
inductive MadeFor (chain : Chain α) : FixedPolicy → Int → Prop
  | kept {policy : FixedPolicy} {count : Int} (hi : chain.items = [])
      (h : count ≤ 0 ∨ policy = .keep) : MadeFor chain policy count
  | removed {count : Int} (r : Remover α) (hi : chain.items = [.remover r]) (hc : 0 < count) :
      MadeFor chain .remove count
  | relaxed {count : Int} (r : Relaxer α) (hi : chain.items = [.relaxer r]) (hc : 0 < count) :
      MadeFor chain .relax count

-- The treatment of the masked variables, in a store with its arrays.
structure Treats (treated : Treatment α) (policy : FixedPolicy) (o : Options α) (layout : Layout)
    (d : Declared α) (mask : List Bool) (count : Int) (s : Store α) : Prop where
  eliminates : treated.chain.Eliminates (eliminatedMask policy mask count) (midpoints d) s
  bounds : ∀ {l u t}, s.Writes (fun _ => False) t → l.shape = [mask.length] →
    u.shape = [mask.length] → t.Valid l → t.Valid u → t.entries l = d.lower →
    t.entries u = d.upper → ∃ l' u' t',
      treated.chain.boundsToInternal (l, u) t = (.ok (l', u'), t') ∧
      t'.entries l' = (treatedBounds policy o d mask count).1 ∧
      t'.entries u' = (treatedBounds policy o d mask count).2 ∧
      treated.chain.Eliminates (eliminatedMask policy mask count) (midpoints d) t'
  localSize : treated.layout.localSize = (clearPositions (eliminatedMask policy mask count)).length
  layout : policy = .remove ∧ 0 < count ∧ treated.layout.globalSize = treated.layout.localSize ∨
    treated.layout = layout
  types : treated.types = restrict (eliminatedMask policy mask count) d.types
  chain : MadeFor treated.chain policy count

theorem length_eliminatedMask (policy : FixedPolicy) (mask : List Bool) (count : Int) :
    (eliminatedMask policy mask count).length = mask.length := by
  simp only [eliminatedMask]
  split <;> simp

theorem length_midpoints (hd : d.Fits mask.length) : (midpoints d).length = mask.length := by
  simp [midpoints, hd.lower, hd.upper]

-- Where nothing is to be treated, the identity treats everything.
theorem treats_identity (hd : d.Fits mask.length) (hl : layout.localSize = mask.length)
    (h : count ≤ 0 ∨ policy = .keep) (s : Store α) :
    Treats ⟨{ userSize := .integer d.lower.length }, layout, d.types⟩ policy o layout d mask count
      s := by
  have he : eliminatedMask policy mask count = List.replicate mask.length false := by
    cases h
    case inl h => exact if_neg fun h' => by omega
    case inr h => exact if_neg fun h' => by simp [h] at h'
  have hb : treatedBounds policy o d mask count = (d.lower, d.upper) := by
    cases h
    case inl h => exact if_pos h
    case inr h => simp [treatedBounds, h]
  have hm := length_midpoints hd
  have hk (s : Store α) : Chain.Eliminates (List.replicate mask.length false) (midpoints d) s
      { userSize := .integer d.lower.length } := .kept (.inl rfl) (by simp) (by simpa using hm)
  constructor
  case eliminates => exact he ▸ hk s
  case bounds =>
    intro l u t _ _ _ _ _ hl hu
    exact ⟨l, u, t, Chain.boundsToInternal_of_nil rfl, by rw [hb, hl], by rw [hb, hu], he ▸ hk t⟩
  case localSize => simp [he, clearPositions_replicate, hl]
  case layout => exact .inr rfl
  case types => rw [he, restrict_replicate hd.types]
  case chain => exact .kept rfl h

theorem treats_remover {r : Remover α} {st : Store α} (hc : 0 < count)
    (hi : treated.chain.items = [.remover r]) (hr : r.Intact mask (midpoints d) st)
    (hl : treated.layout = ⟨[0, ((clearPositions mask).length : Int)], 0⟩)
    (ht : treated.types = gather d.types (clearPositions mask)) :
    Treats treated .remove o layout d mask count st := by
  have he : eliminatedMask .remove mask count = mask := if_pos ⟨rfl, hc⟩
  have hb : treatedBounds .remove o d mask count = (restrict mask d.lower, restrict mask d.upper) :=
    if_neg (by omega)
  constructor
  case eliminates =>
    rw [he]
    exact .removed r hi hr
  case bounds =>
    intro l u t hw hl hu hvl hvu hdl hdu
    have hr' := hr.writes_of_not_touched hw id
    have ⟨l', u', t', h, hl', hu', hw'⟩ := Chain.boundsToInternal_of_remover hi hr' hl hu hvl hvu
    refine ⟨l', u', t', h, by rw [hl', hdl, hb], by rw [hu', hdu, hb], ?_⟩
    rw [he]
    exact .removed r hi (hr'.writes_of_not_touched hw' id)
  case localSize => rw [hl, he, Layout.localSize_whole]
  case layout =>
    refine .inl ⟨rfl, hc, ?_⟩
    rw [hl, Layout.globalSize_whole, Layout.localSize_whole]
  case types => rw [he, ht, restrict]
  case chain => exact .removed r hi hc

theorem treats_relaxer {r : Relaxer α} {st : Store α} (hd : d.Fits mask.length)
    (hl : layout.localSize = mask.length) (hc : 0 < count)
    (hi : treated.chain.items = [.relaxer r]) (hm : r.mask = mask)
    (hr : r.tolerance = o.tolerance) (hg : r.gaps.buffer < st.buffers.length)
    (hl' : treated.layout = layout) (ht : treated.types = d.types) :
    Treats treated .relax o layout d mask count st := by
  have he : eliminatedMask .relax mask count = List.replicate mask.length false := by
    simp [eliminatedMask]
  have hb : treatedBounds .relax o d mask count =
      ((Relaxer.widenedBounds mask o.tolerance d.lower d.upper).map Prod.fst,
        (Relaxer.widenedBounds mask o.tolerance d.lower d.upper).map Prod.snd) :=
    if_neg (by omega)
  have hk (s : Store α) :
      treated.chain.Eliminates (List.replicate mask.length false) (midpoints d) s :=
    .kept (.inr ⟨r, hi⟩) (by simp) (by simpa using length_midpoints hd)
  constructor
  case eliminates => exact he ▸ hk st
  case bounds =>
    intro l u t hw hl hu _ _ hdl hdu
    have hs : r.size = mask.length := congrArg List.length hm
    have ⟨l', u', t', h, hl', hu'⟩ := Chain.boundsToInternal_of_relaxer hi (hs ▸ hl) (hs ▸ hu)
      (Nat.lt_of_lt_of_le hg hw.length_le)
    refine ⟨l', u', t', h, ?_, ?_, he ▸ hk t'⟩
    · rw [hl', hm, hr, hdl, hdu, hb]
    · rw [hu', hm, hr, hdl, hdu, hb]
  case localSize => simp [hl', he, clearPositions_replicate, hl]
  case layout => exact .inr hl'
  case types => rw [he, ht, restrict_replicate hd.types]
  case chain => exact .relaxed r hi hc

theorem createRemover_eq_ok {values : List α} {s st : Store α} {t : Transformation α}
    (h : Transformation.createRemover mask values s = .ok (t, st)) :
    ∃ r, t = .remover r ∧ r.Intact mask values st := by
  rw [Transformation.createRemover] at h
  split at h <;> cases h
  case isTrue hv => exact ⟨_, rfl, Remover.create_intact s hv⟩

theorem createRelaxer_eq_ok {tolerance : α} {s st : Store α} {t : Transformation α}
    (h : Transformation.createRelaxer mask tolerance s = .ok (t, st)) :
    ∃ r, t = .relaxer r ∧ r.mask = mask ∧ r.tolerance = tolerance ∧
      r.gaps.buffer < st.buffers.length := by
  rw [Transformation.createRelaxer, Relaxer.create?] at h
  by_cases ht : 0 < tolerance
  case neg => simp [ht] at h
  case pos =>
    simp only [ht, if_true] at h
    cases h
    exact ⟨_, rfl, rfl, rfl, by simp [Store.alloc]⟩

theorem append_eq_ok {chain appended : Chain α} {r : Transformation α}
    (h : chain.append r = .ok appended) : appended.items = chain.items ++ [r] := by
  rw [Chain.append] at h
  split at h <;> cases h
  rfl

theorem treat_eq_ok (hd : d.Fits mask.length) (hl : layout.localSize = mask.length)
    (h : treat policy o layout d mask count s = (.ok treated, t)) :
    Treats treated policy o layout d mask count t.store ∧
      ∃ st events, t = { s with store := st, events := events } := by
  cases treat_run_iff.mp h
  case identity hc => exact ⟨treats_identity hd hl hc _, _, _, rfl⟩
  case removed hc hmake hchain hreduced =>
    obtain ⟨r, rfl, hr⟩ := createRemover_eq_ok hmake
    have hlayout := Layout.reduced_eq_ok hreduced
    exact ⟨treats_remover hc (append_eq_ok hchain) hr hlayout rfl, _, _, rfl⟩
  case relaxed hc hmake hchain =>
    obtain ⟨r, rfl, hm, ht, hg⟩ := createRelaxer_eq_ok hmake
    exact ⟨treats_relaxer hd hl hc (append_eq_ok hchain) hm ht hg rfl rfl, _, _, rfl⟩

theorem length_treatedBounds (hd : d.Fits mask.length) :
    (treatedBounds policy o d mask count).1.length =
        (clearPositions (eliminatedMask policy mask count)).length ∧
      (treatedBounds policy o d mask count).2.length =
        (clearPositions (eliminatedMask policy mask count)).length := by
  by_cases hc : count ≤ 0
  case pos =>
    have hn : ¬0 < count := by omega
    simp [treatedBounds, eliminatedMask, hc, hn, clearPositions_replicate, hd.lower, hd.upper]
  case neg =>
    have hp : 0 < count := by omega
    cases policy
    case keep => simp [treatedBounds, eliminatedMask, clearPositions_replicate, hd.lower, hd.upper]
    case remove =>
      simp only [treatedBounds, eliminatedMask, hc, hp, if_false, and_self, if_true]
      exact ⟨length_restrict hd.lower, length_restrict hd.upper⟩
    case relax =>
      simp [treatedBounds, eliminatedMask, hc, Relaxer.widenedBounds, clearPositions_replicate,
        hd.lower, hd.upper]

theorem internalBounds_run (hd : d.Fits mask.length)
    (h : Treats treated policy o layout d mask count s.store) :
    ∃ st, internalBounds treated.chain d s =
        (.ok (treatedBounds policy o d mask count), { s with store := st }) ∧
      treated.chain.Eliminates (eliminatedMask policy mask count) (midpoints d) st := by
  let l := s.store.alloc (Tensor.ofList d.lower)
  let u := l.2.alloc (Tensor.ofList d.upper)
  have hw₁ : s.store.Writes (fun _ => False) l.2 := .alloc _
  have hw₂ : l.2.Writes (fun _ => False) u.2 := .alloc _
  have hsize (xs : List α) : (Tensor.ofList xs).entries.length = Tensor.sizeOf [xs.length] :=
    (Tensor.sizeOf_singleton _).symm
  have hvl : l.2.Valid l.1 := Store.valid_alloc _ (hsize _)
  have hvu : u.2.Valid u.1 := Store.valid_alloc _ (hsize _)
  have hl : u.2.entries l.1 = d.lower := by rw [hw₂.entries hvl id, Store.entries_alloc_ofList]
  have ⟨l', u', st, hr, hl', hu', he⟩ := h.bounds (hw₁.trans hw₂ fun _ _ => id)
    (congrArg (List.cons · []) hd.lower) (congrArg (List.cons · []) hd.upper) (hw₂.valid hvl) hvu
    hl (Store.entries_alloc_ofList _)
  refine ⟨st, onStore_of_ok ?_, he⟩
  rw [bind_of_ok (StoreM.alloc_run _ _), bind_of_ok (StoreM.alloc_run _ _), bind_of_ok hr]
  dsimp only
  rw [bind_of_ok (StoreM.entries_run _ _), bind_of_ok (StoreM.entries_run _ _), hl', hu']
  rfl

end NonlinearProgram.Core
