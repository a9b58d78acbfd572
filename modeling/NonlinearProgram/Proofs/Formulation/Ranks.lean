import NonlinearProgram.Proofs.Formulation.Finalization
import NonlinearProgram.Proofs.Scalar

namespace NonlinearProgram

open Program FormulationM

-- One of several processes: it finalizes a formulation of its own problem in a session of its own.
structure Rank (α : Type) where
  problem : Problem α
  session : Session α

namespace Rank

variable {α : Type}

def communicator (r : Rank α) : Communicator α := r.session.formulation.communicator

def options (r : Rank α) : Options α := r.session.formulation.options

variable [Scalar α]

-- The session after the finalization.
def after (r : Rank α) : Session α := (Formulation.finalize r.problem r.session).2

def Returns (r : Rank α) (answer : Bool) : Prop :=
  (Formulation.finalize r.problem r.session).1 = .ok answer

-- What the finalization leaves.
def core? (r : Rank α) : Option (Core α) := r.after.formulation.core

-- The number of sums before the finalization.
def entered (r : Rank α) : Nat := r.communicator.position r.session.reductions

-- What the rank contributes to the sums that it enters in the finalization.
def contributions (r : Rank α) : List (Quantity α) :=
  (r.after.reductions.drop r.session.reductions.length).map Reduction.value

theorem contributions_of_reductions {r : Rank α} {more : List (Reduction α)}
    (h : r.after.reductions = r.session.reductions ++ more) :
    r.contributions = more.map Reduction.value := by
  rw [contributions, h, List.drop_left]

theorem finalize_of_returns {r : Rank α} {answer : Bool} (h : r.Returns answer) :
    Formulation.finalize r.problem r.session = (.ok answer, r.after) :=
  Prod.ext h rfl

theorem returns_of_succeeds {r : Rank α} (h : Formulation.succeeds r.problem r.session) :
    r.Returns true := by
  rw [Returns, Formulation.finalize_of_succeeds h]

end Rank

-- Ranks that know their number among all of them, and that work together: where all of them enter a
-- sum with an integer, each of them gets the total.
structure Together {α : Type} [Scalar α] {ranks : Nat} (rank : Fin ranks → Rank α) : Prop where
  number : ∀ r, (rank r).communicator.rank = .integer r.val
  size : ∀ r, (rank r).communicator.size = .integer ranks
  total : ∀ k (n : Fin ranks → Int), (∀ r, (rank r).contributions[k]? = some (.whole (n r))) →
    ∀ r, (rank r).communicator.sum ((rank r).entered + k) (.whole (n r)) = .ok (.whole (∑ q, n q))

theorem eq_of_isPrefix {β : Type} {xs ys : List β} {k : Nat} {x y : β} (h : xs <+: ys)
    (hx : xs[k]? = some x) (hy : ys[k]? = some y) : x = y := by
  have ⟨rest, h⟩ := h
  have hk := (List.getElem?_eq_some_iff.mp hx).choose
  rw [← h, List.getElem?_append_left hk, hx] at hy
  exact Option.some.inj hy

-- Ranks whose totals are multiples of what they contribute work together if they contribute the
-- same as long as they go on.
theorem Together.of_replicated {α : Type} [Scalar α] {ranks : Nat} {rank : Fin ranks → Rank α}
    {name : String}
    (hc : ∀ r, (rank r).communicator = .replicated name (.integer r.val) (.integer ranks))
    (hs : ∀ r q, (rank r).contributions <+: (rank q).contributions ∨
      (rank q).contributions <+: (rank r).contributions) : Together rank where
  number r := by rw [hc]; rfl
  size r := by rw [hc]; rfl
  total k n hn r := by
    have hsame (q : Fin ranks) : n q = n r := by
      rcases hs q r with h | h
      · exact Quantity.whole.inj (eq_of_isPrefix h (hn q) (hn r))
      · exact (Quantity.whole.inj (eq_of_isPrefix h (hn r) (hn q))).symm
    simp only [hsame, Finset.sum_const, Finset.card_univ, Fintype.card_fin]
    rw [hc, nsmul_eq_mul, mul_comm]
    rfl

namespace Communicator

variable {α : Type} [Scalar α] {c : Communicator α} {history : List (Reduction α)}

omit [Scalar α] in
theorem position_append (more : List (Reduction α)) (h : ∀ e ∈ more, e.communicator = c.name) :
    c.position (history ++ more) = c.position history + more.length := by
  rw [position, position, List.countP_append, Nat.add_left_cancel_iff, List.countP_eq_length]
  simpa using h

theorem Sums.total {pairs : List (Int × Int)} (h : c.Sums history pairs) {j : Nat}
    {n total : Int} (hj : pairs[j]? = some (n, total)) :
    (c.sum (c.position history + j) (.whole n)).bind Quantity.toInteger = .ok total := by
  induction pairs generalizing history j
  case nil => cases hj
  case cons pair rest hi =>
    cases j
    case zero =>
      cases hj
      exact h.left
    case succ j =>
      have := hi h.right hj
      rwa [position_append _ (by simp), Nat.add_assoc, Nat.add_comm _ j] at this

end Communicator

namespace Core.LaidOut

variable {α : Type} [Scalar α] {c : Communicator α} {n : Int} {l : Layout}
  {history first : List (Reduction α)} {ranks r : Nat}

theorem named (h : LaidOut c n l history first) : ∀ e ∈ first, e.communicator = c.name := by
  cases h <;> simp

-- Only ranks that own slices compare their number of variables with that of the others.
theorem length_eq (h : LaidOut c n l history first) (hr : c.rank = .integer r)
    (hs : c.size = .integer ranks) (hm : 1 < ranks) :
    first.length = if l.isDistributed then 1 else 0 := by
  cases h
  case serial hl =>
    rw [Layout.serial_eq_ok hl]
    rfl
  case sliced boundaries hl hc _ _ =>
    rw [hr, Layout.seenFrom_integer] at hl
    rw [hs] at hc
    have hc := Except.ok.inj hc
    have hd : l.isDistributed := by
      simp [Layout.ofBoundaries_eq_ok hl, Layout.isDistributed, Layout.rankCount]
      omega
    simp [hd]

theorem globalSize_eq (h : LaidOut c n l history first) : l.globalSize = n := by
  cases h
  case serial hl => rw [Layout.serial_eq_ok hl, Layout.globalSize_whole]
  case sliced hn _ => exact hn

theorem localSize_eq (h : LaidOut c n l history []) : l.localSize = n := by
  cases h
  case serial hl => rw [Layout.serial_eq_ok hl, Layout.localSize_whole]

theorem ne_nil_of_distributed (h : LaidOut c n l history first) (hd : l.isDistributed) :
    first ≠ [] := by
  cases h
  case serial hl => simp [Layout.serial_eq_ok hl, Layout.isDistributed, Layout.rankCount] at hd
  case sliced => simp

theorem total_of_ne_nil (h : LaidOut c n l history first) (hn : first ≠ []) :
    first = [⟨c.name, .whole l.localSize⟩] ∧
      (c.sum (c.position history) (.whole l.localSize)).bind Quantity.toInteger = .ok n := by
  cases h
  case serial => contradiction
  case sliced hs => exact ⟨rfl, hs⟩

end Core.LaidOut

namespace Rank

variable {α : Type} [Scalar α] {r : Rank α} {v : Core.Survey α} {core : Core α}

theorem finalizes (h : r.Returns true) (hc : r.core? = some core) :
    ∃ v d, Formulation.Finalizes r.problem v d r.session r.after ∧ d.core = core := by
  have ⟨v, d, hF⟩ := Formulation.finalize_eq_true (finalize_of_returns h)
  refine ⟨v, d, hF, Option.some.inj ?_⟩
  rw [← hc, core?, hF.formulation, Formulation.core_holding]

theorem Returns.surveyed (h : r.Returns true) :
    ∃ v d u, Core.survey r.problem r.options r.communicator r.session = (.ok v, u) ∧
      Formulation.Finalizes r.problem v d r.session r.after ∧
      Core.MadeFor d.core.chain d.core.policy d.core.fixedCount :=
  Formulation.survey_of_finalize (finalize_of_returns h)

-- A successful finalization enters sums for the layout first, and then for the counts of its core.
theorem contributions_of_finalizes {d : Finalized α}
    (h : Formulation.Finalizes r.problem v d r.session r.after) :
    ∃ first, Core.LaidOut r.communicator v.size v.layout r.session.reductions first ∧
      r.communicator.Sums (r.session.reductions ++ first) (d.core.counts r.options v) ∧
      r.contributions = first.map Reduction.value ++
        (d.core.counts r.options v).map fun (n, _) => .whole n := by
  have ⟨u, hb, hu⟩ := h.built
  have ⟨first, hl, hs, hr⟩ := hb.reductions
  refine ⟨first, hl, hs, ?_⟩
  rw [hr, List.append_assoc] at hu
  rw [contributions_of_reductions hu, List.map_append, List.map_map]
  rfl

end Rank

-- Where every rank owns a slice, the slices together are all variables.
theorem Together.sum_localSize {α : Type} [Scalar α] {ranks : Nat} {rank : Fin ranks → Rank α}
    {n : Fin ranks → Int} {l : Fin ranks → Layout} {first : Fin ranks → List (Reduction α)}
    (h : Together rank) (hl : ∀ q, Core.LaidOut (rank q).communicator (n q) (l q)
      (rank q).session.reductions (first q))
    (hc : ∀ q, (first q).map Reduction.value <+: (rank q).contributions) (hn : ∀ q, first q ≠ [])
    (r : Fin ranks) : ∑ q, (l q).localSize = n r := by
  have hq (q : Fin ranks) : (rank q).contributions[0]? = some (.whole (l q).localSize) := by
    have ⟨rest, hr⟩ := hc q
    rw [← hr, ((hl q).total_of_ne_nil (hn q)).left]
    rfl
  have htotal := h.total 0 _ hq r
  have ⟨_, hs⟩ := (hl r).total_of_ne_nil (hn r)
  rw [Rank.entered, Nat.add_zero] at htotal
  rw [htotal] at hs
  exact Except.ok.inj hs

-- If all ranks finish, and all of them or none own slices, then every rank gets the total of each
-- count.
theorem Together.total_counts {α : Type} [Scalar α] {ranks : Nat} {rank : Fin ranks → Rank α}
    {v : Fin ranks → Core.Survey α} {d : Fin ranks → Finalized α} (h : Together rank)
    (hf : ∀ r, Formulation.Finalizes (rank r).problem (v r) (d r) (rank r).session (rank r).after)
    (hu : ∀ r q, (d r).core.userLayout.isDistributed = (d q).core.userLayout.isDistributed)
    {k : Nat} {n total : Fin ranks → Int}
    (hk : ∀ q, ((d q).core.counts (rank q).options (v q))[k]? = some (n q, total q))
    (r : Fin ranks) : total r = ∑ q, n q := by
  choose first hl hs hc using fun q => Rank.contributions_of_finalizes (hf q)
  have hfirst (q : Fin ranks) : (first q).length = (first r).length := by
    cases Nat.lt_or_ge 1 ranks
    case inl hm =>
      rw [(hl q).length_eq (h.number q) (h.size q) hm, (hl r).length_eq (h.number r) (h.size r) hm,
        ← (hf q).intact.describes.userLayout, ← (hf r).intact.describes.userLayout, hu q r]
    case inr hm => rw [show q = r from Fin.ext (by omega)]
  have hsum := h.total ((first r).length + k) n (fun q => by
    rw [hc, List.getElem?_append_right (by simp [hfirst q]), List.getElem?_map]
    simp [hfirst q, hk q]) r
  have htotal := (hs r).total (hk r)
  rw [Communicator.position_append _ (hl r).named, Nat.add_assoc] at htotal
  rw [Rank.entered] at hsum
  rw [hsum] at htotal
  exact (Except.ok.inj htotal).symm

section

variable {α : Type} [Scalar α] {ranks : Nat} {contributed : Fin ranks → List Int} {r : Fin ranks}

-- A communicator for ranks that contribute these integers one after the other.
def peers (contributed : Fin ranks → List Int) (r : Fin ranks) : Communicator α :=
  .withPeers "all" (.integer r.val) (.integer ranks) <|
    (List.range (contributed r).length).map fun k =>
      .ok (.whole (∑ q, (contributed q).getD k 0 - (contributed r).getD k 0))

theorem peers_sum {k : Nat} {n : Int} (h : (contributed r)[k]? = some n) :
    (peers contributed r : Communicator α).sum k (.whole n) =
      .ok (.whole (∑ q, (contributed q).getD k 0)) := by
  have ⟨hk, hn⟩ := List.getElem?_eq_some_iff.mp h
  simp [peers, Communicator.withPeers, hk, hn, Except.bind, Quantity.add]

theorem Together.of_peers {rank : Fin ranks → Rank α}
    (hc : ∀ r, (rank r).communicator = peers contributed r)
    (hs : ∀ r, (rank r).session.reductions = [])
    (h : ∀ r, (rank r).contributions = (contributed r).map .whole) : Together rank where
  number r := by rw [hc]; rfl
  size r := by rw [hc]; rfl
  total k n hn r := by
    have hk (q : Fin ranks) : (contributed q)[k]? = some (n q) := by
      have := hn q
      rw [h, List.getElem?_map, Option.map_eq_some_iff] at this
      have ⟨m, hm, he⟩ := this
      cases he
      exact hm
    have he : (rank r).entered = 0 := by rw [Rank.entered, hs]; rfl
    rw [hc, he, Nat.zero_add, peers_sum (hk r)]
    simp [hk]

end

-- Two ranks that contribute the same as long as both of them go on.
def pair (problem : Fin 2 → Problem Exact) (r : Fin 2) : Rank Exact where
  problem := problem r
  session := {
    formulation := {
      kind := .dense
      options := ⟨.keep, .finite (1 / 100), .finite 1000⟩
      communicator := .replicated "both" (.integer r.val) (.integer 2) }
    clock := 0 }

end NonlinearProgram
