import Mathlib.Algebra.BigOperators.Group.List.Basic
import Mathlib.Data.List.Sort
import Mathlib.Data.String.Basic
import NonlinearProgram.Formulation.Operation
import NonlinearProgram.Proofs.Program
import NonlinearProgram.Stats.Basic

-- What is looked up in the tables of the statistics, and what stays of it. Both tables have the
-- same names at any time, so that a listing, which looks all names up, adds none.

namespace NonlinearProgram

namespace StatsTable

variable {ν β : Type} [BEq ν] [LawfulBEq ν] {table : StatsTable ν β} {name other : ν}

theorem lookup_map (f : ν → β → β) (other : ν) :
    List.lookup other (table.map fun (key, y) => (key, f key y)) =
      (table.lookup other).map (f other) := by
  induction table
  case nil => rfl
  case cons entry table ih =>
    rw [List.map_cons, List.lookup_cons, List.lookup_cons, ih]
    split
    case h_1 heq => rw [eq_of_beq heq, Option.map_some]
    case h_2 => rfl

theorem isSome_lookup : (table.lookup name).isSome ↔ name ∈ table.names := by
  simp only [List.lookup_isSome_iff, names, List.mem_map, beq_iff_eq]
  exact exists_congr fun _ => and_congr_right fun _ => eq_comm

theorem touch_of_mem (zero : β) (h : name ∈ table.names) : table.touch zero name = table :=
  if_pos (isSome_lookup.mpr h)

theorem touch_of_not_mem (zero : β) (h : name ∉ table.names) :
    table.touch zero name = table ++ [(name, zero)] :=
  if_neg (mt isSome_lookup.mp h)

-- What is looked up is the same whether a name stands in the table with zero or not at all.
theorem value_touch (zero : β) (table : StatsTable ν β) (name other : ν) :
    (table.touch zero name).value zero other = table.value zero other := by
  by_cases h : name ∈ table.names
  case pos => rw [touch_of_mem zero h]
  case neg =>
    rw [touch_of_not_mem zero h, value, List.lookup_append, value]
    cases table.lookup other
    case none =>
      rw [Option.none_or, List.lookup_cons]
      split <;> rfl
    case some => rfl

theorem nodup_touch (zero : β) (h : table.names.Nodup) (name : ν) :
    (table.touch zero name).names.Nodup := by
  by_cases hmem : name ∈ table.names
  case pos => rwa [touch_of_mem zero hmem]
  case neg =>
    rw [touch_of_not_mem zero hmem, names, List.map_append, List.map_singleton,
      ← List.concat_eq_append]
    exact (List.nodup_concat _ _).mpr ⟨hmem, h⟩

theorem mem_touch {zero : β} :
    other ∈ (table.touch zero name).names ↔ other ∈ table.names ∨ other = name := by
  by_cases hmem : name ∈ table.names
  case pos =>
    rw [touch_of_mem zero hmem]
    exact ⟨.inl, fun h => h.elim id fun heq => heq ▸ hmem⟩
  case neg => simp [touch_of_not_mem zero hmem, names]

-- Tables with the same names keep them the same, whatever stands beside the names.
theorem names_touch_congr {γ : Type} {twin : StatsTable ν γ} (h : table.names = twin.names)
    (zero : β) (zero' : γ) (name : ν) :
    (table.touch zero name).names = (twin.touch zero' name).names := by
  by_cases hmem : name ∈ table.names
  case pos => rw [touch_of_mem zero hmem, touch_of_mem zero' (h ▸ hmem), h]
  case neg =>
    rw [touch_of_not_mem zero hmem, touch_of_not_mem zero' (h ▸ hmem), names, names,
      List.map_append, List.map_append]
    exact congrArg (· ++ [name]) h

theorem foldl_touch (zero : β) {looked : List ν} (h : ∀ name ∈ looked, name ∈ table.names) :
    looked.foldl (touch zero) table = table := by
  induction looked
  case nil => rfl
  case cons name looked ih =>
    obtain ⟨hname, hlooked⟩ := List.forall_mem_cons.mp h
    rw [List.foldl_cons, touch_of_mem zero hname, ih hlooked]

variable [Add β]

omit [LawfulBEq ν] in
theorem names_add (zero : β) (table : StatsTable ν β) (name : ν) (x : β) :
    (table.add zero name x).names = (table.touch zero name).names := by
  rw [add, names, List.map_map]
  rfl

theorem value_add (zero : β) (table : StatsTable ν β) (name other : ν) (x : β) :
    (table.add zero name x).value zero other =
      if name == other then table.value zero other + x else table.value zero other := by
  rw [← value_touch zero table name other, value, add,
    lookup_map fun key y => if name == key then y + x else y]
  by_cases h : name = other
  case pos =>
    subst h
    obtain ⟨y, hy⟩ := Option.isSome_iff_exists.mp
      (isSome_lookup.mpr (mem_touch.mpr (.inr rfl) : name ∈ (table.touch zero name).names))
    simp [value, hy]
  case neg => simp [value, h]

section

variable {τ : Type} [AddCommMonoid τ] {table : StatsTable ν τ}

-- The induction is on the table, in which the name stands once.
theorem sum_map_add (hn : table.names.Nodup) (hmem : name ∈ table.names) (x : τ) :
    ((table.map fun (key, y) => (key, if name == key then y + x else y)).map Prod.snd).sum =
      (table.map Prod.snd).sum + x := by
  induction table
  case nil => cases hmem
  case cons entry table ih =>
    obtain ⟨key, y⟩ := entry
    obtain ⟨hkey, hn⟩ := List.nodup_cons.mp hn
    simp only [List.map_cons, List.sum_cons]
    by_cases heq : name = key
    case pos =>
      have hrest : (table.map fun (key, y) => (key, if name == key then y + x else y)) = table := by
        refine (List.map_congr_left fun (other, z) hentry => ?_).trans (List.map_id table)
        have hne : name ≠ other := by
          rintro rfl
          exact hkey (List.mem_map.mpr ⟨_, hentry, heq⟩)
        exact congrArg (Prod.mk other) (if_neg (mt eq_of_beq hne))
      rw [hrest, if_pos (beq_iff_eq.mpr heq), add_right_comm]
    case neg =>
      have hmem := (List.mem_cons.mp hmem).resolve_left heq
      rw [ih hn hmem, if_neg (mt eq_of_beq heq), add_assoc]

theorem sum_add (h : table.names.Nodup) (name : ν) (x : τ) :
    ((table.add 0 name x).map Prod.snd).sum = (table.map Prod.snd).sum + x := by
  rw [add, sum_map_add (nodup_touch 0 h name) (mem_touch.mpr (.inr rfl))]
  by_cases hmem : name ∈ table.names
  case pos => rw [touch_of_mem 0 hmem]
  case neg => simp [touch_of_not_mem 0 hmem]

end

end StatsTable

namespace Stats

variable {ν τ : Type} [BEq ν] [LawfulBEq ν] [Zero τ] [Add τ]

-- One more block is counted for its own name, and for no other one.
theorem count_record (s : Stats ν τ) (name other : ν) (duration : τ) :
    (s.record name duration).count other = s.count other + if name == other then 1 else 0 := by
  rw [count, record, StatsTable.value_add, count]
  split <;> rfl

theorem time_record (s : Stats ν τ) (name other : ν) (duration : τ) :
    (s.record name duration).time other =
      if name == other then s.time other + duration else s.time other :=
  s.times.value_add 0 name other duration

omit [BEq ν] [LawfulBEq ν] [Zero τ] [Add τ] in
theorem placed_perm {style : StatsStyle ν τ} {name : ν} {names placed : List ν}
    (h : Stats.placed style name names = .ok placed) : placed.Perm (name :: names) := by
  induction names generalizing placed
  case nil =>
    cases h
    exact .refl _
  case cons other names ih =>
    obtain ⟨before, _, h⟩ := Program.except_bind_eq_ok.mp h
    cases before
    case false =>
      cases h
      exact .refl _
    case true =>
      obtain ⟨rest, hrest, h⟩ := Program.except_bind_eq_ok.mp h
      cases h
      exact ((ih hrest).cons other).trans (.swap ..)

omit [BEq ν] [LawfulBEq ν] [Zero τ] [Add τ] in
theorem sortedNames_perm {style : StatsStyle ν τ} {s : Stats ν τ} {names : List ν}
    (h : s.sortedNames style = .ok names) : names.Perm s.counts.names := by
  rw [sortedNames] at h
  generalize s.counts.names = listed at h ⊢
  induction listed generalizing names
  case nil =>
    cases h
    exact .refl _
  case cons name listed ih =>
    rw [List.foldrM_cons] at h
    obtain ⟨rest, hrest, h⟩ := Program.except_bind_eq_ok.mp h
    exact (placed_perm h).trans ((ih hrest).cons name)

theorem totalTime_eq_sum {ν τ : Type} [AddCommMonoid τ] (s : Stats ν τ) :
    s.totalTime = (s.times.map Prod.snd).sum := by
  rw [totalTime, List.sum_eq_foldl]

-- A listing looks up what is there.
omit [Add τ] in
theorem afterListing_eq {s : Stats ν τ} (h : s.counts.names = s.times.names)
    (style : StatsStyle ν τ) : s.afterListing style = s := by
  rw [afterListing]
  split
  case h_1 names hnames =>
    have hcounts : ∀ name ∈ names, name ∈ s.counts.names :=
      fun name => (sortedNames_perm hnames).mem_iff.mp
    rw [StatsTable.foldl_touch 0 hcounts, StatsTable.foldl_touch 0 (h ▸ hcounts)]
  case h_2 => rfl

section

variable {τ : Type} {timeText : τ → String}

theorem placed_ofTexts (name : String) (names : List String) :
    placed (.ofTexts timeText) name names = .ok (names.orderedInsert (· ≤ ·) name) := by
  induction names
  case nil => rfl
  case cons other names ih =>
    rw [placed, ih, List.orderedInsert_cons]
    by_cases h : other < name
    case pos =>
      have hprecedes : (StatsStyle.ofTexts timeText).precedes other name = .ok true :=
        congrArg Except.ok (decide_eq_true h)
      rw [hprecedes, if_neg (not_le_of_gt h)]
      rfl
    case neg =>
      have hprecedes : (StatsStyle.ofTexts timeText).precedes other name = .ok false :=
        congrArg Except.ok (decide_eq_false h)
      rw [hprecedes, if_pos (not_lt.mp h)]
      rfl

theorem sortedNames_ofTexts (s : Stats String τ) :
    s.sortedNames (.ofTexts timeText) = .ok (s.counts.names.insertionSort (· ≤ ·)) := by
  rw [sortedNames]
  induction s.counts.names
  case nil => rfl
  case cons name names ih =>
    rw [List.foldrM_cons, ih]
    exact placed_ofTexts name _

end

end Stats

theorem Operation.text_injective {a b : Operation} (h : a.text = b.text) : a = b := by
  rcases a with _ | _ | (_ | _) | (_ | _) | _
  all_goals
    rcases b with _ | _ | (_ | _) | (_ | _) | _
    all_goals first | rfl | exact absurd h (by decide)

end NonlinearProgram
