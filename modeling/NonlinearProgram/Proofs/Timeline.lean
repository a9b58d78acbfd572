import Mathlib.Data.List.DropRight
import NonlinearProgram.Proofs.Stats
import NonlinearProgram.Stats.Timeline

-- A run of nested blocks makes a history, in which the blocks stand in the order in which they end.
-- The history up to a moment says what the statistics answer at that moment.

namespace NonlinearProgram

variable {ν τ : Type}

-- What happens in a run, one thing after the other. A block that ends comes with the time since its
-- own start.
inductive Happening (ν τ : Type) where
  | passed (duration : τ)
  | cleared
  | asked (q : StatsQuery ν)
  | ended (name : ν) (duration : τ)

namespace Happening

def isCleared : Happening ν τ → Bool
  | .cleared => true
  | _ => false

def isAsked : Happening ν τ → Bool
  | .asked _ => true
  | _ => false

-- How much time goes by. All that a block takes has gone by inside of it.
def passing [Zero τ] : Happening ν τ → τ
  | .passed duration => duration
  | _ => 0

def block? : Happening ν τ → Option (ν × τ)
  | .ended name duration => some (name, duration)
  | _ => none

end Happening

-- Blocks that have ended, with the time that each of them took.
abbrev EndedBlocks (ν τ : Type) := List (ν × τ)

namespace EndedBlocks

def totalTime [Zero τ] [Add τ] (blocks : EndedBlocks ν τ) : τ := (blocks.map Prod.snd).sum

variable [BEq ν]

def count (blocks : EndedBlocks ν τ) (name : ν) : Nat := blocks.countP (·.1 == name)

def time [Zero τ] [Add τ] (blocks : EndedBlocks ν τ) (name : ν) : τ :=
  ((blocks.filter (·.1 == name)).map Prod.snd).sum

theorem count_concat (blocks : EndedBlocks ν τ) (name other : ν) (duration : τ) :
    count (blocks ++ [(name, duration)]) other =
      blocks.count other + if name == other then 1 else 0 := by
  rw [count, List.countP_append, List.countP_singleton]
  rfl

variable [AddMonoid τ]

theorem time_concat (blocks : EndedBlocks ν τ) (name other : ν) (duration : τ) :
    time (blocks ++ [(name, duration)]) other =
      if name == other then blocks.time other + duration else blocks.time other := by
  rw [time, List.filter_append, List.map_append, List.sum_append, ← time]
  cases h : name == other <;> simp [h]

omit [BEq ν] in
theorem totalTime_concat (blocks : EndedBlocks ν τ) (name : ν) (duration : τ) :
    totalTime (blocks ++ [(name, duration)]) = blocks.totalTime + duration := by
  rw [totalTime, List.map_append, List.sum_append, List.map_singleton, List.sum_singleton,
    totalTime]

end EndedBlocks

section

variable [Zero τ] [Add τ]

-- A listing has each name once, in order, with what is known of its blocks.
structure EndedBlocks.Lists (blocks : EndedBlocks String τ) (entries : List (StatsEntry String τ)) :
    Prop where
  sorted : (entries.map StatsEntry.name).Pairwise (· < ·)
  mem : ∀ e, e ∈ entries ↔
    0 < blocks.count e.name ∧ e.count = blocks.count e.name ∧ e.time = blocks.time e.name

def EndedBlocks.Answer (timeText : τ → String) (blocks : EndedBlocks String τ)
    (a : Except ValueFault (StatsAnswer String τ)) : StatsQuery String → Prop
  | .count name => a = .ok (.count (blocks.count name))
  | .time name => a = .ok (.time (blocks.time name))
  | .totalTime => a = .ok (.time blocks.totalTime)
  | .table => ∃ entries, blocks.Lists entries ∧ a = .ok (.table entries)
  | .text => ∃ entries, blocks.Lists entries ∧
      a = .text <$> Stats.listing (.ofTexts timeText) entries

end

abbrev History (ν τ : Type) := List (Happening ν τ)

namespace History

def elapsed [Zero τ] [Add τ] (h : History ν τ) : τ := (h.map Happening.passing).sum

def blocksSinceReset (h : History ν τ) : EndedBlocks ν τ :=
  (h.rtakeWhile fun e => !e.isCleared).filterMap Happening.block?

theorem blocksSinceReset_concat (h : History ν τ) (e : Happening ν τ) :
    blocksSinceReset (h ++ [e]) =
      if e.isCleared then [] else h.blocksSinceReset ++ e.block?.toList := by
  rw [blocksSinceReset, List.rtakeWhile_concat]
  cases e.isCleared
  case true => rfl
  case false =>
    simp only [Bool.not_false, if_true, List.filterMap_append, Bool.false_eq_true, if_false]
    exact congrArg (h.blocksSinceReset ++ ·) (by cases e <;> rfl)

-- Each query of a history has an answer, in their order, by the blocks that have ended before it.
inductive Answered [Zero τ] [Add τ] (timeText : τ → String) : History String τ →
    List (Except ValueFault (StatsAnswer String τ)) → Prop where
  | nothing : Answered timeText [] []
  | quiet {h answers e} : Answered timeText h answers → e.isAsked = false →
      Answered timeText (h ++ [e]) answers
  | asked {h answers q a} : Answered timeText h answers → h.blocksSinceReset.Answer timeText a q →
      Answered timeText (h ++ [.asked q]) (answers ++ [a])

def unasked (h : History ν τ) : History ν τ := h.filter fun e => !e.isAsked

theorem unasked_append (h k : History ν τ) : (h ++ k).unasked = h.unasked ++ k.unasked :=
  List.filter_append h k

variable [AddMonoid τ]

theorem elapsed_append (h k : History ν τ) : (h ++ k).elapsed = h.elapsed + k.elapsed := by
  rw [elapsed, List.map_append, List.sum_append]
  rfl

theorem elapsed_singleton (e : Happening ν τ) : History.elapsed [e] = e.passing := by
  rw [elapsed, List.map_singleton, List.sum_singleton]

theorem elapsed_unasked (h : History ν τ) : h.unasked.elapsed = h.elapsed := by
  induction h
  case nil => rfl
  case cons e h ih =>
    cases e
    case asked q => exact ih.trans (zero_add (elapsed h)).symm
    all_goals exact congrArg (_ + ·) ih

end History

namespace Activity

variable [Zero τ] [Add τ]

mutual

-- The history that an activity makes, and the fault that it ends with. A block ends however its
-- body ends.
def history : Activity ν τ → History ν τ × Option Fault
  | .advance duration => ([.passed duration], none)
  | .reset => ([.cleared], none)
  | .query q => ([.asked q], none)
  | .raise f => ([], some f)
  | .block name body =>
    let (h, fault) := historyAll body
    (h ++ [.ended name h.elapsed], fault)
  | .attempt body => ((historyAll body).1, none)

def historyAll : List (Activity ν τ) → History ν τ × Option Fault
  | [] => ([], none)
  | a :: rest =>
    match history a with
    | (h, some f) => (h, some f)
    | (h, none) =>
      let (later, fault) := historyAll rest
      (h ++ later, fault)

end

end Activity

namespace Report

mutual

-- The answers in a report, in the order in which they were given.
def answers : Report ν τ → List (Except ValueFault (StatsAnswer ν τ))
  | .answered a => [a]
  | .ended _ inner | .attempted inner _ => answersAll inner
  | _ => []

def answersAll : List (Report ν τ) → List (Except ValueFault (StatsAnswer ν τ))
  | [] => []
  | report :: rest => report.answers ++ answersAll rest

end

end Report

namespace Stats

variable [BEq ν] [Zero τ] [Add τ]

def happen (style : StatsStyle ν τ) (s : Stats ν τ) : Happening ν τ → Stats ν τ
  | .passed _ => s
  | .cleared => {}
  | .asked q => s.afterQuery style q
  | .ended name duration => s.record name duration

def replay (style : StatsStyle ν τ) (s : Stats ν τ) (h : History ν τ) : Stats ν τ :=
  h.foldl (happen style) s

def answersTo (style : StatsStyle ν τ) : Stats ν τ → History ν τ →
    List (Except ValueFault (StatsAnswer ν τ))
  | _, [] => []
  | s, .asked q :: rest => s.answer style q :: answersTo style (s.happen style (.asked q)) rest
  | s, e :: rest => answersTo style (s.happen style e) rest

variable {style : StatsStyle ν τ} {s : Stats ν τ}

theorem replay_append (h k : History ν τ) :
    s.replay style (h ++ k) = (s.replay style h).replay style k :=
  List.foldl_append

theorem answersTo_append (h k : History ν τ) : s.answersTo style (h ++ k) =
    s.answersTo style h ++ (s.replay style h).answersTo style k := by
  induction h generalizing s
  case nil => rfl
  case cons e h ih =>
    cases e
    case asked q => exact congrArg (s.answer style q :: ·) ih
    all_goals exact ih

end Stats

namespace Activity

variable [BEq ν] [AddCommGroup τ]

-- A run takes the course of a history: it ends with the same fault, the clock goes on by what
-- passes, the statistics follow what happens, and answer on the way.
structure Follows (style : StatsStyle ν τ) (t : Timeline ν τ) (h : History ν τ × Option Fault)
    (answers : List (Except ValueFault (StatsAnswer ν τ))) (fault : Option Fault)
    (u : Timeline ν τ) : Prop where
  fault : fault = h.2
  clock : u.clock = t.clock + h.1.elapsed
  stats : u.stats = t.stats.replay style h.1
  answers : answers = t.stats.answersTo style h.1

variable {style : StatsStyle ν τ} {t u v : Timeline ν τ} {h : History ν τ}
  {course later : History ν τ × Option Fault}
  {as bs : List (Except ValueFault (StatsAnswer ν τ))} {fault : Option Fault}

namespace Follows

theorem nothing (t : Timeline ν τ) (fault : Option Fault) :
    Follows style t ([], fault) [] fault t :=
  ⟨rfl, (AddMonoid.add_zero _).symm, rfl, rfl⟩

-- Nothing but a single thing happens, and there is an answer to it if it is a query.
theorem single (e : Happening ν τ) (hc : u.clock = t.clock + e.passing)
    (hs : u.stats = t.stats.happen style e) :
    Follows style t ([e], none) (t.stats.answersTo style [e]) none u :=
  ⟨rfl, by rw [hc, History.elapsed_singleton], hs, rfl⟩

theorem append (ha : Follows style t (h, none) as none u)
    (hb : Follows style u later bs fault v) :
    Follows style t (h ++ later.1, later.2) (as ++ bs) fault v where
  fault := hb.fault
  clock := by rw [hb.clock, ha.clock, History.elapsed_append, add_assoc]
  stats := by rw [hb.stats, ha.stats, Stats.replay_append]
  answers := by rw [hb.answers, ha.answers, ha.stats, Stats.answersTo_append]

-- The time since the start of a block is what has passed inside of it.
theorem ended (ha : Follows style t course as fault u) (name : ν) :
    Follows style t (course.1 ++ [.ended name course.1.elapsed], course.2) as fault
      { u with stats := u.stats.record name (u.clock - t.clock) } where
  fault := ha.fault
  clock := by
    rw [ha.clock, History.elapsed_append, History.elapsed_singleton]
    exact congrArg (t.clock + ·) (AddMonoid.add_zero course.1.elapsed).symm
  stats := by
    rw [ha.clock, add_sub_cancel_left, ha.stats, Stats.replay_append]
    rfl
  answers := by rw [ha.answers, Stats.answersTo_append]; exact (List.append_nil _).symm

theorem timeline_eq (hf : Follows style t course as fault u) :
    u = ⟨t.clock + course.1.elapsed, t.stats.replay style course.1⟩ := by
  rw [← hf.clock, ← hf.stats]

end Follows

variable (style : StatsStyle ν τ)

mutual

theorem run_follows : ∀ (a : Activity ν τ) (t : Timeline ν τ),
    Follows style t a.history (run style a t).1.answers (run style a t).2.1 (run style a t).2.2
  | .advance duration, _ => .single (.passed duration) rfl rfl
  | .reset, t => .single .cleared (AddMonoid.add_zero t.clock).symm rfl
  | .query q, t => .single (.asked q) (AddMonoid.add_zero t.clock).symm rfl
  | .raise f, t => .nothing t (some f)
  | .block name body, t => (runAll_follows body t).ended name
  | .attempt body, t => { runAll_follows body t with fault := rfl }

theorem runAll_follows : ∀ (program : List (Activity ν τ)) (t : Timeline ν τ),
    Follows style t (historyAll program) (Report.answersAll (runAll style program t).1)
      (runAll style program t).2.1 (runAll style program t).2.2
  | [], t => .nothing t none
  | a :: rest, t => by
    have ha := run_follows a t
    rw [runAll, historyAll]
    cases hrun : run style a t
    case mk report result =>
      obtain ⟨fault, u⟩ := result
      cases hcourse : history a
      case mk h fault' =>
        -- A fault ends the run and the history at the same place.
        rw [hrun, hcourse] at ha
        obtain rfl : fault = fault' := ha.fault
        cases fault
        case none => exact ha.append (runAll_follows rest u)
        case some => exact { ha with answers := (List.append_nil _).trans ha.answers }

end

end Activity

namespace Stats

-- The statistics are those of certain blocks. A name that is in a table at all has a block.
structure Tallies [BEq ν] [Zero τ] [Add τ] (s : Stats ν τ) (blocks : EndedBlocks ν τ) : Prop where
  names : s.counts.names = s.times.names
  nodup : s.counts.names.Nodup
  mem : ∀ name, name ∈ s.counts.names ↔ 0 < blocks.count name
  count : ∀ name, s.count name = blocks.count name
  time : ∀ name, s.time name = blocks.time name
  totalTime : s.totalTime = blocks.totalTime

variable [BEq ν] [AddCommGroup τ]

theorem Tallies.empty : Tallies ({} : Stats ν τ) [] where
  names := rfl
  nodup := .nil
  mem name := by simp [StatsTable.names, EndedBlocks.count]
  count name := rfl
  time name := rfl
  totalTime := rfl

variable [LawfulBEq ν] {s : Stats ν τ} {blocks : EndedBlocks ν τ}

theorem Tallies.record (ht : s.Tallies blocks) (name : ν) (duration : τ) :
    (s.record name duration).Tallies (blocks ++ [(name, duration)]) where
  names := by
    rw [Stats.record, StatsTable.names_add, StatsTable.names_add,
      StatsTable.names_touch_congr ht.names]
  nodup := by
    rw [Stats.record, StatsTable.names_add]
    exact StatsTable.nodup_touch 0 ht.nodup name
  mem other := by
    rw [Stats.record, StatsTable.names_add, StatsTable.mem_touch, ht.mem, EndedBlocks.count_concat]
    by_cases h : name = other
    case pos => simp [h]
    case neg => simp [h, Ne.symm h]
  count other := by rw [count_record, ht.count, EndedBlocks.count_concat]
  time other := by rw [time_record, ht.time, EndedBlocks.time_concat]
  totalTime := by
    rw [totalTime_eq_sum, Stats.record, StatsTable.sum_add (ht.names ▸ ht.nodup),
      ← totalTime_eq_sum, ht.totalTime, EndedBlocks.totalTime_concat]

-- All names that a query looks up are in both tables.
theorem Tallies.afterQuery_eq (ht : s.Tallies blocks) (style : StatsStyle ν τ)
    (q : StatsQuery ν) : s.afterQuery style q = s := by
  cases q
  case table | text => exact afterListing_eq ht.names style
  all_goals rfl

theorem Tallies.happen {h : History ν τ} (ht : s.Tallies h.blocksSinceReset)
    (style : StatsStyle ν τ) (e : Happening ν τ) :
    (s.happen style e).Tallies (History.blocksSinceReset (h ++ [e])) := by
  rw [History.blocksSinceReset_concat]
  cases e
  case passed => exact (List.append_nil h.blocksSinceReset).symm ▸ ht
  case cleared => exact .empty
  case asked q =>
    rw [Stats.happen, ht.afterQuery_eq]
    exact (List.append_nil h.blocksSinceReset).symm ▸ ht
  case ended name duration => exact ht.record name duration

-- The induction is on the end of the history, since a reset forgets what comes before it.
theorem tallies_replay (style : StatsStyle ν τ) (h : History ν τ) :
    (Stats.replay style {} h).Tallies h.blocksSinceReset := by
  induction h using List.reverseRecOn
  case nil => exact .empty
  case append_singleton h e ih =>
    rw [replay_append]
    exact ih.happen style e

theorem replay_unasked (style : StatsStyle ν τ) (h : History ν τ) :
    Stats.replay style {} h.unasked = Stats.replay style {} h := by
  induction h using List.reverseRecOn
  case nil => rfl
  case append_singleton h e ih =>
    rw [History.unasked_append, replay_append, replay_append, ih]
    cases e
    case asked q => exact ((tallies_replay style h).afterQuery_eq style q).symm
    all_goals rfl

section

variable {s : Stats String τ} {blocks : EndedBlocks String τ}

theorem Tallies.sorted (ht : s.Tallies blocks) (timeText : τ → String) : ∃ entries,
    blocks.Lists entries ∧ s.sorted (.ofTexts timeText) = .ok entries := by
  rw [Stats.sorted, sortedNames_ofTexts]
  set names := s.counts.names.insertionSort (· ≤ ·)
  have hperm : names.Perm s.counts.names := List.perm_insertionSort ..
  refine ⟨names.map fun name => ⟨name, s.count name, s.time name⟩, ⟨?sorted, fun e => ?mem⟩, rfl⟩
  case sorted =>
    have hle : names.SortedLE := (List.pairwise_insertionSort ..).sortedLE
    rw [List.map_map]
    exact (List.map_id names).symm ▸ (hle.sortedLT_of_nodup (hperm.nodup_iff.mpr ht.nodup)).pairwise
  case mem =>
    rw [List.mem_map, ← ht.mem, ← hperm.mem_iff, ← ht.count, ← ht.time]
    constructor
    case mp =>
      rintro ⟨name, hmem, rfl⟩
      exact ⟨hmem, rfl, rfl⟩
    case mpr => exact fun ⟨hmem, hcount, htime⟩ => ⟨e.name, hmem, by rw [← hcount, ← htime]⟩

theorem Tallies.answer (ht : s.Tallies blocks) (timeText : τ → String) (q : StatsQuery String) :
    blocks.Answer timeText (s.answer (.ofTexts timeText) q) q := by
  cases q
  case count name => exact congrArg (Except.ok ∘ StatsAnswer.count) (ht.count name)
  case time name => exact congrArg (Except.ok ∘ StatsAnswer.time) (ht.time name)
  case totalTime => exact congrArg (Except.ok ∘ StatsAnswer.time) ht.totalTime
  case table =>
    obtain ⟨entries, hlists, heq⟩ := ht.sorted timeText
    exact ⟨entries, hlists, congrArg (StatsAnswer.table <$> ·) heq⟩
  case text =>
    obtain ⟨entries, hlists, heq⟩ := ht.sorted timeText
    refine ⟨entries, hlists, congrArg (StatsAnswer.text <$> ·) ?_⟩
    rw [text, heq]
    rfl

theorem answersTo_answered (timeText : τ → String) (h : History String τ) :
    h.Answered timeText (Stats.answersTo (.ofTexts timeText) {} h) := by
  induction h using List.reverseRecOn
  case nil => exact .nothing
  case append_singleton h e ih =>
    rw [answersTo_append]
    cases e
    case asked q => exact ih.asked ((tallies_replay _ h).answer timeText q)
    all_goals exact (List.append_nil _).symm ▸ ih.quiet rfl

end

end Stats

namespace Activity

-- The same program, in which nothing is asked.
def withoutQueries : List (Activity ν τ) → List (Activity ν τ)
  | [] => []
  | .query _ :: rest => withoutQueries rest
  | .block name body :: rest => .block name (withoutQueries body) :: withoutQueries rest
  | .attempt body :: rest => .attempt (withoutQueries body) :: withoutQueries rest
  | a :: rest => a :: withoutQueries rest

section

variable [AddMonoid τ]

theorem historyAll_cons_unasked {a b : Activity ν τ} {rest later : List (Activity ν τ)}
    (hb : b.history = (a.history.1.unasked, a.history.2))
    (hlater : historyAll later = ((historyAll rest).1.unasked, (historyAll rest).2)) :
    historyAll (b :: later) =
      ((historyAll (a :: rest)).1.unasked, (historyAll (a :: rest)).2) := by
  rw [historyAll, historyAll, hb, hlater]
  cases a.history
  case mk h fault =>
    cases fault
    case none => exact congrArg (·, (historyAll rest).2) (History.unasked_append h _).symm
    case some => rfl

theorem historyAll_withoutQueries (program : List (Activity ν τ)) :
    historyAll (withoutQueries program) =
      ((historyAll program).1.unasked, (historyAll program).2) := by
  induction program using withoutQueries.induct
  case case1 => rw [withoutQueries]; rfl
  case case2 q rest ih => rw [withoutQueries, ih]; rfl
  case case3 name body rest hbody hrest =>
    rw [withoutQueries]
    refine historyAll_cons_unasked ?_ hrest
    simp only [history, hbody, History.elapsed_unasked, History.unasked_append]
    rfl
  case case4 body rest hbody hrest =>
    rw [withoutQueries]
    refine historyAll_cons_unasked ?_ hrest
    rw [history, history, hbody]
  case case5 a rest hquery hblock hattempt hrest =>
    rw [withoutQueries]
    · refine historyAll_cons_unasked ?_ hrest
      cases a
      case query q => exact (hquery q rfl).elim
      case block name body => exact (hblock name body rfl).elim
      case attempt body => exact (hattempt body rfl).elim
      all_goals rfl
    all_goals assumption

end

-- Reset or fault, a block counts for its name when it ends, with all the time since its start, and
-- what is asked is answered by the blocks that have ended since the last reset. Where nothing is
-- asked, all ends the same.
theorem nested_blocks_add_up [AddCommGroup τ] (timeText : τ → String)
    (program : List (Activity String τ)) (start : τ) :
    let style := StatsStyle.ofTexts timeText
    let course := historyAll program
    let result := runAll style program { clock := start }
    result.2.1 = course.2 ∧
      result.2.2.clock = start + course.1.elapsed ∧
      result.2.2.stats.Tallies course.1.blocksSinceReset ∧
      course.1.Answered timeText (Report.answersAll result.1) ∧
      (runAll style (withoutQueries program) { clock := start }).2 = result.2 := by
  intro style course result
  have hrun := runAll_follows style program { clock := start }
  have hquiet := runAll_follows style (withoutQueries program) { clock := start }
  rw [historyAll_withoutQueries] at hquiet
  refine ⟨hrun.fault, hrun.clock, ?tallies, ?answered,
    Prod.ext (hquiet.fault.trans hrun.fault.symm) ?same⟩
  case tallies =>
    rw [hrun.stats]
    exact Stats.tallies_replay style _
  case answered =>
    rw [hrun.answers]
    exact Stats.answersTo_answered timeText _
  case same =>
    rw [hquiet.timeline_eq, History.elapsed_unasked, Stats.replay_unasked, ← hrun.timeline_eq]

example : (runAll (.ofTexts fun _ => "") [.block "outer" [.advance 2, .block "inner" [.advance 1],
    .reset, .block "inner" [.advance 3]]] { clock := (0 : Int) }).2.2.stats.times =
    [("inner", 3), ("outer", 6)] := by
  decide

end Activity
end NonlinearProgram
