import NonlinearProgram.Fault
import NonlinearProgram.Stats.Basic

-- A block is counted when it ends, however it ends, with the time since its own start.

namespace NonlinearProgram

inductive StatsQuery (ν : Type) where
  | count (name : ν)
  | time (name : ν)
  | totalTime
  | table
  | text

inductive StatsAnswer (ν τ : Type) where
  | count (n : Nat)
  | time (t : τ)
  | table (entries : List (StatsEntry ν τ))
  | text (s : String)

inductive Activity (ν τ : Type) where
  | advance (duration : τ)
  | reset
  | query (q : StatsQuery ν)
  | raise (f : Fault)
  | block (name : ν) (body : List (Activity ν τ))
  -- A stretch in which a fault ends only the stretch.
  | attempt (body : List (Activity ν τ))

inductive Report (ν τ : Type) where
  | advanced
  | cleared
  | answered (a : Except ValueFault (StatsAnswer ν τ))
  | raised (f : Fault)
  | ended (name : ν) (inner : List (Report ν τ))
  | attempted (inner : List (Report ν τ)) (fault : Option Fault)

structure Timeline (ν τ : Type) where
  clock : τ
  stats : Stats ν τ := {}

def Stats.answer {ν τ : Type} [BEq ν] [Zero τ] [Add τ] (style : StatsStyle ν τ) (s : Stats ν τ) :
    StatsQuery ν → Except ValueFault (StatsAnswer ν τ)
  | .count name => .ok (.count (s.count name))
  | .time name => .ok (.time (s.time name))
  | .totalTime => .ok (.time s.totalTime)
  | .table => .table <$> s.sorted style
  | .text => .text <$> s.text style

-- What a query leaves behind.
def Stats.afterQuery {ν τ : Type} [BEq ν] [Zero τ] (style : StatsStyle ν τ) (s : Stats ν τ) :
    StatsQuery ν → Stats ν τ
  | .table | .text => s.afterListing style
  | _ => s

namespace Activity

variable {ν τ : Type} [BEq ν] [Zero τ] [Add τ] [Sub τ]

mutual

def run (style : StatsStyle ν τ) :
    Activity ν τ → Timeline ν τ → Report ν τ × Option Fault × Timeline ν τ
  | .advance duration, t => (.advanced, none, { t with clock := t.clock + duration })
  | .reset, t => (.cleared, none, { t with stats := {} })
  | .query q, t =>
    (.answered (t.stats.answer style q), none, { t with stats := t.stats.afterQuery style q })
  | .raise f, t => (.raised f, some f, t)
  | .block name body, t =>
    let (inner, fault, u) := runAll style body t
    (.ended name inner, fault, { u with stats := u.stats.record name (u.clock - t.clock) })
  | .attempt body, t =>
    let (inner, fault, u) := runAll style body t
    (.attempted inner fault, none, u)

def runAll (style : StatsStyle ν τ) :
    List (Activity ν τ) → Timeline ν τ → List (Report ν τ) × Option Fault × Timeline ν τ
  | [], t => ([], none, t)
  | a :: rest, t =>
    match run style a t with
    | (report, some f, u) => ([report], some f, u)
    | (report, none, u) =>
      let (reports, fault, v) := runAll style rest u
      (report :: reports, fault, v)

end

end Activity
end NonlinearProgram
