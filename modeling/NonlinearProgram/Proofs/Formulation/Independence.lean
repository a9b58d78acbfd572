import NonlinearProgram.Proofs.Formulation.Feasibility
import NonlinearProgram.Proofs.Formulation.Unison

-- What was done with a formulation leaves no trace in what is evaluated with it later on. A copy
-- that was just made does the same.

namespace NonlinearProgram

open Program FormulationM Callback

variable {α : Type} [Scalar α]

namespace Formulation

variable {p : Problem α} {d : Finalized α} {o : Options α} {v : Core.Survey α} {s t u w : Session α}

-- What happens while a formulation is in use. The solver works with it, whatever the problem does
-- each time and whatever becomes of it, or something else writes into arrays that can be written
-- and makes new ones. All that it takes is that nobody gets hold of the arrays of the
-- transformations, which are never handed out.
inductive Used (d : Finalized α) : Session α → Session α → Prop
  | work {s : Session α} (p : Problem α) (a : Usage α)
    (h : ∀ w ∈ a.handed, ∀ k ∈ d.core.chain.scratch, w.buffer ≠ k.buffer) : Used d s (a.run p s).2
  | elsewhere {s t : Session α} (hf : t.formulation = s.formulation)
    (hw : s.store.Writes (fun k => (∃ b, s.store.buffers[k]? = some b ∧ b.writable) ∧
      ∀ w ∈ d.core.chain.scratch, w.buffer ≠ k) t.store) : Used d s t

theorem Ready.used (h : Ready p d o v s) (hu : Used d s t) : Undisturbed d s t := by
  cases hu
  case work q a ha =>
    exact (a.effect q s).undisturbed h ha fun k hk =>
      (h.eliminates.scratch_valid hk).left.lt_length
  case elsewhere hf hw =>
    refine h.writes ⟨_, hf⟩ hw (fun hb hk => ?_) (h.eliminates.writes hw fun k hk hn => ?_)
    · obtain ⟨⟨b, hb', hwr⟩, _⟩ := hk
      cases hb.symm.trans hb'
      exact hwr
    · exact hn.right k hk rfl

-- The induction is on the steps; every one of them leaves the formulation ready.
theorem Ready.history (h : Ready p d o v s) (hu : Relation.ReflTransGen (Used d) s t) :
    Undisturbed d s t := by
  induction hu
  case refl => exact .refl d s
  case tail u t _ hstep ih => exact ih.trans ((h.undisturbed ih).used hstep)

theorem Undisturbed.fresh_alike (hu : Undisturbed d t u) (hf : Finalizes p v d s t) :
    u.formulation.fresh.Alike s.formulation := by
  obtain ⟨_, hu⟩ := hu.formulation
  rw [hu, hf.formulation, holding]
  cases d.derivatives <;> exact ⟨rfl, rfl, rfl⟩

-- A formulation that was in use and its copy, in the session that both of them are in.
theorem alongside_clone {d' : Finalized α} (duals? : Option (List α)) (h : Ready p d o v u)
    (h' : Ready p d' o v t) (hkind : t.formulation.kind = u.formulation.kind)
    (hcore : d'.core.Alike d.core) (hblocks : d'.derivatives.blocks? = d.derivatives.blocks?)
    (hw : u.store.Writes (fun _ => False) t.store)
    (hfresh : ∀ k, u.store.Valid k → ¬d'.IsScratch k.buffer) :
    Twins.Alongside ⟨p, o, v, d, d', t.trace, duals?⟩
      { t with formulation := u.formulation } t := by
  have hu : Undisturbed d u { t with formulation := u.formulation } :=
    h.writes ⟨_, rfl⟩ hw (fun _ => False.elim) (h.eliminates.writes hw fun _ _ => id)
  refine ⟨h.undisturbed hu, h', hcore, hblocks, ?_, hkind, rfl, fun _ _ => rfl, rfl, rfl,
    ⟨[], [], by simp, by simp, rfl, nofun⟩⟩
  rintro _ ⟨r, hr, rfl⟩
  exact hfresh r (h.scratch_valid hr).left

-- Where the sums over all ranks come out like before, a copy can be made at any time.
theorem clone_of_used (h : finalize p s = (.ok true, t)) (hd : t.formulation.finalized = some d)
    (hu : Relation.ReflTransGen (Used d) t u)
    (hr : s.formulation.communicator.Repeats (s.formulation.communicator.position s.reductions)
      (s.formulation.communicator.position u.reductions)
      (s.formulation.communicator.position t.reductions -
        s.formulation.communicator.position s.reductions)) :
    ∃ v s' d' t', Core.survey p s.formulation.options s.formulation.communicator s = (.ok v, s') ∧
      clone p u = (.ok t'.formulation, { t' with formulation := u.formulation }) ∧
      u.store.Writes (fun _ => False) t'.store ∧
      (∀ k, u.store.Valid k → ¬d'.IsScratch k.buffer) ∧
      ∀ duals?, Twins.Alongside ⟨p, s.formulation.options, v, d, d', t'.trace, duals?⟩
        { t' with formulation := u.formulation } t' := by
  obtain ⟨v, d₀, s', hv, hF, hagain⟩ := finalize_again h rfl
  cases hF.finalized.symm.trans hd
  have hundisturbed := hF.ready.history hu
  have hready := hF.ready.undisturbed hundisturbed
  have halike := hundisturbed.fresh_alike hF
  obtain ⟨d', t', hfin, hF', hcore, hblocks⟩ :=
    hagain { u with formulation := u.formulation.fresh } halike hr
  have hclone := clone_of_finalized (finalized_eq_some.mp hready.finalized).left hfin
  have hw := finalize_writes p { u with formulation := u.formulation.fresh }
  rw [hfin] at hw
  have hfresh (k : View) (hk : u.store.Valid k) : ¬d'.IsScratch k.buffer := by
    rintro ⟨r, hr, he⟩
    exact Nat.not_le_of_lt hk.lt_length (he ▸ finalize_fresh hfin hF'.finalized r hr)
  have hready' : Ready p d' s.formulation.options v t' := halike.options ▸ hF'.ready
  have hkind : t'.formulation.kind = u.formulation.kind := by
    rw [hF'.formulation, kind_holding]
    rfl
  exact ⟨v, s', d', t', hv, hclone, hw, hfresh, fun duals? =>
    alongside_clone duals? hready hready' hkind hcore hblocks hw hfresh⟩

-- The multipliers are what they were as long as nothing is written into their array.
theorem duals?_writes {split : ConstraintSplit α} {e : Demand α} {s t : Store α}
    (hw : s.Writes (fun _ => False) t) (he : ∀ x ∈ e.arguments, ∀ k ∈ x.view?, s.Valid k) :
    e.duals? split t = e.duals? split s := by
  cases e
  case hessian x isNew factor y isNewY out =>
    have hy := he y (by simp [Demand.arguments])
    rw [Demand.duals?, Demand.duals?]
    cases hv : y.view?
    case none => rfl
    case some k =>
      simp only [Option.bind_some, ConstraintSplit.merged?, hw.entries (hy k hv) id]
  all_goals rfl

-- Evaluations carry no history: an evaluation with a formulation that was in use for a while asks
-- the problem the same as one with a fresh copy of it, at a point where the eliminated variables
-- have their fixed values and with the multipliers in the order of the problem's constraints. If
-- the problem overwrites what it is to fill, both come out the same.
theorem evaluations_carry_no_history (h : finalize p s = (.ok true, t))
    (hd : t.formulation.finalized = some d) (hu : Relation.ReflTransGen (Used d) t u)
    (hr : s.formulation.communicator.Repeats (s.formulation.communicator.position s.reductions)
      (s.formulation.communicator.position u.reductions)
      (s.formulation.communicator.position t.reductions -
        s.formulation.communicator.position s.reductions)) :
    ∃ v s' g w, Core.survey p s.formulation.options s.formulation.communicator s = (.ok v, s') ∧
      clone p u = (.ok g, w) ∧ ∀ (q : Problem α) (e : Demand α)
        (r r' : Except (Failure α) (RawValue α)) (a b : Session α),
        e.run q w = (r, a) → e.run q { w with formulation := g } = (r', b) →
        (∀ x ∈ e.arguments, ∀ k ∈ x.view?, u.store.Valid k ∧ ¬d.IsScratch k.buffer) →
        ∃ asked asked', a.trace = w.trace ++ asked ∧ b.trace = w.trace ++ asked' ∧
          asked'.map Call.blank = asked.map Call.blank ∧
          (∀ x, .evaluation x ∈ asked →
            (∀ i ∈ setPositions (v.eliminated s.formulation.options d.core),
              x.point.entries.entries[i]? = (Core.midpoints v.variableData)[i]?) ∧
            ∀ ys ∈ x.multipliers?, ∀ zs ∈ e.duals? d.core.split u.store, ys = zs) ∧
          ((∀ x, .evaluation x ∈ asked → q.Overwrites x) →
            r' = r ∧ b.matrices = a.matrices ∧ b.events = a.events ∧
            ∀ k, u.store.Valid k → ¬d.IsScratch k.buffer → b.store.read k = a.store.read k) := by
  obtain ⟨v, s', d', t', hv, hclone, hw, hfresh, hall⟩ := clone_of_used h hd hu hr
  refine ⟨v, s', t'.formulation, { t' with formulation := u.formulation }, hv, hclone,
    fun q e r r' a b ha hb he => ?_⟩
  have haccord := Twins.demand_accord (q := q) e (hall (e.duals? d.core.split u.store))
    (fun x hx k hk => ⟨⟨(he x hx k hk).right, hfresh k (he x hx k hk).left⟩,
      hw.valid (he x hx k hk).left⟩)
    (duals?_writes hw fun x hx k hk => (he x hx k hk).left).symm
  replace hb : e.run q t' = (r', b) := hb
  obtain ⟨asked, asked', hasked, hasked', hblank, hproper⟩ := haccord.trace
  have hends := haccord.ends
  rw [ha] at hasked hends
  rw [hb] at hasked' hends
  rw [hasked, List.drop_left] at hends
  refine ⟨asked, asked', hasked, hasked', hblank,
    fun x hx => ⟨(hproper x hx).point, (hproper x hx).multipliers⟩, fun hq => ?_⟩
  obtain ⟨hres, hall⟩ := (hends hq).outcome
  exact ⟨hres, hall.matrices, hall.events,
    fun k hk hs => hall.read_outside ⟨hs, hfresh k hk⟩⟩

-- Vectors for a point and for a gradient, beside a formulation of two variables of which the first
-- is removed.
def pointBeside : View := ⟨(finalize sample sampleStart).2.store.buffers.length, [1]⟩

def gradientBeside : View := ⟨(finalize sample sampleStart).2.store.buffers.length + 1, [1]⟩

def unspoilt : Session Exact :=
  let t := (finalize sample sampleStart).2
  { t with
    store := ((t.store.alloc (Tensor.ofList [.finite 3])).2.alloc (Tensor.ofList [.finite 0])).2 }

def gradientDemand : Demand Exact := .gradient (.array pointBeside) .null (.array gradientBeside)

-- A problem that overwrites what it can get hold of, and then raises a fault.
def spoiler : Problem Exact :=
  { sample with
    evaluate := fun _ => .write .point 0 (.finite 7) (.write .point 1 (.finite 7)
      (.write .output 0 (.finite 9) (.raise .noNumber))) }

def spoilt : Session Exact := ((Usage.demand gradientDemand).run spoiler unspoilt).2

-- A gradient written entry by entry; everything else is refused.
def painted : List Nat → Callback Exact (RawValue Exact)
  | [] => .done (.flag true)
  | i :: is => .write .output i (.finite i) (painted is)

def painter : Problem Exact :=
  { sample with
    evaluate := fun e => match e with
      | .gradient _ out => painted (List.range out.length)
      | _ => .done (.flag false) }

theorem fills_painted (is : List Nat) {stale : Set Nat} (h : ∀ i ∈ stale, i ∈ is) :
    (painted is).Fills stale ∅ := by
  induction is generalizing stale
  case nil =>
    exact fun _ => ⟨Set.eq_empty_of_forall_notMem fun i hi => List.not_mem_nil (h i hi), rfl⟩
  case cons i is ih =>
    rw [painted, Callback.Fills, Callback.written, if_pos rfl]
    exact ih fun j hj => (List.mem_cons.mp (h j hj.left)).resolve_left hj.right

theorem painter_overwrites (e : Evaluation Exact) : painter.Overwrites e := by
  constructor
  case left =>
    intro e' h
    cases e <;> cases e' <;> simp_all [Evaluation.blank, painter]
  case right =>
    cases e
    case gradient x out => exact fills_painted _ fun i hi => List.mem_range.mpr hi
    all_goals exact fun h => absurd h (by decide)

theorem evaluations_carry_no_history_spoilt : ∃ g w r a b asked asked',
    clone sample spoilt = (.ok g, w) ∧ gradientDemand.run painter w = (r, a) ∧
    gradientDemand.run painter { w with formulation := g } = (r, b) ∧
    a.trace = w.trace ++ asked ∧ b.trace = w.trace ++ asked' ∧
    asked'.map Call.blank = asked.map Call.blank ∧
    b.store.read gradientBeside = a.store.read gradientBeside := by
  have hf := finalize_of_succeeds (p := sample) (s := sampleStart) (by decide +kernel)
  have ⟨v, d, hF⟩ := finalize_eq_true hf
  have hr := hF.ready
  have hbehind : ∀ k ∈ [pointBeside, gradientBeside], ∀ r ∈ d.scratch, r.buffer < k.buffer := by
    intro k hk r hr'
    have hlt := (hr.scratch_valid hr').left.lt_length
    simp only [List.mem_cons, List.not_mem_nil, or_false] at hk
    rcases hk with rfl | rfl
    · exact hlt
    · exact Nat.lt_succ_of_lt hlt
  have hlent : Used d (finalize sample sampleStart).2 unspoilt :=
    .elsewhere rfl ((Store.Writes.alloc _).and_then (.alloc _))
  have hspoilt : Used d unspoilt spoilt := .work spoiler (.demand gradientDemand) fun k hk r hr' =>
    (Nat.ne_of_lt (hbehind k hk r (List.mem_append_right _ hr'))).symm
  have hk : ∀ k ∈ [pointBeside, gradientBeside],
      spoilt.store.Valid k ∧ ¬d.IsScratch k.buffer := by
    refine fun k hk => ⟨((Usage.demand gradientDemand).effect spoiler unspoilt).store.valid ?_,
      fun ⟨r, hr', he⟩ => Nat.ne_of_lt (hbehind k hk r hr') he⟩
    simp only [List.mem_cons, List.not_mem_nil, or_false] at hk
    rcases hk with rfl | rfl
    · exact ⟨⟨[.finite 3], [1], true⟩, by simp [pointBeside, unspoilt, Store.alloc, Tensor.ofList],
        Nat.le_refl 1⟩
    · exact ⟨⟨[.finite 0], [1], true⟩,
        by simp [gradientBeside, unspoilt, Store.alloc, Tensor.ofList], Nat.le_refl 1⟩
  obtain ⟨_, _, g, w, _, hclone, hall⟩ := evaluations_carry_no_history hf hF.finalized
    (.tail (.single hlent) hspoilt) fun _ _ _ => rfl
  cases ha : gradientDemand.run painter w
  case mk r a =>
    cases hb : gradientDemand.run painter { w with formulation := g }
    case mk r' b =>
      obtain ⟨asked, asked', hasked, hasked', hblank, _, hsame⟩ :=
        hall painter gradientDemand r r' a b ha hb
          fun x hx k hk' => hk k (List.mem_filterMap.mpr ⟨x, hx, hk'⟩)
      obtain ⟨rfl, _, _, hread⟩ := hsame fun x _ => painter_overwrites x
      exact ⟨g, w, _, a, b, asked, asked', hclone, ha, hb, hasked, hasked', hblank,
        hread gradientBeside (hk _ (by simp)).left (hk _ (by simp)).right⟩

end Formulation
end NonlinearProgram
