import NonlinearProgram.Log.Registry

-- Two calls change the settings and, in different ways, the loggers that are there. A third one
-- hands out loggers that are made from the settings later on. The three stay in step for as long as
-- handlers can be made from the settings.

namespace NonlinearProgram.Log

namespace Registry

variable {g : Registry} {name other : String} {change : Logger → Logger} {β γ : Type}

theorem run_bind (x : Action β) (f : β → Action γ) : (x >>= f).run g = match x.run g with
    | (.ok a, g') => (f a).run g'
    | (.error e, g') => (.error e, g') := by
  change (match x.run g with | (a, g') => ExceptT.bindCont f a g') = _
  rcases x.run g with ⟨_ | _, _⟩ <;> rfl

theorem run_get : (get : Action Registry).run g = (.ok g, g) := rfl

theorem run_modify (f : Registry → Registry) : (modify f : Action Unit).run g = (.ok (), f g) := rfl

theorem run_lift (x : Except ValueFault β) : (liftM x : Action β).run g = (x, g) := by
  cases x <;> rfl

theorem run_pure (a : β) : (pure a : Action β).run g = (.ok a, g) := rfl

@[simp]
theorem cached_update : (g.update name change).cached = g.cached := by
  rw [update]
  split <;> rfl

@[simp]
theorem config_update : (g.update name change).config = g.config := by
  rw [update]
  split <;> rfl

theorem name_of_find? {l : Logger} (h : g.find? name = some l) : l.name = name := by
  rw [find?] at h
  simpa using List.find?_some h

-- A change keeps the name of a logger, so it does not matter whether it is looked up before.
theorem find?_changed (h : ∀ l, (change l).name = l.name) :
    (g.loggers.map fun l => if l.name == name then change l else l).find? (·.name == other) =
      (g.find? other).map fun l => if l.name == name then change l else l := by
  rw [List.find?_map, find?]
  congr 2
  funext l
  rw [Function.comp_apply]
  split <;> simp only [h]

theorem find?_updated (h : ∀ l, (change l).name = l.name) :
    (g.update name change).find? name = some (change ((g.find? name).getD { name := name })) := by
  rw [update]
  split
  case h_1 l hl =>
    rw [find?, find?_changed h, hl, Option.map_some, Option.getD_some, if_pos]
    simp [name_of_find? hl]
  case h_2 hn =>
    rw [find?] at hn
    simp [find?, List.find?_append, hn, h]

theorem find?_preserved (h : ∀ l, (change l).name = l.name) (hne : other ≠ name) :
    (g.update name change).find? other = g.find? other := by
  rw [update]
  split
  case h_1 l hl =>
    rw [find?, find?_changed h]
    cases ho : g.find? other
    case none => rfl
    case some k =>
      rw [Option.map_some, if_neg]
      simp [name_of_find? ho, hne]
  case h_2 hn =>
    simp [find?, List.find?_append, h, Ne.symm hne]

theorem update_update {again : Logger → Logger} (h : ∀ l, (change l).name = l.name) :
    (g.update name change).update name again = g.update name (again ∘ change) := by
  rw [update, find?_updated h]
  simp only [update]
  split
  case h_1 l hl =>
    simp only [List.map_map]
    congr 2
    funext l
    simp only [Function.comp_apply]
    split
    case isTrue hn => simp [h, hn]
    case isFalse => simp
  case h_2 hn =>
    have hothers : g.loggers.map (fun l => if l.name == name then again l else l) = g.loggers :=
      (List.map_congr_left fun l hl => if_neg (List.find?_eq_none.mp hn l hl)).trans (List.map_id _)
    rw [List.map_append, hothers]
    simp [h]

theorem cached_foldl_update (names : List String) :
    (names.foldl (fun g name => g.update name change) g).cached = g.cached := by
  induction names generalizing g
  case nil => rfl
  case cons name names hi => rw [List.foldl_cons, hi, cached_update]

theorem config_foldl_update (names : List String) :
    (names.foldl (fun g name => g.update name change) g).config = g.config := by
  induction names generalizing g
  case nil => rfl
  case cons name names hi => rw [List.foldl_cons, hi, config_update]

-- A change that does no more the second time reaches every logger of a list once.
theorem find?_foldl_update (h : ∀ l, (change l).name = l.name)
    (hagain : ∀ l, change (change l) = change l) (names : List String) :
    (names.foldl (fun g name => g.update name change) g).find? name =
      if name ∈ names then some (change ((g.find? name).getD { name := name }))
      else g.find? name := by
  induction names generalizing g
  case nil => rfl
  case cons n names hi =>
    rw [List.foldl_cons, hi]
    by_cases hn : name = n
    case pos =>
      subst hn
      simp [find?_updated h, hagain]
    case neg => simp [find?_preserved h hn, hn]

-- What a new configuration does to one logger.
def equip (level : Level) (made : Except ValueFault Handler) (name : String) : Action Unit := do
  modify (·.update name fun l => { l with level := level, handlers := [] })
  let handler ← made
  modify (·.update name fun l => { l with handlers := [handler] })

theorem run_equip_ok (level : Level) (handler : Handler) :
    (equip level (.ok handler) name).run g =
      (.ok (), g.update name fun l => { l with level := level, handlers := [handler] }) := by
  rw [equip, run_bind]
  exact congrArg (Prod.mk (Except.ok ())) (update_update fun _ => rfl)

theorem run_forM_equip_ok (level : Level) (handler : Handler) (names : List String) :
    (names.forM (equip level (.ok handler))).run g = (.ok (), names.foldl (fun g name =>
      g.update name fun l => { l with level := level, handlers := [handler] }) g) := by
  induction names generalizing g
  case nil => rfl
  case cons name names hi => rw [List.forM, run_bind, run_equip_ok, List.foldl_cons, ← hi]

theorem run_forM_equip_error (level : Level) (e : ValueFault) (names : List String) :
    ((names.forM (equip level (.error e))).run g).2 = names.head?.elim g fun name =>
      g.update name fun l => { l with level := level, handlers := [] } := by
  cases names <;> rfl

theorem cached_forM_equip (level : Level) (made : Except ValueFault Handler)
    (names : List String) :
    ((names.forM (equip level made)).run g).2.cached = g.cached := by
  cases made
  case ok handler => rw [run_forM_equip_ok, cached_foldl_update]
  case error e =>
    rw [run_forM_equip_error]
    cases names.head?
    case none => rfl
    case some => exact cached_update

theorem configure_eq (level : Level) (template : String) (stream : Option String)
    (filter : RankFilter) :
    configure (.ok level) (some (.ok template)) stream filter = (do
      let config : Config := ⟨.ok level, .ok template, stream, filter⟩
      modify fun g => { g with config := config }
      (← get).cached.forM (equip level config.handler)) := by
  rw [configure.eq_def]
  simp only [pure_bind, bind_pure_comp, id_map']
  congr
  funext _
  congr
  funext g
  induction g.cached
  case nil => rfl
  case cons name names hi =>
    rw [List.forIn_cons, List.forM]
    simp only [equip, bind_assoc, map_eq_pure_bind, pure_bind] at hi ⊢
    rw [hi]
    rfl

theorem run_request_of_cached (h : fullName name ∈ g.cached) :
    (request name).run g = (.ok ((g.find? (fullName name)).getD { name := fullName name }), g) := by
  rw [request.eq_def, run_bind, run_get]
  simp only [if_pos (List.contains_iff_mem.mpr h), run_pure]

-- A logger without handlers, which need not be there before.
theorem run_request (h : fullName name ∉ g.cached)
    (hnone : ∀ l, g.find? (fullName name) = some l → l.handlers = []) {level : Level}
    (hl : g.config.level = .ok level) :
    (request name).run g = match g.config.handler with
      | .ok handler =>
        let made (l : Logger) : Logger :=
          { l with level := level, handlers := [handler], propagates := false }
        (.ok (made ((g.find? (fullName name)).getD { name := fullName name })),
          { g.update (fullName name) made with cached := g.cached ++ [fullName name] })
      | .error e => (.error e, g.update (fullName name) fun l => { l with level := level }) := by
  have hc : ¬g.cached.contains (fullName name) = true := by simpa using h
  have hid (l : Logger) : (id l).name = l.name := rfl
  have hbare : ((g.update (fullName name) id).find? (fullName name)).all (·.handlers.isEmpty) := by
    rw [find?_updated hid]
    cases hf : g.find? (fullName name)
    case none => rfl
    case some l => simp [hnone l hf]
  rw [request.eq_def, run_bind, run_get]
  simp only [if_neg hc, run_bind, run_modify, run_get, if_pos hbare, run_lift, hl]
  simp only [update_update hid]
  cases hm : g.config.handler
  case error e => rfl
  case ok handler =>
    have hlevel (l : Logger) : ({ l with level := level } : Logger).name = l.name := rfl
    let made (l : Logger) : Logger :=
      { l with level := level, handlers := [handler], propagates := false }
    have hmade (l : Logger) : (made l).name = l.name := rfl
    have hfind (g' : Registry) (names : List String) :
        ({ g' with cached := names } : Registry).find? (fullName name) = g'.find? (fullName name) :=
      rfl
    simp only [run_pure, update_update hlevel, hfind, Function.comp_def, id, cached_update]
    rw [find?_updated hmade]
    rfl

theorem request_eq (h : fullName name = fullName other) : request name = request other := by
  simp only [request, h]

inductive Call where
  | request (name : String)
  | setLevel (level : Level)
  | configure (level : Level) (template : Option String) (stream : Option String)
    (filter : RankFilter)

-- The template of a configuration; if none is given, it depends on how many ranks speak.
def templateFor (given : Option String) (filter : RankFilter) : Except ValueFault String :=
  match given with
  | some template => .ok template
  | none => filter.severalSpeak.map fun several => if several then rankedTemplate else plainTemplate

namespace Call

def action : Call → Action Unit
  | .request name => do let _ ← Registry.request name
  | .setLevel level => modify (Registry.setLevel level)
  | .configure level template stream filter =>
    Registry.configure (.ok level) (template.map .ok) stream filter

-- What a call leaves behind, also where it fails.
def after (c : Call) (g : Registry) : Registry := (c.action.run g).2

-- The settings after a call, for which it does not matter which loggers there are.
def settings (config : Config) : Call → Config
  | .request _ => config
  | .setLevel level => { config with level := .ok level }
  | .configure level given stream filter =>
    match templateFor given filter with
    | .ok template => ⟨.ok level, .ok template, stream, filter⟩
    | .error _ => config

-- Only a template that is given can make no handler.
def Sound : Call → Prop
  | .configure _ (some template) _ _ => template.isEmpty ∨ isTemplate template.toList
  | _ => True

theorem after_request : (Call.request name).after g = ((Registry.request name).run g).2 := by
  rw [after, action, run_bind]
  rcases (Registry.request name).run g with ⟨_ | _, _⟩ <;> rfl

-- Where the number of ranks can not be compared, nothing is configured.
theorem after_configure_of_error {level : Level} {given stream : Option String}
    {filter : RankFilter} {e : ValueFault} (h : templateFor given filter = .error e) :
    (Call.configure level given stream filter).after g = g := by
  cases given
  case some => cases h
  case none =>
    have hs : filter.severalSpeak = .error e := by
      rw [templateFor] at h
      cases hs : filter.severalSpeak <;> rw [hs] at h <;> cases h
      rfl
    simp only [after, action, Option.map_none, Registry.configure, hs]
    rfl

theorem after_configure_of_ok {level : Level} {given stream : Option String}
    {filter : RankFilter} {template : String} (h : templateFor given filter = .ok template) :
    (Call.configure level given stream filter).after g =
      let config : Config := ⟨.ok level, .ok template, stream, filter⟩
      ((g.cached.forM (equip level config.handler)).run { g with config := config }).2 := by
  have hconfigure : Registry.configure (.ok level) (given.map .ok) stream filter =
      Registry.configure (.ok level) (some (.ok template)) stream filter := by
    cases given
    case some => cases h; rfl
    case none =>
      rw [templateFor] at h
      cases hs : filter.severalSpeak
      case error => rw [hs] at h; cases h
      case ok several =>
        rw [hs] at h
        cases h
        simp only [Option.map_none, Registry.configure, hs]
        rfl
  rw [after, action, hconfigure, configure_eq]
  rfl

end Call

def run (g : Registry) (calls : List Call) : Registry := calls.foldl (fun g c => c.after g) g

def settings (calls : List Call) : Config := calls.foldl Call.settings {}

-- The template that a handler gets.
def usedTemplate (given : String) : String := if given.isEmpty then messageTemplate else given

theorem handler_eq (level : Level) (given : String) (stream : Option String) (filter : RankFilter) :
    (⟨.ok level, .ok given, stream, filter⟩ : Config).handler =
      if isTemplate (usedTemplate given).toList then
        .ok (.stream level (usedTemplate given) (stream.getD errorStream) filter)
      else .error .malformed := by
  rw [Config.handler.eq_def]
  rfl

theorem handler_withLevel {c : Config} {old new : Level} (h : c.level = .ok old) :
    ({ c with level := .ok new } : Config).handler = c.handler.map (Handler.withLevel new) := by
  have ⟨level, template, stream, filter⟩ := c
  cases h
  cases template
  case error => rfl
  case ok given =>
    rw [handler_eq, handler_eq]
    split <;> rfl

-- A logger whose settings are the common ones.
structure Follows (l : Logger) (c : Config) (handler : Handler) : Prop where
  level : c.level = .ok l.level
  propagates : l.propagates = false
  handlers : l.handlers = [handler]

-- Loggers that were handed out, and loggers that were not, are in step with the settings. If there
-- is no handler to be made from them, the first logger has none.
structure InStep (g : Registry) (c : Config) : Prop where
  config : g.config = c
  level : ∃ level, c.level = .ok level
  handed : ∀ name ∈ g.cached, ∃ l, g.find? name = some l ∧ l.propagates = false ∧
    ∀ handler, c.handler = .ok handler → Follows l c handler
  stripped : ∀ e, c.handler = .error e → ∀ name, g.cached.head? = some name → ∀ l,
    g.find? name = some l → l.handlers = []
  untouched : ∀ name, fullName name ∉ g.cached → ∀ l, g.find? (fullName name) = some l →
    l.handlers = []

variable {c : Config} {level : Level}

-- A request that fails changes only the level of a logger that is not handed out.
theorem InStep.update_level (h : InStep g c) (hn : fullName name ∉ g.cached) :
    InStep (g.update (fullName name) fun l => { l with level := level }) c := by
  let change (l : Logger) : Logger := { l with level := level }
  have hkeeps (l : Logger) : (change l).name = l.name := rfl
  have hother {n : String} (hc : n ∈ g.cached) :
      (g.update (fullName name) change).find? n = g.find? n :=
    find?_preserved hkeeps fun he => hn (he ▸ hc)
  refine ⟨config_update.trans h.config, h.level, ?handed, ?stripped, ?untouched⟩ <;>
    rw [cached_update]
  case handed =>
    intro n hc
    rw [hother hc]
    exact h.handed n hc
  case stripped =>
    intro e he n hc
    rw [hother (List.mem_of_head? hc)]
    exact h.stripped e he n hc
  case untouched =>
    intro n hc l hl
    by_cases he : fullName n = fullName name
    case neg => exact h.untouched n hc l (find?_preserved hkeeps he ▸ hl)
    case pos =>
      rw [he, find?_updated hkeeps] at hl
      cases hl
      cases hf : g.find? (fullName name)
      case none => rfl
      case some k => exact h.untouched name hn k hf

theorem InStep.hand_out (h : InStep g c) (hl : c.level = .ok level) {handler : Handler}
    (hm : c.handler = .ok handler) :
    InStep { g.update (fullName name) fun l =>
      { l with level := level, handlers := [handler], propagates := false } with
      cached := g.cached ++ [fullName name] } c := by
  let change (l : Logger) : Logger :=
    { l with level := level, handlers := [handler], propagates := false }
  have hkeeps (l : Logger) : (change l).name = l.name := rfl
  refine ⟨config_update.trans h.config, h.level, ?handed, ?stripped, ?untouched⟩
  case handed =>
    intro n hc
    by_cases he : n = fullName name
    case pos =>
      subst he
      refine ⟨_, @find?_updated g _ change hkeeps, rfl, fun handler' hm' => ?_⟩
      cases hm.symm.trans hm'
      exact ⟨hl, rfl, rfl⟩
    case neg =>
      have hc : n ∈ g.cached := by simpa [he] using hc
      have ⟨l, hf, hl⟩ := h.handed n hc
      exact ⟨l, (find?_preserved hkeeps he).trans hf, hl⟩
  case stripped => intro e he; cases hm.symm.trans he
  case untouched =>
    intro n hc l hl
    have ⟨hc, he⟩ : fullName n ∉ g.cached ∧ fullName n ≠ fullName name := by simpa using hc
    exact h.untouched n hc l ((find?_preserved hkeeps he).symm.trans hl)

theorem InStep.request (h : InStep g c) (name : String) :
    InStep ((Call.request name).after g) c := by
  have ⟨level, hl⟩ := h.level
  rw [Call.after_request]
  by_cases hn : fullName name ∈ g.cached
  case pos => rwa [run_request_of_cached hn]
  case neg =>
    rw [run_request hn (h.untouched name hn) (h.config ▸ hl), h.config]
    cases hm : c.handler
    case error => exact h.update_level hn
    case ok => exact h.hand_out hl hm

-- The settings change, and every logger that was handed out changes with them.
theorem InStep.change_all (h : InStep g c) {g' : Registry} {c' : Config}
    {change : Logger → Logger} (hcached : g'.cached = g.cached) (hconfig : g'.config = c')
    (hfind : ∀ n, g'.find? n =
      if n ∈ g.cached then some (change ((g.find? n).getD { name := n })) else g.find? n)
    (hlevel : ∃ level, c'.level = .ok level)
    (hsilent : ∀ l, (change l).propagates = l.propagates)
    (hfollows : ∀ l, l.propagates = false →
      (∀ handler, c.handler = .ok handler → Follows l c handler) →
      ∀ handler, c'.handler = .ok handler → Follows (change l) c' handler)
    (hstripped : ∀ e, c'.handler = .error e → (∃ e, c.handler = .error e) ∧
      ∀ l, l.handlers = [] → (change l).handlers = []) :
    InStep g' c' := by
  refine ⟨hconfig, hlevel, ?handed, ?stripped, ?untouched⟩
  case handed =>
    intro n hc
    have hc := hcached ▸ hc
    have ⟨l, hf, hp, hl⟩ := h.handed n hc
    refine ⟨change l, ?_, (hsilent l).trans hp, hfollows l hp hl⟩
    exact (hfind n).trans (by simp [hc, hf])
  case stripped =>
    intro e he n hn l hl
    have hn := hcached ▸ hn
    have hc := List.mem_of_head? hn
    have ⟨⟨e', he'⟩, hstripped⟩ := hstripped e he
    have ⟨k, hf, _⟩ := h.handed n hc
    have hk := hl.symm.trans ((hfind n).trans (by simp [hc, hf] : _ = some (change k)))
    cases hk
    exact hstripped k (h.stripped e' he' n hn k hf)
  case untouched =>
    intro n hc l hl
    have hc := hcached ▸ hc
    exact h.untouched n hc l (((hfind _).trans (if_neg hc)).symm.trans hl)

theorem InStep.setLevel (h : InStep g c) (level : Level) :
    InStep ((Call.setLevel level).after g) { c with level := .ok level } := by
  have ⟨old, hl⟩ := h.level
  let change (l : Logger) : Logger :=
    { l with level := level, handlers := l.handlers.map (Handler.withLevel level) }
  have htwice (m : Handler) : (m.withLevel level).withLevel level = m.withLevel level := by
    cases m <;> rfl
  have hconfig : (g.cached.foldl (fun g name => g.update name change) g).config = c :=
    (config_foldl_update g.cached).trans h.config
  have hkeeps (l : Logger) : (change l).name = l.name := rfl
  have hagain (l : Logger) : change (change l) = change l := by simp [change, htwice]
  refine h.change_all (cached_foldl_update g.cached) ?config
    (fun n => find?_foldl_update hkeeps hagain g.cached) ⟨level, rfl⟩ (fun _ => rfl)
    (fun l hp hf handler hm => ?follows) (fun e he => ?stripped)
  case config => exact congrArg (fun c : Config => { c with level := .ok level }) hconfig
  case follows =>
    rw [handler_withLevel hl] at hm
    cases ho : c.handler <;> rw [ho] at hm <;> cases hm
    case ok old => exact ⟨rfl, hp, by simp [change, (hf old ho).handlers]⟩
  case stripped =>
    rw [handler_withLevel hl] at he
    cases ho : c.handler <;> rw [ho] at he <;> cases he
    case error => exact ⟨⟨_, rfl⟩, fun l hl => by simp [change, hl]⟩

-- Of the loggers that were handed out, the first one alone has changed when no handler can be made.
theorem InStep.strip (h : InStep g c) {c' : Config} {level : Level} {e : ValueFault}
    (hl : c'.level = .ok level) (hm : c'.handler = .error e) :
    InStep ((g.cached.forM (equip level (.error e))).run { g with config := c' }).2 c' := by
  let bare (l : Logger) : Logger := { l with level := level, handlers := [] }
  have hkeeps (l : Logger) : (bare l).name = l.name := rfl
  let g' : Registry := { g with config := c' }
  rw [run_forM_equip_error]
  cases hg : g.cached.head?
  case none =>
    have hempty : g.cached = [] := by simpa using hg
    refine ⟨rfl, ⟨level, hl⟩, ?handed, ?stripped, h.untouched⟩
    case handed => simp [hempty]
    case stripped => simp [hempty]
  case some first =>
    have hother {n : String} (hn : n ≠ first) : (g'.update first bare).find? n = g.find? n :=
      find?_preserved hkeeps hn
    have hfirst : (g'.update first bare).find? first =
      some (bare ((g.find? first).getD { name := first })) := find?_updated hkeeps
    refine ⟨config_update, ⟨level, hl⟩, ?handed, ?stripped, ?untouched⟩
    case handed =>
      intro n hc
      have ⟨l, hf, hp, _⟩ := h.handed n (cached_update (g := g') ▸ hc)
      by_cases hn : n = first
      case pos =>
        subst hn
        refine ⟨bare l, ?_, hp, fun _ hm' => by cases hm.symm.trans hm'⟩
        rw [Option.elim_some, hfirst, hf, Option.getD_some]
      case neg => exact ⟨l, (hother hn).trans hf, hp, fun _ hm' => by cases hm.symm.trans hm'⟩
    case stripped =>
      intro _ _ n hn l hf
      cases hg.symm.trans (cached_update (g := g') ▸ hn)
      cases hfirst.symm.trans hf
      rfl
    case untouched =>
      intro n hc l hf
      have hc := cached_update (g := g') ▸ hc
      have hn : fullName n ≠ first := fun he => hc (he ▸ List.mem_of_head? hg)
      exact h.untouched n hc l ((hother hn).symm.trans hf)

theorem InStep.configure (h : InStep g c) (level : Level) (given stream : Option String)
    (filter : RankFilter) :
    InStep ((Call.configure level given stream filter).after g)
      (Call.settings c (.configure level given stream filter)) := by
  rw [Call.settings]
  cases ht : templateFor given filter
  case error => simpa only [Call.after_configure_of_error ht]
  case ok template =>
    rw [Call.after_configure_of_ok ht]
    cases hm : (⟨.ok level, .ok template, stream, filter⟩ : Config).handler
    case error e => simpa only [hm] using h.strip rfl hm
    case ok handler =>
      let change (l : Logger) : Logger := { l with level := level, handlers := [handler] }
      have hkeeps (l : Logger) : (change l).name = l.name := rfl
      have hagain (l : Logger) : change (change l) = change l := rfl
      simp only [hm, run_forM_equip_ok]
      refine h.change_all (cached_foldl_update _) (config_foldl_update _)
        (fun n => find?_foldl_update hkeeps hagain g.cached) ⟨level, rfl⟩ (fun _ => rfl)
        (fun l hp _ handler' hm' => ?follows) fun e he => by cases hm.symm.trans he
      cases hm.symm.trans hm'
      exact ⟨rfl, hp, rfl⟩

theorem InStep.after (h : InStep g c) (call : Call) : InStep (call.after g) (call.settings c) := by
  cases call
  case request name => exact h.request name
  case setLevel level => exact h.setLevel level
  case configure level given stream filter => exact h.configure level given stream filter

theorem InStep.preserved (h : InStep g c) (calls : List Call) :
    InStep (run g calls) (calls.foldl Call.settings c) := by
  induction calls generalizing g c
  case nil => exact h
  case cons call calls hi => exact hi (h.after call)

-- A handler can be made from these settings.
def Usable (c : Config) : Prop :=
  ∃ level template stream filter, c = ⟨.ok level, .ok template, stream, filter⟩ ∧
    isTemplate (usedTemplate template).toList

theorem Usable.handler_eq (h : Usable c) : ∃ handler, c.handler = .ok handler := by
  have ⟨level, template, stream, filter, hc, ht⟩ := h
  subst hc
  exact ⟨_, (Registry.handler_eq level template stream filter).trans (if_pos ht)⟩

theorem usable_default : Usable {} :=
  ⟨.number warning, plainTemplate, none, {}, rfl, by decide +kernel⟩

theorem usable_of_templateFor {level : Level} {given stream : Option String} {filter : RankFilter}
    {template : String} (hs : (Call.configure level given stream filter).Sound)
    (h : templateFor given filter = .ok template) : isTemplate (usedTemplate template).toList := by
  cases given
  case some given =>
    cases h
    rw [usedTemplate]
    cases hs
    case inl he => rw [if_pos he]; decide +kernel
    case inr ht =>
      split
      case isTrue => decide +kernel
      case isFalse => exact ht
  case none =>
    rw [templateFor] at h
    cases hs : filter.severalSpeak <;> rw [hs] at h <;> cases h
    case ok several => cases several <;> decide +kernel

theorem Usable.settings (h : Usable c) {call : Call} (hs : call.Sound) :
    Usable (call.settings c) := by
  cases call
  case request => exact h
  case setLevel level =>
    have ⟨_, template, stream, filter, hc, ht⟩ := h
    exact ⟨level, template, stream, filter, by rw [hc]; rfl, ht⟩
  case configure level given stream filter =>
    rw [Call.settings]
    cases ht : templateFor given filter
    case error => exact h
    case ok template => exact ⟨level, template, stream, filter, rfl, usable_of_templateFor hs ht⟩

theorem Usable.settings_of_sound (h : Usable c) {calls : List Call}
    (hs : ∀ call ∈ calls, call.Sound) : Usable (calls.foldl Call.settings c) := by
  induction calls generalizing c
  case nil => exact h
  case cons call calls hi =>
    have ⟨hcall, hcalls⟩ := List.forall_mem_cons.mp hs
    exact hi (h.settings hcall) hcalls

-- A request succeeds where a handler can be made; nothing else hands out loggers.
theorem InStep.mem_cached_after (h : InStep g c) (hu : Usable c) (call : Call) :
    name ∈ (call.after g).cached ↔
      name ∈ g.cached ∨ ∃ asked, .request asked = call ∧ fullName asked = name := by
  cases call
  case request asked =>
    have ⟨level, hl⟩ := h.level
    have ⟨handler, hm⟩ := hu.handler_eq
    rw [Call.after_request]
    by_cases hn : fullName asked ∈ g.cached
    case pos => simpa [run_request_of_cached hn] using fun he => he ▸ hn
    case neg =>
      rw [run_request hn (h.untouched asked hn) (h.config ▸ hl), h.config, hm]
      simp [eq_comm]
  case setLevel level =>
    have hcached : ((Call.setLevel level).after g).cached = g.cached := cached_foldl_update g.cached
    simp [hcached]
  case configure level given stream filter =>
    cases ht : templateFor given filter
    case error => simp [Call.after_configure_of_error ht]
    case ok =>
      simp only [Call.after_configure_of_ok ht, cached_forM_equip]
      simp

-- Where handlers can always be made, every logger that was asked for is handed out.
theorem InStep.mem_cached_run (h : InStep g c) (hu : Usable c) {calls : List Call}
    (hs : ∀ call ∈ calls, call.Sound) :
    name ∈ (run g calls).cached ↔
      name ∈ g.cached ∨ ∃ asked, .request asked ∈ calls ∧ fullName asked = name := by
  induction calls generalizing g c
  case nil => simp [run]
  case cons call calls hi =>
    have ⟨hcall, hcalls⟩ := List.forall_mem_cons.mp hs
    rw [run, List.foldl_cons, ← run, hi (h.after call) (hu.settings hcall) hcalls,
      h.mem_cached_after hu call]
    simp only [List.mem_cons, or_and_right, exists_or, or_assoc]

-- One of the requests happens at another time.
def Moved (calls moved : List Call) : Prop :=
  ∃ name before after before' after', calls = before ++ .request name :: after ∧
    moved = before' ++ .request name :: after' ∧ before ++ after = before' ++ after'

theorem Moved.settings_eq {calls moved : List Call} (h : Moved calls moved) :
    settings moved = settings calls := by
  have ⟨name, before, after, before', after', hcalls, hmoved, heq⟩ := h
  have hskip (a b : List Call) : settings (a ++ .request name :: b) = settings (a ++ b) := by
    simp only [settings, List.foldl_append, List.foldl_cons, Call.settings]
  rw [hmoved, hskip, ← heq, ← hskip, ← hcalls]

theorem Moved.perm {calls moved : List Call} (h : Moved calls moved) : moved.Perm calls := by
  have ⟨name, before, after, before', after', hcalls, hmoved, heq⟩ := h
  rw [hcalls, hmoved]
  have hfront : (before' ++ .request name :: after').Perm (.request name :: (before' ++ after')) :=
    List.perm_middle
  rw [← heq] at hfront
  exact hfront.trans List.perm_middle.symm

-- No logger of the package has handlers yet, and none was handed out.
structure Fresh (g : Registry) : Prop where
  cached : g.cached = []
  config : g.config = {}
  untouched : ∀ name l, g.find? (fullName name) = some l → l.handlers = []

theorem Fresh.inStep (h : Fresh g) : InStep g {} :=
  ⟨h.config, ⟨_, rfl⟩, by simp [h.cached], by simp [h.cached], fun name _ => h.untouched name⟩

theorem InStep.exists_handler_iff (h : InStep g c) (hne : g.cached ≠ []) :
    (∃ handler, c.handler = .ok handler) ↔
      ∀ name ∈ g.cached, ∃ l handler, g.find? name = some l ∧ l.handlers = [handler] := by
  constructor
  case mp =>
    intro ⟨handler, hm⟩ name hc
    have ⟨l, hf, _, hl⟩ := h.handed name hc
    exact ⟨l, handler, hf, (hl handler hm).handlers⟩
  case mpr =>
    intro hall
    cases hm : c.handler
    case ok handler => exact ⟨handler, rfl⟩
    case error e =>
      have hfirst := List.head?_eq_some_head hne
      have ⟨l, handler, hf, hl⟩ := hall _ (List.mem_of_head? hfirst)
      have hnone := h.stripped e hm _ hfirst l hf
      cases hl.symm.trans hnone

theorem InStep.request_follows (h : InStep g c) {handler : Handler} (hm : c.handler = .ok handler)
    (name : String) : ∃ l, ((Registry.request name).run g).1 = .ok l ∧ l.name = fullName name ∧
      Follows l c handler := by
  by_cases hn : fullName name ∈ g.cached
  case pos =>
    have ⟨l, hf, _, hl⟩ := h.handed _ hn
    refine ⟨l, ?_, name_of_find? hf, hl handler hm⟩
    rw [run_request_of_cached hn, hf, Option.getD_some]
  case neg =>
    have ⟨level, hl⟩ := h.level
    rw [run_request hn (h.untouched name hn) (h.config ▸ hl), h.config, hm]
    have hname : ((g.find? (fullName name)).getD { name := fullName name }).name =
        fullName name := by
      cases hf : g.find? (fullName name)
      case none => rfl
      case some l => exact name_of_find? hf
    exact ⟨_, rfl, hname, hl, rfl, rfl⟩

-- Two registries that are in step with the same settings agree on the loggers that both handed out.
theorem InStep.find?_eq {g' : Registry} (h : InStep g c) (h' : InStep g' c) {handler : Handler}
    (hm : c.handler = .ok handler) (hc : name ∈ g.cached) (hc' : name ∈ g'.cached) :
    g'.find? name = g.find? name := by
  have ⟨l, hf, hp, hl⟩ := h.handed name hc
  have ⟨l', hf', hp', hl'⟩ := h'.handed name hc'
  have hlevel := (hl handler hm).level.symm.trans (hl' handler hm).level
  have hname := (name_of_find? hf').trans (name_of_find? hf).symm
  have hhandlers := (hl' handler hm).handlers.trans (hl handler hm).handlers.symm
  cases l
  cases l'
  simp_all

theorem fullName_of_prefixed (name : String) :
    fullName (packageName ++ "." ++ name) = packageName ++ "." ++ name := by
  simp [fullName]

-- Every logger follows the settings, no matter when it was asked for, for as long as handlers can
-- be made from them; as soon as none can be made, some logger is left without. Templates that hold
-- a field always make handlers.
theorem configuration_shared_iff (hg : Fresh g) (calls : List Call) :
    (∀ name ∈ (run g calls).cached, ∃ l,
      (run g calls).find? name = some l ∧ l.propagates = false) ∧
    ((run g calls).cached ≠ [] →
      ((∃ handler, (settings calls).handler = .ok handler) ↔
        ∀ name ∈ (run g calls).cached, ∃ l handler,
          (run g calls).find? name = some l ∧ l.handlers = [handler])) ∧
    (∀ handler, (settings calls).handler = .ok handler →
      (∀ name ∈ (run g calls).cached, ∃ l,
        (run g calls).find? name = some l ∧ Follows l (settings calls) handler) ∧
      (∀ name, ∃ l, ((request name).run (run g calls)).1 = .ok l ∧ l.name = fullName name ∧
        Follows l (settings calls) handler) ∧
      ∀ moved, Moved calls moved → ∀ name ∈ (run g calls).cached,
        name ∈ (run g moved).cached → (run g moved).find? name = (run g calls).find? name) ∧
    ((∀ call ∈ calls, call.Sound) →
      (∃ handler, (settings calls).handler = .ok handler) ∧
      ∀ moved, Moved calls moved → ∀ name,
        name ∈ (run g moved).cached ↔ name ∈ (run g calls).cached) ∧
    ∀ name, name ≠ packageName → name.startsWith (packageName ++ ".") = false →
      request name = request (packageName ++ "." ++ name) := by
  have hstep (calls : List Call) : InStep (run g calls) (settings calls) :=
    hg.inStep.preserved calls
  have h := hstep calls
  refine ⟨?silent, h.exists_handler_iff, fun handler hm =>
    ⟨?follows, h.request_follows hm, fun moved hmoved name hc hc' => ?moved⟩,
    fun hs => ⟨?usable, fun moved hmoved name => ?same⟩, fun name hne hnot => ?prefixed⟩
  case silent =>
    intro name hc
    have ⟨l, hf, hp, _⟩ := h.handed name hc
    exact ⟨l, hf, hp⟩
  case follows =>
    intro name hc
    have ⟨l, hf, _, hl⟩ := h.handed name hc
    exact ⟨l, hf, hl handler hm⟩
  case moved => exact h.find?_eq (hmoved.settings_eq ▸ hstep moved) hm hc hc'
  case usable => exact (usable_default.settings_of_sound hs).handler_eq
  case same =>
    have hs' : ∀ call ∈ moved, call.Sound := fun call hc => hs call (hmoved.perm.mem_iff.mp hc)
    simp only [hg.inStep.mem_cached_run usable_default hs,
      hg.inStep.mem_cached_run usable_default hs', hmoved.perm.mem_iff]
  case prefixed =>
    apply request_eq
    rw [fullName_of_prefixed, fullName, hnot]
    simp [hne]

theorem fresh_default : Fresh {} where
  cached := rfl
  config := rfl
  untouched name l h := by
    have ⟨_, hl⟩ : "root" = fullName name ∧ root = l := by simpa [find?, root] using h
    exact hl ▸ rfl

theorem configuration_shared_iff_later :
    let configure : Call := .configure (.number 20) none (some "out") {}
    ∃ l, (run {} [.request "solver", configure]).find? "nlpform.solver" = some l ∧
      (run {} [configure, .request "solver"]).find? "nlpform.solver" = some l := by
  intro configure
  have ⟨_, _, hshared, hsound, _⟩ :=
    configuration_shared_iff fresh_default [.request "solver", configure]
  have ⟨⟨handler, hm⟩, _⟩ := hsound (by simp [configure, Call.Sound])
  have ⟨hfollows, _, hmoved⟩ := hshared handler hm
  have hcached : "nlpform.solver" ∈ (run {} [.request "solver", configure]).cached := by
    decide +kernel
  have ⟨l, hf, _⟩ := hfollows _ hcached
  refine ⟨l, hf, (hmoved [configure, .request "solver"] ?_ _ hcached (by decide +kernel)).trans hf⟩
  exact ⟨"solver", [], [configure], [configure], [], rfl, rfl, rfl⟩

-- The template is refused only when a logger has already lost its handlers, and every logger gets a
-- handler of its own.
theorem refused_template_strips :
    let g := (Call.configure (.number 20) (some "plain") none {}).after initial
    "nlpform.formulation.base" ∈ g.cached ∧
    g.find? "nlpform.formulation.base" = some ⟨"nlpform.formulation.base", .number 20, false, []⟩ ∧
    g.find? "nlpform.formulation.dense" = some ⟨"nlpform.formulation.dense", .number 30, false,
      [.stream (.number 30) plainTemplate errorStream {}]⟩ := by
  decide +kernel

end Registry
end NonlinearProgram.Log
