import NonlinearProgram.Proofs.Registry

-- What a message makes of the settings. A logger of the package writes it once, by the handler that
-- was made from the settings, if it hears the message at all and if no logger above it hears of it.
-- Loggers that had handlers when the package asked for them go on propagating, and a level of zero
-- leaves it to the loggers above what is heard.

namespace NonlinearProgram.Log

-- The templates of the package make a line of every record: the level in brackets, the rank if it
-- is shown, the name of the logger and the message.

namespace FieldForm

theorem text_default (s : String) : text {} s = s.toList := by simp [text, fill]

theorem inBase_default (n : Int) : inBase {} 10 ' ' n = (toString n).toList := by
  cases n <;> simp [inBase, number, fill, sign, Int.toString_eq_repr, Int.repr]

end FieldForm

section Templates

variable {r : Record} {fuel : Nat} {first : Bool} {rest : List Char}

theorem expand_cons {c : Char} (hc : c ≠ '%') :
    expand r (fuel + 1) first (c :: rest) = (expand r fuel first rest).map (c :: ·) := by
  rw [expand.eq_def]
  split <;> simp_all

-- A field that is just a name and a letter.
theorem expandField_named {name : String} {text : List Char} {letter : Char} {v : FieldValue}
    (hname : ')' ∉ name.toList) (hv : r.field? name = some v)
    (hletter : letter = 's' ∨ letter = 'd') (ht : FieldForm.render? {} letter v = some text) :
    expandField r first ('(' :: (name.toList ++ ')' :: letter :: rest)) = some (text, rest) := by
  have hinside : ∀ c ∈ name.toList, c ≠ ')' := fun c hc he => hname (he ▸ hc)
  have htake : (name.toList ++ ')' :: letter :: rest).takeWhile (· ≠ ')') = name.toList := by
    rw [List.takeWhile_append_of_pos (by simpa using hinside)]
    simp
  have hdrop : (name.toList ++ ')' :: letter :: rest).dropWhile (· ≠ ')') =
      ')' :: letter :: rest := by
    rw [List.dropWhile_append_of_pos (by simpa using hinside)]
    simp
  have hparse : FieldForm.parse (letter :: rest) = ({}, letter :: rest) := by
    rcases hletter with rfl | rfl <;> rfl
  have hbehind : letterOf? (letter :: rest) = some (letter, rest) := by
    rcases hletter with rfl | rfl <;> simp [letterOf?]
  rw [expandField, htake, hdrop, String.ofList_toList, hv]
  simp [hparse, hbehind, ht]

theorem expand_named {name : String} {text : List Char} {letter : Char} {v : FieldValue}
    (hname : ')' ∉ name.toList) (hv : r.field? name = some v)
    (hletter : letter = 's' ∨ letter = 'd') (ht : FieldForm.render? {} letter v = some text) :
    expand r (fuel + 1) first ('%' :: '(' :: (name.toList ++ ')' :: letter :: rest)) =
      (expand r fuel false rest).map (text ++ ·) := by
  have hfield : expandField r first ('(' :: (name.toList ++ ')' :: letter :: rest)) =
      some (text, rest) := expandField_named hname hv hletter ht
  rw [expand]
  · rw [hfield, Option.map_eq_bind]
    rfl
  · simp

-- What both templates end with.
theorem expand_ending (hfuel : 20 ≤ fuel) : expand r fuel first "%(name)s: %(message)s".toList =
    some ((r.logger ++ ": " ++ r.text).toList) := by
  have htemplate : "%(name)s: %(message)s".toList =
      '%' :: '(' :: ("name".toList ++ ')' :: 's' :: ':' :: ' ' ::
        '%' :: '(' :: ("message".toList ++ [')', 's'])) := by decide +kernel
  have hname : r.field? "name" = some (.text r.logger) := rfl
  have hmessage : r.field? "message" = some (.text r.text) := rfl
  obtain ⟨fuel, rfl⟩ : ∃ least, fuel = least + 5 := ⟨fuel - 5, by omega⟩
  rw [htemplate, expand_named (by decide +kernel) hname (.inl rfl) rfl, expand_cons (by decide),
    expand_cons (by decide), expand_named (by decide +kernel) hmessage (.inl rfl) rfl]
  simp [expand, FieldForm.text_default, FieldValue.shown]

theorem render?_plain (r : Record) : render? plainTemplate r =
    some ("[" ++ r.level.text ++ "] " ++ r.logger ++ ": " ++ r.text) := by
  have htemplate : plainTemplate.toList =
      '[' :: '%' :: '(' :: ("levelname".toList ++ ')' :: 's' :: ']' :: ' ' ::
        "%(name)s: %(message)s".toList) := by decide +kernel
  have hlevel : r.field? "levelname" = some (.text r.level.text) := rfl
  have hfuel : plainTemplate.length + 1 = 38 := by decide +kernel
  rw [render?, htemplate, hfuel, expand_cons (by decide),
    expand_named (by decide +kernel) hlevel (.inl rfl) rfl, expand_cons (by decide),
    expand_cons (by decide), expand_ending (by decide)]
  simp [FieldForm.text_default, FieldValue.shown, ← String.toList_inj]

theorem render?_ranked {n : Int} (h : r.rank = some (.integer n)) :
    render? rankedTemplate r = some
      ("[" ++ r.level.text ++ "] [rank " ++ toString n ++ "] " ++ r.logger ++ ": " ++ r.text) := by
  have htemplate : rankedTemplate.toList =
      '[' :: '%' :: '(' :: ("levelname".toList ++ ')' :: 's' ::
        ']' :: ' ' :: '[' :: 'r' :: 'a' :: 'n' :: 'k' :: ' ' ::
        '%' :: '(' :: ("rank".toList ++ ')' :: 'd' :: ']' :: ' ' ::
          "%(name)s: %(message)s".toList)) := by decide +kernel
  have hlevel : r.field? "levelname" = some (.text r.level.text) := rfl
  have hrank : r.field? "rank" = some (.integer n) := h
  have hfuel : rankedTemplate.length + 1 = 54 := by decide +kernel
  rw [render?, htemplate, hfuel, expand_cons (by decide),
    expand_named (by decide +kernel) hlevel (.inl rfl) rfl]
  iterate 8 rw [expand_cons (by decide)]
  rw [expand_named (by decide +kernel) hrank (.inr rfl) rfl, expand_cons (by decide),
    expand_cons (by decide), expand_ending (by decide)]
  simp [FieldForm.text_default, FieldForm.inBase_default, FieldValue.shown, ← String.toList_inj]

end Templates

namespace Config

-- Do the settings ask for messages of a level, on this rank?
def asksFor (c : Config) (level : Level) : Bool :=
  match c.level with
  | .ok least => least.value ≤ level.value && c.filter.passes
  | .error _ => false

-- What the settings make of a record.
def text? (c : Config) (r : Record) : Option String :=
  c.template.toOption.bind fun given =>
    render? (Registry.usedTemplate given) { r with rank := some c.filter.ownRank }

-- The one line that the settings ask for, if they do.
def lines (c : Config) (level : Level) (text : String) : List Line :=
  if c.asksFor level then [⟨c.stream.getD errorStream, text⟩] else []

theorem write_eq {c : Config} {handler : Handler} {r : Record} {text : String}
    (hm : c.handler = .ok handler) (ht : c.text? r = some text) :
    handler.write r = c.lines r.level text := by
  obtain ⟨level, template, stream, filter⟩ := c
  cases level
  case error => cases hm
  case ok level =>
    cases template
    case error => cases hm
    case ok given =>
      rw [Registry.handler_eq] at hm
      split at hm
      case isFalse => cases hm
      case isTrue =>
        cases hm
        rw [text?, Except.toOption, Option.bind_some] at ht
        simp [Handler.write, lines, asksFor, ht]

-- Without a template of the caller, all messages can be written, if ranks are integers.
theorem text?_of_default {c : Config} {template : String} {rank : Int}
    (h : Registry.templateFor none c.filter = .ok template) (ht : c.template = .ok template)
    (hrank : c.filter.ownRank = .integer rank) (r : Record) : ∃ text, c.text? r = some text := by
  rw [Registry.templateFor] at h
  cases hs : c.filter.severalSpeak <;> rw [hs] at h <;> cases h
  case ok several =>
    have hplain : Registry.usedTemplate plainTemplate = plainTemplate := by decide +kernel
    have hranked : Registry.usedTemplate rankedTemplate = rankedTemplate := by decide +kernel
    rw [text?, ht, Except.toOption, Option.bind_some]
    cases several
    case false => exact ⟨_, hplain ▸ render?_plain _⟩
    case true => exact ⟨_, hranked ▸ render?_ranked (congrArg some hrank)⟩

end Config

namespace Registry

-- Beside the calls of the package, the application sets up loggers that the package has not asked
-- for yet.
inductive Move where
  | call (c : Call)
  | setUp (name : String) (level : Level) (propagates : Bool) (handlers : List Handler)

-- The loggers, those among them that had handlers when the package asked for them, and those that
-- had them since handlers were last replaced.
structure Course where
  registry : Registry
  adopted : List String := []
  own : List String := []

namespace Call

-- The logger that a request takes over with its handlers.
def adopts (g : Registry) : Call → List String
  | .request name =>
    if !g.cached.contains (fullName name) &&
      (g.find? (fullName name)).any (!·.handlers.isEmpty) then [fullName name] else []
  | _ => []

-- Does the call replace all handlers?
def replaces : Call → Bool
  | .configure level given stream filter =>
    match templateFor given filter with
    | .ok template => (⟨.ok level, .ok template, stream, filter⟩ : Config).handler.toOption.isSome
    | .error _ => false
  | _ => false

end Call

namespace Move

def settings (c : Config) : Move → Config
  | .call made => made.settings c
  | .setUp _ _ _ _ => c

def after (s : Course) : Move → Course
  | .call made => {
      registry := made.after s.registry
      adopted := s.adopted ++ made.adopts s.registry
      own := (if made.replaces then [] else s.own) ++ made.adopts s.registry }
  | .setUp name level propagates handlers =>
    if name ∈ s.registry.cached then s
    else { s with registry := s.registry.update name fun l =>
      { l with level := level, propagates := propagates, handlers := handlers } }

end Move

def course (g : Registry) (moves : List Move) : Course := moves.foldl Move.after { registry := g }

def settled (moves : List Move) : Config := moves.foldl Move.settings {}

-- A logger with the level and the handler that the settings ask for, if they make one.
def Equipped (l : Logger) (c : Config) : Prop :=
  ∀ handler, c.handler = .ok handler → c.level = .ok l.level ∧ l.handlers = [handler]

variable {g : Registry} {s : Course} {c : Config} {name : String} {l : Logger}

-- A logger that had no handlers does not propagate, and one whose handlers were replaced has what
-- the settings ask for.
structure Kept (s : Course) (c : Config) : Prop where
  config : s.registry.config = c
  level : ∃ level, c.level = .ok level
  handed : ∀ name ∈ s.registry.cached, ∃ l, s.registry.find? name = some l ∧
    (name ∉ s.adopted → l.propagates = false) ∧ (name ∉ s.own → Equipped l c)

theorem run_request_of_handlers (h : fullName name ∉ g.cached)
    (hf : g.find? (fullName name) = some l) (hl : l.handlers ≠ []) :
    (request name).run g =
      (.ok l, { g.update (fullName name) id with cached := g.cached ++ [fullName name] }) := by
  have hid (l : Logger) : (id l).name = l.name := rfl
  have hc : ¬g.cached.contains (fullName name) = true := by simpa using h
  have hfind : (g.update (fullName name) id).find? (fullName name) = some l := by
    rw [find?_updated hid, hf]
    rfl
  have hbare : ¬(some l).all (·.handlers.isEmpty) = true := by simpa using hl
  have hcached (g' : Registry) (names : List String) :
      ({ g' with cached := names } : Registry).find? (fullName name) = g'.find? (fullName name) :=
    rfl
  rw [request.eq_def, run_bind, run_get]
  simp only [if_neg hc, run_bind, run_modify, run_get, if_neg hbare, run_pure, hcached, hfind,
    cached_update, Option.getD_some]

namespace Kept

variable {s' : Course} (h : Kept s c)
include h

-- Nothing changes but loggers that were not handed out.
theorem elsewhere (hcached : s'.registry.cached = s.registry.cached)
    (hconfig : s'.registry.config = s.registry.config)
    (hfind : ∀ n ∈ s.registry.cached, s'.registry.find? n = s.registry.find? n)
    (hadopted : s'.adopted = s.adopted) (hown : s'.own = s.own) : Kept s' c := by
  refine ⟨hconfig.trans h.config, h.level, fun n hc => ?_⟩
  have hc := hcached ▸ hc
  rw [hfind n hc, hadopted, hown]
  exact h.handed n hc

-- One more logger is handed out, and the others stay.
theorem hand_out (name : String) (hcached : s'.registry.cached = s.registry.cached ++ [name])
    (hconfig : s'.registry.config = s.registry.config)
    (hfind : ∀ n ∈ s.registry.cached, s'.registry.find? n = s.registry.find? n)
    (hadopted : s.adopted ⊆ s'.adopted) (hown : s.own ⊆ s'.own)
    (hnew : ∃ l, s'.registry.find? name = some l ∧ (name ∉ s'.adopted → l.propagates = false) ∧
      (name ∉ s'.own → Equipped l c)) : Kept s' c := by
  refine ⟨hconfig.trans h.config, h.level, fun n hc => ?_⟩
  by_cases hcn : n ∈ s.registry.cached
  case pos =>
    obtain ⟨l, hf, hsilent, hequipped⟩ := h.handed n hcn
    exact ⟨l, (hfind n hcn).trans hf, fun ha => hsilent fun hn => ha (hadopted hn),
      fun ho => hequipped fun hn => ho (hown hn)⟩
  case neg =>
    have hlast : n = name := by simpa [hcached, hcn] using hc
    exact hlast ▸ hnew

-- A logger with handlers is taken over as it is.
theorem request_of_handlers (hn : fullName name ∉ s.registry.cached)
    (hf : s.registry.find? (fullName name) = some l) (hl : l.handlers ≠ []) :
    Kept (Move.after s (.call (.request name))) c := by
  have hid (l : Logger) : (id l).name = l.name := rfl
  have hadopts : (Call.request name).adopts s.registry = [fullName name] := by
    simp [Call.adopts, hf, hl, hn]
  have hafter : (Call.request name).after s.registry =
      { s.registry.update (fullName name) id with
        cached := s.registry.cached ++ [fullName name] } := by
    rw [Call.after_request, run_request_of_handlers hn hf hl]
  have hother (n : String) (hc : n ∈ s.registry.cached) :
      (s.registry.update (fullName name) id).find? n = s.registry.find? n :=
    find?_preserved hid fun he => hn (he ▸ hc)
  rw [Move.after, hafter, hadopts]
  refine h.hand_out (fullName name) rfl config_update hother (by simp) ?own ?new
  case own => simp [Call.replaces]
  case new => exact ⟨_, find?_updated hid, by simp, by simp⟩

theorem request_of_bare (hn : fullName name ∉ s.registry.cached)
    (hbare : ∀ l, s.registry.find? (fullName name) = some l → l.handlers = []) :
    Kept (Move.after s (.call (.request name))) c := by
  have ⟨level, hl⟩ := h.level
  have hadopts : (Call.request name).adopts s.registry = [] := by
    cases hf : s.registry.find? (fullName name)
    case none => simp [Call.adopts, hf]
    case some l => simp [Call.adopts, hf, hbare l hf]
  have hother {change : Logger → Logger} (hkeeps : ∀ l, (change l).name = l.name) (n : String)
      (hc : n ∈ s.registry.cached) :
      (s.registry.update (fullName name) change).find? n = s.registry.find? n :=
    find?_preserved hkeeps fun he => hn (he ▸ hc)
  rw [Move.after, Call.after_request, run_request hn hbare (h.config ▸ hl), h.config, hadopts,
    List.append_nil, List.append_nil]
  cases hm : c.handler
  case error e =>
    exact h.elsewhere cached_update config_update (hother fun _ => rfl) rfl rfl
  case ok handler =>
    refine h.hand_out (fullName name) rfl config_update (hother fun _ => rfl)
      (List.Subset.refl _) (List.Subset.refl _) ⟨_, find?_updated fun _ => rfl, fun _ => rfl, ?_⟩
    intro _ handler' hm'
    cases hm.symm.trans hm'
    exact ⟨hl, rfl⟩

theorem request (name : String) : Kept (Move.after s (.call (.request name))) c := by
  by_cases hn : fullName name ∈ s.registry.cached
  case pos =>
    have hadopts : (Call.request name).adopts s.registry = [] := by simp [Call.adopts, hn]
    rw [Move.after, Call.after_request, run_request_of_cached hn, hadopts, List.append_nil,
      List.append_nil]
    exact h
  case neg =>
    cases hf : s.registry.find? (fullName name)
    case none => exact h.request_of_bare hn (by simp [hf])
    case some l =>
      by_cases hl : l.handlers = []
      case pos => exact h.request_of_bare hn (by simp [hf, hl])
      case neg => exact h.request_of_handlers hn hf hl

theorem setUp (name : String) (level : Level) (propagates : Bool) (handlers : List Handler) :
    Kept (Move.after s (.setUp name level propagates handlers)) c := by
  rw [Move.after]
  split
  case isTrue => exact h
  case isFalse hn =>
    refine h.elsewhere cached_update config_update (fun n hc => ?_) rfl rfl
    exact find?_preserved (fun _ => rfl) fun he => hn (he ▸ hc)

-- The settings change, and all loggers that were handed out change in the same way.
theorem change_all {c' : Config} {change : Logger → Logger}
    (hcached : s'.registry.cached = s.registry.cached) (hconfig : s'.registry.config = c')
    (hfind : ∀ n, s'.registry.find? n = if n ∈ s.registry.cached
      then some (change ((s.registry.find? n).getD { name := n })) else s.registry.find? n)
    (hlevel : ∃ level, c'.level = .ok level) (hadopted : s'.adopted = s.adopted)
    (hsilent : ∀ l, (change l).propagates = l.propagates)
    (hequips : ∀ n l, n ∉ s'.own → (n ∉ s.own → Equipped l c) → Equipped (change l) c') :
    Kept s' c' := by
  refine ⟨hconfig, hlevel, fun n hc => ?_⟩
  have hc := hcached ▸ hc
  obtain ⟨l, hf, hpropagates, hequipped⟩ := h.handed n hc
  refine ⟨change l, ?_, ?_, fun ho => hequips n l ho hequipped⟩
  · rw [hfind, if_pos hc, hf, Option.getD_some]
  · rw [hsilent, hadopted]
    exact hpropagates

theorem setLevel (level : Level) :
    Kept (Move.after s (.call (.setLevel level))) { c with level := .ok level } := by
  have ⟨old, hl⟩ := h.level
  let change (l : Logger) : Logger :=
    { l with level := level, handlers := l.handlers.map (Handler.withLevel level) }
  have hkeeps (l : Logger) : (change l).name = l.name := rfl
  have htwice (m : Handler) : (m.withLevel level).withLevel level = m.withLevel level := by
    cases m <;> rfl
  have hagain (l : Logger) : change (change l) = change l := by simp [change, htwice]
  have hconfig : (s.registry.cached.foldl (fun g name => g.update name change) s.registry).config =
      c := (config_foldl_update _).trans h.config
  refine h.change_all (cached_foldl_update _) ?config (fun n => find?_foldl_update hkeeps hagain _)
    ⟨level, rfl⟩ (List.append_nil _) (fun _ => rfl) fun n l ho hequipped handler hm => ?equips
  case config => exact congrArg (fun c : Config => { c with level := .ok level }) hconfig
  case equips =>
    have hown : n ∉ s.own := by simpa [Move.after, Call.adopts, Call.replaces] using ho
    rw [handler_withLevel hl] at hm
    cases hold : c.handler <;> rw [hold] at hm <;> cases hm
    case ok old => exact ⟨rfl, by simp [change, (hequipped hown old hold).right]⟩

-- Where no handler can be made, the settings ask for none.
theorem strip {c' : Config} {level : Level} {e : ValueFault} (hl : c'.level = .ok level)
    (hm : c'.handler = .error e) (hregistry : s'.registry =
      ((s.registry.cached.forM (equip level (.error e))).run { s.registry with config := c' }).2)
    (hadopted : s'.adopted = s.adopted) : Kept s' c' := by
  let bare (l : Logger) : Logger := { l with level := level, handlers := [] }
  have hkeeps (l : Logger) : (bare l).name = l.name := rfl
  have hequipped (l : Logger) : Equipped l c' := fun handler hm' => by cases hm.symm.trans hm'
  have hcached : s'.registry.cached = s.registry.cached := by
    rw [hregistry]
    exact cached_forM_equip ..
  rw [run_forM_equip_error] at hregistry
  refine ⟨?config, ⟨level, hl⟩, fun n hc => ?handed⟩
  case config =>
    rw [hregistry]
    cases s.registry.cached.head?
    case none => rfl
    case some => exact config_update
  case handed =>
    obtain ⟨l, hf, hsilent, _⟩ := h.handed n (hcached ▸ hc)
    rw [hregistry, hadopted]
    cases s.registry.cached.head?
    case none => exact ⟨l, hf, hsilent, fun _ => hequipped l⟩
    case some first =>
      by_cases hn : n = first
      case pos =>
        have hf' : ({ s.registry with config := c' } : Registry).find? first = some l := hn ▸ hf
        have hupdated : (({ s.registry with config := c' } : Registry).update first bare).find?
            first = some (bare l) := (find?_updated hkeeps).trans (by rw [hf', Option.getD_some])
        exact ⟨bare l, hn ▸ hupdated, hsilent, fun _ => hequipped _⟩
      case neg =>
        have hother : (({ s.registry with config := c' } : Registry).update first bare).find? n =
            some l := (find?_preserved hkeeps hn).trans hf
        exact ⟨l, hother, hsilent, fun _ => hequipped l⟩

theorem configure (level : Level) (given stream : Option String) (filter : RankFilter) :
    Kept (Move.after s (.call (.configure level given stream filter)))
      (Call.settings c (.configure level given stream filter)) := by
  rw [Call.settings]
  cases ht : templateFor given filter
  case error =>
    rw [Move.after, Call.after_configure_of_error ht]
    simpa [Call.adopts, Call.replaces, ht] using h
  case ok template =>
    let config : Config := ⟨.ok level, .ok template, stream, filter⟩
    have hafter : (Call.configure level given stream filter).after s.registry =
        ((s.registry.cached.forM (equip level config.handler)).run
          { s.registry with config := config }).2 := Call.after_configure_of_ok ht
    cases hm : config.handler
    case error e =>
      rw [hm] at hafter
      exact h.strip rfl hm hafter (List.append_nil _)
    case ok handler =>
      let change (l : Logger) : Logger := { l with level := level, handlers := [handler] }
      have hkeeps (l : Logger) : (change l).name = l.name := rfl
      rw [hm, run_forM_equip_ok] at hafter
      rw [Move.after, hafter]
      refine h.change_all (cached_foldl_update _) (config_foldl_update _)
        (fun n => find?_foldl_update hkeeps (fun _ => rfl) _) ⟨level, rfl⟩ (List.append_nil _)
        (fun _ => rfl) fun n l _ _ handler' hm' => ?_
      cases hm.symm.trans hm'
      exact ⟨rfl, rfl⟩

theorem after (m : Move) : Kept (m.after s) (m.settings c) := by
  cases m
  case call made =>
    cases made
    case request name => exact h.request name
    case setLevel level => exact h.setLevel level
    case configure level given stream filter => exact h.configure level given stream filter
  case setUp name level propagates handlers => exact h.setUp name level propagates handlers

theorem preserved (moves : List Move) :
    Kept (moves.foldl Move.after s) (moves.foldl Move.settings c) := by
  induction moves generalizing s c
  case nil => exact h
  case cons m moves hi => exact hi (h.after m)

end Kept
theorem kept_course (hcached : g.cached = []) (hconfig : g.config = {}) (moves : List Move) :
    Kept (course g moves) (settled moves) := by
  have hstart : Kept { registry := g } {} :=
    ⟨hconfig, ⟨_, rfl⟩, fun n hn => by simp [hcached] at hn⟩
  exact hstart.preserved moves

-- What the loggers above one write of its messages.
def passedOn (g : Registry) (l : Logger) (r : Record) : List Line :=
  if l.propagates then
    (handlersFrom (g.above (l.name.length + 1) l.name)).flatMap (·.write r)
  else []

theorem passedOn_of_silent {r : Record} (h : l.propagates = false) : g.passedOn l r = [] := by
  simp [passedOn, h]

theorem effectiveLevel_of_level (h : l.level.value ≠ 0) : g.effectiveLevel l = l.level.value := by
  simp [effectiveLevel, lineage, h]

theorem emit_of_handler {handler : Handler} {level : Level} {message : FieldValue}
    (h : l.handlers = [handler]) (hlevel : 1 ≤ level.value) :
    g.emit l level message = if g.effectiveLevel l ≤ level.value then
      handler.write ⟨l.name, level, message, none⟩ ++ g.passedOn l ⟨l.name, level, message, none⟩
    else [] := by
  have hpos : decide (0 < level.value) = true := decide_eq_true (by omega)
  have hhandlers : g.handlersOf l = handler :: if l.propagates then
      handlersFrom (g.above (l.name.length + 1) l.name) else [] := by
    simp [handlersOf, lineage, handlersFrom, h]
  rw [emit, hpos, hhandlers, passedOn]
  by_cases heard : g.effectiveLevel l ≤ level.value
  case neg => simp [heard]
  case pos => cases l.propagates <;> simp [heard]

-- A message is written as it is asked for if the logger hears it and no logger above it writes it
-- as well, or if the logger does not hear it and it is not asked for.
theorem emit_eq_lines_iff {handler : Handler} {level : Level} {message : FieldValue}
    {text : String} (hm : c.handler = .ok handler) (h : l.handlers = [handler])
    (hlevel : 1 ≤ level.value) (ht : c.text? ⟨l.name, level, message, none⟩ = some text) :
    g.emit l level message = c.lines level text ↔ if g.effectiveLevel l ≤ level.value
      then g.passedOn l ⟨l.name, level, message, none⟩ = [] else c.asksFor level = false := by
  rw [emit_of_handler h hlevel, Config.write_eq hm ht]
  split
  case isTrue => exact List.append_right_eq_self
  case isFalse =>
    rw [Config.lines]
    cases c.asksFor level <;> simp

theorem run_log (hn : fullName name ∈ g.cached) (hf : g.find? (fullName name) = some l)
    (level : Level) (message : FieldValue) :
    (log name (.ok level) message).run g = (.ok (g.emit l level message), g) := by
  have hrequest := run_request_of_cached hn
  rw [hf, Option.getD_some] at hrequest
  rw [log.eq_def, run_bind, hrequest]
  rfl

-- A message of a logger that was handed out, after any calls of the package and among any loggers
-- of the application. The logger has the level and the handler that the settings ask for, unless it
-- has kept handlers of its own since these were last replaced. Then the message is written once
-- exactly if the settings ask for it, unless the logger propagates and loggers above it write the
-- message as well, or the level in force is zero and the level of a logger above it counts.
theorem written_once_iff (hcached : g.cached = []) (hconfig : g.config = {}) (moves : List Move)
    {name : String} (hn : fullName name ∈ (course g moves).registry.cached) :
    ∃ l, (course g moves).registry.find? (fullName name) = some l ∧
      (fullName name ∉ (course g moves).adopted → l.propagates = false) ∧
      (∀ level message, (log name (.ok level) message).run (course g moves).registry =
        (.ok ((course g moves).registry.emit l level message), (course g moves).registry)) ∧
      ∀ handler, (settled moves).handler = .ok handler → fullName name ∉ (course g moves).own →
        (settled moves).level = .ok l.level ∧ l.handlers = [handler] ∧
        ∀ level message text, 1 ≤ level.value →
          (settled moves).text? ⟨l.name, level, message, none⟩ = some text →
            ((course g moves).registry.emit l level message = (settled moves).lines level text ↔
              if (course g moves).registry.effectiveLevel l ≤ level.value
              then (course g moves).registry.passedOn l ⟨l.name, level, message, none⟩ = []
              else (settled moves).asksFor level = false) ∧
            (l.level.value ≠ 0 → fullName name ∉ (course g moves).adopted →
              (course g moves).registry.emit l level message =
                (settled moves).lines level text) := by
  have ⟨l, hf, hsilent, hequipped⟩ := (kept_course hcached hconfig moves).handed _ hn
  refine ⟨l, hf, hsilent, run_log hn hf, fun handler hm hown => ?_⟩
  have ⟨hl, hhandlers⟩ := hequipped hown handler hm
  refine ⟨hl, hhandlers, fun level message text hlevel ht => ?_⟩
  have hiff := emit_eq_lines_iff (g := (course g moves).registry) hm hhandlers hlevel ht
  refine ⟨hiff, fun hzero hadopted => hiff.mpr ?_⟩
  rw [effectiveLevel_of_level hzero]
  split
  case isTrue => exact passedOn_of_silent (hsilent hadopted)
  case isFalse hlow => simp [Config.asksFor, hl, hlow]

theorem written_once_iff_solver :
    let moves : List Move := [.call (.request "solver"),
      .call (.configure (.number 20) none (some "out") {}), .call (.setLevel (.number 10))]
    ((log "solver" (.ok (.number 10)) (.text "hello")).run (course {} moves).registry).1 =
      .ok [⟨"out", "[DEBUG] nlpform.solver: hello"⟩] := by
  intro moves
  have hn : fullName "solver" ∈ (course {} moves).registry.cached := by decide +kernel
  obtain ⟨l, hf, _, hlog, hequipped⟩ := written_once_iff rfl rfl moves hn
  have hmade : (settled moves).handler.toOption.isSome := by decide +kernel
  cases hm : (settled moves).handler
  case error => simp [hm, Except.toOption] at hmade
  case ok handler =>
    obtain ⟨hl, _, hwritten⟩ := hequipped handler hm (by decide +kernel)
    have hlevel : l.level = .number 10 := (Except.ok.inj hl).symm
    have ht : (settled moves).text? ⟨l.name, .number 10, .text "hello", none⟩ =
        some "[DEBUG] nlpform.solver: hello" := by
      rw [name_of_find? hf]
      decide +kernel
    obtain ⟨_, honce⟩ := hwritten _ _ _ (by decide) ht
    rw [hlog, honce (by simp [hlevel, Level.value]) (by decide +kernel)]
    exact congrArg Except.ok (by decide +kernel)

-- A logger that was taken over with handlers of its own has its messages written twice, as it hands
-- them to the logger of the package. Without a level, messages below the level of the topmost
-- logger are lost. A logger that is taken over after the configuration keeps its own handlers.
theorem written_otherwise :
    let quiet : List Handler := [.silent (.number 0)]
    let adoptA : List Move := [.setUp "nlpform.a" (.number 0) true quiet, .call (.request "a")]
    let configured : Move := .call (.configure (.number 20) none (some "out") {})
    let unleveled : Move := .call (.configure (.number 0) none (some "out") {})
    let said (moves : List Move) (level : Int) : Option (List Line) :=
      ((log "a" (.ok (.number level)) (.text "hello")).run (course {} moves).registry).1.toOption
    said (adoptA ++ [.call (.request "nlpform"), configured]) 20 =
      some [⟨"out", "[INFO] nlpform.a: hello"⟩, ⟨"out", "[INFO] nlpform.a: hello"⟩] ∧
    said [.call (.request "a"), unleveled] 20 = some [] ∧
    said (configured :: adoptA) 40 = some [] := by
  decide +kernel

end Registry
end NonlinearProgram.Log
