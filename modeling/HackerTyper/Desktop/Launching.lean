import HackerTyper.Desktop
import HackerTyper.Foundations.History
import HackerTyper.Overlay.Screen

/-!
# Launching from the panels

Panels launch with a delay, and in the meantime everything else may happen. Still a delay only
runs where a launch was requested, and at its end a session starts on the screen of the panel,
with the source that the lists of all panels show.

## Main definitions

* `PanelsConsistent`: what holds of the panels at any time;
* `Moment` and `moments`: the requests of the panels and the ends of their delays;
* `Launched`: a launch from a panel.

## Main results

* `panelsConsistent_of_reachable`: the panels are consistent in every run;
* `launchDelay_iff_since`: a delay runs since it was requested;
* `launched_of_triggered`: what the end of a delay does;
* `step_launch_truthful`: what the command `launch` does is what it answers.
-/

namespace Desktop

open Js HackerTyperModel SourceCatalog History

variable {ι : Type} [DecidableEq ι]

/-- The cursor of every panel is on its list or its button, every list shows the selected
source, and a running delay holds the name of the panel's own screen. -/
structure PanelsConsistent (env : Env ι) (s : State ι) : Prop where
  /-- The cursor is on the list or on the button. -/
  cursorIndex : ∀ i, (s.panels i).cursorIndex = 0 ∨ (s.panels i).cursorIndex = Panel.launchIndex
  /-- The list shows the selected source. -/
  value : ∀ i, (s.panels i).value = s.system.service.selectedSourceId
  /-- The launch is for the screen of the panel. -/
  pendingScreenName : ∀ i, (s.panels i).launchDelay = true →
    (s.panels i).pendingScreenName = Panel.screenName (env.panel i)

/-! ## One step of a panel -/

/-- The event of a panel, where an event of the desktop is one. -/
def eventOf (j : ι) : Event ι → Option Panel.Event
  | .panel i event => if i = j then some event else none
  | _ => none

/-- A panel after an event of its own. -/
def handled (env : Env ι) (s : State ι) (j : ι) (event : Event ι) : Panel.State :=
  match eventOf j event with
  | some event => Panel.handle (env.panel j) (some s.system.service) (s.panels j) event
  | none => s.panels j

omit [DecidableEq ι] in
/-- A selection changes nothing but the values of the lists. -/
theorem notify_eq (before after : Service.State) (panels : ι → Panel.State) (j : ι) :
    notify before after panels j =
      { panels j with
        value :=
          if after.selectedSourceId = before.selectedSourceId then (panels j).value
          else after.selectedSourceId } := by
  rw [notify]
  split <;> rfl

/-- Apart from the value of its list, a panel changes with its own events alone. -/
theorem panels_step (env : Env ι) (s : State ι) (event : Event ι) (j : ι) :
    (step env s event).panels j =
      { handled env s j event with value := ((step env s event).panels j).value } := by
  cases event with
  | system event => simp [step, handled, eventOf, notify_eq]
  | launch sourceId screenName selecting opening => simp [step, handled, eventOf, notify_eq]
  | panel i event =>
    by_cases hij : i = j
    · subst hij
      cases event with
      | changed sourceId signals =>
        cases hassigns : env.assignsValue <;>
          simp [step, handled, eventOf, notify_eq, assign, Panel.handle, hassigns]
      | _ => simp [step, handled, eventOf, notify_eq]
    · have hji : j ≠ i := fun h => hij h.symm
      cases event with
      | changed sourceId signals =>
        cases hassigns : env.assignsValue <;>
          simp [step, handled, eventOf, notify_eq, assign, hij, hji, hassigns]
      | _ => simp [step, handled, eventOf, notify_eq, hij, hji]

/-! ## The values of the lists -/

/-- The identifier of an entry selects that entry. -/
theorem selectedSourceId_selectSource {source : Source} (hsource : source ∈ sources)
    (signals : List Service.FileSignal) (service : Service.State) :
    (Service.selectSource (.str source.id) signals service).2.selectedSourceId = source.id := by
  rcases Service.selectSource_cases (.str source.id) signals service with ⟨hnot, -⟩ |
    ⟨found, -, hlookup, hid, heq⟩ | ⟨found, -, hlookup, -, heq⟩
  · exact absurd (fun _ => Json.stringable_str source.id) hnot
  · rw [sourceById_of_mem_sources hsource] at hlookup
    cases hlookup
    rw [heq, hid]
  · rw [sourceById_of_mem_sources hsource] at hlookup
    cases hlookup
    rw [heq, Service.foldl_deliver_selectedSourceId]

theorem mem_languageOptions {sourceId : JsString}
    (h : sourceId ∈ Panel.languageOptions.map Prod.fst) :
    ∃ source ∈ sources, source.id = sourceId := by
  rw [Panel.languageOptions, List.map_map] at h
  exact List.mem_map.mp h

omit [DecidableEq ι] in
/-- Lists that showed the selected source show it after it has changed. -/
theorem value_notify {before after : Service.State} {panels : ι → Panel.State} {j : ι}
    (h : (panels j).value = before.selectedSourceId ∨ (panels j).value = after.selectedSourceId) :
    (notify before after panels j).value = after.selectedSourceId := by
  rw [notify_eq]
  by_cases hid : after.selectedSourceId = before.selectedSourceId
  · rw [← hid, or_self] at h
    simpa [hid] using h
  · simp [hid]

theorem value_update {panels : ι → Panel.State} {i : ι} {st : Panel.State}
    (h : st.value = (panels i).value) (j : ι) :
    (Function.update panels i st j).value = (panels j).value := by
  by_cases hij : j = i
  · subst hij
    rw [Function.update_self, h]
  · rw [Function.update_of_ne hij]

/-- An assignment sets the value of a list or leaves it. -/
theorem value_assign (env : Env ι) (i : ι) (sourceId : JsString) (panels : ι → Panel.State)
    (j : ι) :
    (assign env i sourceId panels j).value = sourceId ∨
      (assign env i sourceId panels j).value = (panels j).value := by
  rw [assign]
  split
  · by_cases hij : j = i
    · subst hij
      exact Or.inl (by rw [Function.update_self])
    · exact Or.inr (by rw [Function.update_of_ne hij])
  · exact Or.inr rfl

/-- All lists keep showing the selected source. -/
theorem value_step {env : Env ι} {s : State ι} {event : Event ι}
    (h : ∀ j, (s.panels j).value = s.system.service.selectedSourceId)
    (henabled : Enabled env s event) (j : ι) :
    ((step env s event).panels j).value =
      (step env s event).system.service.selectedSourceId := by
  cases event with
  | system event => exact value_notify (Or.inl (h j))
  | launch sourceId screenName selecting opening => exact value_notify (Or.inl (h j))
  | panel i event =>
    cases event with
    | changed sourceId signals =>
      -- the list that reports the choice may show it already
      obtain ⟨source, hsource, rfl⟩ := mem_languageOptions henabled.1
      refine (value_update (Panel.value_handle _ _ _ _) j).trans (value_notify ?_)
      have hid := selectedSourceId_selectSource hsource signals s.system.service
      rcases value_assign env i source.id s.panels j with hassign | hassign
      · exact Or.inr (hassign.trans hid.symm)
      · exact Or.inl (hassign.trans (h j))
    | triggered signals =>
      exact value_notify (Or.inl ((value_update (Panel.value_handle _ _ _ _) j).trans (h j)))
    | _ => exact (value_update (Panel.value_handle _ _ _ _) j).trans (h j)

/-! ## The panels in every run -/

/-- What is remembered of the panels. -/
inductive Moment (ι : Type)
  /-- A panel launches, with a text loaded. -/
  | requested (j : ι)
  /-- The delay of a panel ends. -/
  | ended (j : ι)
deriving DecidableEq

/-- What is remembered of an event. -/
def moments (s : State ι) : Event ι → List (Moment ι)
  | .panel i event =>
    if Panel.Requests (some s.system.service) (s.panels i) event then [.requested i]
    else if event matches .triggered _ then [.ended i] else []
  | _ => []

/-- The moments of a run. -/
def record (past : List (Moment ι)) (s : State ι) (event : Event ι) : List (Moment ι) :=
  past ++ moments s event

/-- A request starts the delay of a panel for the panel's own screen, and nothing else does. -/
theorem launchDelay_step (env : Env ι) (s : State ι) (event : Event ι) (j : ι) :
    ((step env s event).panels j).launchDelay =
        (if .requested j ∈ moments s event then true
        else if .ended j ∈ moments s event then false else (s.panels j).launchDelay) ∧
      ((step env s event).panels j).pendingScreenName =
        if .requested j ∈ moments s event then Panel.screenName (env.panel j)
        else (s.panels j).pendingScreenName := by
  rw [panels_step, handled]
  cases event with
  | system event => simp [eventOf, moments]
  | launch sourceId screenName selecting opening => simp [eventOf, moments]
  | panel i event =>
    by_cases hij : i = j
    · subst hij
      obtain ⟨hdelay, hscreen⟩ :=
        Panel.launchDelay_handle (env.panel i) (some s.system.service) (s.panels i) event
      simp only [eventOf, if_true, moments, hdelay, hscreen]
      by_cases hrequest : Panel.Requests (some s.system.service) (s.panels i) event
      · simp [hrequest]
      · cases event <;> simp [hrequest]
    · have hother : .requested j ∉ moments s (.panel i event) ∧
          .ended j ∉ moments s (.panel i event) := by
        simp only [moments]
        split
        · simp [Ne.symm hij]
        split <;> simp [Ne.symm hij]
      simp [eventOf, hij, hother]

/-- Every step keeps the panels consistent. -/
theorem panelsConsistent_step {env : Env ι} {s : State ι} {event : Event ι}
    (h : PanelsConsistent env s) (henabled : Enabled env s event) :
    PanelsConsistent env (step env s event) where
  cursorIndex j := by
    rw [panels_step, handled]
    split
    · exact Panel.cursorIndex_handle _ _ _ _ (h.cursorIndex j)
    · exact h.cursorIndex j
  value := value_step h.value henabled
  pendingScreenName j hdelay := by
    obtain ⟨hlaunch, hscreen⟩ := launchDelay_step env s event j
    rw [hlaunch] at hdelay
    rw [hscreen]
    split
    · rfl
    next hrequest =>
      -- the delay was running before
      rw [if_neg hrequest] at hdelay
      split at hdelay
      · cases hdelay
      · exact h.pendingScreenName j hdelay

/-- In every run the panels are consistent. -/
theorem panelsConsistent_of_reachable {env : Env ι} {s : State ι} (h : (machine env).Reachable s) :
    PanelsConsistent env s := by
  refine h.invariant (PanelsConsistent env) ?_ ?_
  · rintro s rfl
    exact ⟨fun _ => Or.inl rfl, fun _ => rfl, fun _ hdelay => absurd hdelay Bool.false_ne_true⟩
  · exact fun s event _ ih henabled => panelsConsistent_step ih henabled

/-- A delay runs exactly where a launch was requested and the delay has not ended since. -/
theorem launchDelay_iff_since {env : Env ι} {s : State ι} {past : List (Moment ι)}
    (h : ((machine env).observe [] record).Reachable (s, past)) (j : ι) :
    (s.panels j).launchDelay = true ↔
      Since (fun _ moment => moment ≠ .ended j) (fun _ moment => moment = .requested j) past := by
  refine h.invariant (fun s => (s.1.panels j).launchDelay = true ↔
    Since (fun _ moment => moment ≠ .ended j) (fun _ moment => moment = .requested j) s.2) ?_ ?_
  · rintro ⟨s, past⟩ ⟨hs, hpast⟩
    cases hs
    cases hpast
    exact iff_of_false Bool.false_ne_true not_since_nil
  · rintro ⟨s, past⟩ event - ih -
    change ((step env s event).panels j).launchDelay = true ↔ Since _ _ (past ++ moments s event)
    rw [(launchDelay_step env s event j).1]
    -- at most one moment is remembered of an event
    have hmoments : moments s event = [] ∨ ∃ moment, moments s event = [moment] := by
      cases event with
      | panel i event =>
        simp only [moments]
        split
        · exact Or.inr ⟨_, rfl⟩
        split
        · exact Or.inr ⟨_, rfl⟩
        · exact Or.inl rfl
      | _ => exact Or.inl rfl
    rcases hmoments with hnone | ⟨moment, hone⟩
    · simpa [hnone] using ih
    · rw [hone, since_concat]
      by_cases hrequest : moment = .requested j
      · simp [hrequest]
      · by_cases hended : moment = .ended j
        · simp [hended]
        · simpa [hrequest, Ne.symm hrequest, hended, Ne.symm hended] using ih

/-! ## Launches -/

/-- The selected source of a desktop is always an entry of the catalog. -/
theorem exists_source_of_reachable {env : Env ι} {s : State ι} (h : (machine env).Reachable s) :
    ∃ source ∈ sources, s.system.service.selectedSourceId = source.id :=
  Service.exists_source_of_reachable
    (((toSystem env).comp (System.toService env.toEnv)).reachable h)

omit [DecidableEq ι] in
/-- What is handed over is the payload of the launch. -/
theorem payload_of_handedOver {env : Env ι} {screenName payload : JsString}
    {service : Service.State} (h : handedOver env screenName service = some payload) :
    payload = Service.launchPayload screenName service := by
  rw [handedOver, Service.launch] at h
  cases hshell : env.service.summon with
  | none => simp [hshell] at h
  | some answer =>
    cases hmanifest : env.service.manifest with
    | none => simp [hshell, hmanifest] at h
    | some manifest =>
      simp only [hshell, hmanifest] at h
      split at h
      · exact (Option.some.inj h).symm
      · cases h

omit [DecidableEq ι] in
/-- If the shell tells the truth, the payload is handed over where `launch` answers `true`. -/
theorem isSome_handedOver {env : Env ι} (hshell : env.AnswersTruthfully) (screenName : JsString)
    (service : Service.State) :
    (handedOver env screenName service).isSome =
      (Service.launch env.service screenName service).1 := by
  rw [handedOver, Service.launch]
  cases hsummon : env.service.summon with
  | none => rfl
  | some answer =>
    cases env.service.manifest with
    | none => rfl
    | some manifest =>
      simp only [hshell answer hsummon]
      cases env.opens manifest.id (Service.launchPayload screenName service) <;> rfl

omit [DecidableEq ι] in
/-- A launch starts a session on the screen if the shell hands the payload over, and changes
nothing else. -/
theorem summon_eq_ite (env : Env ι) {s : System.State} {source : Source}
    (hsource : source ∈ sources) (hid : s.service.selectedSourceId = source.id)
    (screenName : JsString) (signals : List Service.FileSignal) :
    summon env screenName signals s =
      ⟨s.service, if (handedOver env screenName s.service).isSome then
        Overlay.freshSession screenName s.overlay else s.overlay⟩ := by
  rw [summon]
  cases h : handedOver env screenName s.service with
  | none => rfl
  | some payload =>
    obtain rfl := payload_of_handedOver h
    have hscreen : Overlay.requestedScreen
        (parsePayload (Service.launchPayload screenName s.service)) = .ok screenName := by
      rw [Overlay.parsePayload_launchPayload]
      exact Json.stringOrEmpty_str screenName
    simp only [System.step, System.afterOverlay, Overlay.openSession, hscreen,
      Overlay.requestSource_launchPayload hsource hid screenName signals]
    rfl

/-- What the end of a delay does: if the shell hands the payload over, a session starts on the
screen of the panel, and nothing else changes but the delay. -/
theorem step_triggered {env : Env ι} {s : State ι} (h : (machine env).Reachable s) {i : ι}
    (hdelay : (s.panels i).launchDelay = true) (signals : List Service.FileSignal) :
    step env s (.panel i (.triggered signals)) =
      ⟨⟨s.system.service,
          if (handedOver env (Panel.screenName (env.panel i)) s.system.service).isSome then
            Overlay.freshSession (Panel.screenName (env.panel i)) s.system.overlay
          else s.system.overlay⟩,
        Function.update s.panels i { s.panels i with launchDelay := false }⟩ := by
  obtain ⟨source, hsource, hid⟩ := exists_source_of_reachable h
  have hscreen := (panelsConsistent_of_reachable h).pendingScreenName i hdelay
  have hsummon := summon_eq_ite env hsource hid (Panel.screenName (env.panel i))
    signals
  simp only [step, hscreen, hsummon, notify, if_true, Panel.handle]

/-- A launch from panel `i` leads from `s` to `s'`: a session has started on the screen of the
panel, which the overlay is shown on if it is connected and no other screen has its name, and
nothing else has changed but the delay. -/
structure Launched (env : Env ι) (s : State ι) (i : ι) (s' : State ι) : Prop where
  /-- The session starts with the source that was selected. -/
  service : s'.system.service = s.system.service
  /-- The delay is over, and the other panels are as they were. -/
  panels : s'.panels = Function.update s.panels i { s.panels i with launchDelay := false }
  /-- Nothing is revealed yet. -/
  fresh : Overlay.Fresh s'.system.overlay
  /-- The overlay is shown on the screen of the panel. -/
  resolveScreen {α : Type} (name : α → JsString) (focusedMonitor : Option JsString)
    (screens : List (Option α)) (screen : α) : some screen ∈ screens →
    name screen = Panel.screenName (env.panel i) → name screen ≠ [] →
    (∀ other, some other ∈ screens → name other = name screen → other = screen) →
    Overlay.resolveScreen name focusedMonitor screens s'.system.overlay.targetScreenName =
      some screen

/-- In every run, when the delay of a panel ends, a launch was requested there since it ended
last, while a text was loaded. If the shell hands the payload over, a session starts on the screen
of the panel with the source that its list shows. Otherwise only the delay is over. -/
theorem launched_of_triggered {env : Env ι} {s : State ι} {past : List (Moment ι)}
    (h : ((machine env).observe [] record).Reachable (s, past)) {i : ι}
    {signals : List Service.FileSignal}
    (henabled : Enabled env s (.panel i (.triggered signals))) :
    Since (fun _ moment => moment ≠ .ended i) (fun _ moment => moment = .requested i) past ∧
      (s.panels i).value = s.system.service.selectedSourceId ∧
      if (handedOver env (Panel.screenName (env.panel i)) s.system.service).isSome then
        Launched env s i (step env s (.panel i (.triggered signals)))
      else
        step env s (.panel i (.triggered signals)) =
          { s with
            panels := Function.update s.panels i { s.panels i with launchDelay := false } } := by
  have hdelay : (s.panels i).launchDelay = true := henabled.1
  have hreach : (machine env).Reachable s := h.of_observe
  refine ⟨(launchDelay_iff_since h i).mp hdelay, (panelsConsistent_of_reachable hreach).value i, ?_⟩
  rw [step_triggered hreach hdelay signals]
  split
  · refine ⟨rfl, rfl, Overlay.fresh_freshSession _ _, ?_⟩
    intro α name focusedMonitor screens screen hmem hname hne honly
    rw [Overlay.freshSession, ← hname]
    exact Overlay.resolveScreen_eq hmem hne honly focusedMonitor
  · rfl

/-- A desktop with two screens and a shell. -/
def exampleEnv : Env Bool where
  service := ⟨some fun _ _ => true, some ⟨js "hackertyper", some (js "/p")⟩, []⟩
  overlay := ⟨true, some (js "hackertyper")⟩
  panel i := ⟨some (if i then js "DP-1" else js "HDMI-A-1"), none⟩
  assignsValue := true
  opens _ _ := true

omit [DecidableEq ι] in
/-- Without signals, a launch may always happen. -/
theorem enables_launchEvents (env : Env ι) (screenName : JsString) (s : System.State) :
    (System.machine env.toEnv).Enables s (launchEvents env screenName [] s) := by
  rw [launchEvents]
  split
  · exact ⟨fun _ h => absurd h List.not_mem_nil, trivial⟩
  · trivial

/-- A launch from one panel, while another one selects a source that is not loaded yet. -/
theorem launched_of_triggered_switched : ∃ s : State Bool, ∃ past : List (Moment Bool),
    Since (fun _ moment => moment ≠ .ended true) (fun _ moment => moment = .requested true) past ∧
      (s.panels true).value = s.system.service.selectedSourceId ∧
      if (handedOver exampleEnv (Panel.screenName (exampleEnv.panel true))
          s.system.service).isSome then
        Launched exampleEnv s true (step exampleEnv s (.panel true (.triggered [])))
      else
        step exampleEnv s (.panel true (.triggered [])) =
          { s with
            panels := Function.update s.panels true
              { s.panels true with launchDelay := false } } := by
  let load : Event Bool :=
    .system (.signal (.loaded (js "/p/sources/kernel-like.c") (js "int x;")))
  let click : Event Bool := .panel true .clicked
  let select : Event Bool := .panel false (.changed (js "packet-engine") [])
  have hinit : ((machine exampleEnv).observe [] record).Reachable
      (⟨⟨Service.initial, Overlay.initial⟩, fun _ => Panel.initial⟩, []) := .init ⟨rfl, rfl⟩
  have hload := Machine.Reachable.step load hinit (by
    change js "/p/sources/kernel-like.c" = _
    decide +kernel)
  have hclick := Machine.Reachable.step click hload trivial
  have hselect := Machine.Reachable.step select hclick
    ⟨by decide +kernel, fun _ h => absurd h List.not_mem_nil⟩
  exact ⟨_, _, launched_of_triggered hselect ⟨by decide +kernel, enables_launchEvents _ _ _⟩⟩

/-! ## The command `launch` -/

/-- What the launch command answers, and the service it leaves. -/
theorem ipcLaunch_eq (env : Service.Env) (sourceId screenName : JsString)
    (signals : List Service.FileSignal) (service : Service.State) :
    Service.ipcLaunch env sourceId screenName signals service =
      (.ok (if (Service.launch env screenName (selectFirst sourceId signals service).2).1 then
        js "ok" else js "unavailable"), (selectFirst sourceId signals service).2) := by
  have hok := selectFirst_ok sourceId signals service
  rw [Service.ipcLaunch]
  rw [selectFirst] at hok ⊢
  split
  next hid =>
    rw [if_pos hid] at hok
    generalize Service.selectSource (.str sourceId) signals service = outcome at hok ⊢
    obtain ⟨selected, service'⟩ := outcome
    obtain rfl : selected = .ok true := hok
    rfl
  next => rfl

/-- In every run, the command `launch` changes the service as its handler does. If the shell tells
the truth, so does the command: it answers `ok` where it starts a session on the screen, and
`unavailable` where it does not. -/
theorem step_launch_truthful {env : Env ι} (hshell : env.AnswersTruthfully) {s : State ι}
    (h : (machine env).Reachable s)
    (sourceId screenName : JsString) (selecting opening : List Service.FileSignal) :
    let answer := Service.ipcLaunch env.service sourceId screenName selecting s.system.service
    let s' := step env s (.launch sourceId screenName selecting opening)
    s'.system.service = answer.2 ∧
      (answer.1 = .ok (js "ok") ∧
          s'.system.overlay = Overlay.freshSession screenName s.system.overlay ∨
        answer.1 = .ok (js "unavailable") ∧ s'.system.overlay = s.system.overlay) := by
  -- the selection keeps the identifier that of an entry
  obtain ⟨source, hsource, hid⟩ : ∃ source ∈ sources,
      (selectFirst sourceId selecting s.system.service).2.selectedSourceId = source.id := by
    rw [selectFirst]
    split
    · exact Service.exists_source_step (.select (.str sourceId) selecting)
        (exists_source_of_reachable h)
    · exact exists_source_of_reachable h
  simp only [step_launch, ipcLaunch_eq]
  rw [summon_eq_ite env (s := ⟨_, s.system.overlay⟩) hsource hid, isSome_handedOver hshell]
  refine ⟨rfl, ?_⟩
  split
  · exact Or.inl ⟨rfl, rfl⟩
  · exact Or.inr ⟨rfl, rfl⟩

/-- The first command of a desktop selects a source and launches it. -/
theorem step_launch_truthful_first :
    let s : State Bool := ⟨⟨Service.initial, Overlay.initial⟩, fun _ => Panel.initial⟩
    let answer := Service.ipcLaunch exampleEnv.service (js "packet-engine") (js "DP-1") []
      s.system.service
    let s' := step exampleEnv s (.launch (js "packet-engine") (js "DP-1") [] [])
    s'.system.service = answer.2 ∧
      (answer.1 = .ok (js "ok") ∧
          s'.system.overlay = Overlay.freshSession (js "DP-1") s.system.overlay ∨
        answer.1 = .ok (js "unavailable") ∧ s'.system.overlay = s.system.overlay) :=
  step_launch_truthful (fun _ h _ _ => by cases h; rfl) (.init rfl) (js "packet-engine")
    (js "DP-1") [] []

end Desktop
