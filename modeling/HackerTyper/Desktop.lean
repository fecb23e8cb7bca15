import HackerTyper.Foundations.Refinement
import HackerTyper.Overlay.Launch
import HackerTyper.Panel
import HackerTyper.System.Delivery

/-!
# The plugin on a desktop

A desktop has a bar with a panel on every screen. All panels share one service and one overlay,
and the service also answers commands. What the panels do, what the commands do and what
happens to the service and the overlay otherwise comes in any order.

## Main definitions

* `Desktop.Env`, `Desktop.State`, `Desktop.Event`, `Desktop.machine`;
* `handedOver`, `summon`: a launch, from the service through the shell to the overlay;
* `Env.AnswersTruthfully`: what the answer of the shell means;
* `toSystem`: the desktop refines the service and the overlay.

## Main results

* `step_launch`: the command `launch` selects, and then launches.
-/

namespace Desktop

open Js HackerTyperModel SourceCatalog

variable {ι : Type} [DecidableEq ι]

/-- What surrounds the plugin. -/
structure Env (ι : Type) extends System.Env where
  /-- What surrounds the panels. -/
  panel : ι → Panel.Env
  /-- Whether a list of languages takes the value that is chosen before it reports it. -/
  assignsValue : Bool
  /-- Whether the shell opens the overlay of a plugin with a payload before it answers the call
  `summon(id, payload)`. What it does later is an event of its own. -/
  opens : JsString → JsString → Bool

/-- The states of the plugin. -/
structure State (ι : Type) where
  /-- The service and the overlay. -/
  system : System.State
  /-- The panels. -/
  panels : ι → Panel.State

/-- What can happen. -/
inductive Event (ι : Type)
  /-- An event of the service and the overlay. -/
  | system (event : System.Event)
  /-- An event of a panel. -/
  | panel (i : ι) (event : Panel.Event)
  /-- The command `launch`. The selection and the overlay may each change the path of the file
  view, which then delivers signals. -/
  | launch (sourceId screenName : JsString) (selecting opening : List Service.FileSignal)

/-- `onSelectedSourceIdChanged()` of all panels, where the identifier has changed. -/
def notify (before after : Service.State) (panels : ι → Panel.State) : ι → Panel.State :=
  if after.selectedSourceId = before.selectedSourceId then panels
  else fun i => { panels i with value := after.selectedSourceId }

/-- The panels when the list of panel `i` reports a choice. -/
def assign (env : Env ι) (i : ι) (sourceId : JsString) (panels : ι → Panel.State) :
    ι → Panel.State :=
  if env.assignsValue then Function.update panels i { panels i with value := sourceId }
  else panels

/-- The payload that the shell hands to the overlay: that of the call that a launch makes. -/
def handedOver (env : Env ι) (screenName : JsString) (service : Service.State) :
    Option JsString :=
  match (Service.launch env.service screenName service).2 with
  | some (id, payload) => if env.opens id payload then some payload else none
  -- nothing is summoned
  | none => none

/-- `launch(screenName)` of the service, and `open(payload)` of the overlay if the shell hands
the payload over. -/
def summon (env : Env ι) (screenName : JsString) (signals : List Service.FileSignal)
    (s : System.State) : System.State :=
  match handedOver env screenName s.service with
  | some payload => System.step env.toEnv s (.openSession payload signals)
  | none => s

/-- The shell tells the truth: it answers `true` exactly where it opens the overlay. -/
def Env.AnswersTruthfully (env : Env ι) : Prop :=
  ∀ answer, env.service.summon = some answer →
    ∀ id payload, answer id payload = env.opens id payload

/-- The selection of the command `launch`, which an empty identifier leaves out. -/
def selectFirst (sourceId : JsString) (signals : List Service.FileSignal)
    (service : Service.State) : Result Bool × Service.State :=
  if sourceId ≠ [] then Service.selectSource (.str sourceId) signals service
  else (.ok true, service)

/-- What an event does. -/
def step (env : Env ι) (s : State ι) : Event ι → State ι
  | .system event =>
    let system := System.step env.toEnv s.system event
    ⟨system, notify s.system.service system.service s.panels⟩
  | .panel i (.changed sourceId signals) =>
    -- `if (root.hacker) root.hacker.selectSource(sourceId)`
    let system := System.step env.toEnv s.system (.select (.str sourceId) signals)
    let panels := notify s.system.service system.service (assign env i sourceId s.panels)
    ⟨system, Function.update panels i
      (Panel.handle (env.panel i) (some system.service) (panels i) (.changed sourceId signals))⟩
  | .panel i (.triggered signals) =>
    let panels := Function.update s.panels i
      (Panel.handle (env.panel i) (some s.system.service) (s.panels i) (.triggered signals))
    -- `if (root.hacker) root.hacker.launch(root.pendingScreenName)`
    let system := summon env (s.panels i).pendingScreenName signals s.system
    ⟨system, notify s.system.service system.service panels⟩
  | .panel i event =>
    ⟨s.system, Function.update s.panels i
      (Panel.handle (env.panel i) (some s.system.service) (s.panels i) event)⟩
  | .launch sourceId screenName selecting opening =>
    let (selected, service) := selectFirst sourceId selecting s.system.service
    let selectedSystem : System.State := ⟨service, s.system.overlay⟩
    let system :=
      match selected with
      | .ok true => summon env screenName opening selectedSystem
      -- `return "unknown-source"`
      | _ => selectedSystem
    ⟨system, notify s.system.service system.service s.panels⟩

/-- The events of the service and the overlay in a launch. -/
def launchEvents (env : Env ι) (screenName : JsString) (signals : List Service.FileSignal)
    (s : System.State) : List System.Event :=
  match handedOver env screenName s.service with
  | some payload => [.openSession payload signals]
  | none => []

/-- A value that is chosen is one of the list, a timer ends if it is running, and the file view
delivers signals only about the path it has at that moment. -/
def Enabled (env : Env ι) (s : State ι) : Event ι → Prop
  | .system event => System.Enabled env.toEnv s.system event
  | .panel _ (.changed sourceId signals) =>
    sourceId ∈ Panel.languageOptions.map Prod.fst ∧
      System.Enabled env.toEnv s.system (.select (.str sourceId) signals)
  | .panel i (.triggered signals) =>
    (s.panels i).launchDelay = true ∧ (System.machine env.toEnv).Enables s.system
      (launchEvents env (s.panels i).pendingScreenName signals s.system)
  | .panel _ _ => True
  | .launch sourceId screenName selecting opening =>
    let selectedSystem : System.State :=
      ⟨(selectFirst sourceId selecting s.system.service).2, s.system.overlay⟩
    (sourceId ≠ [] → System.Enabled env.toEnv s.system (.select (.str sourceId) selecting)) ∧
      (System.machine env.toEnv).Enables selectedSystem
        (launchEvents env screenName opening selectedSystem)

/-- The plugin on a desktop, from the start of the shell. -/
def machine (env : Env ι) : Machine (State ι) (Event ι) where
  init s := s = ⟨⟨Service.initial, Overlay.initial⟩, fun _ => Panel.initial⟩
  enabled := Enabled env
  step := step env

/-! ## The service and the overlay of a desktop -/

omit [DecidableEq ι] in
/-- A launch is no step, or an opening. -/
theorem summon_eq (env : Env ι) (screenName : JsString) (signals : List Service.FileSignal)
    (s : System.State) :
    summon env screenName signals s =
      (System.machine env.toEnv).run s (launchEvents env screenName signals s) := by
  rw [summon, launchEvents]
  cases handedOver env screenName s.service <;> rfl

/-- The command `launch` always selects a source. -/
theorem selectFirst_ok (sourceId : JsString) (signals : List Service.FileSignal)
    (service : Service.State) : (selectFirst sourceId signals service).1 = .ok true := by
  rw [selectFirst]
  split
  · rcases Service.selectSource_spec (.str sourceId) signals service with ⟨-, hok⟩ | ⟨hnot, -⟩
    · exact hok
    · exact absurd (fun _ => Json.stringable_str sourceId) hnot
  · rfl

/-- A launch selects a source, and then asks the shell to hand its payload over. -/
theorem step_launch (env : Env ι) (s : State ι) (sourceId screenName : JsString)
    (selecting opening : List Service.FileSignal) :
    (step env s (.launch sourceId screenName selecting opening)).system =
      summon env screenName opening
        ⟨(selectFirst sourceId selecting s.system.service).2, s.system.overlay⟩ := by
  have hok := selectFirst_ok sourceId selecting s.system.service
  simp only [step]
  generalize selectFirst sourceId selecting s.system.service = outcome at hok ⊢
  obtain ⟨selected, service⟩ := outcome
  obtain rfl : selected = .ok true := hok
  rfl

/-- The desktop refines the service and the overlay. -/
def toSystem (env : Env ι) : Machine.Refinement (machine env) (System.machine env.toEnv) where
  abs s := s.system
  events s
    | .system event => [event]
    | .panel _ (.changed sourceId signals) => [.select (.str sourceId) signals]
    | .panel i (.triggered signals) =>
      launchEvents env (s.panels i).pendingScreenName signals s.system
    | .panel _ _ => []
    | .launch sourceId screenName selecting opening =>
      (if sourceId ≠ [] then [.select (.str sourceId) selecting] else []) ++
        launchEvents env screenName opening
          ⟨(selectFirst sourceId selecting s.system.service).2, s.system.overlay⟩
  init s hs := by
    cases hs
    rfl
  enables s event henabled := by
    cases event with
    | system event => exact ⟨henabled, trivial⟩
    | panel i event =>
      cases event with
      | changed sourceId signals => exact ⟨henabled.2, trivial⟩
      | triggered signals => exact henabled.2
      | _ => trivial
    | launch sourceId screenName selecting opening =>
      obtain ⟨hselect, hlaunch⟩ := henabled
      by_cases hid : sourceId = []
      · simpa only [selectFirst, hid, ne_eq, not_true_eq_false, if_false, List.nil_append]
          using hlaunch
      · simp only [selectFirst, ne_eq, hid, not_false_eq_true, if_true] at hlaunch ⊢
        exact ⟨hselect hid, hlaunch⟩
  step s event _ := by
    cases event with
    | system event => rfl
    | panel i event =>
      cases event with
      | triggered signals => exact summon_eq _ _ _ _
      | _ => rfl
    | launch sourceId screenName selecting opening =>
      change (step env s _).system = _
      rw [step_launch, summon_eq, Machine.run_append]
      by_cases hid : sourceId = []
      · simp only [selectFirst, hid, ne_eq, not_true_eq_false, if_false]
        rfl
      · simp only [selectFirst, ne_eq, hid, not_false_eq_true, if_true]
        rfl

end Desktop
