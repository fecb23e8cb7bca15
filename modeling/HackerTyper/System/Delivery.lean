import HackerTyper.Foundations.Refinement
import HackerTyper.Service.LastSignal
import HackerTyper.System

/-!
# What the service holds

Whatever the overlay does, the service only ever sees selections and the signals of its file
view: the two components together refine the service, and what holds of the runs of the service
holds of the runs of both.

## Main definitions

* `serviceEvents`: what an event does to the service;
* `toService`: the two components refine the service;
* `delivered`: the signals about the selected source.

## Main results

* `isLast_of_reachable`: the last of these signals determines the service.
-/

namespace System

open Js HackerTyperModel SourceCatalog

/-- What an event does to the service. -/
def serviceEvents : Event → List Service.Event
  | .openSession payload signals =>
    -- `if (service && payload.sourceId) service.selectSource(payload.sourceId)`
    match (parsePayload payload).member? (js "sourceId") with
    | some sourceId => if sourceId.truthy then [.select sourceId signals] else []
    | none => []
  | .select sourceId signals => [.select sourceId signals]
  | .signal signal => [.signal signal]
  | _ => []

/-! ## The service of the two components -/

/-- An opening hands over what `requestSource` leaves of the service. -/
theorem service_openSession (payload : JsString) (signals : List Service.FileSignal)
    (service : Service.State) (st : Overlay.State) :
    (Overlay.openSession payload signals (some service) st).2.1 =
      (Overlay.requestSource (parsePayload payload) signals (some service)).2 := by
  rw [Overlay.openSession]
  rcases Overlay.requestSource (parsePayload payload) signals (some service) with
    ⟨selected, service'⟩
  cases selected with
  | ok => cases Overlay.requestedScreen (parsePayload payload) <;> rfl
  | throw e => rfl
  | div => rfl

theorem run_serviceEvents_openSession (env : Env) (s : State) (payload : JsString)
    (signals : List Service.FileSignal) :
    (step env s (.openSession payload signals)).service =
      (Service.machine env.service).run s.service
        (serviceEvents (.openSession payload signals)) := by
  simp only [step, afterOverlay, service_openSession, Overlay.requestSource, serviceEvents]
  cases (parsePayload payload).member? (js "sourceId") with
  | none => rfl
  | some sourceId =>
    simp only
    split <;> rfl

/-- The payload of `toggle` names no source. -/
theorem service_toggle (env : Env) (s : State) (signals : List Service.FileSignal) :
    (step env s (.toggle signals)).service = s.service := by
  by_cases hopened : s.overlay.opened = true
  · rw [step_toggle_of_opened env hopened]
    rfl
  · rw [step_toggle_of_not_opened env hopened]
    simp only [step, afterOverlay, service_openSession]
    rfl

/-- The two components refine the service. -/
def toService (env : Env) :
    Machine.Refinement (machine env) (Service.machine env.service) where
  abs s := s.service
  events _ event := serviceEvents event
  init s hs := by
    cases hs
    rfl
  enables s event henabled := by
    cases event with
    | openSession payload signals =>
      have hpath : ∀ signal ∈ signals, signal.path = _ := henabled
      rw [run_serviceEvents_openSession] at hpath
      rw [serviceEvents]
      rw [serviceEvents] at hpath
      split
      next sourceId hsourceId =>
        rw [hsourceId] at hpath
        split
        next htruthy =>
          simp only [if_pos htruthy] at hpath
          exact ⟨hpath, trivial⟩
        next => trivial
      next => trivial
    | select sourceId signals => exact ⟨henabled, trivial⟩
    | signal signal => exact ⟨henabled, trivial⟩
    | _ => trivial
  step s event _ := by
    cases event with
    | openSession payload signals => exact run_serviceEvents_openSession env s payload signals
    | toggle signals => exact service_toggle env s signals
    | _ => rfl

/-! ## Runs -/

/-- The signals delivered since the selected identifier last changed. -/
def delivered (env : Env) :
    List Service.FileSignal → State → Event → List Service.FileSignal :=
  (toService env).record Service.record

/-- In every run the service is in the state that the last signal since the selection has
left, and every recent signal is about the file of the selected source. -/
theorem isLast_of_reachable {env : Env} {s : State} {recent : List Service.FileSignal}
    (h : ((machine env).observe [] (delivered env)).Reachable (s, recent)) :
    Service.IsLast env.service s.service recent :=
  Service.isLast_of_reachable ((toService env).reachable_observe h)

end System
