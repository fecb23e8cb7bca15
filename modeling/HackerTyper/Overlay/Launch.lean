import HackerTyper.Js.Stringify
import HackerTyper.Overlay
import HackerTyper.Service.Loading

/-!
# Launching

`launch` writes the selected identifier and the name of a screen as JSON, and `open` reads
them back and selects that identifier again. The selected identifier is always that of an
entry of the catalog, so selecting it again changes nothing.

## Main results

* `parsePayload_launchPayload`: the payload reads back as what was written;
* `openSession_launch`: the launched session shows the source that was selected.
-/

namespace Overlay

open Js HackerTyperModel SourceCatalog

/-- The overlay reads the payload that the service has written. -/
theorem parsePayload_launchPayload (screenName : JsString) (service : Service.State) :
    parsePayload (Service.launchPayload screenName service) =
      .obj [(js "sourceId", .str service.selectedSourceId),
        (js "screenName", .str screenName)] := by
  -- the payload is not empty, so it is not replaced
  have hne : Service.launchPayload screenName service ≠ [] := by
    have hbrace : js "\x7b" ≠ [] := by decide
    simp [Service.launchPayload, Json.stringify, hbrace]
  have hnames : ([(js "sourceId", service.selectedSourceId), (js "screenName", screenName)].map
      Prod.fst).Nodup := (by decide : [js "sourceId", js "screenName"].Nodup)
  rw [parsePayload, if_neg hne, Service.launchPayload, Json.parse_stringify hnames]
  rfl

/-- The payload of a launch hands the selected source to the service again, which keeps
everything. -/
theorem requestSource_launchPayload {service : Service.State} {source : Source}
    (hsource : source ∈ sources) (hid : service.selectedSourceId = source.id)
    (screenName : JsString) (signals : List Service.FileSignal) :
    requestSource (parsePayload (Service.launchPayload screenName service)) signals
      (some service) = (.ok (), some service) := by
  have hmember : Json.member? (js "sourceId")
      (parsePayload (Service.launchPayload screenName service)) = some (.str source.id) := by
    rw [parsePayload_launchPayload, hid]
    rfl
  have htruthy : (Json.str source.id).truthy = true := by
    simpa [Json.truthy] using id_ne_nil_of_mem_sources hsource
  -- the source that is looked up is selected already
  have hselect : Service.selectSource (.str source.id) signals service =
      (.ok true, service) := by
    rw [Service.selectSource, sourceById_of_mem_sources hsource]
    simp [hid]
  simp [requestSource, hmember, htruthy, hselect]

/-- Opening with the payload of a launch keeps the selection, the text and the error of the
service, and starts a session on the screen that was named. -/
theorem openSession_launch {env : Service.Env} {service : Service.State}
    (hservice : (Service.machine env).Reachable service)
    {screenName pluginId payload : JsString}
    (hlaunch : (Service.launch env screenName service).2 = some (pluginId, payload))
    (signals : List Service.FileSignal) (st : State) :
    ∃ st', openSession payload signals (some service) st = (.ok (), some service, st') ∧
      st'.targetScreenName = screenName ∧ Fresh st' := by
  obtain ⟨source, hsource, hid⟩ := Service.exists_source_of_reachable hservice
  -- the payload handed over is that of the selected source
  have hpayload : payload = Service.launchPayload screenName service := by
    rw [Service.launch] at hlaunch
    split at hlaunch
    · cases hlaunch
      rfl
    · cases hlaunch
  have hscreen : requestedScreen (parsePayload payload) = .ok screenName := by
    rw [hpayload, parsePayload_launchPayload]
    exact Json.stringOrEmpty_str screenName
  refine ⟨freshSession screenName st, ?_, rfl, fresh_freshSession screenName st⟩
  rw [openSession, hscreen, hpayload, requestSource_launchPayload hsource hid screenName signals]

/-- A launch on a screen whose name contains a quote, before anything else happened. -/
theorem openSession_launch_quote :
    ∃ st', openSession (Service.launchPayload (js "DP-\"1") Service.initial) []
        (some Service.initial) initial = (.ok (), some Service.initial, st') ∧
      st'.targetScreenName = js "DP-\"1" ∧ Fresh st' := by
  let env : Service.Env := ⟨some fun _ _ => true, some ⟨js "hackertyper", none⟩, []⟩
  have hservice : (Service.machine env).Reachable Service.initial := .init rfl
  have hlaunch : (Service.launch env (js "DP-\"1") Service.initial).2 = some
      (js "hackertyper", Service.launchPayload (js "DP-\"1") Service.initial) := rfl
  exact openSession_launch hservice hlaunch [] initial

end Overlay
