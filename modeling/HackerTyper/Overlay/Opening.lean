import HackerTyper.Overlay

/-!
# Opening with any payload

A payload comes from outside and may be anything. `open` takes what it cannot parse for an
empty object, but it converts two members of an object to strings, and a member that is an
object with a member `toString` of its own cannot be converted. The conversion then throws out
of `open`, after the source was already switched if the member is the name of the screen.

## Main results

* `openSession_fresh_iff`: exactly the payloads with convertible members start a session.
-/

namespace Overlay

open Js HackerTyperModel

/-- An opening completes with a fresh session exactly when the members of the payload that it
converts can be converted. -/
theorem openSession_fresh_iff (payloadJson : JsString) (signals : List Service.FileSignal)
    (service : Option Service.State) (st : State) :
    (∃ service' st', openSession payloadJson signals service st = (.ok (), service', st') ∧
      Fresh st') ↔ Convertible service (parsePayload payloadJson) := by
  rcases openSession_spec payloadJson signals service st with
    ⟨hpayload, service', screenName, hopen⟩ | ⟨hpayload, service', hopen⟩
  · exact iff_of_true ⟨service', _, hopen, fresh_freshSession screenName st⟩ hpayload
  · -- an opening that throws does not complete
    refine iff_of_false ?_ hpayload
    rintro ⟨service'', st', hok, -⟩
    rw [hopen] at hok
    cases hok

/-- A name of the screen that hides `toString` switches the source and leaves a session that
was under way as it was. -/
theorem not_fresh_of_hidden_toString :
    openSession
        (js "\x7b\"sourceId\":\"packet-engine\",\"screenName\":\x7b\"toString\":0\x7d\x7d")
        [] (some Service.initial) { initial with opened := true, progress := 3 } =
      (.throw .typeError, some ⟨js "packet-engine", [], []⟩,
        { initial with opened := true, progress := 3 }) ∧
    ¬Fresh { initial with opened := true, progress := 3 } :=
  ⟨by decide +kernel, fun h => absurd h.progress (by decide)⟩

end Overlay
