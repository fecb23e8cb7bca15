import HackerTyper.Service

/-!
# The overlay

The overlay of `HackerTyper.qml`: a session starts with `open`, every key moves the typing
position or counts towards an access message, and Escape ends it. The functions are written on
an explicit state. What is drawn, focused or scrolled is left out.

## Main definitions

* `Overlay.State` and `Overlay.initial`;
* `KeyEvent` and `handleKey`;
* `openSession`, `close`, `dismiss`, `toggle`, `onTriggered`;
* `Fresh`: a session that has just started.

## Main results

* `openSession_spec`: an opening completes and starts a session, or throws.
-/

namespace Overlay

open Js HackerTyperModel

/-- The message about the access. -/
inductive AccessState
  /-- No message, `""`. -/
  | none
  /-- `"granted"`. -/
  | granted
  /-- `"denied"`. -/
  | denied
deriving DecidableEq, Repr

/-- The properties of the overlay that change, and its calls of `shell.hide`. -/
structure State where
  /-- Whether it is shown. -/
  opened : Bool
  /-- The screen it was asked to be shown on. -/
  targetScreenName : JsString
  /-- How much of the source is revealed. -/
  progress : ℤ
  /-- How much a key reveals. -/
  charactersPerKey : ℤ
  /-- Whether the cursor is lit. -/
  cursorVisible : Bool
  /-- How often Alt was pressed since the last message about it. -/
  accessCount : ℤ
  /-- How often Caps Lock was pressed since the last message about it. -/
  deniedCount : ℤ
  /-- The message on the screen. -/
  accessState : AccessState
  /-- The plugins it asked the shell to hide. -/
  hidden : List JsString
deriving DecidableEq, Repr

/-- The overlay before anything happens. -/
def initial : State where
  opened := false
  targetScreenName := []
  progress := 0
  charactersPerKey := 3
  cursorVisible := true
  accessCount := 0
  deniedCount := 0
  accessState := .none
  hidden := []

/-- What surrounds the overlay. -/
structure Env where
  /-- Whether there is a shell with a function `hide`. -/
  canHide : Bool
  /-- The identifier in the manifest, if there is one. -/
  manifestId : Option JsString
deriving DecidableEq, Repr

/-- `(manifest && manifest.id) || "codefriendly.hackertyper"`. -/
def pluginId (env : Env) : JsString :=
  let id := env.manifestId.getD []
  -- an empty identifier is falsy
  if id ≠ [] then id else js "codefriendly.hackertyper"

/-! ## Opening and closing -/

/-- `if (service && payload.sourceId) service.selectSource(payload.sourceId)`, where the
service receives the signals of its file view if it changes the selection. -/
def requestSource (payload : Json) (signals : List Service.FileSignal)
    (service : Option Service.State) : Result Unit × Option Service.State :=
  match service with
  | none => (.ok (), none)
  | some service =>
    match payload.member? (js "sourceId") with
    | none => (.ok (), some service)
    | some sourceId =>
      if sourceId.truthy then
        let (selected, service) := Service.selectSource sourceId signals service
        ((fun _ => ()) <$> selected, some service)
      else (.ok (), some service)

/-- `String(payload.screenName || "")`. -/
def requestedScreen (payload : Json) : Result JsString :=
  match payload.member? (js "screenName") with
  | some screenName => screenName.stringOrEmpty
  | none => .ok []

/-- The overlay at the end of `open`. -/
def freshSession (screenName : JsString) (st : State) : State :=
  { st with
    targetScreenName := screenName
    progress := 0
    accessCount := 0
    deniedCount := 0
    accessState := .none
    cursorVisible := true
    opened := true }

/-- `open(payloadJson)`. When a conversion throws, what was done before it remains. -/
def openSession (payloadJson : JsString) (signals : List Service.FileSignal)
    (service : Option Service.State) (st : State) :
    Result Unit × Option Service.State × State :=
  let payload := parsePayload payloadJson
  match requestSource payload signals service with
  -- `selectSource` throws before it changes anything
  | (.throw e, service) => (.throw e, service, st)
  | (.div, service) => (.div, service, st)
  | (.ok (), service) =>
    match requestedScreen payload with
    -- the source has been selected, but the session is not reset
    | .throw e => (.throw e, service, st)
    | .div => (.div, service, st)
    | .ok screenName => (.ok (), service, freshSession screenName st)

/-- `close()`. -/
def close (st : State) : State := { st with opened := false, accessState := .none }

/-- `dismiss()`. -/
def dismiss (env : Env) (st : State) : State :=
  let st := { st with opened := false, accessState := .none }
  if env.canHide then { st with hidden := st.hidden ++ [pluginId env] } else st

theorem dismiss_eq (env : Env) (st : State) :
    dismiss env st = { st with
      opened := false
      accessState := .none
      hidden := if env.canHide then st.hidden ++ [pluginId env] else st.hidden } := by
  rw [dismiss]
  split <;> rfl

/-- `toggle()`. -/
def toggle (env : Env) (signals : List Service.FileSignal) (service : Option Service.State)
    (st : State) : Result Unit × Option Service.State × State :=
  if st.opened then (.ok (), service, dismiss env st)
  else openSession (js "\x7b\x7d") signals service st

/-- The handler of the cursor's timer. -/
def onTriggered (st : State) : State := { st with cursorVisible := !st.cursorVisible }

/-! ## Keys -/

/-- The keys that are told apart. -/
inductive Key
  | escape
  | alt
  | capsLock
  | shift
  | control
  | metaKey
  | altGr
  | backspace
  /-- Any other key. -/
  | other (code : ℕ)
deriving DecidableEq, Repr

/-- A key event. -/
structure KeyEvent where
  /-- The key. -/
  key : Key
  /-- Whether it repeats because the key is held. -/
  isAutoRepeat : Bool
  /-- The scan code of the keyboard. -/
  nativeScanCode : ℕ
deriving DecidableEq, Repr

/-- `wakeCursor()`. -/
def wakeCursor (st : State) : State := { st with cursorVisible := true }

/-- `setAccessState(nextState)`. -/
def setAccessState (nextState : AccessState) (st : State) : State :=
  wakeCursor { st with accessState := nextState }

/-- `isModifierOnly(key)`. -/
def isModifierOnly (key : Key) : Bool :=
  key = .shift ∨ key = .control ∨ key = .metaKey ∨ key = .altGr

/-- `handleKey(event)`, while the service holds `sourceText`. -/
def handleKey (env : Env) (sourceText : JsString) (st : State) (event : KeyEvent) : State :=
  if event.key = .escape then
    -- the first Escape clears the message
    if st.accessState ≠ .none then { st with accessState := .none } else dismiss env st
  else if event.key = .alt then
    if !event.isAutoRepeat then
      let st := { st with accessCount := st.accessCount + 1 }
      if 3 ≤ st.accessCount then setAccessState .granted { st with accessCount := 0 } else st
    else st
  -- the scan code of Caps Lock, for layouts that remap it
  else if event.key = .capsLock ∨ event.nativeScanCode = 66 then
    if !event.isAutoRepeat then
      let st := { st with deniedCount := st.deniedCount + 1 }
      if 3 ≤ st.deniedCount then setAccessState .denied { st with deniedCount := 0 } else st
    else st
  else if isModifierOnly event.key then st
  else
    let st :=
      if event.key = .backspace then
        { st with progress := retreat st.progress st.charactersPerKey sourceText.length }
      -- without a text, a typing key only wakes the cursor
      else if 0 < sourceText.length then
        { st with progress := advance st.progress st.charactersPerKey sourceText.length }
      else st
    wakeCursor st

/-- `sourceText.substr(0, progress)`. -/
def revealed (sourceText : JsString) (st : State) : JsString := sourceText.take st.progress.toNat

/-! ## What an opening does -/

/-- A session that has just started. -/
structure Fresh (st : State) : Prop where
  /-- It is shown. -/
  opened : st.opened = true
  /-- Nothing is revealed. -/
  progress : st.progress = 0
  /-- Alt was not pressed. -/
  accessCount : st.accessCount = 0
  /-- Caps Lock was not pressed. -/
  deniedCount : st.deniedCount = 0
  /-- There is no message. -/
  accessState : st.accessState = .none
  /-- The cursor is lit. -/
  cursorVisible : st.cursorVisible = true

/-- A new session is fresh. -/
theorem fresh_freshSession (screenName : JsString) (st : State) :
    Fresh (freshSession screenName st) :=
  ⟨rfl, rfl, rfl, rfl, rfl, rfl⟩

/-- The values of a payload that `open` converts to strings can be converted: the identifier
of the source if there is a service, and the name of the screen. -/
def Convertible (service : Option Service.State) (payload : Json) : Prop :=
  (service.isSome → ∀ sourceId ∈ payload.member? (js "sourceId"),
    sourceId.truthy → sourceId.Stringable) ∧
  ∀ screenName ∈ payload.member? (js "screenName"), screenName.truthy → screenName.Stringable

/-- Handing a source to the service returns if the value can be converted, and throws
otherwise. -/
theorem requestSource_spec (payload : Json) (signals : List Service.FileSignal)
    (service : Option Service.State) :
    (service.isSome → ∀ sourceId ∈ payload.member? (js "sourceId"),
        sourceId.truthy → sourceId.Stringable) ∧
      (∃ service', requestSource payload signals service = (.ok (), service')) ∨
    ¬(service.isSome → ∀ sourceId ∈ payload.member? (js "sourceId"),
        sourceId.truthy → sourceId.Stringable) ∧
      requestSource payload signals service = (.throw .typeError, service) := by
  cases service with
  | none => simp [requestSource]
  | some service =>
    simp only [requestSource]
    cases payload.member? (js "sourceId") with
    | none => simp
    | some sourceId =>
      by_cases htruthy : sourceId.truthy = true
      · -- a truthy value is handed over, and converted there
        rcases Service.selectSource_spec sourceId signals service with ⟨hid, hok⟩ | ⟨hid, hthrow⟩
        · left
          have hid := hid htruthy
          simp [htruthy, hid, hok]
        · right
          have hid : ¬sourceId.Stringable := fun h => hid fun _ => h
          simp [htruthy, hid, hthrow]
      · simp [htruthy]

/-- Converting the name of the screen returns if the value can be converted, and throws
otherwise. -/
theorem requestedScreen_spec (payload : Json) :
    (∀ screenName ∈ payload.member? (js "screenName"),
        screenName.truthy → screenName.Stringable) ∧
      (∃ screenName, requestedScreen payload = .ok screenName) ∨
    ¬(∀ screenName ∈ payload.member? (js "screenName"),
        screenName.truthy → screenName.Stringable) ∧
      requestedScreen payload = .throw .typeError := by
  rw [requestedScreen]
  cases payload.member? (js "screenName") with
  | none => simp
  | some screenName =>
    rcases screenName.stringOrEmpty_spec with ⟨hname, s, hs⟩ | ⟨hname, hthrow⟩
    · exact Or.inl ⟨by simpa using hname, s, hs⟩
    · exact Or.inr ⟨by simpa using hname, hthrow⟩

/-- An opening completes and starts a session if the values of the payload can be converted,
and throws and leaves the overlay as it was otherwise. -/
theorem openSession_spec (payloadJson : JsString) (signals : List Service.FileSignal)
    (service : Option Service.State) (st : State) :
    Convertible service (parsePayload payloadJson) ∧
      (∃ service' screenName, openSession payloadJson signals service st =
        (.ok (), service', freshSession screenName st)) ∨
    ¬Convertible service (parsePayload payloadJson) ∧
      ∃ service', openSession payloadJson signals service st =
        (.throw .typeError, service', st) := by
  rw [Convertible, openSession]
  rcases requestSource_spec (parsePayload payloadJson) signals service with
    ⟨hid, service', hselect⟩ | ⟨hid, hselect⟩
  · -- the source is selected, and it depends on the name of the screen
    rcases requestedScreen_spec (parsePayload payloadJson) with ⟨hname, s, hs⟩ | ⟨hname, hthrow⟩
    · exact Or.inl ⟨⟨hid, hname⟩, service', s, by simp only [hselect, hs]⟩
    · exact Or.inr ⟨fun h => hname h.2, service', by simp only [hselect, hthrow]⟩
  · exact Or.inr ⟨fun h => hid h.1, service, by simp only [hselect]⟩

/-- An opening that completes starts a session. -/
theorem fresh_of_openSession {payloadJson : JsString} {signals : List Service.FileSignal}
    {service service' : Option Service.State} {st st₀ : State}
    (hopen : openSession payloadJson signals service st = (.ok (), service', st₀)) :
    Fresh st₀ := by
  rcases openSession_spec payloadJson signals service st with ⟨-, _, screenName, heq⟩ |
    ⟨-, _, heq⟩
  · rw [hopen] at heq
    cases heq
    exact fresh_freshSession screenName st
  · rw [hopen] at heq
    cases heq

end Overlay
