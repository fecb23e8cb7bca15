import HackerTyper.Overlay.Screen
import HackerTyper.System

/-!
# The access card

Keys come with file signals, selections and ticks of the cursor between them, and the overlay is
also closed and opened by others. What the card says, and whether the overlay is shown, is a
matter of the keys and the closings since the last opening that completed, and of nothing else.

## Main definitions

* `Gesture`: a key, or a closing that no key has caused;
* `gestures`: the gestures since the last opening that completed;
* `LastMessage`: three presses for a message were completed, and nothing has cleared it;
* `FollowsGestures`: the counters, the message and the visibility that gestures lead to.

## Main results

* `followsGestures_key`, `followsGestures_hide`: one more gesture;
* `followsGestures_step`: every step;
* `accessCard_of_reachable`: the card in every run.
-/

namespace System

open Js HackerTyperModel History Overlay

/-- What moves the access card. -/
inductive Gesture
  /-- A key event. -/
  | key (event : KeyEvent)
  /-- A call of `close` or `dismiss`. -/
  | hide
deriving DecidableEq, Repr

/-- The keys among the gestures. -/
def keysOf (past : List Gesture) : List KeyEvent :=
  past.filterMap fun
    | .key event => some event
    | .hide => none

/-- Whether a gesture clears the message. -/
def clears : Gesture → Bool
  | .key event => event.role = .escape
  | .hide => true

/-- The message that a gesture completes three presses of, after the gestures `past`. -/
def completed (past : List Gesture) : Gesture → AccessState
  | .key event => completes (keysOf past) event
  | .hide => .none

/-- Three presses for a message were completed, and since then no message was cleared or
completed. -/
def LastMessage (message : AccessState) : List Gesture → Prop :=
  Since (fun past x => clears x = false ∧ completed past x = .none)
    fun past x => completed past x = message

/-- A closing, or an Escape without a message to clear. -/
def Ends (past : List Gesture) : Gesture → Prop
  | .key event => event.role = .escape ∧ ∀ message, message ≠ .none → ¬LastMessage message past
  | .hide => True

/-- The gestures since the last opening that completed. -/
def gestures (past : List Gesture) (s : State) : Event → List Gesture
  | .openSession payload signals =>
    if (Overlay.openSession payload signals (some s.service) s.overlay).1 = .ok () then []
    else past
  | .close => past ++ [.hide]
  | .dismiss => past ++ [.hide]
  | .toggle _ => if s.overlay.opened then past ++ [.hide] else []
  | .key event => past ++ [.key event]
  | _ => past

/-- The overlay as the gestures since the last opening leave it. -/
structure FollowsGestures (past : List Gesture) (st : Overlay.State) : Prop where
  /-- The presses of Alt are counted modulo three. -/
  accessCount : st.accessCount = presses .alt (keysOf past) % 3
  /-- The presses of Caps Lock are counted modulo three. -/
  deniedCount : st.deniedCount = presses .capsLock (keysOf past) % 3
  /-- The message is the last one that is not cleared. -/
  message : ∀ message, message ≠ .none → (st.accessState = message ↔ LastMessage message past)
  /-- The overlay is shown until a closing, or an Escape without a message. -/
  opened : st.opened = true ↔ ¬Once Ends past

/-! ## One more gesture -/

theorem keysOf_key (past : List Gesture) (event : KeyEvent) :
    keysOf (past ++ [.key event]) = keysOf past ++ [event] := by
  rw [keysOf, List.filterMap_append, ← keysOf]
  rfl

theorem keysOf_hide (past : List Gesture) : keysOf (past ++ [.hide]) = keysOf past := by
  rw [keysOf, List.filterMap_append, ← keysOf]
  exact List.append_nil _

/-- There is no message where none has been completed since the last one was cleared. -/
theorem FollowsGestures.accessState_eq_none_iff {past : List Gesture} {st : Overlay.State}
    (h : FollowsGestures past st) :
    st.accessState = .none ↔ ∀ message, message ≠ .none → ¬LastMessage message past := by
  constructor
  · intro hnone message hmessage hlast
    exact hmessage (((h.message message hmessage).mpr hlast).symm.trans hnone)
  · intro hlast
    by_contra hne
    exact hlast _ hne ((h.message _ hne).mp rfl)

/-- The message after a key. -/
theorem FollowsGestures.accessState_key {past : List Gesture} {st : Overlay.State}
    (h : FollowsGestures past st) (env : Overlay.Env) (text : JsString) (event : KeyEvent) :
    (handleKey env text st event).accessState =
      if clears (.key event) then .none
      else if completed past (.key event) ≠ .none then completed past (.key event)
      else st.accessState := by
  rw [handleKey_accessState, completed, completes_eq h.accessCount h.deniedCount]
  by_cases hescape : event.role = .escape
  · simp [clears, hescape]
  · simp only [clears, hescape, decide_false, if_false, Bool.false_eq_true]
    split
    · simp
    split <;> simp

/-- A key, while any text is shown. -/
theorem followsGestures_key {past : List Gesture} {st : Overlay.State}
    (h : FollowsGestures past st) (env : Overlay.Env) (text : JsString) (event : KeyEvent) :
    FollowsGestures (past ++ [.key event]) (handleKey env text st event) := by
  refine ⟨?_, ?_, fun message hmessage => ?_, ?_⟩
  · rw [keysOf_key]
    exact (handleKey_accessCount env text st event).trans (count_step event h.accessCount)
  · rw [keysOf_key]
    exact (handleKey_deniedCount env text st event).trans (count_step event h.deniedCount)
  · have hold := h.message message hmessage
    rw [LastMessage] at hold
    rw [h.accessState_key, LastMessage, since_concat]
    cases hclears : clears (.key event) with
    | true =>
      -- an Escape completes nothing
      have hnone : completed past (.key event) = .none :=
        completes_of_escape (of_decide_eq_true hclears) _
      simp [hnone, hmessage.symm]
    | false =>
      -- a key that completes nothing leaves the message
      by_cases hcompleted : completed past (.key event) = .none
      · simpa [hcompleted, hmessage.symm] using hold
      · simp [hcompleted]
  · rw [handleKey_opened, once_concat, Ends, ← h.accessState_eq_none_iff]
    -- only an Escape without a message ends the session
    by_cases hdismiss : event.role = .escape ∧ st.accessState = .none
    · simp [hdismiss]
    · simp only [hdismiss, if_false, or_false]
      exact h.opened

/-- A closing, which leaves the counters. -/
theorem followsGestures_hide {past : List Gesture} {st st' : Overlay.State}
    (h : FollowsGestures past st) (haccess : st'.accessCount = st.accessCount)
    (hdenied : st'.deniedCount = st.deniedCount) (hstate : st'.accessState = .none)
    (hopened : st'.opened = false) : FollowsGestures (past ++ [.hide]) st' := by
  refine ⟨?_, ?_, fun message hmessage => ?_, ?_⟩
  · rw [keysOf_hide, haccess, h.accessCount]
  · rw [keysOf_hide, hdenied, h.deniedCount]
  · rw [hstate, LastMessage, since_concat]
    simp [clears, completed, hmessage.symm]
  · rw [hopened, once_concat, Ends]
    simp

/-- A session that has just started has no gestures. -/
theorem followsGestures_nil {st : Overlay.State} (h : Fresh st) : FollowsGestures [] st where
  accessCount := by rw [h.accessCount]; rfl
  deniedCount := by rw [h.deniedCount]; rfl
  message message hmessage :=
    iff_of_false (fun heq => hmessage (heq.symm.trans h.accessState)) not_since_nil
  opened := iff_of_true h.opened not_once_nil

/-! ## The steps -/

/-- An opening starts a new session, or throws and leaves everything. -/
theorem followsGestures_openSession {env : Env} {s : State} {past : List Gesture}
    (h : FollowsGestures past s.overlay) (payload : JsString)
    (signals : List Service.FileSignal) :
    FollowsGestures (gestures past s (.openSession payload signals))
      (step env s (.openSession payload signals)).overlay := by
  simp only [step, afterOverlay, gestures]
  rcases Overlay.openSession_spec payload signals (some s.service) s.overlay with
    ⟨-, service', screenName, heq⟩ | ⟨-, service', heq⟩
  · rw [heq, if_pos rfl]
    exact followsGestures_nil (fresh_freshSession screenName s.overlay)
  · rw [heq, if_neg (by simp)]
    exact h

/-- Every step leaves the overlay as the gestures make it. -/
theorem followsGestures_step {env : Env} {s : State} {past : List Gesture}
    (h : FollowsGestures past s.overlay) (event : Event) :
    FollowsGestures (gestures past s event) (step env s event).overlay := by
  cases event with
  | openSession payload signals => exact followsGestures_openSession h payload signals
  | close => exact followsGestures_hide h rfl rfl rfl rfl
  | dismiss =>
    rw [step, Overlay.dismiss_eq]
    exact followsGestures_hide h rfl rfl rfl rfl
  | toggle signals =>
    rw [gestures]
    by_cases hopened : s.overlay.opened = true
    · rw [if_pos hopened, step_toggle_of_opened env hopened, step, Overlay.dismiss_eq]
      exact followsGestures_hide h rfl rfl rfl rfl
    · -- the empty payload has nothing to convert
      rw [if_neg hopened, step_toggle_of_not_opened env hopened, step]
      rcases Overlay.openSession_spec (js "\x7b\x7d") signals (some s.service) s.overlay with
        ⟨-, service', screenName, heq⟩ | ⟨hpayload, -⟩
      · rw [heq]
        exact followsGestures_nil (fresh_freshSession screenName s.overlay)
      · exact absurd (convertible_toggle (some s.service)) hpayload
  | key event => exact followsGestures_key h env.overlay s.service.sourceText event
  | select sourceId signals => exact h
  | signal signal => exact h
  | blink => exact ⟨h.accessCount, h.deniedCount, h.message, h.opened⟩

/-! ## The runs -/

/-- Before the first opening the overlay is as after a closing. -/
theorem followsGestures_of_reachable {env : Env} {s : State} {past : List Gesture}
    (h : ((machine env).observe [.hide] gestures).Reachable (s, past)) :
    FollowsGestures past s.overlay := by
  refine h.invariant (fun s => FollowsGestures s.2 s.1.overlay) ?_ ?_
  · rintro ⟨s, past⟩ ⟨hs, hpast⟩
    cases hs
    cases hpast
    have hfresh : Fresh (freshSession [] Overlay.initial) := fresh_freshSession _ _
    exact followsGestures_hide (followsGestures_nil hfresh) rfl rfl rfl rfl
  · rintro ⟨s, past⟩ event - ih -
    exact followsGestures_step ih event

/-- In every run, the access card says what was completed last since the last opening, if
nothing has cleared it, and the overlay is shown until a closing or an Escape without a
message. -/
theorem accessCard_of_reachable {env : Env} {s : State} {past : List Gesture}
    (h : ((machine env).observe [.hide] gestures).Reachable (s, past)) :
    (accessCard s.overlay = some (js "ACCESS GRANTED") ↔ LastMessage .granted past) ∧
      (accessCard s.overlay = some (js "ACCESS DENIED") ↔ LastMessage .denied past) ∧
      (s.overlay.opened = true ↔ ¬Once Ends past) := by
  have hfollows := followsGestures_of_reachable h
  rw [← hfollows.message .granted (by decide), ← hfollows.message .denied (by decide), accessCard]
  refine ⟨?_, ?_, hfollows.opened⟩
  · cases s.overlay.accessState <;> decide
  · cases s.overlay.accessState <;> decide

/-- The state after three presses of Alt, between which the text was loaded. -/
def grantedState : State where
  service := ⟨js "kernel-like", js "int x;", []⟩
  overlay := { Overlay.initial with opened := true, accessState := .granted }

/-- Three presses of Alt, with a file signal between them. -/
theorem accessCard_of_reachable_granted :
    let press : Gesture := .key ⟨.alt, false, 56⟩
    (accessCard grantedState.overlay = some (js "ACCESS GRANTED") ↔
        LastMessage .granted [press, press, press]) ∧
      (accessCard grantedState.overlay = some (js "ACCESS DENIED") ↔
        LastMessage .denied [press, press, press]) ∧
      (grantedState.overlay.opened = true ↔ ¬Once Ends [press, press, press]) := by
  let opening : Event := .openSession (js "\x7b\x7d") []
  let load : Event := .signal (.loaded (js "/p/sources/kernel-like.c") (js "int x;"))
  let alt : Event := .key ⟨.alt, false, 56⟩
  have hinit : ((machine exampleEnv).observe [.hide] gestures).Reachable
      (⟨Service.initial, Overlay.initial⟩, [.hide]) := .init ⟨rfl, rfl⟩
  have hopen := Machine.Reachable.step opening hinit fun _ h => absurd h (by simp)
  have hfirst := Machine.Reachable.step alt hopen trivial
  have hload := Machine.Reachable.step load hfirst (by
    change js "/p/sources/kernel-like.c" = _
    decide +kernel)
  have hthird := Machine.Reachable.step alt (Machine.Reachable.step alt hload trivial) trivial
  have hgranted : ((machine exampleEnv).observe [.hide] gestures).Reachable (grantedState,
      [.key ⟨.alt, false, 56⟩, .key ⟨.alt, false, 56⟩, .key ⟨.alt, false, 56⟩]) := by
    convert hthird using 1
    decide +kernel
  exact accessCard_of_reachable hgranted

end System
