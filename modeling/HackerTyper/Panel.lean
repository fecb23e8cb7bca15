import HackerTyper.Service

/-!
# The panel

The panel of `Panel.qml`, which opens from the bar: a list of languages and a button that
launches. The functions are written on an explicit state. What is drawn is left out, and so is
whether the panel is shown, which the component it is built on keeps.

## Main definitions

* `Panel.Env`, `Panel.State`: what surrounds the panel, and its properties;
* `languageOptions`: the entries of the list;
* `opened`, `moveCursor`, `activateCursor`, `screenName`, `launchSelected`: the functions;
* `Event` and `handle`: the handlers that touch the panel alone.

## Main results

* `cursorIndex_handle`: the cursor stays on the list or on the button;
* `value_handle`: the handlers leave the value of the list alone;
* `launchDelay_handle`: a running timer holds the name of the screen.
-/

namespace Panel

open Js HackerTyperModel SourceCatalog

/-- What surrounds a panel. -/
structure Env where
  /-- The name of the screen of the bar, if there is a bar with a screen. -/
  barScreen : Option JsString
  /-- The name of the screen of the window that the panel is anchored to, if there is one. -/
  windowScreen : Option JsString
deriving DecidableEq, Repr

/-- The properties of a panel that change. -/
structure State where
  /-- What the keyboard is on. -/
  cursorIndex : ℤ
  /-- The screen to launch on. -/
  pendingScreenName : JsString
  /-- Whether the timer `launchDelay` is running. -/
  launchDelay : Bool
  /-- The value of `languageDropdown`. -/
  value : JsString
deriving DecidableEq, Repr

/-- A panel before anything happens. -/
def initial : State := ⟨0, [], false, Service.initial.selectedSourceId⟩

/-- The index of the button. -/
def launchIndex : ℤ := 1

/-- The values and the labels of the list. -/
def languageOptions : List (JsString × JsString) :=
  sources.map fun source => (source.id, source.language)

/-- `open()`, without showing the panel. -/
def opened (st : State) : State := { st with cursorIndex := 0 }

/-- `moveCursor(delta)`. -/
def moveCursor (delta : ℤ) (st : State) : State :=
  { st with cursorIndex := max 0 (min launchIndex (st.cursorIndex + delta)) }

/-- `screenName()`. -/
def screenName (env : Env) : JsString :=
  match env.barScreen with
  | some name => name
  | none => env.windowScreen.getD []

/-- `launchSelected()`, without hiding the panel. -/
def launchSelected (env : Env) (hacker : Option Service.State) (st : State) : State :=
  -- `if (!hacker || !hacker.sourceText) return`
  if (hacker.map Service.State.sourceText).getD [] = [] then st
  else { st with pendingScreenName := screenName env, launchDelay := true }

/-- `activateCursor()`, without opening the list. -/
def activateCursor (env : Env) (hacker : Option Service.State) (st : State) : State :=
  match hacker with
  | none => st
  | some _ => if st.cursorIndex = launchIndex then launchSelected env hacker st else st

/-- What can happen to a panel. -/
inductive Event
  /-- `open()`. -/
  | opened
  /-- `onMoveRequested(dx, dy)`. -/
  | moveRequested (dx dy : ℤ)
  /-- `onActivateRequested()`. -/
  | activateRequested
  /-- `onTabRequested(direction)`. -/
  | tabRequested (direction : ℤ)
  /-- `onHovered(isHovered)` of the list. -/
  | hovered (isHovered : Bool)
  /-- `onClicked` of the button. -/
  | clicked
  /-- `onChanged(sourceId)` of the list, during which the file view may deliver signals. -/
  | changed (sourceId : JsString) (signals : List Service.FileSignal)
  /-- The end of `launchDelay`. The overlay may select a source, and then the file view may
  deliver signals. -/
  | triggered (signals : List Service.FileSignal)
deriving DecidableEq

/-- What an event does to the panel itself. -/
def handle (env : Env) (hacker : Option Service.State) (st : State) : Event → State
  | .opened => opened st
  | .moveRequested _ dy =>
    if dy < 0 then moveCursor (-1) st else if 0 < dy then moveCursor 1 st else st
  | .activateRequested => activateCursor env hacker st
  | .tabRequested direction => moveCursor direction st
  | .hovered isHovered => if isHovered then { st with cursorIndex := 0 } else st
  | .clicked => launchSelected env hacker { st with cursorIndex := launchIndex }
  | .changed _ _ => { st with cursorIndex := 0 }
  -- a timer that does not repeat stops
  | .triggered _ => { st with launchDelay := false }

/-- The panel launches: the event calls `launchSelected`, and a text is loaded. -/
def Requests (hacker : Option Service.State) (st : State) (event : Event) : Prop :=
  (event = .clicked ∨ event = .activateRequested ∧ st.cursorIndex = launchIndex) ∧
    (hacker.map Service.State.sourceText).getD [] ≠ []

instance (hacker : Option Service.State) (st : State) (event : Event) :
    Decidable (Requests hacker st event) :=
  inferInstanceAs (Decidable (_ ∧ _))

section Handle

variable (env : Env) (hacker : Option Service.State) (st : State) (event : Event)

/-- The cursor stays on the list or on the button. -/
theorem cursorIndex_handle (h : st.cursorIndex = 0 ∨ st.cursorIndex = launchIndex) :
    (handle env hacker st event).cursorIndex = 0 ∨
      (handle env hacker st event).cursorIndex = launchIndex := by
  have hmove : ∀ delta, (moveCursor delta st).cursorIndex = 0 ∨
      (moveCursor delta st).cursorIndex = launchIndex := by
    intro delta
    simp only [moveCursor, launchIndex]
    omega
  have hlaunch : ∀ st, (launchSelected env hacker st).cursorIndex = st.cursorIndex := by
    intro st
    rw [launchSelected]
    split <;> rfl
  cases event with
  | opened => exact Or.inl rfl
  | moveRequested dx dy =>
    rw [handle]
    split
    · exact hmove (-1)
    split
    · exact hmove 1
    · exact h
  | activateRequested =>
    cases hacker with
    | none => exact h
    | some service =>
      rw [handle, activateCursor]
      split
      · rwa [hlaunch]
      · exact h
  | tabRequested direction => exact hmove direction
  | hovered isHovered =>
    rw [handle]
    split
    · exact Or.inl rfl
    · exact h
  | clicked => exact Or.inr (hlaunch _)
  | changed sourceId signals => exact Or.inl rfl
  | triggered signals => exact h

/-- The list keeps its value. -/
theorem value_handle : (handle env hacker st event).value = st.value := by
  have hlaunch : ∀ st, (launchSelected env hacker st).value = st.value := by
    intro st
    rw [launchSelected]
    split <;> rfl
  cases event with
  | moveRequested dx dy =>
    rw [handle]
    split
    · rfl
    split <;> rfl
  | activateRequested =>
    cases hacker with
    | none => rfl
    | some service =>
      rw [handle, activateCursor]
      split
      · exact hlaunch st
      · rfl
  | hovered isHovered =>
    rw [handle]
    split <;> rfl
  | clicked => exact hlaunch _
  | _ => rfl

/-- A request starts the timer with the name of the screen, and its end stops it. -/
theorem launchDelay_handle :
    (handle env hacker st event).launchDelay =
        (if Requests hacker st event then true
        else if event matches .triggered _ then false else st.launchDelay) ∧
      (handle env hacker st event).pendingScreenName =
        if Requests hacker st event then screenName env else st.pendingScreenName := by
  have hlaunch : ∀ st, (launchSelected env hacker st).launchDelay =
        (if (hacker.map Service.State.sourceText).getD [] ≠ [] then true else st.launchDelay) ∧
      (launchSelected env hacker st).pendingScreenName =
        if (hacker.map Service.State.sourceText).getD [] ≠ [] then screenName env
        else st.pendingScreenName := by
    intro st
    rw [launchSelected]
    by_cases htext : (hacker.map Service.State.sourceText).getD [] = [] <;> simp [htext]
  cases event with
  | moveRequested dx dy =>
    have hmove : handle env hacker st (.moveRequested dx dy) = st ∨
        ∃ delta, handle env hacker st (.moveRequested dx dy) = moveCursor delta st := by
      rw [handle]
      split
      · exact Or.inr ⟨_, rfl⟩
      split
      · exact Or.inr ⟨_, rfl⟩
      · exact Or.inl rfl
    rcases hmove with heq | ⟨delta, heq⟩ <;> simp [heq, Requests, moveCursor]
  | activateRequested =>
    cases hacker with
    | none => simp [handle, activateCursor, Requests]
    | some service =>
      rw [handle, activateCursor]
      by_cases hindex : st.cursorIndex = launchIndex
      · simpa [hindex, Requests] using hlaunch st
      · simp [hindex, Requests]
  | clicked => simpa [handle, Requests] using hlaunch { st with cursorIndex := launchIndex }
  | hovered isHovered => cases isHovered <;> simp [handle, Requests]
  | _ => simp [handle, Requests, opened, moveCursor]

end Handle

end Panel
