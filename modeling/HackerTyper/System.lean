import HackerTyper.Foundations.Machine
import HackerTyper.Overlay.Session

/-!
# The service and the overlay together

The position in the text lives in the overlay, the text in the service, and both change in any
order. As long as the source is only switched where the position is zero, or by an opening
that completes, what is revealed was typed. `selectSource` itself does not reset the position.

## Main definitions

* `System.Event`, `System.step`, `System.machine`: what can happen to the two components;
* `record`: the typing keys since the last opening and the last change of the source;
* `RevealsOnlyTyped`: what is revealed was typed;
* `Careful`: the steps that keep the position and the text in step.

## Main results

* `bounded_step`: a careful step keeps the position within what was typed;
* `revealsOnlyTyped_of_careful`: in careful runs what is revealed was typed;
* `not_revealsOnlyTyped_of_switch`: a selection that is not careful reveals what was not typed.
-/

namespace System

open Js HackerTyperModel SourceCatalog

/-- What surrounds the two components. -/
structure Env where
  /-- What surrounds the service. -/
  service : Service.Env
  /-- What surrounds the overlay. -/
  overlay : Overlay.Env

/-- The states of the two components. -/
structure State where
  /-- The service. -/
  service : Service.State
  /-- The overlay. -/
  overlay : Overlay.State
deriving DecidableEq, Repr

/-- What can happen. -/
inductive Event
  /-- `open(payload)`, during which the file view may deliver signals. -/
  | openSession (payload : JsString) (signals : List Service.FileSignal)
  /-- `close()`. -/
  | close
  /-- `dismiss()`. -/
  | dismiss
  /-- `toggle()`, during which the file view may deliver signals. -/
  | toggle (signals : List Service.FileSignal)
  /-- A key event. -/
  | key (event : Overlay.KeyEvent)
  /-- `selectSource(sourceId)`, during which the file view may deliver signals. -/
  | select (sourceId : Json) (signals : List Service.FileSignal)
  /-- A signal of the file view. -/
  | signal (signal : Service.FileSignal)
  /-- The timer of the cursor. -/
  | blink

/-- The state after a function of the overlay that may use the service. -/
def afterOverlay (s : State) (outcome : Result Unit × Option Service.State × Overlay.State) :
    State :=
  ⟨outcome.2.1.getD s.service, outcome.2.2⟩

/-- What an event does. -/
def step (env : Env) (s : State) : Event → State
  | .openSession payload signals =>
    afterOverlay s (Overlay.openSession payload signals (some s.service) s.overlay)
  | .close => { s with overlay := Overlay.close s.overlay }
  | .dismiss => { s with overlay := Overlay.dismiss env.overlay s.overlay }
  | .toggle signals =>
    afterOverlay s (Overlay.toggle env.overlay signals (some s.service) s.overlay)
  | .key event =>
    { s with overlay := Overlay.handleKey env.overlay s.service.sourceText s.overlay event }
  | .select sourceId signals =>
    { s with service := (Service.selectSource sourceId signals s.service).2 }
  | .signal signal => { s with service := Service.deliver s.service signal }
  | .blink => { s with overlay := Overlay.onTriggered s.overlay }

/-- The file view delivers signals only about the path it has at that moment. -/
def Enabled (env : Env) (s : State) : Event → Prop
  | .openSession payload signals => ∀ signal ∈ signals,
    signal.path =
      Service.selectedSourcePath env.service (step env s (.openSession payload [])).service
  | .toggle signals => ∀ signal ∈ signals,
    signal.path = Service.selectedSourcePath env.service (step env s (.toggle [])).service
  | .select sourceId signals => ∀ signal ∈ signals,
    signal.path =
      Service.selectedSourcePath env.service (step env s (.select sourceId [])).service
  | .signal signal => signal.path = Service.selectedSourcePath env.service s.service
  | _ => True

/-- The two components, from the start of the shell. -/
def machine (env : Env) : Machine State Event where
  init s := s = ⟨Service.initial, Overlay.initial⟩
  enabled := Enabled env
  step := step env

/-- Whether an event calls `open`. -/
def isOpening (s : State) : Event → Bool
  | .openSession _ _ => true
  | .toggle _ => !s.overlay.opened
  | _ => false

/-- Whether an event is a typing key. -/
def isTyping : Event → Bool
  | .key event => event.role = .typing
  | _ => false

/-- The typing keys since the later of the last opening and the last change of the source. -/
def record (env : Env) (typed : ℕ) (s : State) (event : Event) : ℕ :=
  -- an opening and a change of the source start a new count
  if isOpening s event then 0
  else if (step env s event).service.selectedSourceId ≠ s.service.selectedSourceId then 0
  else if isTyping event then typed + 1
  else typed

/-- What is revealed is no longer than what was typed. -/
def RevealsOnlyTyped (s : State) (typed : ℕ) : Prop :=
  (Overlay.revealed s.service.sourceText s.overlay).length ≤ s.overlay.charactersPerKey * typed

/-- A selection switches to another source only where nothing is revealed, and an opening
whose payload cannot be converted is called only there. -/
def Careful (s : State) : Event → Prop
  | .select sourceId _ => ∀ source, sourceById sources sourceId = .ok (some source) →
    source.id = s.service.selectedSourceId ∨ s.overlay.progress = 0
  | .openSession payload _ =>
    Overlay.Convertible (some s.service) (parsePayload payload) ∨ s.overlay.progress = 0
  | _ => True

/-- The position is within what was typed. -/
structure Bounded (s : State) (typed : ℕ) : Prop where
  /-- Three characters are revealed by a key. -/
  charactersPerKey : s.overlay.charactersPerKey = 3
  /-- The position is not negative. -/
  nonneg : 0 ≤ s.overlay.progress
  /-- The position is at most three times the typing keys. -/
  le : s.overlay.progress ≤ 3 * typed

/-! ## The steps -/

theorem Bounded.of_progress_zero {s : State} (h₁ : s.overlay.charactersPerKey = 3)
    (h₂ : s.overlay.progress = 0) (typed : ℕ) : Bounded s typed :=
  ⟨h₁, h₂.ge, by omega⟩

/-- A position within what was typed reveals no more than that. -/
theorem Bounded.revealsOnlyTyped {s : State} {typed : ℕ} (h : Bounded s typed) :
    RevealsOnlyTyped s typed := by
  have hle := h.le
  have hnonneg := h.nonneg
  rw [RevealsOnlyTyped, h.charactersPerKey, Overlay.revealed, List.length_take]
  omega

/-- A careful opening leaves the position at zero. -/
theorem progress_openSession (env : Env) {s : State} {payload : JsString}
    {signals : List Service.FileSignal}
    (hcareful : Careful s (.openSession payload signals)) :
    (step env s (.openSession payload signals)).overlay.charactersPerKey =
        s.overlay.charactersPerKey ∧
      (step env s (.openSession payload signals)).overlay.progress = 0 := by
  simp only [step, afterOverlay]
  rcases Overlay.openSession_spec payload signals (some s.service) s.overlay with
    ⟨-, service', screenName, heq⟩ | ⟨hpayload, service', heq⟩
  · -- the opening completes and resets the position
    rw [heq]
    exact ⟨rfl, rfl⟩
  · -- the opening throws, and the position was zero
    rw [heq]
    exact ⟨rfl, hcareful.resolve_left hpayload⟩

/-- `toggle` dismisses an overlay that is shown. -/
theorem step_toggle_of_opened (env : Env) {s : State} (hopened : s.overlay.opened = true)
    (signals : List Service.FileSignal) : step env s (.toggle signals) = step env s .dismiss := by
  simp only [step, Overlay.toggle, if_pos hopened]
  rfl

/-- `toggle` opens an overlay that is not shown, with an empty payload. -/
theorem step_toggle_of_not_opened (env : Env) {s : State} (hopened : ¬s.overlay.opened = true)
    (signals : List Service.FileSignal) :
    step env s (.toggle signals) = step env s (.openSession (js "\x7b\x7d") signals) := by
  simp only [step, Overlay.toggle, if_neg hopened]

/-- The payload of `toggle` has nothing to convert. -/
theorem convertible_toggle (service : Option Service.State) :
    Overlay.Convertible service (parsePayload (js "\x7b\x7d")) := by
  have hmember : ∀ key, (parsePayload (js "\x7b\x7d")).member? key = none := fun _ => rfl
  rw [Overlay.Convertible, hmember, hmember]
  simp

/-- A key moves the position by three at most, and forward only when it is a typing key. -/
theorem bounded_handleKey {s : State} {typed : ℕ} (h : Bounded s typed) (env : Env)
    (event : Overlay.KeyEvent) :
    Bounded (step env s (.key event)) (if event.role = .typing then typed + 1 else typed) := by
  have hnonneg := h.nonneg
  have hle := h.le
  have hprogress := Overlay.handleKey_progress env.overlay s.service.sourceText s.overlay event
  rw [h.charactersPerKey, retreat_eq (by omega), advance_eq (by omega), clamp, clamp]
    at hprogress
  have hcharacters : (step env s (.key event)).overlay.charactersPerKey = 3 :=
    (Overlay.handleKey_charactersPerKey _ _ _ event).trans h.charactersPerKey
  refine ⟨hcharacters, ?_, ?_⟩
  · change 0 ≤ (Overlay.handleKey _ _ _ event).progress
    rw [hprogress]
    split
    · omega
    split <;> omega
  · change (Overlay.handleKey _ _ _ event).progress ≤ _
    rw [hprogress]
    split
    next hbackspace =>
      -- back, but not below zero
      rw [if_neg (by simp [hbackspace])]
      omega
    split
    next htyping =>
      -- three forward, for one more typing key
      rw [if_pos htyping.1]
      omega
    next =>
      -- the position stays
      split <;> omega

/-- A careful selection that switches the source is made at position zero. -/
theorem progress_of_careful_select {s : State} {sourceId : Json}
    {signals : List Service.FileSignal} (hcareful : Careful s (.select sourceId signals))
    (hne : (Service.selectSource sourceId signals s.service).2.selectedSourceId ≠
      s.service.selectedSourceId) : s.overlay.progress = 0 := by
  rcases Service.selectSource_cases sourceId signals s.service with ⟨-, heq⟩ |
    ⟨_, -, -, -, heq⟩ | ⟨source, -, hlookup, hid, -⟩
  · rw [heq] at hne
    exact absurd rfl hne
  · rw [heq] at hne
    exact absurd rfl hne
  · exact (hcareful source hlookup).resolve_left fun h => hid h.symm

/-- A careful step keeps the position within what was typed. -/
theorem bounded_step {env : Env} {s : State} {typed : ℕ} {event : Event} (h : Bounded s typed)
    (hcareful : Careful s event) : Bounded (step env s event) (record env typed s event) := by
  cases event with
  | openSession payload signals =>
    obtain ⟨hcharacters, hprogress⟩ := progress_openSession env hcareful
    exact .of_progress_zero (hcharacters.trans h.charactersPerKey) hprogress _
  | close =>
    have hrecord : record env typed s .close = typed := by
      simp [record, isOpening, isTyping, step]
    rw [hrecord]
    exact ⟨h.charactersPerKey, h.nonneg, h.le⟩
  | dismiss =>
    have hrecord : record env typed s .dismiss = typed := by
      simp [record, isOpening, isTyping, step]
    rw [hrecord, step, Overlay.dismiss_eq]
    exact ⟨h.charactersPerKey, h.nonneg, h.le⟩
  | toggle signals =>
    by_cases hopened : s.overlay.opened = true
    · have hrecord : record env typed s (.toggle signals) = typed := by
        rw [record, step_toggle_of_opened env hopened]
        simp [isOpening, isTyping, step, hopened]
      rw [hrecord, step_toggle_of_opened env hopened, step, Overlay.dismiss_eq]
      exact ⟨h.charactersPerKey, h.nonneg, h.le⟩
    · have hopening : Careful s (.openSession (js "\x7b\x7d") signals) :=
        Or.inl (convertible_toggle (some s.service))
      obtain ⟨hcharacters, hprogress⟩ := progress_openSession env hopening
      rw [step_toggle_of_not_opened env hopened]
      exact .of_progress_zero (hcharacters.trans h.charactersPerKey) hprogress _
  | key event =>
    have hrecord : record env typed s (.key event) =
        if event.role = .typing then typed + 1 else typed := by
      simp [record, isOpening, isTyping, step]
    rw [hrecord]
    exact bounded_handleKey h env event
  | select sourceId signals =>
    by_cases hid : (Service.selectSource sourceId signals s.service).2.selectedSourceId =
        s.service.selectedSourceId
    · -- the source stays, and so does the count
      have hrecord : record env typed s (.select sourceId signals) = typed := by
        simp [record, isOpening, isTyping, step, hid]
      rw [hrecord]
      exact ⟨h.charactersPerKey, h.nonneg, h.le⟩
    · -- the source is switched, where nothing is revealed
      exact Bounded.of_progress_zero (s := step env s (.select sourceId signals))
        h.charactersPerKey (progress_of_careful_select (s := s) hcareful hid) _
  | signal signal =>
    have hrecord : record env typed s (.signal signal) = typed := by
      simp [record, isOpening, isTyping, step, Service.deliver_selectedSourceId]
    rw [hrecord]
    exact ⟨h.charactersPerKey, h.nonneg, h.le⟩
  | blink =>
    have hrecord : record env typed s .blink = typed := by
      simp [record, isOpening, isTyping, step]
    rw [hrecord]
    exact ⟨h.charactersPerKey, h.nonneg, h.le⟩

/-! ## The runs -/

/-- In every run whose steps are careful, what is revealed was typed since the last opening
and the last change of the source. -/
theorem revealsOnlyTyped_of_careful {env : Env} {s : State} {typed : ℕ}
    (h : (((machine env).restrict Careful).observe 0 (record env)).Reachable (s, typed)) :
    RevealsOnlyTyped s typed := by
  refine (h.invariant (fun s => Bounded s.1 s.2) ?_ ?_).revealsOnlyTyped
  · rintro ⟨s, typed⟩ ⟨hs, htyped⟩
    cases hs
    cases htyped
    exact .of_progress_zero rfl rfl 0
  · rintro ⟨s, typed⟩ event - ih ⟨-, hcareful⟩
    exact bounded_step ih hcareful

/-- An environment with a manifest. -/
def exampleEnv : Env :=
  ⟨⟨none, some ⟨js "hackertyper", some (js "/p")⟩, []⟩, ⟨false, none⟩⟩

/-- The state after a key in a session with a loaded text. -/
def typedState : State where
  service := ⟨js "kernel-like", js "int x;", []⟩
  overlay := { Overlay.initial with opened := true, progress := 3 }

/-- A careful run opens a session, loads the text and types a key. -/
theorem reachable_typedState :
    (((machine exampleEnv).restrict Careful).observe 0 (record exampleEnv)).Reachable
      (typedState, 1) := by
  let opening : Event := .openSession (js "\x7b\x7d") []
  let load : Event := .signal (.loaded (js "/p/sources/kernel-like.c") (js "int x;"))
  let key : Event := .key ⟨.other 65, false, 30⟩
  have hinit : (((machine exampleEnv).restrict Careful).observe 0
      (record exampleEnv)).Reachable (⟨Service.initial, Overlay.initial⟩, 0) :=
    .init ⟨rfl, rfl⟩
  have hopen := Machine.Reachable.step opening hinit
    ⟨fun _ h => absurd h (by simp), Or.inr rfl⟩
  have hload := Machine.Reachable.step load hopen ⟨by
    change js "/p/sources/kernel-like.c" = _
    decide +kernel, trivial⟩
  have hkey := Machine.Reachable.step key hload ⟨trivial, trivial⟩
  convert hkey using 1
  decide +kernel

/-- In that run three characters were revealed by one key. -/
theorem revealsOnlyTyped_of_careful_typed : RevealsOnlyTyped typedState 1 :=
  revealsOnlyTyped_of_careful reachable_typedState

/-- A selection that switches the source where the position is not zero reveals the beginning
of the other source as soon as it is loaded, though nothing of it was typed. -/
theorem not_revealsOnlyTyped_of_switch (env : Env) {s : State} (typed : ℕ) {sourceId : Json}
    {path text : JsString} (hprogress : 0 < s.overlay.progress)
    (hswitch : (step env s (.select sourceId [])).service.selectedSourceId ≠
      s.service.selectedSourceId)
    (htext : prepareSource text ≠ []) :
    let s' := step env s (.select sourceId [])
    let load : Event := .signal (.loaded path text)
    ¬RevealsOnlyTyped (step env s' load)
      (record env (record env typed s (.select sourceId [])) s' load) := by
  intro s' load hreveals
  have hrecord : record env typed s (.select sourceId []) = 0 := by
    simp [record, isOpening, hswitch]
  -- the load is neither an opening nor a typing key
  have hrecord' : record env 0 s' load = 0 := by
    simp [record, isOpening, isTyping, load, step, Service.deliver_selectedSourceId]
  rw [hrecord, hrecord', RevealsOnlyTyped, Int.natCast_zero, Int.mul_zero, Overlay.revealed,
    List.length_take] at hreveals
  have htext' : (step env s' load).service.sourceText = prepareSource text := rfl
  -- neither the selection nor the load moves the position
  have hprogress' : (step env s' load).overlay.progress = s.overlay.progress := rfl
  rw [htext', hprogress'] at hreveals
  have hlength := List.length_pos_of_ne_nil htext
  omega

/-- Switching the source in the middle of a session reveals the beginning of the other source,
of which nothing was typed. -/
theorem not_revealsOnlyTyped_switched : ∃ s typed,
    ((machine exampleEnv).observe 0 (record exampleEnv)).Reachable (s, typed) ∧
      ¬RevealsOnlyTyped s typed := by
  let select : Event := .select (.str (js "packet-engine")) []
  let load : Event := .signal (.loaded (js "/p/sources/packet-engine.rs") (js "fn main"))
  have htyped := Machine.observe_restrict ▸ reachable_typedState
  have hselect := Machine.Reachable.step select htyped.of_restrict fun _ h => absurd h (by simp)
  have hload := Machine.Reachable.step load hselect (by
    change js "/p/sources/packet-engine.rs" = _
    decide +kernel)
  exact ⟨_, _, hload, not_revealsOnlyTyped_of_switch exampleEnv 1 (by decide)
    (by decide +kernel) (by decide +kernel)⟩

end System
