import HackerTyper.System

/-!
# No key is lost

How much is revealed is bounded from below by the keys alone, whatever happens between them:
openings that throw, selections, file signals, dismissals and ticks of the cursor. Every typing
key reveals its characters, up to the end of the text, and every Backspace takes back no more
than that, until an opening or a change of the text starts a new count.

## Main definitions

* `countKeys`: the typing and the Backspace keys since the last opening and the last change of
  the text;
* `Credited`: the position is at least what these keys make it.

## Main results

* `credited_step`: every step keeps the credit;
* `le_length_revealed_of_reachable`: in every run, the keys typed are revealed;
* `revealed_eq_of_typed`: enough typing without a Backspace reveals the whole text.
-/

namespace System

open Js HackerTyperModel

/-- The typing keys and the Backspace keys since the later of the last opening and the last
change of the text. -/
def countKeys (env : Env) (counts : ℕ × ℕ) (s : State) (event : Event) : ℕ × ℕ :=
  if isOpening s event then (0, 0)
  else if (step env s event).service.sourceText ≠ s.service.sourceText then (0, 0)
  else
    match event with
    | .key event =>
      match event.role with
      | .typing => (counts.1 + 1, counts.2)
      | .backspace => (counts.1, counts.2 + 1)
      | _ => counts
    | _ => counts

/-- The position is at least what the counted keys make it. -/
structure Credited (s : State) (counts : ℕ × ℕ) : Prop where
  /-- Three characters are revealed by a key. -/
  charactersPerKey : s.overlay.charactersPerKey = 3
  /-- The position is not negative. -/
  nonneg : 0 ≤ s.overlay.progress
  /-- Every typing key moves the position to the end of the text at most, and every Backspace
  moves it back by three characters at most. -/
  le : min (s.service.sourceText.length : ℤ) (3 * counts.1) ≤ s.overlay.progress + 3 * counts.2

/-! ## The steps -/

/-- With nothing counted, every position will do. -/
theorem Credited.of_zero {s : State} (h₁ : s.overlay.charactersPerKey = 3)
    (h₂ : 0 ≤ s.overlay.progress) : Credited s (0, 0) :=
  ⟨h₁, h₂, by simpa using h₂⟩

/-- Opening keeps the position or resets it. -/
theorem credited_openSession (env : Env) {s : State} {counts : ℕ × ℕ} (h : Credited s counts)
    (payload : JsString) (signals : List Service.FileSignal) :
    Credited (step env s (.openSession payload signals)) (0, 0) := by
  simp only [step, afterOverlay]
  rcases Overlay.openSession_spec payload signals (some s.service) s.overlay with
    ⟨-, service', screenName, heq⟩ | ⟨-, service', heq⟩
  · -- the opening completes
    rw [heq]
    exact .of_zero h.charactersPerKey le_rfl
  · -- the opening throws, and the overlay is left as it was
    rw [heq]
    exact .of_zero h.charactersPerKey h.nonneg

/-- A step of the service that leaves the overlay alone keeps the credit, as a change of the
text starts a new count. -/
theorem Credited.of_overlay_eq {s s' : State} {counts : ℕ × ℕ} (h : Credited s counts)
    (hoverlay : s'.overlay = s.overlay) :
    Credited s' (if s'.service.sourceText ≠ s.service.sourceText then (0, 0) else counts) := by
  split
  next => exact .of_zero (hoverlay ▸ h.charactersPerKey) (hoverlay ▸ h.nonneg)
  next htext =>
    rw [not_ne_iff] at htext
    exact ⟨hoverlay ▸ h.charactersPerKey, hoverlay ▸ h.nonneg, by rw [htext, hoverlay]; exact h.le⟩

/-- A step that leaves the position and the service alone keeps the credit. -/
theorem Credited.of_progress_eq {s s' : State} {counts : ℕ × ℕ} (h : Credited s counts)
    (hservice : s'.service = s.service)
    (hcharacters : s'.overlay.charactersPerKey = s.overlay.charactersPerKey)
    (hprogress : s'.overlay.progress = s.overlay.progress) : Credited s' counts :=
  ⟨hcharacters.trans h.charactersPerKey, hprogress ▸ h.nonneg, by
    rw [hservice, hprogress]
    exact h.le⟩

/-- A typing key is credited, and a Backspace takes back what one typing key reveals. -/
theorem credited_handleKey {env : Env} {s : State} {counts : ℕ × ℕ} (h : Credited s counts)
    (event : Overlay.KeyEvent) :
    Credited (step env s (.key event)) (match event.role with
      | .typing => (counts.1 + 1, counts.2)
      | .backspace => (counts.1, counts.2 + 1)
      | _ => counts) := by
  have hnonneg := h.nonneg
  have hle := h.le
  have hcharacters := Overlay.handleKey_charactersPerKey env.overlay s.service.sourceText
    s.overlay event
  have hprogress := Overlay.handleKey_progress env.overlay s.service.sourceText s.overlay event
  rw [h.charactersPerKey, retreat_eq (by omega), advance_eq (by omega), clamp, clamp]
    at hprogress
  cases hrole : event.role with
  | typing =>
    rw [hrole, if_neg (by decide)] at hprogress
    simp only [true_and] at hprogress
    refine ⟨hcharacters.trans h.charactersPerKey, ?_, ?_⟩
    · change 0 ≤ (Overlay.handleKey _ _ _ event).progress
      rw [hprogress]
      split <;> omega
    · change min (s.service.sourceText.length : ℤ) (3 * (counts.1 + 1 : ℕ)) ≤
        (Overlay.handleKey _ _ _ event).progress + 3 * counts.2
      rw [hprogress]
      -- without a text there is nothing to reveal
      split <;> push_cast <;> omega
  | backspace =>
    rw [hrole, if_pos rfl] at hprogress
    refine ⟨hcharacters.trans h.charactersPerKey, ?_, ?_⟩
    · change 0 ≤ (Overlay.handleKey _ _ _ event).progress
      rw [hprogress]
      omega
    · change min (s.service.sourceText.length : ℤ) (3 * counts.1) ≤
        (Overlay.handleKey _ _ _ event).progress + 3 * (counts.2 + 1 : ℕ)
      rw [hprogress]
      push_cast
      omega
  | escape | alt | capsLock | modifier =>
    rw [hrole, if_neg (by decide), if_neg (by simp)] at hprogress
    exact h.of_progress_eq rfl hcharacters hprogress

/-- Every step keeps the credit. -/
theorem credited_step {env : Env} {s : State} {counts : ℕ × ℕ} (h : Credited s counts)
    (event : Event) : Credited (step env s event) (countKeys env counts s event) := by
  cases event with
  | openSession payload signals => exact credited_openSession env h payload signals
  | toggle signals =>
    by_cases hopened : s.overlay.opened = true
    · have hstep := step_toggle_of_opened env hopened signals
      have hservice : (step env s .dismiss).service = s.service := rfl
      have hcount : countKeys env counts s (.toggle signals) = counts := by
        simp [countKeys, isOpening, hstep, hservice, hopened]
      rw [hcount, hstep, step, Overlay.dismiss_eq]
      exact h.of_progress_eq rfl rfl rfl
    · have hcount : countKeys env counts s (.toggle signals) = (0, 0) := by
        simp [countKeys, isOpening, hopened]
      rw [hcount, step_toggle_of_not_opened env hopened]
      exact credited_openSession env h _ signals
  | key event =>
    have hcount : countKeys env counts s (.key event) = match event.role with
        | .typing => (counts.1 + 1, counts.2)
        | .backspace => (counts.1, counts.2 + 1)
        | _ => counts := by
      simp [countKeys, isOpening, step]
    rw [hcount]
    exact credited_handleKey h event
  | close =>
    have hcount : countKeys env counts s .close = counts := by simp [countKeys, isOpening, step]
    rw [hcount]
    exact h.of_progress_eq rfl rfl rfl
  | dismiss =>
    have hcount : countKeys env counts s .dismiss = counts := by
      simp [countKeys, isOpening, step]
    rw [hcount, step, Overlay.dismiss_eq]
    exact h.of_progress_eq rfl rfl rfl
  | select sourceId signals => exact h.of_overlay_eq rfl
  | signal signal => exact h.of_overlay_eq rfl
  | blink =>
    have hcount : countKeys env counts s .blink = counts := by simp [countKeys, isOpening, step]
    rw [hcount]
    exact h.of_progress_eq rfl rfl rfl

/-! ## The runs -/

/-- In every run, the position is at least what the counted keys make it. -/
theorem credited_of_reachable {env : Env} {s : State} {counts : ℕ × ℕ}
    (h : ((machine env).observe (0, 0) (countKeys env)).Reachable (s, counts)) :
    Credited s counts := by
  refine h.invariant (fun s => Credited s.1 s.2) ?_ ?_
  · rintro ⟨s, counts⟩ ⟨hs, hcounts⟩
    cases hs
    cases hcounts
    exact .of_zero rfl le_rfl
  · rintro ⟨s, counts⟩ event - ih -
    exact credited_step ih event

/-- A credited position reveals at least as much as the typing keys do, less what the Backspace
keys take back. -/
theorem Credited.le_length_revealed {s : State} {typed erased : ℕ}
    (h : Credited s (typed, erased)) :
    min (s.service.sourceText.length : ℤ) (s.overlay.charactersPerKey * typed) ≤
      (Overlay.revealed s.service.sourceText s.overlay).length +
        s.overlay.charactersPerKey * erased := by
  have hnonneg := h.nonneg
  have hle : min (s.service.sourceText.length : ℤ) (3 * typed) ≤
      s.overlay.progress + 3 * erased := h.le
  rw [h.charactersPerKey, Overlay.revealed, List.length_take]
  omega

/-- In every run, at least as much of the text is revealed as the typing keys since the last
opening and the last change of the text reveal, less what the Backspace keys take back. -/
theorem le_length_revealed_of_reachable {env : Env} {s : State} {typed erased : ℕ}
    (h : ((machine env).observe (0, 0) (countKeys env)).Reachable (s, (typed, erased))) :
    min (s.service.sourceText.length : ℤ) (s.overlay.charactersPerKey * typed) ≤
      (Overlay.revealed s.service.sourceText s.overlay).length +
        s.overlay.charactersPerKey * erased :=
  (credited_of_reachable h).le_length_revealed

/-- One key has revealed three of six characters. -/
theorem le_length_revealed_of_reachable_typed :
    min (typedState.service.sourceText.length : ℤ)
        (typedState.overlay.charactersPerKey * (1 : ℕ)) ≤
      (Overlay.revealed typedState.service.sourceText typedState.overlay).length +
        typedState.overlay.charactersPerKey * (0 : ℕ) := by
  let opening : Event := .openSession (js "\x7b\x7d") []
  let load : Event := .signal (.loaded (js "/p/sources/kernel-like.c") (js "int x;"))
  let key : Event := .key ⟨.other 65, false, 30⟩
  have hinit : ((machine exampleEnv).observe (0, 0) (countKeys exampleEnv)).Reachable
      (⟨Service.initial, Overlay.initial⟩, (0, 0)) := .init ⟨rfl, rfl⟩
  have hopen := Machine.Reachable.step opening hinit fun _ h => absurd h (by simp)
  have hload := Machine.Reachable.step load hopen (by
    change js "/p/sources/kernel-like.c" = _
    decide +kernel)
  have hkey := Machine.Reachable.step key hload trivial
  have htyped : ((machine exampleEnv).observe (0, 0) (countKeys exampleEnv)).Reachable
      (typedState, (1, 0)) := by
    convert hkey using 1
    decide +kernel
  exact le_length_revealed_of_reachable htyped

/-- After enough typing without a Backspace the whole text is revealed. -/
theorem revealed_eq_of_typed {env : Env} {s : State} {typed : ℕ}
    (h : ((machine env).observe (0, 0) (countKeys env)).Reachable (s, (typed, 0)))
    (henough : s.service.sourceText.length ≤ s.overlay.charactersPerKey * typed) :
    Overlay.revealed s.service.sourceText s.overlay = s.service.sourceText := by
  have hrevealed := (credited_of_reachable h).le_length_revealed
  rw [Overlay.revealed, List.length_take] at hrevealed
  rw [Overlay.revealed]
  exact List.take_of_length_le (by omega)

end System
