import HackerTyper.Foundations.History
import HackerTyper.Overlay

/-!
# A typing session

After an opening, the keys determine the session. Every event plays one role, decided by the
order in which `handleKey` asks: the counters count the presses of Alt and Caps Lock, the
message is that of the last three presses completed since an Escape, the position follows the
typing and the Backspace events alone, and the first Escape without a message dismisses.

## Main definitions

* `KeyEvent.role`, `presses`: the role of an event, and how often a role was pressed;
* `completes`: the message whose third press an event is;
* `position`: the position after the events that move it;
* `FollowsHistory`: the state a history leads to.

## Main results

* `handleKey_eq`: what `handleKey` does in each role;
* `followsHistory_step`: one more event;
* `followsHistory_of_openSession`: every session follows its history.
-/

namespace Overlay

open Js HackerTyperModel History

/-- The role of a key event. -/
inductive Role
  /-- Clears the message or dismisses. -/
  | escape
  /-- Counts towards the access message. -/
  | alt
  /-- Counts towards the denial message. -/
  | capsLock
  /-- Does nothing. -/
  | modifier
  /-- Moves the position back. -/
  | backspace
  /-- Moves the position forward. -/
  | typing
deriving DecidableEq, Repr

/-- The role of a key event: the first that fits. -/
def KeyEvent.role (e : KeyEvent) : Role :=
  if e.key = .escape then .escape
  else if e.key = .alt then .alt
  else if e.key = .capsLock ∨ e.nativeScanCode = 66 then .capsLock
  else if isModifierOnly e.key then .modifier
  else if e.key = .backspace then .backspace
  else .typing

/-- An event of a role that is not a repetition. -/
def isPress (role : Role) (e : KeyEvent) : Bool := e.role = role ∧ !e.isAutoRepeat

/-- How often a role was pressed. -/
def presses (role : Role) (keys : List KeyEvent) : ℕ := keys.countP (isPress role)

/-- The message that an event completes three presses of, after the events `past`. -/
def completes (past : List KeyEvent) (e : KeyEvent) : AccessState :=
  if isPress .alt e ∧ presses .alt (past ++ [e]) % 3 = 0 then .granted
  else if isPress .capsLock e ∧ presses .capsLock (past ++ [e]) % 3 = 0 then .denied
  else .none

/-- Three presses were completed since the last Escape. -/
def TripleSinceEscape : List KeyEvent → Prop :=
  Since (fun _ x => x.role ≠ .escape) fun past e => completes past e ≠ .none

/-- Three presses for a message were completed since the last Escape, and none after them. -/
def LastTriple (message : AccessState) : List KeyEvent → Prop :=
  Since (fun past x => x.role ≠ .escape ∧ completes past x = .none)
    fun past e => completes past e = message

/-- An Escape before which no three presses were completed since the Escape before it. -/
def Dismisses (past : List KeyEvent) (e : KeyEvent) : Prop :=
  e.role = .escape ∧ ¬TripleSinceEscape past

/-- Whether an event moves the position. -/
def moves (e : KeyEvent) : Bool := e.role = .typing ∨ e.role = .backspace

/-- The position in a text of length `length` after the events that move it. -/
def position (step : ℤ) (length : ℕ) (keys : List KeyEvent) : ℤ :=
  (keys.filter moves).foldl (fun progress e =>
    if e.role = .backspace then clamp (progress - step) 0 length
    else clamp (progress + step) 0 length) 0

/-- The state that a history of keys leads to, where keys move the position by `step` in a
text of length `length`. -/
structure FollowsHistory (step : ℤ) (length : ℕ) (keys : List KeyEvent) (st : State) : Prop where
  /-- The presses of Alt are counted modulo three. -/
  accessCount : st.accessCount = presses .alt keys % 3
  /-- The presses of Caps Lock are counted modulo three. -/
  deniedCount : st.deniedCount = presses .capsLock keys % 3
  /-- There is a message if three presses were completed since the last Escape. -/
  accessState : st.accessState ≠ .none ↔ TripleSinceEscape keys
  /-- The message is that of the last three presses. -/
  message : ∀ message, message ≠ .none → (st.accessState = message ↔ LastTriple message keys)
  /-- The position is in the text. -/
  progress_mem : 0 ≤ st.progress ∧ st.progress ≤ length
  /-- The position is moved by the typing and Backspace events alone. -/
  progress : st.progress = position step length keys
  /-- The session lasts until the first Escape that dismisses. -/
  opened : st.opened = true ↔ ¬Once Dismisses keys

/-! ## One key -/

/-- What `handleKey` does in each role. -/
theorem handleKey_eq (env : Env) (text : JsString) (st : State) (e : KeyEvent) :
    handleKey env text st e =
      match e.role with
      | .escape =>
        if st.accessState ≠ .none then { st with accessState := .none } else dismiss env st
      | .alt =>
        if e.isAutoRepeat then st
        else if 3 ≤ st.accessCount + 1 then setAccessState .granted { st with accessCount := 0 }
        else { st with accessCount := st.accessCount + 1 }
      | .capsLock =>
        if e.isAutoRepeat then st
        else if 3 ≤ st.deniedCount + 1 then setAccessState .denied { st with deniedCount := 0 }
        else { st with deniedCount := st.deniedCount + 1 }
      | .modifier => st
      | .backspace =>
        wakeCursor { st with progress := retreat st.progress st.charactersPerKey text.length }
      | .typing =>
        if 0 < text.length then
          wakeCursor { st with progress := advance st.progress st.charactersPerKey text.length }
        else wakeCursor st := by
  rw [handleKey, KeyEvent.role]
  -- the roles in the order in which `handleKey` asks for them
  by_cases hescape : e.key = .escape
  · simp only [if_pos hescape]
  by_cases halt : e.key = .alt
  · simp only [if_neg hescape, if_pos halt]
    cases e.isAutoRepeat <;> simp
  by_cases hcaps : e.key = .capsLock ∨ e.nativeScanCode = 66
  · simp only [if_neg hescape, if_neg halt, if_pos hcaps]
    cases e.isAutoRepeat <;> simp
  by_cases hmodifier : isModifierOnly e.key
  · simp only [if_neg hescape, if_neg halt, if_neg hcaps, if_pos hmodifier]
  by_cases hbackspace : e.key = .backspace
  · simp only [if_neg hescape, if_neg halt, if_neg hcaps, if_neg hmodifier, if_pos hbackspace]
  · simp only [if_neg hescape, if_neg halt, if_neg hcaps, if_neg hmodifier, if_neg hbackspace]
    split <;> rfl

section Fields

variable (env : Env) (text : JsString) (st : State) (e : KeyEvent)

/-- What a key does to the count of Alt presses. -/
theorem handleKey_accessCount :
    (handleKey env text st e).accessCount =
      if isPress .alt e then if 3 ≤ st.accessCount + 1 then 0 else st.accessCount + 1
      else st.accessCount := by
  rw [handleKey_eq]
  cases hrole : e.role <;> cases hrepeat : e.isAutoRepeat <;>
    simp [isPress, hrole, hrepeat, setAccessState, wakeCursor, dismiss_eq,
      apply_ite State.accessCount]

/-- What a key does to the count of CapsLock presses. -/
theorem handleKey_deniedCount :
    (handleKey env text st e).deniedCount =
      if isPress .capsLock e then if 3 ≤ st.deniedCount + 1 then 0 else st.deniedCount + 1
      else st.deniedCount := by
  rw [handleKey_eq]
  cases hrole : e.role <;> cases hrepeat : e.isAutoRepeat <;>
    simp [isPress, hrole, hrepeat, setAccessState, wakeCursor, dismiss_eq,
      apply_ite State.deniedCount]

/-- What a key does to the message. -/
theorem handleKey_accessState :
    (handleKey env text st e).accessState =
      if e.role = .escape then .none
      else if isPress .alt e ∧ 3 ≤ st.accessCount + 1 then .granted
      else if isPress .capsLock e ∧ 3 ≤ st.deniedCount + 1 then .denied
      else st.accessState := by
  rw [handleKey_eq]
  cases hrole : e.role <;> cases hrepeat : e.isAutoRepeat <;>
    simp [isPress, hrole, hrepeat, setAccessState, wakeCursor, dismiss_eq,
      apply_ite State.accessState]

/-- What a key does to the position. -/
theorem handleKey_progress :
    (handleKey env text st e).progress =
      if e.role = .backspace then retreat st.progress st.charactersPerKey text.length
      else if e.role = .typing ∧ 0 < text.length then
        advance st.progress st.charactersPerKey text.length
      else st.progress := by
  rw [handleKey_eq]
  cases hrole : e.role <;>
    simp [setAccessState, wakeCursor, dismiss_eq, apply_ite State.progress]

/-- Only Escape closes the overlay, and only without a message. -/
theorem handleKey_opened :
    (handleKey env text st e).opened =
      if e.role = .escape ∧ st.accessState = .none then false else st.opened := by
  rw [handleKey_eq]
  cases hrole : e.role <;>
    simp [setAccessState, wakeCursor, dismiss_eq, apply_ite State.opened]

theorem handleKey_charactersPerKey :
    (handleKey env text st e).charactersPerKey = st.charactersPerKey := by
  rw [handleKey_eq]
  cases hrole : e.role <;>
    simp [setAccessState, wakeCursor, dismiss_eq, apply_ite State.charactersPerKey]

end Fields

/-! ## One more key of a history -/

theorem presses_concat (role : Role) (keys : List KeyEvent) (e : KeyEvent) :
    presses role (keys ++ [e]) = presses role keys + if isPress role e then 1 else 0 := by
  rw [presses, List.countP_append, List.countP_singleton, presses]

theorem completes_of_escape {e : KeyEvent} (h : e.role = .escape) (past : List KeyEvent) :
    completes past e = .none := by
  simp [completes, isPress, h]

/-- A counter modulo three after one more event. -/
theorem count_step {role : Role} {keys : List KeyEvent} {count : ℤ} (e : KeyEvent)
    (h : count = presses role keys % 3) :
    (if isPress role e then if 3 ≤ count + 1 then 0 else count + 1 else count) =
      presses role (keys ++ [e]) % 3 := by
  rw [presses_concat]
  split
  · -- a press at two resets the counter, which is the next multiple of three
    split <;> omega
  · simpa using h

/-- An event completes three presses when its counter is at two. -/
theorem completes_eq {keys : List KeyEvent} {accessCount deniedCount : ℤ}
    (haccess : accessCount = presses .alt keys % 3)
    (hdenied : deniedCount = presses .capsLock keys % 3) (e : KeyEvent) :
    completes keys e =
      if isPress .alt e ∧ 3 ≤ accessCount + 1 then .granted
      else if isPress .capsLock e ∧ 3 ≤ deniedCount + 1 then .denied
      else .none := by
  -- the number of presses is a multiple of three when the counter was at two
  have hiff : ∀ role (count : ℤ), count = presses role keys % 3 →
      (isPress role e ∧ presses role (keys ++ [e]) % 3 = 0 ↔ isPress role e ∧ 3 ≤ count + 1) := by
    intro role count hcount
    refine and_congr_right fun hpress => ?_
    rw [presses_concat, if_pos hpress]
    omega
  simp only [completes, hiff .alt accessCount haccess, hiff .capsLock deniedCount hdenied]

theorem position_concat (step : ℤ) (length : ℕ) (keys : List KeyEvent) (e : KeyEvent) :
    position step length (keys ++ [e]) =
      if e.role = .backspace then clamp (position step length keys - step) 0 length
      else if e.role = .typing then clamp (position step length keys + step) 0 length
      else position step length keys := by
  rw [position, List.filter_append, List.foldl_append, ← position]
  cases hrole : e.role <;> simp [moves, hrole]

section Step

variable {step : ℤ} {text : JsString} {keys : List KeyEvent} {st : State}
  (h : FollowsHistory step text.length keys st) (env : Env) (e : KeyEvent)

include h

/-- The message after one more event. -/
theorem accessState_step :
    (handleKey env text st e).accessState =
      if e.role = .escape then .none
      else if completes keys e ≠ .none then completes keys e else st.accessState := by
  rw [handleKey_accessState, completes_eq h.accessCount h.deniedCount]
  split
  · rfl
  split
  · simp
  split <;> simp

/-- A key keeps that there is a message exactly after a triple that Escape has not followed. -/
theorem accessState_ne_none_step :
    (handleKey env text st e).accessState ≠ .none ↔ TripleSinceEscape (keys ++ [e]) := by
  rw [accessState_step h, TripleSinceEscape, since_concat]
  by_cases hescape : e.role = .escape
  · simp [hescape, completes_of_escape hescape]
  · have hold := h.accessState
    rw [TripleSinceEscape] at hold
    -- an event that completes nothing leaves the message
    by_cases hcompletes : completes keys e = .none
    · simpa [hescape, hcompletes] using hold
    · simp [hescape, hcompletes]

/-- A key keeps that the message is that of the last triple. -/
theorem accessState_eq_step {message : AccessState} (hmessage : message ≠ .none) :
    (handleKey env text st e).accessState = message ↔ LastTriple message (keys ++ [e]) := by
  rw [accessState_step h, LastTriple, since_concat]
  by_cases hescape : e.role = .escape
  · simp [hescape, completes_of_escape hescape, hmessage.symm]
  · have hold := h.message message hmessage
    rw [LastTriple] at hold
    -- an event that completes nothing leaves the message
    by_cases hcompletes : completes keys e = .none
    · simpa [hescape, hcompletes, hmessage.symm] using hold
    · simp [hescape, hcompletes]

/-- A key keeps that the overlay is open as long as nothing has dismissed it. -/
theorem opened_step :
    (handleKey env text st e).opened = true ↔ ¬Once Dismisses (keys ++ [e]) := by
  -- there is a message exactly when an Escape would clear it
  have hnone : st.accessState = .none ↔ ¬TripleSinceEscape keys := by
    rw [← h.accessState, not_not]
  rw [handleKey_opened, once_concat, Dismisses, ← hnone]
  -- only an Escape without a message dismisses
  by_cases hdismiss : e.role = .escape ∧ st.accessState = .none
  · simp [hdismiss]
  · simp only [hdismiss, if_false, or_false]
    exact h.opened

/-- A key keeps that the position is the clamped sum of the steps. -/
theorem progress_step (hstep : 1 ≤ step) (hcharacters : st.charactersPerKey = step) :
    (handleKey env text st e).progress = position step text.length (keys ++ [e]) := by
  rw [handleKey_progress, position_concat, hcharacters, retreat_eq hstep, advance_eq hstep,
    h.progress]
  by_cases hbackspace : e.role = .backspace
  · simp [hbackspace]
  by_cases htyping : e.role = .typing
  · by_cases hlength : 0 < text.length
    · simp [htyping, hlength]
    · -- in an empty text there is only one position
      have hpos := h.progress_mem
      have hclamp := clamp_mem (position step text.length keys + step)
        (Int.natCast_nonneg text.length)
      rw [h.progress] at hpos
      simp only [htyping, hlength, and_false, if_false, reduceCtorEq, if_true]
      omega
  · simp [hbackspace, htyping]

/-- One more event. -/
theorem followsHistory_step (hstep : 1 ≤ step) (hcharacters : st.charactersPerKey = step) :
    FollowsHistory step text.length (keys ++ [e]) (handleKey env text st e) where
  accessCount := (handleKey_accessCount env text st e).trans (count_step e h.accessCount)
  deniedCount := (handleKey_deniedCount env text st e).trans (count_step e h.deniedCount)
  accessState := accessState_ne_none_step h env e
  message _ hmessage := accessState_eq_step h env e hmessage
  progress_mem := by
    have hlength := Int.natCast_nonneg text.length
    rw [handleKey_progress, hcharacters, retreat_eq hstep, advance_eq hstep]
    split
    · exact clamp_mem _ hlength
    split
    · exact clamp_mem _ hlength
    · exact h.progress_mem
  progress := progress_step h env e hstep hcharacters
  opened := opened_step h env e

end Step

/-! ## A session -/

/-- A fresh session has no history. -/
theorem followsHistory_nil {st : State} (h : Fresh st) (step : ℤ) (length : ℕ) :
    FollowsHistory step length [] st where
  accessCount := by rw [h.accessCount]; rfl
  deniedCount := by rw [h.deniedCount]; rfl
  accessState := iff_of_false (fun hne => hne h.accessState) not_since_nil
  message message hmessage :=
    iff_of_false (fun heq => hmessage (heq.symm.trans h.accessState)) not_since_nil
  progress_mem := by rw [h.progress]; omega
  progress := h.progress
  opened := iff_of_true h.opened not_once_nil

/-- The keys after an opening determine the session, while the text stays the same. -/
theorem followsHistory_of_openSession {payload : JsString} {signals : List Service.FileSignal}
    {service service' : Option Service.State} {st st₀ : State}
    (hopen : openSession payload signals service st = (.ok (), service', st₀))
    (hstep : 1 ≤ st₀.charactersPerKey) (env : Env) (text : JsString) (keys : List KeyEvent) :
    FollowsHistory st₀.charactersPerKey text.length keys
      (keys.foldl (handleKey env text) st₀) := by
  have hfresh : Fresh st₀ := fresh_of_openSession hopen
  refine (foldl_induction (fun keys st =>
    FollowsHistory st₀.charactersPerKey text.length keys st ∧
      st.charactersPerKey = st₀.charactersPerKey) ⟨followsHistory_nil hfresh _ _, rfl⟩ ?_ keys).1
  rintro keys st e ⟨h, hcharacters⟩
  exact ⟨followsHistory_step h env e hstep hcharacters,
    (handleKey_charactersPerKey env text st e).trans hcharacters⟩

/-- Three presses of Alt, a character, and two presses of Escape. -/
theorem followsHistory_of_openSession_granted :
    FollowsHistory 3 4
      [⟨.alt, false, 56⟩, ⟨.alt, false, 56⟩, ⟨.alt, true, 56⟩, ⟨.alt, false, 56⟩,
        ⟨.other 65, false, 30⟩, ⟨.escape, false, 1⟩, ⟨.escape, false, 1⟩]
      (List.foldl (handleKey ⟨true, none⟩ (js "main")) (freshSession [] initial)
        [⟨.alt, false, 56⟩, ⟨.alt, false, 56⟩, ⟨.alt, true, 56⟩, ⟨.alt, false, 56⟩,
          ⟨.other 65, false, 30⟩, ⟨.escape, false, 1⟩, ⟨.escape, false, 1⟩]) := by
  have hopen : openSession [] [] none initial = (.ok (), none, freshSession [] initial) := by
    decide +kernel
  exact followsHistory_of_openSession hopen (by decide) ⟨true, none⟩ (js "main") _

end Overlay
