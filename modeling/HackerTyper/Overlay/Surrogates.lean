import HackerTyper.Js.Utf16
import HackerTyper.Overlay.Session

/-!
# Half characters

The position is an offset of code units, which no key keeps out of the middle of a surrogate
pair. From the start of the text it moves in steps, and from the end of the text it moves back
in steps, so that it gets to the offsets a number of steps away from the one or the other, and
to all of them.

## Main definitions

* `Reached`: the offsets that typing and deleting get to.

## Main results

* `reached_foldl`, `exists_keys_of_reached`: keys get to these offsets, and to each of them;
* `revealed_of_openSession`: when what is shown ends with half a character.
-/

namespace Overlay

open Js HackerTyperModel History

/-- An offset in a text that is a number of steps away from its start or its end. -/
def Reached (step : ℤ) (length : ℕ) (p : ℤ) : Prop :=
  0 ≤ p ∧ p ≤ length ∧ (step ∣ p ∨ step ∣ length - p)

theorem one_le_stepSize (amount : ℤ) : 1 ≤ stepSize amount := le_max_left _ _

/-- Typing moves the position by the step or to the end of the text. -/
theorem advance_eq_min {p : ℤ} (hp : 0 ≤ p) (amount : ℤ) (length : ℕ) :
    advance p amount length = min (length : ℤ) (p + stepSize amount) := by
  have hstep := one_le_stepSize amount
  rw [advance, clamp, max_eq_right (Int.natCast_nonneg length)]
  omega

/-- Deleting moves the position back by the step or to the start of the text. -/
theorem retreat_eq_max {p : ℤ} {length : ℕ} (hp : p ≤ length) (amount : ℤ) :
    retreat p amount length = max 0 (p - stepSize amount) := by
  have hstep := one_le_stepSize amount
  rw [retreat, clamp, max_eq_right (Int.natCast_nonneg length)]
  omega

/-! ## The offsets that are reached -/

/-- Typing a key leads from an offset that is reached to another one. -/
theorem reached_advance {p : ℤ} {amount : ℤ} {length : ℕ}
    (h : Reached (stepSize amount) length p) :
    Reached (stepSize amount) length (advance p amount length) := by
  obtain ⟨hpos, hle, hdvd⟩ := h
  have hstep := one_le_stepSize amount
  rw [advance_eq_min hpos]
  by_cases hend : length ≤ p + stepSize amount
  · -- typing stops at the end
    rw [min_eq_left hend]
    exact ⟨by omega, le_rfl, Or.inr (by simp)⟩
  · rw [min_eq_right (by omega)]
    refine ⟨by omega, by omega, hdvd.imp (fun h => Int.dvd_add h (Int.dvd_refl _)) fun h => ?_⟩
    rw [← Int.sub_sub]
    exact Int.dvd_sub h (Int.dvd_refl _)

/-- Going back leads from an offset that is reached to another one. -/
theorem reached_retreat {p : ℤ} {amount : ℤ} {length : ℕ}
    (h : Reached (stepSize amount) length p) :
    Reached (stepSize amount) length (retreat p amount length) := by
  obtain ⟨hpos, hle, hdvd⟩ := h
  have hstep := one_le_stepSize amount
  rw [retreat_eq_max hle]
  by_cases hstart : p - stepSize amount ≤ 0
  · -- deleting stops at the start
    rw [max_eq_left hstart]
    exact ⟨le_rfl, by omega, Or.inl (Int.dvd_zero _)⟩
  · rw [max_eq_right (by omega)]
    refine ⟨by omega, by omega, hdvd.imp (fun h => Int.dvd_sub h (Int.dvd_refl _)) fun h => ?_⟩
    rw [show length - (p - stepSize amount) = length - p + stepSize amount by omega]
    exact Int.dvd_add h (Int.dvd_refl _)

/-- A key keeps the position among the offsets that are reached. -/
theorem reached_handleKey {text : JsString} {st : State}
    (h : Reached (stepSize st.charactersPerKey) text.length st.progress) (env : Env)
    (e : KeyEvent) :
    Reached (stepSize st.charactersPerKey) text.length (handleKey env text st e).progress := by
  rw [handleKey_progress]
  split
  · exact reached_retreat h
  split
  · exact reached_advance h
  · exact h

/-- Every sequence of keys gets to one of these offsets. -/
theorem reached_foldl {text : JsString} {st : State} (h : st.progress = 0) (env : Env)
    (keys : List KeyEvent) :
    Reached (stepSize st.charactersPerKey) text.length
      (keys.foldl (handleKey env text) st).progress := by
  refine (foldl_induction (fun _ (st' : State) => Reached (stepSize st.charactersPerKey)
    text.length st'.progress ∧ st'.charactersPerKey = st.charactersPerKey) ⟨?_, rfl⟩ ?_ keys).1
  · rw [h]
    exact ⟨le_rfl, Int.natCast_nonneg _, Or.inl (Int.dvd_zero _)⟩
  · rintro _ st' e ⟨hreached, hcharacters⟩
    rw [← hcharacters] at hreached ⊢
    exact ⟨reached_handleKey hreached env e, handleKey_charactersPerKey env text st' e⟩

/-! ## Every one of them is reached -/

/-- A key that types. -/
def typingKey : KeyEvent := ⟨.other 65, false, 38⟩

/-- The Backspace key. -/
def backspaceKey : KeyEvent := ⟨.backspace, false, 22⟩

/-- No run of keys changes the step. -/
theorem foldl_charactersPerKey (env : Env) (text : JsString) (st : State) (keys : List KeyEvent) :
    (keys.foldl (handleKey env text) st).charactersPerKey = st.charactersPerKey := by
  induction keys generalizing st with
  | nil => rfl
  | cons e keys ih =>
    rw [List.foldl_cons, ih, handleKey_charactersPerKey]

/-- A typed key advances by the step, up to the end of the text. -/
theorem handleKey_typingKey {text : JsString} {st : State} (hpos : 0 ≤ st.progress)
    (hle : st.progress ≤ text.length) (env : Env) :
    (handleKey env text st typingKey).progress =
      min (text.length : ℤ) (st.progress + stepSize st.charactersPerKey) := by
  have hstep := one_le_stepSize st.charactersPerKey
  have hrole : typingKey.role = .typing := by decide
  rw [handleKey_progress, hrole, if_neg (by decide), ← advance_eq_min hpos]
  by_cases hlength : 0 < text.length
  · rw [if_pos ⟨rfl, hlength⟩]
  · -- an empty text has only one offset
    rw [if_neg fun h => hlength h.2, advance_eq_min hpos]
    omega

/-- Backspace goes back by the step, down to the beginning of the text. -/
theorem handleKey_backspaceKey {text : JsString} {st : State}
    (hle : st.progress ≤ text.length) (env : Env) :
    (handleKey env text st backspaceKey).progress =
      max 0 (st.progress - stepSize st.charactersPerKey) := by
  have hrole : backspaceKey.role = .backspace := by decide
  rw [handleKey_progress, hrole, if_pos rfl, retreat_eq_max hle]

/-- Typing any number of times from the start. -/
theorem progress_replicate_typingKey {text : JsString} {st : State} (h : st.progress = 0)
    (env : Env) (n : ℕ) :
    ((List.replicate n typingKey).foldl (handleKey env text) st).progress =
      min (text.length : ℤ) (n * stepSize st.charactersPerKey) := by
  induction n with
  | zero =>
    rw [List.replicate_zero, List.foldl_nil, h]
    simp
  | succ n ih =>
    have hstep := one_le_stepSize st.charactersPerKey
    have hmul : 0 ≤ (n : ℤ) * stepSize st.charactersPerKey :=
      Int.mul_nonneg (Int.natCast_nonneg n) (by omega)
    rw [List.replicate_succ', List.foldl_append, List.foldl_cons, List.foldl_nil,
      handleKey_typingKey (by omega) (by omega), foldl_charactersPerKey, ih, Int.natCast_succ,
      Int.add_mul, Int.one_mul]
    omega

/-- Deleting any number of times from the end. -/
theorem progress_replicate_backspaceKey {text : JsString} {st : State}
    (h : st.progress = text.length) (env : Env) (n : ℕ) :
    ((List.replicate n backspaceKey).foldl (handleKey env text) st).progress =
      max 0 (text.length - n * stepSize st.charactersPerKey) := by
  induction n with
  | zero =>
    rw [List.replicate_zero, List.foldl_nil, h]
    simp
  | succ n ih =>
    have hstep := one_le_stepSize st.charactersPerKey
    have hmul : 0 ≤ (n : ℤ) * stepSize st.charactersPerKey :=
      Int.mul_nonneg (Int.natCast_nonneg n) (by omega)
    rw [List.replicate_succ', List.foldl_append, List.foldl_cons, List.foldl_nil,
      handleKey_backspaceKey (by omega), foldl_charactersPerKey, ih, Int.natCast_succ,
      Int.add_mul, Int.one_mul]
    omega

/-- A number of steps, where it is not negative. -/
theorem exists_eq_mul_of_dvd {step p : ℤ} (hstep : 1 ≤ step) (hp : 0 ≤ p) (h : step ∣ p) :
    ∃ n : ℕ, p = n * step := by
  obtain ⟨a, rfl⟩ := h
  have ha : 0 ≤ a := Int.nonneg_of_mul_nonneg_right hp (by omega)
  exact ⟨a.toNat, by rw [Int.toNat_of_nonneg ha, Int.mul_comm]⟩

/-- Typing and Backspace keys get to each of these offsets. -/
theorem exists_keys_of_reached {text : JsString} {st : State} (h : st.progress = 0) (env : Env)
    {p : ℤ} (hp : Reached (stepSize st.charactersPerKey) text.length p) :
    ∃ keys : List KeyEvent, (∀ e ∈ keys, moves e) ∧
      (keys.foldl (handleKey env text) st).progress = p := by
  have hstep := one_le_stepSize st.charactersPerKey
  have htyping : ∀ n, ∀ e ∈ List.replicate n typingKey, moves e := fun n =>
    List.forall_mem_replicate.mpr (Or.inr (by decide))
  have hbackspace : ∀ n, ∀ e ∈ List.replicate n backspaceKey, moves e := fun n =>
    List.forall_mem_replicate.mpr (Or.inr (by decide))
  obtain ⟨hpos, hle, hdvd | hdvd⟩ := hp
  · -- so many steps from the start
    obtain ⟨n, hn⟩ := exists_eq_mul_of_dvd hstep hpos hdvd
    refine ⟨List.replicate n typingKey, htyping n, ?_⟩
    rw [progress_replicate_typingKey h, ← hn]
    omega
  · -- to the end, and so many steps back
    obtain ⟨n, hn⟩ := exists_eq_mul_of_dvd hstep (by omega) hdvd
    have hend : ((List.replicate text.length typingKey).foldl (handleKey env text) st).progress =
        text.length := by
      have hmul : (text.length : ℤ) * 1 ≤ text.length * stepSize st.charactersPerKey :=
        Int.mul_le_mul_of_nonneg_left hstep (Int.natCast_nonneg _)
      rw [progress_replicate_typingKey h]
      omega
    refine ⟨List.replicate text.length typingKey ++ List.replicate n backspaceKey,
      List.forall_mem_append.mpr ⟨htyping _, hbackspace n⟩, ?_⟩
    rw [List.foldl_append, progress_replicate_backspaceKey hend, foldl_charactersPerKey, ← hn]
    omega

/-! ## What is shown -/

/-- After an opening, what is shown of a well-formed text ends with half a character where the
position splits a pair, and has no other fault. It is well-formed after all sequences of
typing and Backspace keys exactly if no pair is split at an offset that is reached. -/
theorem revealed_of_openSession {payload : JsString} {signals : List Service.FileSignal}
    {service service' : Option Service.State} {st st₀ : State}
    (hopen : openSession payload signals service st = (.ok (), service', st₀)) {text : JsString}
    (htext : WellFormed text) (env : Env) :
    (∀ keys : List KeyEvent, let st' := keys.foldl (handleKey env text) st₀
      splitsPair text st'.progress.toNat = false ∧ WellFormed (revealed text st') ∨
        splitsPair text st'.progress.toNat = true ∧ ∃ whole high,
          revealed text st' = whole ++ [high] ∧ WellFormed whole ∧ Json.isHighSurrogate high) ∧
      ((∀ keys : List KeyEvent, (∀ e ∈ keys, moves e) →
          WellFormed (revealed text (keys.foldl (handleKey env text) st₀))) ↔
        ∀ p, Reached (stepSize st₀.charactersPerKey) text.length p →
          splitsPair text p.toNat = false) := by
  have hfresh : st₀.progress = 0 := (fresh_of_openSession hopen).progress
  refine ⟨fun keys => wellFormed_take_cases htext _, fun h p hp => ?_, fun h keys _ => ?_⟩
  · -- some keys get to the offset
    obtain ⟨keys, hmoves, rfl⟩ := exists_keys_of_reached hfresh env hp
    exact (wellFormed_take_iff htext _).mp (h keys hmoves)
  · exact (wellFormed_take_iff htext _).mpr (h _ (reached_foldl hfresh env keys))

/-- One key shows the first half of a pair. -/
theorem not_wellFormed_revealed :
    openSession [] [] none initial = (.ok (), none, freshSession [] initial) ∧
      WellFormed (js "ab😀") ∧ moves typingKey ∧
      ¬WellFormed (revealed (js "ab😀")
        ([typingKey].foldl (handleKey ⟨true, none⟩ (js "ab😀")) (freshSession [] initial))) := by
  have hwellFormed : WellFormed (js "ab😀") := ⟨_, rfl⟩
  refine ⟨by decide +kernel, hwellFormed, by decide, fun h => ?_⟩
  have hsplit := (wellFormed_take_iff hwellFormed _).mp h
  exact absurd hsplit (by decide +kernel)

/-- A text in which keys of three units split a pair. -/
theorem revealed_of_openSession_pair :
    (∀ keys : List KeyEvent,
      let st' := keys.foldl (handleKey ⟨true, none⟩ (js "ab😀")) (freshSession [] initial)
      splitsPair (js "ab😀") st'.progress.toNat = false ∧ WellFormed (revealed (js "ab😀") st') ∨
        splitsPair (js "ab😀") st'.progress.toNat = true ∧ ∃ whole high,
          revealed (js "ab😀") st' = whole ++ [high] ∧ WellFormed whole ∧
            Json.isHighSurrogate high) ∧
      ((∀ keys : List KeyEvent, (∀ e ∈ keys, moves e) → WellFormed (revealed (js "ab😀")
          (keys.foldl (handleKey ⟨true, none⟩ (js "ab😀")) (freshSession [] initial)))) ↔
        ∀ p, Reached (stepSize 3) (js "ab😀").length p →
          splitsPair (js "ab😀") p.toNat = false) := by
  have hopen : openSession [] [] none initial = (.ok (), none, freshSession [] initial) := by
    decide +kernel
  exact revealed_of_openSession hopen ⟨_, rfl⟩ ⟨true, none⟩

end Overlay
