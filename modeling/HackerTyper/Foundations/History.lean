import Mathlib.Data.List.Induction
import Mathlib.Tactic.Common

/-!
# Statements about histories

What has happened is a list of events, the latest one last. Two past-time operators speak
about it: `Once P`, some event satisfied `P` when it happened, and `Since Q P`, some event
satisfied `P` when it happened and all later ones satisfied `Q`. Whether an event satisfies a
predicate may depend on the events before it.

## Main definitions

* `History.Once` and `History.Since`.

## Main results

* `once_concat` and `since_concat`: how they change with one more event;
* `foldl_induction`: what one step preserves holds along a whole history.
-/

namespace History

variable {ε σ : Type*}

/-- Some event satisfied `P` when it happened. -/
def Once (P : List ε → ε → Prop) (h : List ε) : Prop :=
  ∃ past e later, h = past ++ e :: later ∧ P past e

/-- Some event satisfied `P` when it happened, and every later one satisfied `Q` when it
happened. -/
def Since (Q P : List ε → ε → Prop) (h : List ε) : Prop :=
  ∃ past e later, h = past ++ e :: later ∧ P past e ∧
    ∀ between x rest, later = between ++ x :: rest → Q (past ++ e :: between) x

variable {P Q : List ε → ε → Prop}

/-- A place in a history is its last place or one of the places before. -/
theorem concat_eq_append_cons {h past later : List ε} {x e : ε} :
    h ++ [x] = past ++ e :: later ↔
      later = [] ∧ past = h ∧ e = x ∨
        ∃ later', later = later' ++ [x] ∧ h = past ++ e :: later' := by
  cases later using List.reverseRecOn with
  | nil =>
    constructor
    · intro heq
      -- nothing comes later, so `e` is the last event
      obtain ⟨rfl, hx⟩ := List.append_inj' heq rfl
      exact Or.inl ⟨rfl, rfl, (List.singleton_inj.mp hx).symm⟩
    · rintro (⟨-, rfl, rfl⟩ | ⟨later', hnil, -⟩)
      · rfl
      · simp at hnil
  | append_singleton later y _ =>
    constructor
    · intro heq
      -- the last event is the last of the later ones
      rw [← List.cons_append, ← List.append_assoc] at heq
      obtain ⟨rfl, hx⟩ := List.append_inj' heq rfl
      exact Or.inr ⟨later, by rw [List.singleton_inj.mp hx], rfl⟩
    · rintro (⟨hnil, -⟩ | ⟨later', heq, rfl⟩)
      · simp at hnil
      · rw [heq]
        simp

theorem not_once_nil : ¬Once P [] := by
  rintro ⟨past, e, later, h, -⟩
  simp at h

theorem not_since_nil : ¬Since Q P [] := by
  rintro ⟨past, e, later, h, -⟩
  simp at h

/-- One more event either satisfies `P` itself, or an earlier one did. -/
theorem once_concat {h : List ε} {x : ε} : Once P (h ++ [x]) ↔ Once P h ∨ P h x := by
  constructor
  · rintro ⟨past, e, later, heq, hP⟩
    rcases concat_eq_append_cons.mp heq with ⟨-, rfl, rfl⟩ | ⟨later', -, rfl⟩
    · exact Or.inr hP
    · exact Or.inl ⟨past, e, later', rfl, hP⟩
  · rintro (⟨past, e, later, rfl, hP⟩ | hP)
    · exact ⟨past, e, later ++ [x], by simp, hP⟩
    · exact ⟨h, x, [], rfl, hP⟩

/-- One more event either satisfies `P` itself, or satisfies `Q` after the statement held. -/
theorem since_concat {h : List ε} {x : ε} :
    Since Q P (h ++ [x]) ↔ P h x ∨ Q h x ∧ Since Q P h := by
  constructor
  · rintro ⟨past, e, later, heq, hP, hQ⟩
    rcases concat_eq_append_cons.mp heq with ⟨-, rfl, rfl⟩ | ⟨later', rfl, rfl⟩
    · -- the new event is the one that satisfies `P`
      exact Or.inl hP
    · -- an earlier event is, and the new one is the last of those after it
      refine Or.inr ⟨hQ later' x [] rfl, past, e, later', rfl, hP, ?_⟩
      rintro between y rest rfl
      exact hQ between y (rest ++ [x]) (by simp)
  · rintro (hP | ⟨hx, past, e, later, rfl, hP, hQ⟩)
    · -- no event comes after the new one
      refine ⟨h, x, [], rfl, hP, ?_⟩
      intro between y rest heq
      simp at heq
    · refine ⟨past, e, later ++ [x], by simp, hP, ?_⟩
      intro between y rest heq
      rcases concat_eq_append_cons.mp heq with ⟨-, rfl, rfl⟩ | ⟨rest', -, rfl⟩
      · exact hx
      · exact hQ between y rest' rfl

/-- What holds at the start and is preserved by every step, whatever has happened before it,
holds along the whole history. -/
theorem foldl_induction (Inv : List ε → σ → Prop) {step : σ → ε → σ} {s : σ}
    (hinit : Inv [] s) (hstep : ∀ h s e, Inv h s → Inv (h ++ [e]) (step s e)) (h : List ε) :
    Inv h (h.foldl step s) := by
  induction h using List.reverseRecOn with
  | nil => exact hinit
  | append_singleton h e ih =>
    rw [List.foldl_append]
    exact hstep h _ e ih

end History
