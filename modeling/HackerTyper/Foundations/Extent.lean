import Mathlib.Data.List.TakeWhile
import Mathlib.Data.Nat.Find
import Mathlib.Tactic.Common

/-!
# Where a piece of a text ends

A piece of a text that is read up to the next stop ends behind the first offset at which the
stop is found, or at the end of the text if it is found nowhere.

## Main definitions

* `EndsAt`: the end of a piece, for an arbitrary kind of stop.

## Main results

* `exists_endsAt` and `EndsAt.unique`: there is one such end;
* `endsAt_here`, `endsAt_succ`, `endsAt_of_forall_not`: finding the end step by step;
* `endsAt_takeWhile`: the end of a run.
-/

/-- A piece that is read from offset `k` on ends at `e`: `width` behind the first offset at or
after `k` at which `P` holds, or at `len` if `P` holds at none of them. -/
def EndsAt (P : ℕ → Prop) (width len k e : ℕ) : Prop :=
  (∃ j, k ≤ j ∧ P j ∧ (∀ m, k ≤ m → m < j → ¬P m) ∧ e = j + width) ∨
    (∀ j, k ≤ j → ¬P j) ∧ e = len

section EndsAt

variable {P : ℕ → Prop} {width len k e e' : ℕ}

theorem EndsAt.unique (h : EndsAt P width len k e) (h' : EndsAt P width len k e') : e = e' := by
  rcases h with ⟨j, hj, hP, hfirst, rfl⟩ | ⟨hnone, rfl⟩ <;>
    rcases h' with ⟨j', hj', hP', hfirst', rfl⟩ | ⟨hnone', rfl⟩
  · -- both are the first stop
    rcases lt_trichotomy j j' with hlt | rfl | hlt
    · exact absurd hP (hfirst' j hj hlt)
    · rfl
    · exact absurd hP' (hfirst j' hj' hlt)
  · exact absurd hP (hnone' j hj)
  · exact absurd hP' (hnone j' hj')
  · rfl

/-- Every piece has an end. -/
theorem exists_endsAt (P : ℕ → Prop) (width len k : ℕ) : ∃ e, EndsAt P width len k e := by
  classical
  by_cases h : ∃ j, k ≤ j ∧ P j
  · -- behind the first of the stops
    obtain ⟨hle, hP⟩ := Nat.find_spec h
    exact ⟨_, Or.inl ⟨Nat.find h, hle, hP,
      fun m hm hlt hPm => Nat.find_min h hlt ⟨hm, hPm⟩, rfl⟩⟩
  · exact ⟨len, Or.inr ⟨fun j hj hP => h ⟨j, hj, hP⟩, rfl⟩⟩

/-- A piece does not end before it starts. -/
theorem EndsAt.le (h : EndsAt P width len k e) (hk : k ≤ len) : k ≤ e := by
  rcases h with ⟨j, hj, -, -, rfl⟩ | ⟨-, rfl⟩
  · omega
  · exact hk

/-- At a stop, the piece ends behind it. -/
theorem endsAt_here (h : P k) : EndsAt P width len k (k + width) :=
  Or.inl ⟨k, le_rfl, h, fun m hm hlt => absurd hlt (by omega), rfl⟩

/-- Where there is no stop, the piece goes on. -/
theorem endsAt_succ (h : ¬P k) : EndsAt P width len k e ↔ EndsAt P width len (k + 1) e := by
  have hle : ∀ {j}, k ≤ j → P j → k + 1 ≤ j := by
    intro j hj hP
    rcases Nat.eq_or_lt_of_le hj with rfl | hlt
    · exact absurd hP h
    · exact hlt
  constructor
  · rintro (⟨j, hj, hP, hfirst, rfl⟩ | ⟨hnone, rfl⟩)
    · exact Or.inl ⟨j, hle hj hP, hP, fun m hm hlt => hfirst m (by omega) hlt, rfl⟩
    · exact Or.inr ⟨fun j hj => hnone j (by omega), rfl⟩
  · rintro (⟨j, hj, hP, hfirst, rfl⟩ | ⟨hnone, rfl⟩)
    · refine Or.inl ⟨j, by omega, hP, fun m hm hlt hPm => ?_, rfl⟩
      exact hfirst m (hle hm hPm) hlt hPm
    · exact Or.inr ⟨fun j hj hP => hnone j (hle hj hP) hP, rfl⟩

/-- Where there is no stop for a while, the piece goes on. -/
theorem endsAt_of_forall_lt {k' : ℕ} (hle : k ≤ k') (h : ∀ j, k ≤ j → j < k' → ¬P j) :
    EndsAt P width len k e ↔ EndsAt P width len k' e := by
  induction k', hle using Nat.le_induction with
  | base => rfl
  | succ k' hle ih =>
    rw [ih fun j hj hlt => h j hj (by omega)]
    exact endsAt_succ (h k' hle (by omega))

/-- The end only depends on where the stops are. -/
theorem endsAt_congr {Q : ℕ → Prop} (h : ∀ j, P j ↔ Q j) :
    EndsAt P width len k e ↔ EndsAt Q width len k e := by
  rw [show P = Q from funext fun j => propext (h j)]

/-- Without a stop, the piece ends at the end of the text. -/
theorem endsAt_of_forall_not (h : ∀ j, k ≤ j → ¬P j) : EndsAt P width len k len :=
  Or.inr ⟨h, rfl⟩

end EndsAt

section Text

variable {α : Type*} {text xs : List α} {x : α} {k : ℕ}

/-- The first element of what is left of a text. -/
theorem getElem?_of_drop_eq_cons (h : text.drop k = x :: xs) : text[k]? = some x := by
  rw [← List.head?_drop, h]
  rfl

theorem drop_succ_of_drop_eq_cons (h : text.drop k = x :: xs) : text.drop (k + 1) = xs := by
  rw [← List.tail_drop, h]
  rfl

theorem lt_length_of_drop_eq_cons (h : text.drop k = x :: xs) : k < text.length :=
  (List.getElem?_eq_some_iff.mp (getElem?_of_drop_eq_cons h)).1

end Text

/-- A run ends at the first element that does not belong to it. -/
theorem endsAt_takeWhile {α : Type*} (p : α → Bool) (text : List α) {k : ℕ}
    (hk : k ≤ text.length) :
    EndsAt (fun j => ∃ x, text[j]? = some x ∧ p x = false) 0 text.length k
      (k + ((text.drop k).takeWhile p).length) := by
  generalize hs : text.drop k = s
  induction s generalizing k with
  | nil =>
    have hlen : text.length ≤ k := List.drop_eq_nil_iff.mp hs
    have heq : k + ([].takeWhile p).length = text.length := by
      simp only [List.takeWhile_nil, List.length_nil]
      omega
    rw [heq]
    apply endsAt_of_forall_not
    rintro j hj ⟨x, hx, -⟩
    -- there is no element behind the end of the text
    rw [List.getElem?_eq_none (by omega)] at hx
    cases hx
  | cons x xs ih =>
    have hx := getElem?_of_drop_eq_cons hs
    by_cases hp : p x = true
    · rw [List.takeWhile_cons_of_pos hp, List.length_cons, endsAt_succ]
      · rw [show k + ((xs.takeWhile p).length + 1) = k + 1 + (xs.takeWhile p).length by omega]
        exact ih (lt_length_of_drop_eq_cons hs) (drop_succ_of_drop_eq_cons hs)
      · rintro ⟨y, hy, hpy⟩
        rw [hx] at hy
        cases hy
        rw [hp] at hpy
        cases hpy
    · rw [List.takeWhile_cons_of_neg hp]
      exact endsAt_here ⟨x, hx, Bool.not_eq_true _ ▸ hp⟩
