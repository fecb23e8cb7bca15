import Mathlib.Data.List.Basic
import Mathlib.Tactic.Common

/-!
# Rewriting a text in one pass

A `Pass` reads a text left to right. Where its rule applies to what is ahead, it writes what
the rule says and skips what the rule consumed; elsewhere it copies one element. What was
skipped is not looked at again.

## Main definitions

* `Pass` and `Pass.run`;
* `Pass.Yields`: in front of any text, `w` is rewritten to `r`.

## Main results

* `yields_of_rule` and `yields_flatMap_copy`: where the rule applies, and where it does not;
* `Yields.append` and `yields_flatMap`: what holds of the pieces of a text holds of the text;
* `Yields.run_eq`: the result of a pass.
-/

/-- A left-to-right pass over texts. -/
structure Pass (α β : Type*) where
  /-- What an element is copied as. -/
  copy : α → List β
  /-- What is written for the front of a text, and how many elements it stands for. -/
  rule : List α → Option (List β × ℕ)

namespace Pass

variable {α β ι : Type*}

/-- The result of a pass that skips the next elements first. -/
def runFrom (P : Pass α β) : ℕ → List α → List β
  | _, [] => []
  | skip + 1, _ :: xs => runFrom P skip xs
  | 0, x :: xs =>
    match P.rule (x :: xs) with
    -- `x` is the first of the elements that the rule consumed
    | some (r, n) => r ++ runFrom P (n - 1) xs
    | none => P.copy x ++ runFrom P 0 xs

/-- The result of a pass. -/
def run (P : Pass α β) (s : List α) : List β := P.runFrom 0 s

/-- In front of any text, `w` is rewritten to `r`. -/
def Yields (P : Pass α β) (w : List α) (r : List β) : Prop := ∀ s, P.run (w ++ s) = r ++ P.run s

variable {P : Pass α β}

/-- What a rule has consumed is skipped. -/
theorem runFrom_length_append (w s : List α) : P.runFrom w.length (w ++ s) = P.run s := by
  induction w with
  | nil => rfl
  | cons x xs ih => exact ih

/-- Where the rule applies, what it consumes is rewritten to what it says. -/
theorem yields_of_rule {x : α} {w : List α} {r : List β}
    (h : ∀ s, P.rule (x :: w ++ s) = some (r, w.length + 1)) : P.Yields (x :: w) r := by
  intro s
  have hrule := h s
  rw [List.cons_append] at hrule ⊢
  rw [run, runFrom, hrule]
  -- the rest of `w` is skipped
  simp only [Nat.add_sub_cancel, runFrom_length_append]

/-- Where the rule applies nowhere, everything is copied. -/
theorem yields_flatMap_copy {w : List α}
    (h : ∀ v, v <:+ w → v ≠ [] → ∀ s, P.rule (v ++ s) = none) :
    P.Yields w (w.flatMap P.copy) := by
  intro s
  induction w with
  | nil => rfl
  | cons x xs ih =>
    -- the rule applies neither here nor at any later element of `w`
    have hnone := h (x :: xs) (List.suffix_refl _) (List.cons_ne_nil _ _) s
    have hrest := ih fun v hv => h v (hv.trans (List.suffix_cons x xs))
    rw [List.cons_append] at hnone ⊢
    rw [run, runFrom, hnone, ← run, hrest, List.flatMap_cons, List.append_assoc]

theorem yields_nil : P.Yields [] [] := fun _ => rfl

theorem Yields.append {w₁ w₂ : List α} {r₁ r₂ : List β} (h₁ : P.Yields w₁ r₁)
    (h₂ : P.Yields w₂ r₂) : P.Yields (w₁ ++ w₂) (r₁ ++ r₂) := by
  intro s
  rw [List.append_assoc, h₁, h₂, List.append_assoc]

/-- Rewriting a concatenation of pieces, piece by piece. -/
theorem yields_flatMap {f : ι → List α} {g : ι → List β} {l : List ι}
    (h : ∀ i ∈ l, P.Yields (f i) (g i)) : P.Yields (l.flatMap f) (l.flatMap g) := by
  induction l with
  | nil => exact yields_nil
  | cons i l ih =>
    rw [List.flatMap_cons, List.flatMap_cons]
    exact (h i (by simp)).append (ih fun j hj => h j (by simp [hj]))

/-- The result of a pass. -/
theorem Yields.run_eq {w : List α} {r : List β} (h : P.Yields w r) : P.run w = r := by
  have hw := h []
  rw [List.append_nil] at hw
  rw [hw]
  exact List.append_nil r

end Pass
