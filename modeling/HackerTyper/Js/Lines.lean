import HackerTyper.Js.Text
import Mathlib.Data.List.DropRight
import Mathlib.Data.List.TakeWhile

/-!
# Lines and white space

What the methods that take a text apart and put it together again do: splitting at a
separator, joining, and trimming.

## Main results

* `join_split` and `split_join`: splitting and joining are inverse to each other;
* `length_split`: the number of parts;
* `mem_of_mem_join` and `subset_of_mem_split`: no characters are lost or added;
* `trim_eq_nil_iff`, `isSpace_head?_trim` and `trimEnd_trimEnd`: what trimming leaves.
-/

namespace Js

/-! ## Splitting and joining -/

theorem split_eq_splitOn (c : CodeUnit) (s : JsString) : split c s = s.splitOn c := by
  induction s with
  | nil => rfl
  | cons x xs ih =>
    have hne := List.splitOn_ne_nil c xs
    rw [split, ih, List.splitOn_cons_eq_if_modifyHead]
    by_cases hx : x = c
    · simp [hx]
    · cases hxs : xs.splitOn c with
      | nil => exact absurd hxs hne
      | cons line lines => simp [hx]

theorem split_ne_nil (c : CodeUnit) (s : JsString) : split c s ≠ [] := by
  rw [split_eq_splitOn]
  exact List.splitOn_ne_nil c s

/-- A text is its parts, joined again. -/
theorem join_split (c : CodeUnit) (s : JsString) : join [c] (split c s) = s := by
  rw [join, split_eq_splitOn, List.intercalate_splitOn]

/-- Parts without the separator are the parts of what they join to. -/
theorem split_join {c : CodeUnit} {parts : List JsString} (hc : ∀ part ∈ parts, c ∉ part)
    (hne : parts ≠ []) : split c (join [c] parts) = parts := by
  rw [join, split_eq_splitOn, List.splitOn_intercalate c hc hne]

/-- No part contains the separator. -/
theorem not_mem_of_mem_split {c : CodeUnit} {s : JsString} :
    ∀ part ∈ split c s, c ∉ part := by
  induction s with
  | nil => simp [split]
  | cons x xs ih =>
    rw [split]
    by_cases hx : x = c
    · simpa [hx] using ih
    · -- the character belongs to the first part
      cases hxs : split c xs with
      | nil => exact absurd hxs (split_ne_nil c xs)
      | cons line lines =>
        rw [hxs] at ih
        simpa [hx, Ne.symm hx] using ih

/-- Every part is contained in what the parts join to. -/
theorem subset_join {sep part : JsString} {parts : List JsString} (h : part ∈ parts) :
    part ⊆ join sep parts := by
  induction parts with
  | nil => cases h
  | cons first parts ih =>
    cases parts with
    | nil =>
      rw [List.mem_singleton.mp h, join, List.intercalate_singleton]
      exact List.Subset.refl first
    | cons next parts =>
      rw [join, List.intercalate_cons_cons]
      rcases List.mem_cons.mp h with rfl | h
      · rw [List.append_assoc]
        exact List.subset_append_left _ _
      · exact List.subset_append_of_subset_right _ (ih h)

/-- The parts of a text consist of its characters. -/
theorem subset_of_mem_split {c : CodeUnit} {s : JsString} :
    ∀ part ∈ split c s, part ⊆ s := by
  intro part hpart
  have hsub : part ⊆ join [c] (split c s) := subset_join hpart
  rwa [join_split] at hsub

/-- What parts join to consists of their characters and those of the separator. -/
theorem mem_of_mem_join {x : CodeUnit} {sep : JsString} {parts : List JsString}
    (hx : x ∈ join sep parts) : x ∈ sep ∨ ∃ part ∈ parts, x ∈ part := by
  induction parts with
  | nil => cases hx
  | cons part parts ih =>
    cases parts with
    | nil => exact Or.inr ⟨part, List.mem_cons_self, by simpa [join] using hx⟩
    | cons part' parts =>
      rw [join, List.intercalate_cons_cons, List.mem_append, List.mem_append] at hx
      rcases hx with (hx | hx) | hx
      · exact Or.inr ⟨part, List.mem_cons_self, hx⟩
      · exact Or.inl hx
      · rcases ih hx with hsep | ⟨other, hother, hmem⟩
        · exact Or.inl hsep
        · exact Or.inr ⟨other, List.mem_cons_of_mem _ hother, hmem⟩

/-- There is one part more than there are separators. -/
theorem length_split (c : CodeUnit) (s : JsString) :
    (split c s).length = s.count c + 1 := by
  induction s with
  | nil => rfl
  | cons x xs ih =>
    rw [split]
    by_cases hx : x = c
    · simp [hx, ih]
    · cases hxs : split c xs with
      | nil => exact absurd hxs (split_ne_nil c xs)
      | cons line lines =>
        rw [hxs] at ih
        simpa [hx] using ih

/-! ## White space -/

theorem trimEnd_eq_rdropWhile (s : JsString) : trimEnd s = s.rdropWhile isSpace := rfl

theorem trim_eq_trimEnd (s : JsString) : trim s = trimEnd (s.dropWhile isSpace) := rfl

/-- `trimEnd` leaves a beginning of the text. -/
theorem trimEnd_prefix_self (s : JsString) : trimEnd s <+: s := by
  rw [trimEnd_eq_rdropWhile]
  exact List.rdropWhile_prefix isSpace s

/-- A trimmed text is a part of the text. -/
theorem trim_infix_self (s : JsString) : trim s <:+: s := by
  rw [trim_eq_trimEnd]
  exact (trimEnd_prefix_self _).isInfix.trans (List.dropWhile_suffix isSpace).isInfix

theorem trimEnd_trimEnd (s : JsString) : trimEnd (trimEnd s) = trimEnd s := by
  rw [trimEnd_eq_rdropWhile, trimEnd_eq_rdropWhile]
  exact List.rdropWhile_idempotent isSpace s

/-- A trimmed text does not begin with white space. -/
theorem isSpace_head?_trim (s : JsString) : ∀ x ∈ (trim s).head?, isSpace x = false := by
  intro x hx
  have hnot := List.head?_dropWhile_not isSpace s
  -- the trimmed text begins with what comes first after the white space
  obtain ⟨xs, htrim⟩ := List.head?_eq_some_iff.mp hx
  obtain ⟨u, hu⟩ := trimEnd_prefix_self (s.dropWhile isSpace)
  rw [← trim_eq_trimEnd, htrim] at hu
  rw [← hu] at hnot
  exact hnot

/-- A text is trimmed away entirely if it is white space. -/
theorem trim_eq_nil_iff {s : JsString} : trim s = [] ↔ ∀ x ∈ s, isSpace x := by
  rw [trim_eq_trimEnd, trimEnd_eq_rdropWhile, List.rdropWhile_eq_nil_iff]
  constructor
  · intro h
    rw [← List.dropWhile_eq_nil_iff]
    -- what comes first after the white space is none
    by_contra hne
    have hspace := h _ (List.head_mem hne)
    rw [List.head_dropWhile_not isSpace hne] at hspace
    cases hspace
  · exact fun h x hx => h x ((List.dropWhile_suffix isSpace).mem hx)

end Js
