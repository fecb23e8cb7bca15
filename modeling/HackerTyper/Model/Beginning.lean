import HackerTyper.Model.Preparation

/-!
# Beginnings of a prepared source

While it is typed, only a beginning of the prepared source is shown, and its last line may be
cut anywhere. No cut makes a marker line of a line that is none.

## Main results

* `split_of_isPrefix`: the lines of a beginning of a text;
* `MarkerLine.of_isPrefix`: a line that begins with a marker line is one;
* `prepareSource_beginning`: no beginning of a prepared source shows what is hidden.
-/

namespace HackerTyperModel

open Js

/-! ## Lines -/

/-- The lines of a beginning of a text are lines of the text, except for the last one, which is
the beginning of a line. -/
theorem split_of_isPrefix {c : CodeUnit} {s t : JsString} (h : s <+: t) :
    ∃ lines line line' rest, split c s = lines ++ [line] ∧
      split c t = lines ++ line' :: rest ∧ line <+: line' := by
  induction s generalizing t with
  | nil =>
    obtain ⟨line', rest, hsplit⟩ := List.exists_cons_of_ne_nil (split_ne_nil c t)
    exact ⟨[], [], line', rest, rfl, hsplit, List.nil_prefix⟩
  | cons x xs ih =>
    obtain ⟨u, rfl⟩ := h
    obtain ⟨lines, line, line', rest, hs, ht, hpre⟩ := ih (List.prefix_append xs u)
    rw [List.cons_append, split, split, hs, ht]
    by_cases hx : x = c
    · -- an empty line is in front
      exact ⟨[] :: lines, line, line', rest, by simp [hx], by simp [hx], hpre⟩
    · -- the character belongs to the first line, which may be the last one
      simp only [if_neg hx]
      cases lines with
      | nil => exact ⟨[], x :: line, x :: line', rest, rfl, rfl, (List.prefix_cons_inj x).mpr hpre⟩
      | cons first lines => exact ⟨(x :: first) :: lines, line, line', rest, rfl, rfl, hpre⟩

/-- A line of a beginning of a text is a beginning of one of its lines. -/
theorem exists_isPrefix_of_mem_split {c : CodeUnit} {s t line : JsString} (h : s <+: t)
    (hline : line ∈ split c s) : ∃ line' ∈ split c t, line <+: line' := by
  obtain ⟨lines, last, last', rest, hs, ht, hpre⟩ := split_of_isPrefix (c := c) h
  rw [hs] at hline
  rw [ht]
  rcases List.mem_append.mp hline with hearlier | hlast
  · exact ⟨line, List.mem_append_left _ hearlier, List.prefix_refl _⟩
  · rw [List.mem_singleton.mp hlast]
    exact ⟨last', by simp, hpre⟩

/-! ## Marker lines -/

/-- Trimming the end of a text leaves what is in front of a character that is no white space. -/
theorem trimEnd_append {x : CodeUnit} (hx : isSpace x = false) (u v : JsString) :
    trimEnd (u ++ [x] ++ v) = u ++ [x] ++ trimEnd v := by
  have hstop : trimEnd (u ++ [x]) = u ++ [x] := by
    rw [trimEnd_eq_rdropWhile, List.rdropWhile_concat_neg _ _ _ (by simp [hx])]
  induction v using List.reverseRecOn with
  | nil => simpa [trimEnd] using hstop
  | append_singleton v y ih =>
    rw [← List.append_assoc]
    simp only [trimEnd_eq_rdropWhile] at ih ⊢
    by_cases hy : isSpace y = true
    · rw [List.rdropWhile_concat_pos _ _ _ hy, List.rdropWhile_concat_pos _ _ _ hy, ih]
    · rw [List.rdropWhile_concat_neg _ _ _ hy, List.rdropWhile_concat_neg _ _ _ hy,
        List.append_assoc]

/-- What a trimmed line starts with, up to a character that is no white space, a longer line
starts with after trimming. -/
theorem trim_of_isPrefix {line line' w rest : JsString} {x : CodeUnit} (hx : isSpace x = false)
    (hpre : line <+: line') (htrim : trim line = w ++ [x] ++ rest) :
    ∃ rest', trim line' = w ++ [x] ++ rest' := by
  obtain ⟨u, rfl⟩ := hpre
  obtain ⟨v, hv⟩ := trimEnd_prefix_self (line.dropWhile isSpace)
  rw [← trim_eq_trimEnd, htrim] at hv
  -- the white space in front is the same
  have hdrop : (line ++ u).dropWhile isSpace = w ++ [x] ++ (rest ++ v ++ u) := by
    rw [List.dropWhile_append, ← hv]
    simp
  exact ⟨_, by rw [trim_eq_trimEnd, hdrop, trimEnd_append hx]⟩

/-- A line that begins with a marker line is one. -/
theorem MarkerLine.of_isPrefix {line line' : JsString} (h : MarkerLine line)
    (hpre : line <+: line') : MarkerLine line' := by
  have hcolon : isSpace (unit ':') = false := by decide
  have htag : js "SPDX-License-Identifier:" = js "SPDX-License-Identifier" ++ [unit ':'] := rfl
  have hcolons : js " ::" = js " :" ++ [unit ':'] := rfl
  obtain ⟨marker, hmarker, ⟨space, rest, hspace, htrim⟩ | ⟨rest, htrim⟩⟩ := h
  · -- the license tag ends in a colon
    rw [htag, ← List.append_assoc] at htrim
    obtain ⟨rest', htrim'⟩ := trim_of_isPrefix hcolon hpre htrim
    refine ⟨marker, hmarker, Or.inl ⟨space, rest', hspace, ?_⟩⟩
    rw [htrim', htag, ← List.append_assoc]
  · -- and so does the marker of a hidden comment
    rw [hcolons, ← List.append_assoc] at htrim
    obtain ⟨rest', htrim'⟩ := trim_of_isPrefix hcolon hpre htrim
    refine ⟨marker, hmarker, Or.inr ⟨rest', ?_⟩⟩
    rw [htrim', hcolons, ← List.append_assoc]

/-- No beginning of a prepared source contains a carriage return or shows a marker line. -/
theorem prepareSource_beginning {raw s : JsString} (h : s <+: prepareSource raw) :
    unit '\r' ∉ s ∧ ∀ line ∈ split (unit '\n') s, ¬MarkerLine line := by
  refine ⟨fun hcr => not_mem_prepareSource raw (h.subset hcr), fun line hline hmarker => ?_⟩
  obtain ⟨line', hline', hpre⟩ := exists_isPrefix_of_mem_split h hline
  exact not_markerLine_of_mem_split hline' (hmarker.of_isPrefix hpre)

end HackerTyperModel
