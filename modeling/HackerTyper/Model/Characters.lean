import HackerTyper.Js.Characters
import HackerTyper.Model.Preparation

/-!
# The preparation keeps characters whole

What `prepareSource` takes out of a text, a byte order mark, carriage returns and whole lines,
has no halves of surrogate pairs around it.

## Main results

* `wellFormed_prepareSource`: a well-formed text stays well-formed.
-/

namespace HackerTyperModel

open Js Json

/-- Without its byte order mark, a well-formed text is well formed. -/
theorem wellFormed_withoutBom {raw : JsString} (h : WellFormed raw) :
    WellFormed (withoutBom raw) := by
  rw [withoutBom]
  split
  next hbom =>
    obtain ⟨text, rfl⟩ := List.head?_eq_some_iff.mp hbom
    exact (wellFormed_cons_iff (by decide)).mp h
  next => exact h

/-- Newlines in place of carriage returns do not touch the pairs. -/
theorem wellFormed_normalizeNewlines {text : JsString} (h : WellFormed text) :
    WellFormed (normalizeNewlines text) := by
  induction hn : text.length using Nat.strong_induction_on generalizing text with
  | _ n ih =>
    obtain ⟨chars, rfl⟩ := h
    cases chars with
    | nil => exact wellFormed_nil
    | cons c chars =>
      have hrest : WellFormed (chars.flatMap encodeUtf16) := ⟨chars, rfl⟩
      rw [List.flatMap_cons] at hn ⊢
      generalize chars.flatMap encodeUtf16 = rest at hrest hn ⊢
      rcases encodeUtf16_cases c with ⟨x, hx, hhigh, hlow⟩ | ⟨high, low, hx, hhigh, hlow⟩
      · have hwhole : isWhole x := by simp [isWhole, hhigh, hlow]
        rw [hx, List.singleton_append] at hn ⊢
        rw [List.length_cons] at hn
        by_cases hreturn : x = unit '\r'
        · rw [hreturn]
          by_cases hnewline : rest.head? = some (unit '\n')
          · -- a carriage return and a newline become a newline
            obtain ⟨rest', rfl⟩ := List.head?_eq_some_iff.mp hnewline
            rw [List.length_cons] at hn
            rw [normalizeNewlines_crlf, wellFormed_cons_iff (by decide)]
            exact ih _ (by omega) ((wellFormed_cons_iff (by decide)).mp hrest) rfl
          · rw [normalizeNewlines_cr hnewline, wellFormed_cons_iff (by decide)]
            exact ih _ (by omega) hrest rfl
        · rw [normalizeNewlines_cons hreturn, wellFormed_cons_iff hwhole]
          exact ih _ (by omega) hrest rfl
      · have hne : ∀ {half : CodeUnit}, isWhole half = false → half ≠ unit '\r' := by
          rintro half hhalf rfl
          exact absurd hhalf (by decide)
        have hnormal : normalizeNewlines (encodeUtf16 c ++ rest) =
            encodeUtf16 c ++ normalizeNewlines rest := by
          rw [hx, List.cons_append, List.singleton_append,
            normalizeNewlines_cons (hne (by simp [isWhole, hhigh])),
            normalizeNewlines_cons (hne (by simp [isWhole, hlow]))]
          rfl
        rw [hnormal]
        rw [hx, List.length_append, List.length_cons, List.length_singleton] at hn
        exact (ih _ (by omega) hrest rfl).cons c

/-- The text that is typed for a well-formed file is well-formed. -/
theorem wellFormed_prepareSource {raw : JsString} (h : WellFormed raw) :
    WellFormed (prepareSource raw) := by
  have htext := wellFormed_normalizeNewlines (wellFormed_withoutBom h)
  rw [← join_split (unit '\n') (normalizeNewlines (withoutBom raw)),
    wellFormed_join (by decide)] at htext
  rw [prepareSource_eq, wellFormed_join (by decide)]
  -- every line that is kept is a line of the file
  intro line hline
  exact htext line (List.mem_of_mem_filter ((List.dropWhile_suffix _).subset hline))

end HackerTyperModel
