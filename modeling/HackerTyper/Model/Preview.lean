import HackerTyper.Js.Lines
import HackerTyper.Model

/-!
# Previews

A preview is the trimmed front of a text, in full where it fits the limit of characters and
otherwise cut, with an ellipsis for what is missing. The guard that always keeps one character
leaves no room for the ellipsis at a limit of one.

## Main definitions

* `firstLines`: the front of a text that a preview is taken from;
* `RespectsLimits`: a preview is as long as its limits allow.

## Main results

* `length_split_firstLines_le`: the front of a text has as many lines as asked for at most;
* `preview_respectsLimits_iff`: which previews respect their limits.
-/

namespace HackerTyperModel

open Js

/-- The first lines of a text, without the white space around them. -/
def firstLines (raw : JsString) (lineCount : ℤ) : JsString :=
  trim (join [unit '\n'] ((split (unit '\n') raw).take lineCount.toNat))

/-- A preview `out` of a text stays within its limits. It is the front of the text exactly
where that fits, and otherwise a proper beginning of it, without white space at its end, and
an ellipsis. -/
structure RespectsLimits (raw : JsString) (lineCount characterLimit : ℤ) (out : JsString) :
    Prop where
  /-- It has at most so many characters. -/
  length : out.length ≤ characterLimit
  /-- It has at most so many lines. -/
  lines : (split (unit '\n') out).length ≤ lineCount
  /-- It is the front of the text if and only if that fits. -/
  full : out = firstLines raw lineCount ↔ (firstLines raw lineCount).length ≤ characterLimit
  /-- Otherwise it is cut. -/
  cut : characterLimit < (firstLines raw lineCount).length →
    ∃ kept, kept <+: firstLines raw lineCount ∧ kept ≠ firstLines raw lineCount ∧
      trimEnd kept = kept ∧ out = kept ++ js "…"

/-- The front of a text has at most as many lines as asked for. -/
theorem length_split_firstLines_le (raw : JsString) {lineCount : ℤ} (h : 1 ≤ lineCount) :
    (split (unit '\n') (firstLines raw lineCount)).length ≤ lineCount := by
  let lines := (split (unit '\n') raw).take lineCount.toNat
  have hne : lines ≠ [] := by
    rw [Ne, List.take_eq_nil_iff, not_or]
    exact ⟨by omega, split_ne_nil _ raw⟩
  have hfree : ∀ line ∈ lines, unit '\n' ∉ line := fun line hline =>
    not_mem_of_mem_split line (List.mem_of_mem_take hline)
  -- trimming removes no more than it finds
  have hcount : (firstLines raw lineCount).count (unit '\n') ≤
      (join [unit '\n'] lines).count (unit '\n') :=
    (trim_infix_self _).sublist.count_le _
  have hjoin := length_split (unit '\n') (join [unit '\n'] lines)
  rw [split_join hfree hne] at hjoin
  have htake : lines.length ≤ lineCount.toNat := List.length_take_le _ _
  rw [length_split]
  omega

/-- A preview, by whether the front of the text fits. -/
theorem preview_eq (raw : JsString) {lineCount characterLimit : ℤ} (hcount : 1 ≤ lineCount)
    (hlimit : 1 ≤ characterLimit) :
    preview raw lineCount characterLimit =
      if (firstLines raw lineCount).length > characterLimit then
        trimEnd ((firstLines raw lineCount).take (max 1 (characterLimit - 1)).toNat) ++ js "…"
      else firstLines raw lineCount := by
  rw [preview, stepSize_of_pos hcount, stepSize_of_pos hlimit]
  rfl

/-- What a limit of at least two characters leaves of a text that exceeds it. -/
theorem respectsLimits_cut {raw : JsString} {lineCount characterLimit : ℤ}
    (hcount : 1 ≤ lineCount) (hlimit : 2 ≤ characterLimit)
    (hlong : characterLimit < (firstLines raw lineCount).length) :
    RespectsLimits raw lineCount characterLimit
      (trimEnd ((firstLines raw lineCount).take (characterLimit - 1).toNat) ++ js "…") := by
  have hpre : trimEnd ((firstLines raw lineCount).take (characterLimit - 1).toNat) <+:
      firstLines raw lineCount := (trimEnd_prefix_self _).trans (List.take_prefix _ _)
  have htrim := trimEnd_trimEnd ((firstLines raw lineCount).take (characterLimit - 1).toNat)
  -- there is room for the ellipsis behind what is kept
  have hlen : (trimEnd ((firstLines raw lineCount).take (characterLimit - 1).toNat)).length ≤
      (characterLimit - 1).toNat :=
    (trimEnd_prefix_self _).length_le.trans (List.length_take_le _ _)
  generalize trimEnd ((firstLines raw lineCount).take (characterLimit - 1).toNat) = kept at *
  have hout : (kept ++ js "…").length = kept.length + 1 := List.length_append
  refine ⟨by omega, ?_, ⟨fun h => ?_, fun h => by omega⟩, fun _ =>
    ⟨kept, hpre, fun h => ?_, htrim, rfl⟩⟩
  · have hlines := length_split_firstLines_le raw hcount
    have hcounts := hpre.sublist.count_le (unit '\n')
    -- the ellipsis is no newline
    have hellipsis : (js "…").count (unit '\n') = 0 := by decide
    rw [length_split] at hlines ⊢
    rw [List.count_append, hellipsis]
    omega
  · have := congrArg List.length h
    omega
  · have := congrArg List.length h
    omega

/-- A preview respects its limits exactly when there is room for a character and the ellipsis,
or no more than one character to show. -/
theorem preview_respectsLimits_iff (raw : JsString) {lineCount characterLimit : ℤ}
    (hcount : 1 ≤ lineCount) (hlimit : 1 ≤ characterLimit) :
    RespectsLimits raw lineCount characterLimit (preview raw lineCount characterLimit) ↔
      2 ≤ characterLimit ∨ (firstLines raw lineCount).length ≤ 1 := by
  rw [preview_eq raw hcount hlimit]
  by_cases hlong : (firstLines raw lineCount).length > characterLimit
  · rw [if_pos hlong]
    constructor
    · intro h
      by_contra hnone
      obtain ⟨hsmall, hmany⟩ := not_or.mp hnone
      obtain rfl : characterLimit = 1 := by omega
      -- the one character that is kept is no white space, so nothing is left for the ellipsis
      obtain ⟨x, xs, hfront⟩ := List.exists_cons_of_length_pos (by omega :
        0 < (firstLines raw lineCount).length)
      have hx : isSpace x = false := isSpace_head?_trim _ x (by rw [← firstLines, hfront]; rfl)
      have hkept : trimEnd ((firstLines raw lineCount).take (max 1 (1 - 1 : ℤ)).toNat) = [x] := by
        rw [hfront]
        simp [trimEnd, hx]
      have hlen := h.length
      rw [hkept] at hlen
      have htwo : ([x] ++ js "…").length = 2 := rfl
      omega
    · rintro (hroom | hshort)
      · rw [max_eq_right (by omega)]
        exact respectsLimits_cut hcount hroom hlong
      · omega
  · rw [if_neg hlong]
    refine ⟨fun _ => by omega, fun _ => ⟨by omega, length_split_firstLines_le raw hcount,
      ⟨fun _ => by omega, fun _ => rfl⟩, fun h => absurd h (by omega)⟩⟩

/-- With a limit of one character, the ellipsis is one too many. -/
theorem not_respectsLimits_one :
    ¬RespectsLimits (js "ab") 1 1 (preview (js "ab") 1 1) := fun h =>
  absurd h.length (by decide +kernel)

theorem preview_respectsLimits_iff_two :
    RespectsLimits (js "abc\nd") 1 2 (preview (js "abc\nd") 1 2) ↔
      (2 : ℤ) ≤ 2 ∨ (firstLines (js "abc\nd") 1).length ≤ 1 :=
  preview_respectsLimits_iff _ (by decide) (by decide)

end HackerTyperModel
