import HackerTyper.Model.Preparation

/-!
# Prepared sources

Which texts are prepared already. Preparing a text twice is not the same as preparing it once:
of two byte order marks in front the first preparation takes one and the second the other.
Nothing else is changed by a second preparation.

## Main definitions

* `Prepared`: what the preparation leaves.

## Main results

* `prepared_prepareSource`: every prepared source has that form;
* `prepareSource_prepareSource`: a second preparation removes one more byte order mark, if there
  is one;
* `prepareSource_eq_self_iff`: which texts the preparation leaves as they are;
* `prepareSource_normalForm`: both together.
-/

namespace HackerTyperModel

open Js

/-- A text as the preparation leaves it: with no carriage return, no marker line and no blank
line in front. -/
structure Prepared (text : JsString) : Prop where
  /-- Lines end with line feeds. -/
  noReturn : unit '\r' ∉ text
  /-- No line hides itself. -/
  noMarker : ∀ line ∈ split (unit '\n') text, ¬MarkerLine line
  /-- The first line is not blank. -/
  front : text = [] ∨ ∀ line ∈ (split (unit '\n') text).head?, ¬Blank line

instance (text : JsString) : Decidable (Prepared text) :=
  decidable_of_iff (unit '\r' ∉ text ∧ (∀ line ∈ split (unit '\n') text, ¬MarkerLine line) ∧
      (text = [] ∨ ∀ line ∈ (split (unit '\n') text).head?, ¬Blank line))
    ⟨fun ⟨h₁, h₂, h₃⟩ => ⟨h₁, h₂, h₃⟩, fun ⟨h₁, h₂, h₃⟩ => ⟨h₁, h₂, h₃⟩⟩

/-- What the preparation leaves is prepared. -/
theorem prepared_prepareSource (raw : JsString) : Prepared (prepareSource raw) where
  noReturn := not_mem_prepareSource raw
  noMarker _ hline := not_markerLine_of_mem_split hline
  front := prepareSource_front raw

/-! ## A byte order mark in front -/

/-- A byte order mark in front of a text is in front of its first line. -/
theorem split_withoutBom (text : JsString) :
    split (unit '\n') (withoutBom text) = (split (unit '\n') text).modifyHead withoutBom := by
  cases text with
  | nil => rfl
  | cons x xs =>
    by_cases hx : x = 0xFEFF
    · subst hx
      have hbom : withoutBom (0xFEFF :: xs) = xs := rfl
      rw [hbom, split, if_neg (by decide)]
      cases hxs : split (unit '\n') xs with
      | nil => exact absurd hxs (split_ne_nil _ _)
      | cons line lines => rfl
    · have hhead : withoutBom (x :: xs) = x :: xs :=
        withoutBom_of_head? fun h => hx (Option.some.inj h)
      rw [hhead, split]
      split
      · rfl
      · cases split (unit '\n') xs with
        | nil => simp [withoutBom, hx]
        | cons line lines => simp [withoutBom, hx]

/-- A byte order mark is white space. -/
theorem dropWhile_withoutBom (line : JsString) :
    (withoutBom line).dropWhile isSpace = line.dropWhile isSpace := by
  rw [withoutBom]
  split
  next h =>
    obtain ⟨rest, rfl⟩ := List.head?_eq_some_iff.mp h
    rw [List.tail_cons, List.dropWhile_cons_of_pos (by decide)]
  next => rfl

/-- Trimming removes a byte order mark in any case. -/
theorem trim_withoutBom (line : JsString) : trim (withoutBom line) = trim line := by
  rw [trim_eq_trimEnd, trim_eq_trimEnd, dropWhile_withoutBom]

theorem markerLine_withoutBom (line : JsString) :
    MarkerLine (withoutBom line) ↔ MarkerLine line := by
  rw [MarkerLine, MarkerLine, trim_withoutBom]

theorem blank_withoutBom (line : JsString) : Blank (withoutBom line) ↔ Blank line := by
  rw [blank_iff, blank_iff, trim_withoutBom]

/-! ## Preparing twice -/

/-- A text without carriage returns stays. -/
theorem normalizeNewlines_of_not_mem {text : JsString} (h : unit '\r' ∉ text) :
    normalizeNewlines text = text := by
  have happend := normalizeNewlines_append h []
  rwa [List.append_nil, normalizeNewlines, List.append_nil] at happend

/-- Preparing a prepared text removes a byte order mark in front, and nothing else. -/
theorem Prepared.prepareSource_eq {text : JsString} (h : Prepared text) :
    prepareSource text = withoutBom text := by
  have hreturn : unit '\r' ∉ withoutBom text := by
    rw [withoutBom]
    split
    · exact fun hmem => h.noReturn (List.mem_of_mem_tail hmem)
    · exact h.noReturn
  rw [HackerTyperModel.prepareSource_eq, normalizeNewlines_of_not_mem hreturn, split_withoutBom]
  have hmarker := h.noMarker
  have hfront := h.front
  have hjoin := join_split (unit '\n') (withoutBom text)
  rw [split_withoutBom] at hjoin
  cases hsplit : split (unit '\n') text with
  | nil => exact absurd hsplit (split_ne_nil _ _)
  | cons line lines =>
    rw [hsplit] at hmarker hfront hjoin
    rw [List.modifyHead_cons] at hjoin ⊢
    -- no line is a marker line, also without the byte order mark
    have hkept : (withoutBom line :: lines).filter (fun line => ¬MarkerLine line) =
        withoutBom line :: lines := by
      refine List.filter_eq_self.mpr fun other hother => decide_eq_true ?_
      rcases List.mem_cons.mp hother with rfl | hother
      · rw [markerLine_withoutBom]
        exact hmarker line List.mem_cons_self
      · exact hmarker other (List.mem_cons_of_mem _ hother)
    rw [hkept]
    rcases hfront with rfl | hfront
    · -- the empty text has one line, which is dropped
      cases hsplit
      rfl
    · have hblank : ¬Blank (withoutBom line) := by
        rw [blank_withoutBom]
        exact hfront line rfl
      rw [List.dropWhile_cons_of_neg (by simpa using hblank), hjoin]

/-- A second preparation removes one more byte order mark in front, if there is one. -/
theorem prepareSource_prepareSource (raw : JsString) :
    prepareSource (prepareSource raw) = withoutBom (prepareSource raw) :=
  (prepared_prepareSource raw).prepareSource_eq

/-- The preparation leaves exactly the prepared texts without a byte order mark in front as they
are. -/
theorem prepareSource_eq_self_iff (text : JsString) :
    prepareSource text = text ↔ Prepared text ∧ text.head? ≠ some 0xFEFF := by
  constructor
  · intro h
    have hprepared : Prepared text := h ▸ prepared_prepareSource text
    refine ⟨hprepared, fun hbom => ?_⟩
    -- without the byte order mark the text is shorter
    obtain ⟨rest, rfl⟩ := List.head?_eq_some_iff.mp hbom
    rw [hprepared.prepareSource_eq] at h
    have hlength := congrArg List.length h
    rw [show withoutBom (0xFEFF :: rest) = rest from rfl, List.length_cons] at hlength
    omega
  · rintro ⟨hprepared, hbom⟩
    rw [hprepared.prepareSource_eq, withoutBom_of_head? hbom]

/-- The preparation is a normal form up to a byte order mark in front: it leaves exactly the
prepared texts without such a mark as they are, what it leaves is always prepared, and a second
preparation takes a byte order mark that is in front then and nothing else. -/
theorem prepareSource_normalForm (text : JsString) :
    (prepareSource text = text ↔ Prepared text ∧ text.head? ≠ some 0xFEFF) ∧
      Prepared (prepareSource text) ∧
      prepareSource (prepareSource text) = withoutBom (prepareSource text) :=
  ⟨prepareSource_eq_self_iff text, prepared_prepareSource text, prepareSource_prepareSource text⟩

/-- A file with two byte order marks, of which one is left. -/
example : prepareSource (0xFEFF :: 0xFEFF :: js "x") = 0xFEFF :: js "x" := by decide +kernel

end HackerTyperModel
