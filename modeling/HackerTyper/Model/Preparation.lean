import HackerTyper.Js.Lines
import HackerTyper.Model

/-!
# The preparation of a source

What `prepareSource` hides, and that it does not depend on how the file ends its lines.

## Main definitions

* `withoutBom`: a text without a byte order mark in front;
* `MarkerLine` and `Blank`: the lines that are hidden, and those that are hidden in front;
* `shownLines`: the lines that are left;
* `Newline`, `encode`: the line ends of a file and how they encode a sequence of lines;
* `IsEncoding`: the files that hold the same lines.

## Main results

* `prepareSource_spec`: the prepared source is what is left of the lines of the file;
* `normalizeNewlines_encode`: the lines of a file are recovered from every encoding;
* `prepareSource_eq_of_isEncoding`: the prepared source depends on the lines alone.
-/

namespace HackerTyperModel

open Js

/-- A text without one byte order mark in front. -/
def withoutBom (raw : JsString) : JsString := if raw.head? = some 0xFEFF then raw.tail else raw

/-- A line of white space. -/
def Blank (line : JsString) : Prop := ∀ x ∈ line, isSpace x

/-- A line that hides itself: without the white space around it, it starts with a comment
marker followed by the license tag, or by a blank and two colons. -/
def MarkerLine (line : JsString) : Prop :=
  ∃ marker ∈ commentMarkers,
    (∃ space rest, (∀ x ∈ space, isSpace x) ∧
      trim line = marker ++ space ++ js "SPDX-License-Identifier:" ++ rest) ∨
    ∃ rest, trim line = marker ++ js " ::" ++ rest

/-! ## Hidden lines -/

/-- The test for the license tag looks behind the marker and the white space after it. -/
theorem isLicenseLine_iff (trimmed : JsString) :
    isLicenseLine trimmed ↔ ∃ marker ∈ commentMarkers, ∃ space rest, (∀ x ∈ space, isSpace x) ∧
      trimmed = marker ++ space ++ js "SPDX-License-Identifier:" ++ rest := by
  rw [isLicenseLine, List.any_eq_true]
  refine exists_congr fun marker => and_congr_right fun _ => ?_
  rw [decide_eq_true_iff]
  constructor
  · rintro ⟨⟨s, rfl⟩, rest, hrest⟩
    rw [List.drop_left] at hrest
    refine ⟨s.takeWhile isSpace, rest, fun x hx => List.mem_takeWhile_imp hx, ?_⟩
    rw [List.append_assoc, List.append_assoc, hrest, List.takeWhile_append_dropWhile]
  · rintro ⟨space, rest, hspace, rfl⟩
    -- the license tag begins with no white space
    have htag : (js "SPDX-License-Identifier:" ++ rest).dropWhile isSpace =
        js "SPDX-License-Identifier:" ++ rest :=
      List.dropWhile_cons_of_neg (by decide)
    rw [List.append_assoc, List.append_assoc, List.drop_left,
      List.dropWhile_append_of_pos hspace, htag]
    exact ⟨List.prefix_append _ _, List.prefix_append _ _⟩

/-- A hidden line starts with a comment marker, a space and two colons. -/
theorem isHiddenLine_iff (trimmed : JsString) :
    isHiddenLine trimmed ↔ ∃ marker ∈ commentMarkers, ∃ rest,
      trimmed = marker ++ js " ::" ++ rest := by
  rw [isHiddenLine, List.any_eq_true]
  refine exists_congr fun marker => and_congr_right fun _ => ?_
  rw [decide_eq_true_iff]
  exact exists_congr fun rest => eq_comm

/-- The tests find the marker lines. -/
theorem markerLine_iff (line : JsString) :
    MarkerLine line ↔ isLicenseLine (trim line) ∨ isHiddenLine (trim line) := by
  rw [isLicenseLine_iff, isHiddenLine_iff, ← exists_or]
  exact exists_congr fun marker => and_or_left

instance (line : JsString) : Decidable (MarkerLine line) :=
  decidable_of_iff _ (markerLine_iff line).symm

instance (line : JsString) : Decidable (Blank line) :=
  inferInstanceAs (Decidable (∀ x ∈ line, isSpace x))

theorem blank_iff (line : JsString) : Blank line ↔ trim line = [] := trim_eq_nil_iff.symm

/-- The lines of a file that are shown, with the blank ones in front. -/
theorem prepareSource_eq (raw : JsString) :
    prepareSource raw = join [unit '\n']
      (((split (unit '\n') (normalizeNewlines (withoutBom raw))).filter
        fun line => ¬MarkerLine line).dropWhile fun line => Blank line) := by
  rw [prepareSource]
  congr 1
  have hmarker : (fun line => !isLicenseLine (trim line) && !isHiddenLine (trim line)) =
      fun line => decide ¬MarkerLine line := by
    funext line
    simp [markerLine_iff]
  have hblank : (fun line => decide (trim line = [])) = fun line => decide (Blank line) := by
    funext line
    simp [blank_iff]
  rw [hmarker, hblank]
  rfl

/-! ## Line ends -/

/-- What is no carriage return stays. -/
theorem normalizeNewlines_cons {x : CodeUnit} (hx : x ≠ unit '\r') (text : JsString) :
    normalizeNewlines (x :: text) = x :: normalizeNewlines text := by
  cases text with
  | nil => simp [normalizeNewlines, hx]
  | cons y text => simp [normalizeNewlines, hx]

/-- A carriage return and a newline become one newline. -/
theorem normalizeNewlines_crlf (text : JsString) :
    normalizeNewlines (unit '\r' :: unit '\n' :: text) = unit '\n' :: normalizeNewlines text := by
  simp [normalizeNewlines]

/-- A carriage return alone becomes a newline. -/
theorem normalizeNewlines_cr {text : JsString} (h : text.head? ≠ some (unit '\n')) :
    normalizeNewlines (unit '\r' :: text) = unit '\n' :: normalizeNewlines text := by
  cases text with
  | nil => simp [normalizeNewlines]
  | cons y text =>
    have hy : y ≠ unit '\n' := fun heq => h (by simp [heq])
    simp [normalizeNewlines, hy]

/-- No carriage return is left. -/
theorem not_mem_normalizeNewlines (text : JsString) : unit '\r' ∉ normalizeNewlines text := by
  have hnewline : unit '\r' ≠ unit '\n' := by decide
  induction text using normalizeNewlines.induct with
  | case1 => simp [normalizeNewlines]
  | case2 => simpa [normalizeNewlines] using hnewline
  | case3 x hx => simp [normalizeNewlines, hx, Ne.symm hx]
  | case4 text ih =>
    rw [normalizeNewlines_crlf, List.mem_cons, not_or]
    exact ⟨hnewline, ih⟩
  | case5 y text hy ih =>
    rw [normalizeNewlines_cr (by simpa using hy), List.mem_cons, not_or]
    exact ⟨hnewline, ih⟩
  | case6 x y text hx ih =>
    rw [normalizeNewlines_cons hx, List.mem_cons, not_or]
    exact ⟨Ne.symm hx, ih⟩

/-! ## What is shown -/

/-- The lines of a file that are shown. -/
def shownLines (raw : JsString) : List JsString :=
  ((split (unit '\n') (normalizeNewlines (withoutBom raw))).filter
    fun line => ¬MarkerLine line).dropWhile fun line => Blank line

theorem prepareSource_eq_join (raw : JsString) :
    prepareSource raw = join [unit '\n'] (shownLines raw) := prepareSource_eq raw

/-- A line that is shown is a line of the file, and no marker line. -/
theorem mem_of_mem_shownLines {raw line : JsString} (h : line ∈ shownLines raw) :
    line ∈ split (unit '\n') (normalizeNewlines (withoutBom raw)) ∧ ¬MarkerLine line := by
  simpa using List.mem_filter.mp ((List.dropWhile_suffix _).mem h)

/-- The first line that is shown is not blank. -/
theorem not_blank_of_mem_head? {raw line : JsString} (h : line ∈ (shownLines raw).head?) :
    ¬Blank line := by
  have hnot := List.head?_dropWhile_not (fun line => decide (Blank line))
    ((split (unit '\n') (normalizeNewlines (withoutBom raw))).filter fun line => ¬MarkerLine line)
  rw [shownLines] at h
  rw [Option.mem_def.mp h] at hnot
  exact of_decide_eq_false hnot

/-- The lines of a prepared source are those that are shown, unless there are none. -/
theorem split_prepareSource {raw : JsString} (hne : shownLines raw ≠ []) :
    split (unit '\n') (prepareSource raw) = shownLines raw := by
  rw [prepareSource_eq_join]
  exact split_join (fun line hline => not_mem_of_mem_split line (mem_of_mem_shownLines hline).1) hne

theorem prepareSource_eq_nil {raw : JsString} (h : shownLines raw = []) :
    prepareSource raw = [] := by
  rw [prepareSource_eq_join, h]
  rfl

/-- The lines of a prepared source are lines of the file that are no marker lines, or it is
empty. -/
theorem mem_split_prepareSource {raw line : JsString}
    (hline : line ∈ split (unit '\n') (prepareSource raw)) :
    line = [] ∨ line ∈ split (unit '\n') (normalizeNewlines (withoutBom raw)) ∧
      ¬MarkerLine line := by
  by_cases hne : shownLines raw = []
  · rw [prepareSource_eq_nil hne] at hline
    exact Or.inl (List.mem_singleton.mp hline)
  · rw [split_prepareSource hne] at hline
    exact Or.inr (mem_of_mem_shownLines hline)

/-- A prepared source contains no marker line. -/
theorem not_markerLine_of_mem_split {raw line : JsString}
    (hline : line ∈ split (unit '\n') (prepareSource raw)) : ¬MarkerLine line := by
  rcases mem_split_prepareSource hline with rfl | ⟨-, hnot⟩
  · -- the empty line of an empty source
    decide
  · exact hnot

/-- A prepared source contains no carriage return. -/
theorem not_mem_prepareSource (raw : JsString) : unit '\r' ∉ prepareSource raw := by
  intro hmem
  rw [← join_split (unit '\n') (prepareSource raw)] at hmem
  rcases mem_of_mem_join hmem with hsep | ⟨line, hline, hcr⟩
  · exact absurd hsep (by decide)
  · rcases mem_split_prepareSource hline with rfl | ⟨hfile, -⟩
    · cases hcr
    · exact not_mem_normalizeNewlines _ (subset_of_mem_split line hfile hcr)

/-- A prepared source is empty, or its first line is not blank. -/
theorem prepareSource_front (raw : JsString) :
    prepareSource raw = [] ∨
      ∀ line ∈ (split (unit '\n') (prepareSource raw)).head?, ¬Blank line := by
  by_cases hne : shownLines raw = []
  · exact Or.inl (prepareSource_eq_nil hne)
  · right
    rw [split_prepareSource hne]
    exact fun line hline => not_blank_of_mem_head? hline

/-- The source that is shown has no carriage return, no marker line and no blank line in front.
It is the lines of the file that are no marker lines, unchanged and in order, without the
blank ones at their front. -/
theorem prepareSource_spec (raw : JsString) :
    unit '\r' ∉ prepareSource raw ∧
      (∀ line ∈ split (unit '\n') (prepareSource raw), ¬MarkerLine line) ∧
      (prepareSource raw = [] ∨
        ∀ line ∈ (split (unit '\n') (prepareSource raw)).head?, ¬Blank line) ∧
      ∃ blanks shown, (split (unit '\n') (normalizeNewlines (withoutBom raw))).filter
          (fun line => ¬MarkerLine line) = blanks ++ shown ∧
        (∀ line ∈ blanks, Blank line) ∧ (∀ line ∈ shown.head?, ¬Blank line) ∧
        prepareSource raw = join [unit '\n'] shown := by
  refine ⟨not_mem_prepareSource raw, fun line hline => not_markerLine_of_mem_split hline,
    prepareSource_front raw, _, shownLines raw, List.takeWhile_append_dropWhile.symm,
    fun line hline => ?_, fun line hline => not_blank_of_mem_head? hline,
    prepareSource_eq_join raw⟩
  exact of_decide_eq_true (List.mem_takeWhile_imp (p := fun line => decide (Blank line)) hline)

/-! ## Encodings of lines -/

/-- The ways in which a line can end in a file. -/
inductive Newline
  /-- A line feed. -/
  | lf
  /-- A carriage return and a line feed. -/
  | crlf
  /-- A carriage return. -/
  | cr
deriving DecidableEq, Repr

/-- The characters of a line end. -/
def Newline.text : Newline → JsString
  | lf => js "\n"
  | crlf => js "\r\n"
  | cr => js "\r"

/-- A file with the given lines, whose `k`-th line and those after it end with `ends k`,
`ends (k + 1)` and so on. The last line has no line end. -/
def encode (ends : ℕ → Newline) : ℕ → List JsString → JsString
  | _, [] => []
  | _, [line] => line
  | k, line :: next :: lines => line ++ (ends k).text ++ encode ends (k + 1) (next :: lines)

/-- No carriage return that ends a line stands in front of a line feed. -/
def Unambiguous (ends : ℕ → Newline) : ℕ → List JsString → Prop
  | k, _ :: next :: lines =>
    (ends k = .cr → (encode ends (k + 1) (next :: lines)).head? ≠ some (unit '\n')) ∧
      Unambiguous ends (k + 1) (next :: lines)
  | _, _ => True

instance decidableUnambiguous (ends : ℕ → Newline) :
    ∀ k lines, Decidable (Unambiguous ends k lines)
  | _, [] => isTrue trivial
  | _, [_] => isTrue trivial
  | k, _ :: next :: lines =>
    have := decidableUnambiguous ends (k + 1) (next :: lines)
    inferInstanceAs (Decidable ((ends k = .cr →
      (encode ends (k + 1) (next :: lines)).head? ≠ some (unit '\n')) ∧
        Unambiguous ends (k + 1) (next :: lines)))

/-- A file that holds the given lines: they have line ends between them, and a byte order mark
may stand in front of them if they do not begin with one. -/
def IsEncoding (lines : List JsString) (raw : JsString) : Prop :=
  ∃ ends, Unambiguous ends 0 lines ∧
    (raw = encode ends 0 lines ∨
      (encode ends 0 lines).head? ≠ some 0xFEFF ∧ raw = 0xFEFF :: encode ends 0 lines)

/-- What has no carriage return stays. -/
theorem normalizeNewlines_append {line : JsString} (h : unit '\r' ∉ line) (text : JsString) :
    normalizeNewlines (line ++ text) = line ++ normalizeNewlines text := by
  induction line with
  | nil => rfl
  | cons x xs ih =>
    obtain ⟨hx, hxs⟩ := not_or.mp (mt List.mem_cons.mpr h)
    rw [List.cons_append, normalizeNewlines_cons (Ne.symm hx), ih hxs, List.cons_append]

/-- Every line end becomes a line feed. -/
theorem normalizeNewlines_newline {e : Newline} {text : JsString}
    (h : e = .cr → text.head? ≠ some (unit '\n')) :
    normalizeNewlines (e.text ++ text) = unit '\n' :: normalizeNewlines text := by
  cases e with
  | lf => exact normalizeNewlines_cons (by decide) text
  | crlf => exact normalizeNewlines_crlf text
  | cr => exact normalizeNewlines_cr (h rfl)

/-- The lines of a file are recovered from every encoding. -/
theorem normalizeNewlines_encode {lines : List JsString} (hlines : ∀ line ∈ lines, unit '\r' ∉ line)
    {ends : ℕ → Newline} {k : ℕ} (hends : Unambiguous ends k lines) :
    normalizeNewlines (encode ends k lines) = join [unit '\n'] lines := by
  induction lines generalizing k with
  | nil => rfl
  | cons line lines ih =>
    have hline := hlines line List.mem_cons_self
    have hrest := fun other hother => hlines other (List.mem_cons_of_mem line hother)
    cases lines with
    | nil =>
      have happend := normalizeNewlines_append hline []
      rw [List.append_nil, normalizeNewlines, List.append_nil] at happend
      rw [encode, happend, join, List.intercalate_singleton]
    | cons next lines =>
      obtain ⟨hcr, hends⟩ := hends
      rw [encode, List.append_assoc, normalizeNewlines_append hline,
        normalizeNewlines_newline hcr, ih hrest hends, join, join, List.intercalate_cons_cons,
        List.append_assoc, List.singleton_append]

/-- A line terminator is no byte order mark. -/
theorem head?_newline (e : Newline) (text : JsString) :
    (e.text ++ text).head? ≠ some 0xFEFF := by
  cases e with
  | lf => exact show some (unit '\n') ≠ some 0xFEFF by decide
  | crlf => exact show some (unit '\r') ≠ some 0xFEFF by decide
  | cr => exact show some (unit '\r') ≠ some 0xFEFF by decide

theorem withoutBom_of_head? {text : JsString} (h : text.head? ≠ some 0xFEFF) :
    withoutBom text = text := if_neg h

/-- A byte order mark in front belongs to the first line. -/
theorem withoutBom_encode (ends : ℕ → Newline) (k : ℕ) (line : JsString)
    (lines : List JsString) :
    withoutBom (encode ends k (line :: lines)) = encode ends k (withoutBom line :: lines) := by
  cases lines with
  | nil => rfl
  | cons next lines =>
    rw [encode, encode]
    cases line with
    | nil =>
      -- no line end begins with one
      refine withoutBom_of_head? ?_
      rw [List.nil_append]
      exact head?_newline (ends k) _
    | cons x xs =>
      by_cases hx : x = 0xFEFF
      · simp [withoutBom, hx]
      · simp [withoutBom, hx]

/-- What the line ends are followed by does not depend on the first line. -/
theorem unambiguous_cons {ends : ℕ → Newline} {k : ℕ} {line : JsString} (line' : JsString)
    {lines : List JsString} (h : Unambiguous ends k (line :: lines)) :
    Unambiguous ends k (line' :: lines) := by
  cases lines with
  | nil => trivial
  | cons next lines => exact h

/-- The lines that are read from a file, whatever its encoding. -/
theorem normalizeNewlines_of_isEncoding {lines : List JsString}
    (hlines : ∀ line ∈ lines, unit '\r' ∉ line) {raw : JsString} (h : IsEncoding lines raw) :
    normalizeNewlines (withoutBom raw) = join [unit '\n'] (lines.modifyHead withoutBom) := by
  obtain ⟨ends, hends, hraw⟩ := h
  have hbom : withoutBom raw = withoutBom (encode ends 0 lines) := by
    rcases hraw with rfl | ⟨hhead, rfl⟩
    · rfl
    · -- the mark in front of the encoding is the only one
      rw [withoutBom_of_head? hhead]
      rfl
  rw [hbom]
  cases lines with
  | nil => rfl
  | cons line lines =>
    rw [withoutBom_encode, List.modifyHead_cons]
    refine normalizeNewlines_encode ?_ (unambiguous_cons _ hends)
    intro other hother
    rcases List.mem_cons.mp hother with rfl | hother
    · -- the first line has lost at most its first character
      refine fun hcr => hlines line List.mem_cons_self ?_
      rw [withoutBom] at hcr
      split at hcr
      · exact List.mem_of_mem_tail hcr
      · exact hcr
    · exact hlines other (List.mem_cons_of_mem line hother)

/-- The prepared source does not depend on how the file encodes its lines. -/
theorem prepareSource_eq_of_isEncoding {lines : List JsString}
    (hlines : ∀ line ∈ lines, unit '\r' ∉ line ∧ unit '\n' ∉ line) {raw raw' : JsString}
    (h : IsEncoding lines raw) (h' : IsEncoding lines raw') :
    prepareSource raw = prepareSource raw' := by
  have hcr := fun line hline => (hlines line hline).1
  rw [prepareSource_eq, prepareSource_eq, normalizeNewlines_of_isEncoding hcr h,
    normalizeNewlines_of_isEncoding hcr h']

/-- A file with a byte order mark and all three line ends, one after the other, and one with
line feeds only. -/
theorem prepareSource_eq_of_isEncoding_mixed :
    prepareSource (js "\uFEFFa\r\r\nb\nc") = prepareSource (js "a\n\nb\nc") :=
  prepareSource_eq_of_isEncoding
    (by decide : ∀ line ∈ [js "a", [], js "b", js "c"], unit '\r' ∉ line ∧ unit '\n' ∉ line)
    ⟨fun k => if k = 0 then .cr else if k = 1 then .crlf else .lf, by decide,
      Or.inr ⟨by decide, rfl⟩⟩
    ⟨fun _ => .lf, by decide, Or.inl rfl⟩

end HackerTyperModel
