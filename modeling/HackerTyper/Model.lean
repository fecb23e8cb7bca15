import HackerTyper.Js.Json

/-!
# The shared functions

The functions of `HackerTyperModel.js`: the typing position, the payload of a launch, the
preparation of a source for display, its preview, and the lookup of a source.

## Main definitions

* `clamp`, `advance`, `retreat`;
* `parsePayload`;
* `prepareSource`;
* `preview`;
* `sourceById`.

## Main results

* `advance_eq` and `retreat_eq`: typing moves the position by the step, clamped to the text;
* `sourceById_of_stringOrEmpty` and `sourceById_spec`: what a lookup finds, and when it
  throws.
-/

namespace HackerTyperModel

open Js

/-! ## The typing position -/

/-- Clamp an integer. -/
def clamp (value minimum maximum : ℤ) : ℤ := max minimum (min maximum value)

/-- `Number(amount) || 1` for an integer, and at least one. -/
def stepSize (amount : ℤ) : ℤ := max 1 (if amount = 0 then 1 else amount)

/-- The position after typing, in a text of the given length. -/
def advance (index amount length : ℤ) : ℤ :=
  clamp (index + stepSize amount) 0 (max 0 length)

/-- The position after deleting, in a text of the given length. -/
def retreat (index amount length : ℤ) : ℤ :=
  clamp (index - stepSize amount) 0 (max 0 length)

theorem clamp_mem (value : ℤ) {maximum : ℤ} (h : 0 ≤ maximum) :
    0 ≤ clamp value 0 maximum ∧ clamp value 0 maximum ≤ maximum := by
  rw [clamp]
  omega

theorem stepSize_of_pos {amount : ℤ} (h : 1 ≤ amount) : stepSize amount = amount := by
  rw [stepSize, if_neg (by omega)]
  omega

/-- Typing moves the position by the step, clamped to the text. -/
theorem advance_eq {amount : ℤ} (h : 1 ≤ amount) (index : ℤ) (length : ℕ) :
    advance index amount length = clamp (index + amount) 0 length := by
  rw [advance, stepSize_of_pos h, max_eq_right (by omega)]

/-- Deleting moves the position by the step, clamped to the text. -/
theorem retreat_eq {amount : ℤ} (h : 1 ≤ amount) (index : ℤ) (length : ℕ) :
    retreat index amount length = clamp (index - amount) 0 length := by
  rw [retreat, stepSize_of_pos h, max_eq_right (by omega)]

/-! ## Payloads -/

/-- The object a payload denotes, or an empty one. -/
def parsePayload (raw : JsString) : Json :=
  match Json.parse (if raw = [] then js "\x7b\x7d" else raw) with
  | .ok (.arr elements) => .arr elements
  | .ok (.obj members) => .obj members
  -- other values, and texts that are no JSON
  | _ => .obj []

/-! ## Preparing a source -/

/-- `text.replace(/\r\n?/g, "\n")`. -/
def normalizeNewlines : JsString → JsString
  | [] => []
  | [x] => if x = unit '\r' then [unit '\n'] else [x]
  | x :: y :: text =>
    if x = unit '\r' then
      -- `\r\n` is one line end
      if y = unit '\n' then unit '\n' :: normalizeNewlines text
      else unit '\n' :: normalizeNewlines (y :: text)
    else x :: normalizeNewlines (y :: text)

/-- What starts a comment line in the bundled sources. -/
def commentMarkers : List JsString := [js "//", js "#", js "--"]

/-- `/^(?:\/\/|#|--)\s*SPDX-License-Identifier:/.test(trimmed)`. -/
def isLicenseLine (trimmed : JsString) : Bool :=
  commentMarkers.any fun marker => marker <+: trimmed ∧
    js "SPDX-License-Identifier:" <+: (trimmed.drop marker.length).dropWhile isSpace

/-- `/^(?:\/\/|#|--) ::/.test(trimmed)`. -/
def isHiddenLine (trimmed : JsString) : Bool :=
  commentMarkers.any fun marker => marker ++ js " ::" <+: trimmed

/-- The text that is typed for the text of a file: without the license line, the hidden
comments and the blank lines in front. -/
def prepareSource (raw : JsString) : JsString :=
  -- without a byte order mark
  let text := normalizeNewlines (if raw.head? = some 0xFEFF then raw.tail else raw)
  let lines := split (unit '\n') text
  let prepared := lines.filter fun line =>
    !isLicenseLine (trim line) && !isHiddenLine (trim line)
  join (js "\n") (prepared.dropWhile fun line => trim line = [])

example :
    prepareSource (js "\uFEFF#!/bin/sh\r\n# SPDX-License-Identifier: MIT\r\n# :: x\r\n# y\r") =
      js "#!/bin/sh\n# y\n" := by
  decide +kernel

/-! ## Previews -/

/-- The beginning of a text, in at most so many lines and characters. -/
def preview (raw : JsString) (lineCount characterLimit : ℤ) : JsString :=
  let lines := split (unit '\n') raw
  let count := stepSize lineCount
  let limit := stepSize characterLimit
  let out := trim (join (js "\n") (lines.take count.toNat))
  if out.length > limit then
    -- the guard keeps one character, also where the limit has no room for it
    trimEnd (out.take (max 1 (limit - 1)).toNat) ++ js "…"
  else out

example : preview (js "abcdefghijklmnopqrstuvwxyz") 2 10 = js "abcdefghi…" := by
  decide +kernel

/-! ## Looking up a source -/

/-- An entry of the catalog, with the fields the program reads. -/
structure Source where
  /-- Its identifier. -/
  id : JsString
  /-- Its name for display. -/
  name : JsString
  /-- The language it is highlighted in. -/
  language : JsString
  /-- Its file, relative to the directory of the plugin. -/
  file : JsString
deriving DecidableEq, Repr

/-- The source with the requested identifier, or else the first one. -/
def sourceById (sources : List Source) (id : Json) : Result (Option Source) := do
  let requested ← id.stringOrEmpty
  match sources.find? fun source => source.id = requested with
  | some source => .ok (some source)
  -- the fallback: the first entry, or none if the list is empty
  | none => .ok sources.head?

/-- What a lookup finds for the string it is given. -/
theorem sourceById_of_stringOrEmpty {sources : List Source} {id : Json} {s : JsString}
    (h : id.stringOrEmpty = .ok s) :
    sourceById sources id =
      .ok ((sources.find? fun source => source.id = s).or sources.head?) := by
  rw [sourceById, h, Result.ok_bind]
  cases sources.find? fun source => decide (source.id = s) <;> rfl

/-- A lookup returns for a value that is falsy or can be converted to a string, and throws
otherwise. -/
theorem sourceById_spec (sources : List Source) (id : Json) :
    (id.truthy → id.Stringable) ∧ (∃ source, sourceById sources id = .ok source) ∨
      ¬(id.truthy → id.Stringable) ∧ sourceById sources id = .throw .typeError := by
  -- the conversion of the identifier is the only step that may throw
  rcases id.stringOrEmpty_spec with ⟨hid, s, hs⟩ | ⟨hid, hthrow⟩
  · exact Or.inl ⟨hid, _, sourceById_of_stringOrEmpty hs⟩
  · exact Or.inr ⟨hid, by rw [sourceById, hthrow, Result.throw_bind]⟩

end HackerTyperModel
