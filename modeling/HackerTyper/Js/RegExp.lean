import HackerTyper.Js.Pattern

/-!
# Regular expression objects

A `RegExp` with the `g` flag remembers in `lastIndex` where the next `exec` starts to
search, so that every call both depends on the object's state and changes it.

## Main definitions

* `Js.RegExp` and `Js.RegExp.new`: the object `new RegExp(pattern, "g")`;
* `Js.RegExp.exec`: a search from `lastIndex` on.

## Main results

* `exec_of_search_none` and `exec_of_search_some`: what a call returns and what it leaves in
  `lastIndex`.
-/

namespace Js

/-- `text.slice(i, j)` for offsets inside the text. -/
def slice (text : JsString) (i j : ℕ) : JsString := (text.take j).drop i

/-- A regular expression object with the `g` flag. -/
structure RegExp where
  /-- What the pattern denotes. -/
  program : Regex CodeUnit
  /-- Where the next search starts. -/
  lastIndex : ℕ

/-- The result of a successful `exec`. -/
structure Match where
  /-- Where the match starts. -/
  index : ℕ
  /-- The matched text, `match[0]`. -/
  text : JsString
deriving DecidableEq, Repr

namespace RegExp

/-- `new RegExp(pattern, "g")`. -/
def new (pattern : JsString) : Result RegExp :=
  match Pattern.compile pattern with
  | some r => .ok ⟨r, 0⟩
  | none => .throw .syntaxError

/-- `re.exec(text)`: the leftmost match at or after `lastIndex`, which moves to its end, or
`null`, which resets `lastIndex`. -/
def exec (re : RegExp) (text : JsString) : Option Match × RegExp :=
  if text.length < re.lastIndex then (none, { re with lastIndex := 0 })
  else
    match re.program.search (Cursor.ofIndex text re.lastIndex) with
    -- without a match the next call starts from the front again
    | none => (none, { re with lastIndex := 0 })
    | some (s, e) =>
      (some ⟨s.index, slice text s.index e.index⟩, { re with lastIndex := e.index })

/-- `exec` resets `lastIndex` where it finds nothing. -/
theorem exec_of_search_none {re : RegExp} {text : JsString}
    (h : re.program.search (Cursor.ofIndex text re.lastIndex) = none) :
    re.exec text = (none, { re with lastIndex := 0 }) := by
  rw [exec, h]
  split <;> rfl

/-- `exec` leaves `lastIndex` behind the match. -/
theorem exec_of_search_some {re : RegExp} {text : JsString} {s e : Cursor CodeUnit}
    (hle : re.lastIndex ≤ text.length)
    (h : re.program.search (Cursor.ofIndex text re.lastIndex) = some (s, e)) :
    re.exec text =
      (some ⟨s.index, slice text s.index e.index⟩, { re with lastIndex := e.index }) := by
  rw [exec, if_neg (by omega), h]

end RegExp

end Js
