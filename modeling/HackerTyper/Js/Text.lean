import Mathlib.Data.List.Basic
import Mathlib.Data.List.Infix
import Mathlib.Tactic.Common

/-!
# JavaScript strings

A JavaScript string is a sequence of 16-bit code units. `js` writes a literal, and the
character classes are those of regular expressions without the `u` and `i` flags.

## Main definitions

* `Js.CodeUnit`, `Js.JsString` and the literal `Js.js`;
* `Js.isDigit`, `Js.isWord`, `Js.isSpace`, `Js.isLineTerminator`: the classes `\d`, `\w`,
  `\s` and the complement of `.`;
* `Js.replaceUnit`, `Js.indexOf`, `Js.trim`, `Js.trimEnd`, `Js.join`, `Js.split`: string
  methods.
-/

namespace Js

/-- A UTF-16 code unit. -/
abbrev CodeUnit := UInt16

/-- A JavaScript string. -/
abbrev JsString := List CodeUnit

/-- What holds of all code units of a string is decided along the string, not for all 65536
code units. -/
instance (priority := high) decidableForallMem (p : CodeUnit → Prop) [DecidablePred p]
    (s : JsString) : Decidable (∀ c ∈ s, p c) :=
  List.decidableBAll p s

instance (priority := high) decidableForallMemOption (p : CodeUnit → Prop) [DecidablePred p]
    (o : Option CodeUnit) : Decidable (∀ c ∈ o, p c) :=
  Option.decidableForallMem o

instance decidableMem (s : JsString) (strings : List JsString) : Decidable (s ∈ strings) :=
  List.instDecidableMemOfLawfulBEq s strings

/-- The code unit of a character of the basic plane. -/
def unit (c : Char) : CodeUnit := c.val.toUInt16

/-- The UTF-16 encoding of a character. -/
def encodeUtf16 (c : Char) : JsString :=
  if c.val < 0x10000 then [c.val.toUInt16]
  -- a character beyond the basic plane is a surrogate pair
  else
    [(0xD800 + (c.val - 0x10000) / 0x400).toUInt16,
      (0xDC00 + (c.val - 0x10000) % 0x400).toUInt16]

/-- The JavaScript string of a literal. -/
def js (s : String) : JsString := s.toList.flatMap encodeUtf16

/-! ## Character classes -/

/-- `c` lies between two characters. -/
def between (lo hi : Char) (c : CodeUnit) : Bool := unit lo ≤ c && c ≤ unit hi

/-- The class `\d`. -/
def isDigit (c : CodeUnit) : Bool := between '0' '9' c

/-- An ASCII letter. -/
def isLetter (c : CodeUnit) : Bool := between 'A' 'Z' c || between 'a' 'z' c

/-- The class `\w`, that is `[A-Za-z0-9_]`. -/
def isWord (c : CodeUnit) : Bool := isLetter c || isDigit c || decide (c = unit '_')

/-- The line terminators, which `.` does not match. -/
def isLineTerminator (c : CodeUnit) : Bool :=
  c == 0x000A || c == 0x000D || c == 0x2028 || c == 0x2029

/-- The class `\s`: white space and line terminators. -/
def isSpace (c : CodeUnit) : Bool :=
  isLineTerminator c || c == 0x0009 || c == 0x000B || c == 0x000C || c == 0x0020 ||
    c == 0x00A0 || c == 0x1680 || (0x2000 ≤ c && c ≤ 0x200A) || c == 0x202F || c == 0x205F ||
    c == 0x3000 || c == 0xFEFF

theorem between_iff {lo hi : Char} {c : CodeUnit} :
    between lo hi c ↔ (unit lo).toNat ≤ c.toNat ∧ c.toNat ≤ (unit hi).toNat := by
  simp [between, UInt16.le_iff_toNat_le]

/-- The digits are U+0030 to U+0039. -/
theorem isDigit_iff {c : CodeUnit} : isDigit c ↔ 48 ≤ c.toNat ∧ c.toNat ≤ 57 := between_iff

/-- The letters are U+0041 to U+005A and U+0061 to U+007A. -/
theorem isLetter_iff {c : CodeUnit} :
    isLetter c ↔ 65 ≤ c.toNat ∧ c.toNat ≤ 90 ∨ 97 ≤ c.toNat ∧ c.toNat ≤ 122 := by
  rw [isLetter, Bool.or_eq_true, between_iff, between_iff]
  exact Iff.rfl

theorem isWord_of_isDigit {c : CodeUnit} (h : isDigit c) : isWord c := by
  simp [isWord, h]

/-! ## String methods -/

/-- `s.replace(/c/g, r)` for a pattern that is the single character `c`, where `r` has no
`$`. -/
def replaceUnit (c : CodeUnit) (r : JsString) (s : JsString) : JsString :=
  s.flatMap fun x => if x = c then r else [x]

/-- The first offset at which `needle` occurs at or after the front of `s`. -/
def indexOfFrom (needle : JsString) (i : ℕ) : JsString → Option ℕ
  | [] => if needle = [] then some i else none
  | x :: xs => if needle <+: x :: xs then some i else indexOfFrom needle (i + 1) xs

/-- `s.indexOf(needle)`, with `-1` written `none`. -/
def indexOf (s needle : JsString) : Option ℕ := indexOfFrom needle 0 s

/-- `s.toLowerCase()` for an ASCII string. -/
def toLowerCase (s : JsString) : JsString :=
  s.map fun c => if between 'A' 'Z' c then c + 32 else c

/-- `s.replace(/^\s+|\s+$/g, "")`, which is also `s.trim()`. -/
def trim (s : JsString) : JsString :=
  ((s.dropWhile isSpace).reverse.dropWhile isSpace).reverse

/-- `s.trimEnd()`. -/
def trimEnd (s : JsString) : JsString := (s.reverse.dropWhile isSpace).reverse

/-- `parts.join(sep)`. -/
def join (sep : JsString) (parts : List JsString) : JsString := sep.intercalate parts

/-- `s.split(c)` for a separator of one code unit. -/
def split (c : CodeUnit) : JsString → List JsString
  | [] => [[]]
  | x :: xs =>
    if x = c then [] :: split c xs
    else
      match split c xs with
      | [] => [[x]]
      | line :: lines => (x :: line) :: lines

theorem join_nil (parts : List JsString) : join [] parts = parts.flatten := by
  induction parts with
  | nil => rfl
  | cons part parts ih =>
    cases parts with
    | nil => simp [join, List.intercalate]
    | cons part' parts => simpa [join, List.intercalate] using ih

/-- A search that starts at an index finds nothing in front of it. -/
theorem le_of_indexOfFrom {needle s : JsString} {i j : ℕ}
    (h : indexOfFrom needle i s = some j) : i ≤ j := by
  induction s generalizing i with
  | nil =>
    rw [indexOfFrom] at h
    split at h
    · exact (Option.some.inj h).le
    · cases h
  | cons x xs ih =>
    rw [indexOfFrom] at h
    split at h
    · exact (Option.some.inj h).le
    · exact Nat.le_of_succ_le (ih h)

/-- `s.indexOf(needle) === 0` tests for a prefix. -/
theorem indexOf_eq_zero_iff {s needle : JsString} :
    indexOf s needle = some 0 ↔ needle <+: s := by
  rw [indexOf]
  cases s with
  | nil => simp [indexOfFrom]
  | cons x xs =>
    rw [indexOfFrom]
    split
    next h => simp [h]
    next h =>
      refine ⟨fun h' => ?_, fun h' => absurd h' h⟩
      -- the search has left offset zero and does not come back to it
      have := le_of_indexOfFrom h'
      omega

end Js
