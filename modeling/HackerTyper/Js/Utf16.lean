import HackerTyper.Js.Json

/-!
# Well-formed UTF-16

A text is well-formed if it encodes a sequence of characters. Its beginnings are well-formed
too, except for those that end between the two halves of a surrogate pair.

## Main definitions

* `WellFormed`;
* `splitsPair`: an offset between the two halves of a surrogate pair.

## Main results

* `wellFormed_take_iff`: which beginnings of a text are well-formed;
* `wellFormed_take_cases`: what the others look like.
-/

namespace Js

open Json

/-- A text is the encoding of a sequence of characters. -/
def WellFormed (s : JsString) : Prop := ∃ chars : List Char, chars.flatMap encodeUtf16 = s

/-- An offset lies between the two halves of a surrogate pair. -/
def splitsPair (text : JsString) : ℕ → Bool
  | 0 => false
  | j + 1 => text[j]?.any isHighSurrogate && text[j + 1]?.any isLowSurrogate

/-! ## The encoding of a character -/

/-- The first halves are U+D800 to U+DBFF. -/
theorem isHighSurrogate_iff {c : CodeUnit} :
    isHighSurrogate c ↔ 0xD800 ≤ c.toNat ∧ c.toNat ≤ 0xDBFF := by
  simp [isHighSurrogate, UInt16.le_iff_toNat_le]

/-- The second halves are U+DC00 to U+DFFF. -/
theorem isLowSurrogate_iff {c : CodeUnit} :
    isLowSurrogate c ↔ 0xDC00 ≤ c.toNat ∧ c.toNat ≤ 0xDFFF := by
  simp [isLowSurrogate, UInt16.le_iff_toNat_le]

/-- A character is a code unit that is no surrogate, or a surrogate pair. -/
theorem encodeUtf16_cases (c : Char) :
    (∃ x, encodeUtf16 c = [x] ∧ isHighSurrogate x = false ∧ isLowSurrogate x = false) ∨
      ∃ high low, encodeUtf16 c = [high, low] ∧ isHighSurrogate high ∧ isLowSurrogate low := by
  have hvalid : c.val.toNat < 0xD800 ∨ 0xDFFF < c.val.toNat ∧ c.val.toNat < 0x110000 := c.valid
  rw [encodeUtf16]
  split
  next h =>
    left
    have hlt : c.val.toNat < 0x10000 := UInt32.lt_iff_toNat_lt.mp h
    refine ⟨_, rfl, ?_, ?_⟩
    · rw [← Bool.not_eq_true, isHighSurrogate_iff, UInt32.toNat_toUInt16]
      omega
    · rw [← Bool.not_eq_true, isLowSurrogate_iff, UInt32.toNat_toUInt16]
      omega
  next h =>
    right
    have hle : 0x10000 ≤ c.val.toNat := by
      rw [UInt32.lt_iff_toNat_lt] at h
      exact Nat.not_lt.mp h
    have hsub : (c.val - 0x10000).toNat = c.val.toNat - 0x10000 :=
      UInt32.toNat_sub_of_le _ _ (UInt32.le_iff_toNat_le.mpr hle)
    have hten : (0x400 : UInt32).toNat = 0x400 := rfl
    have hbase : (0xD800 : UInt32).toNat = 0xD800 := rfl
    have hbase' : (0xDC00 : UInt32).toNat = 0xDC00 := rfl
    refine ⟨_, _, rfl, ?_, ?_⟩
    · rw [isHighSurrogate_iff, UInt32.toNat_toUInt16, UInt32.toNat_add, UInt32.toNat_div, hsub,
        hten, hbase]
      omega
    · rw [isLowSurrogate_iff, UInt32.toNat_toUInt16, UInt32.toNat_add, UInt32.toNat_mod, hsub,
        hten, hbase']
      omega

theorem isLowSurrogate_of_isHighSurrogate {c : CodeUnit} (h : isHighSurrogate c) :
    isLowSurrogate c = false := by
  rw [isHighSurrogate_iff] at h
  rw [← Bool.not_eq_true, isLowSurrogate_iff]
  omega

/-! ## Well-formed texts -/

theorem wellFormed_nil : WellFormed [] := ⟨[], rfl⟩

/-- A character in front of a well-formed text. -/
theorem WellFormed.cons (c : Char) {s : JsString} (h : WellFormed s) :
    WellFormed (encodeUtf16 c ++ s) := by
  obtain ⟨chars, rfl⟩ := h
  exact ⟨c :: chars, List.flatMap_cons⟩

/-- A well-formed text does not end with the first half of a surrogate pair. -/
theorem not_wellFormed_concat {s : JsString} {high : CodeUnit} (h : isHighSurrogate high) :
    ¬WellFormed (s ++ [high]) := by
  rintro ⟨chars, hchars⟩
  cases chars using List.reverseRecOn with
  | nil => simp at hchars
  | append_singleton chars c _ =>
    rw [List.flatMap_append, List.flatMap_singleton] at hchars
    rcases encodeUtf16_cases c with ⟨x, hx, hhigh, -⟩ | ⟨high', low, hx, -, hlow⟩
    · -- the last character is a code unit that is no surrogate
      rw [hx] at hchars
      have hlast := (List.append_inj' hchars rfl).2
      cases hlast
      rw [h] at hhigh
      cases hhigh
    · -- the last character ends with the second half of a pair
      rw [hx, show [high', low] = [high'] ++ [low] from rfl, ← List.append_assoc] at hchars
      have hlast := (List.append_inj' hchars rfl).2
      cases hlast
      rw [isLowSurrogate_of_isHighSurrogate h] at hlow
      cases hlow

/-- Behind a character, the pairs are those of the rest. -/
theorem splitsPair_encodeUtf16_append (c : Char) (s : JsString) (p : ℕ) :
    splitsPair (encodeUtf16 c ++ s) ((encodeUtf16 c).length + p) = splitsPair s p := by
  rcases encodeUtf16_cases c with ⟨x, hx, hhigh, -⟩ | ⟨high, low, hx, -, hlow⟩
  · rw [hx, List.length_singleton, Nat.add_comm]
    cases p with
    | zero => simp [splitsPair, hhigh]
    | succ j => rfl
  · rw [hx, List.length_cons, List.length_singleton, Nat.add_comm]
    cases p with
    | zero =>
      -- the second half of a pair is no first half
      have hhigh : isHighSurrogate low = false := by
        by_contra h
        rw [isLowSurrogate_of_isHighSurrogate (Bool.not_eq_false _ ▸ h)] at hlow
        cases hlow
      simp [splitsPair, hhigh]
    | succ j => rfl

/-- The beginnings of a well-formed text: well-formed, or cut between the halves of a pair. -/
theorem wellFormed_take_cases {text : JsString} (h : WellFormed text) (p : ℕ) :
    splitsPair text p = false ∧ WellFormed (text.take p) ∨
      splitsPair text p = true ∧ ∃ whole high, text.take p = whole ++ [high] ∧
        WellFormed whole ∧ isHighSurrogate high := by
  obtain ⟨chars, rfl⟩ := h
  induction chars generalizing p with
  | nil =>
    left
    cases p <;> exact ⟨rfl, wellFormed_nil⟩
  | cons c chars ih =>
    rw [List.flatMap_cons]
    by_cases hle : (encodeUtf16 c).length ≤ p
    · -- the cut is behind the first character
      obtain ⟨p, rfl⟩ := Nat.exists_eq_add_of_le hle
      rw [splitsPair_encodeUtf16_append, List.take_length_add_append]
      refine (ih p).imp (And.imp_right (WellFormed.cons c)) (And.imp_right ?_)
      rintro ⟨whole, high, htake, hwhole, hhigh⟩
      exact ⟨encodeUtf16 c ++ whole, high, by rw [htake, List.append_assoc], hwhole.cons c, hhigh⟩
    · -- the cut is in front of the first character, or in its middle
      rcases encodeUtf16_cases c with ⟨x, hx, -⟩ | ⟨high, low, hx, hhigh, hlow⟩
      · obtain rfl : p = 0 := by
          rw [hx, List.length_singleton] at hle
          omega
        exact Or.inl ⟨rfl, wellFormed_nil⟩
      · rw [hx, List.length_cons, List.length_singleton] at hle
        rw [hx]
        obtain rfl | rfl : p = 0 ∨ p = 1 := by omega
        · exact Or.inl ⟨rfl, wellFormed_nil⟩
        · exact Or.inr ⟨by simp [splitsPair, hhigh, hlow], [], high, rfl, wellFormed_nil, hhigh⟩

/-- A beginning of a well-formed text is well-formed unless it splits a pair. -/
theorem wellFormed_take_iff {text : JsString} (h : WellFormed text) (p : ℕ) :
    WellFormed (text.take p) ↔ splitsPair text p = false := by
  rcases wellFormed_take_cases h p with ⟨hsplit, htake⟩ | ⟨hsplit, whole, high, htake, -, hhigh⟩
  · exact iff_of_true htake hsplit
  · rw [htake, hsplit]
    exact iff_of_false (not_wellFormed_concat hhigh) (by simp)

end Js
