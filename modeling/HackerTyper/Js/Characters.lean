import HackerTyper.Js.Utf16

/-!
# Cutting well-formed texts

A well-formed text may be cut wherever it is not between the two halves of a surrogate pair, and
then it is well-formed exactly if both of its parts are.

## Main definitions

* `isWhole`: a code unit that is no half of a surrogate pair.

## Main results

* `wellFormed_append_iff`: a text that is put together;
* `wellFormed_of_isWhole`: a text without surrogates;
* `WellFormed.flatMap_units` and `wellFormed_join`: a text that is rewritten.
-/

namespace Js

open Json

/-- A code unit that is no half of a surrogate pair. -/
def isWhole (x : CodeUnit) : Bool := !isHighSurrogate x && !isLowSurrogate x

theorem isHighSurrogate_of_isWhole {x : CodeUnit} (h : isWhole x) : isHighSurrogate x = false := by
  simpa using (Bool.and_eq_true_iff.mp h).1

theorem isLowSurrogate_of_isWhole {x : CodeUnit} (h : isWhole x) : isLowSurrogate x = false := by
  simpa using (Bool.and_eq_true_iff.mp h).2

/-! ## The halves around a cut -/

/-- A cut splits a pair if a first half is in front of it and a second half behind it. -/
theorem splitsPair_length_append (u v : JsString) :
    splitsPair (u ++ v) u.length =
      (u.getLast?.any isHighSurrogate && v.head?.any isLowSurrogate) := by
  rcases List.eq_nil_or_concat u with rfl | ⟨w, x, rfl⟩
  · rfl
  · have hbehind : (w ++ [x] ++ v)[w.length + 1]? = v.head? := by
      rw [List.getElem?_append_right (by simp), List.head?_eq_getElem?]
      simp
    rw [List.concat_eq_append, List.length_append, List.length_singleton, splitsPair, hbehind]
    simp

/-- No pair is split in front of what is no second half. -/
theorem splitsPair_of_head? {u v : JsString} (h : ∀ x ∈ v.head?, isLowSurrogate x = false) :
    splitsPair (u ++ v) u.length = false := by
  rw [splitsPair_length_append]
  cases hv : v.head? with
  | none => exact Bool.and_false _
  | some x =>
    rw [Option.any_some, h x hv]
    exact Bool.and_false _

/-- No pair is split behind what is no first half. -/
theorem splitsPair_of_getLast? {u v : JsString}
    (h : ∀ x ∈ u.getLast?, isHighSurrogate x = false) : splitsPair (u ++ v) u.length = false := by
  rw [splitsPair_length_append]
  cases hu : u.getLast? with
  | none => exact Bool.false_and _
  | some x =>
    rw [Option.any_some, h x hu]
    exact Bool.false_and _

/-- A cut that splits no pair splits none where the text ends earlier. -/
theorem splitsPair_of_append {u v w : JsString}
    (h : splitsPair (u ++ (v ++ w)) u.length = false) : splitsPair (u ++ v) u.length = false := by
  cases v with
  | nil => exact splitsPair_of_head? (by simp)
  | cons x v =>
    rw [splitsPair_length_append] at h ⊢
    exact h

/-! ## The parts of a text -/

/-- What is left of a well-formed text behind a cut that splits no pair. -/
theorem WellFormed.drop {text : JsString} (h : WellFormed text) {p : ℕ}
    (hsplit : splitsPair text p = false) : WellFormed (text.drop p) := by
  obtain ⟨chars, rfl⟩ := h
  induction chars generalizing p with
  | nil => simpa using wellFormed_nil
  | cons c chars ih =>
    rw [List.flatMap_cons] at hsplit ⊢
    by_cases hle : (encodeUtf16 c).length ≤ p
    · -- the cut is behind the first character
      obtain ⟨q, rfl⟩ := Nat.exists_eq_add_of_le hle
      rw [splitsPair_encodeUtf16_append] at hsplit
      rw [List.drop_length_add_append]
      exact ih hsplit
    · rcases encodeUtf16_cases c with ⟨x, hx, -⟩ | ⟨high, low, hx, hhigh, hlow⟩
      · obtain rfl : p = 0 := by
          rw [hx, List.length_singleton] at hle
          omega
        exact ⟨c :: chars, rfl⟩
      · rw [hx, List.length_cons, List.length_singleton] at hle
        obtain rfl | rfl : p = 0 ∨ p = 1 := by omega
        · exact ⟨c :: chars, rfl⟩
        · -- a cut in the middle of the first character splits a pair
          rw [hx] at hsplit
          simp [splitsPair, hhigh, hlow] at hsplit

theorem WellFormed.append {u v : JsString} (hu : WellFormed u) (hv : WellFormed v) :
    WellFormed (u ++ v) := by
  obtain ⟨chars, rfl⟩ := hu
  obtain ⟨chars', rfl⟩ := hv
  exact ⟨chars ++ chars', List.flatMap_append⟩

/-- Where no pair is split, a text is well-formed exactly if both of its parts are. -/
theorem wellFormed_append_iff {u v : JsString} (h : splitsPair (u ++ v) u.length = false) :
    WellFormed (u ++ v) ↔ WellFormed u ∧ WellFormed v := by
  refine ⟨fun huv => ⟨?_, ?_⟩, fun ⟨hu, hv⟩ => hu.append hv⟩
  · have htake := (wellFormed_take_iff huv u.length).mpr h
    rwa [List.take_left] at htake
  · have hdrop := huv.drop h
    rwa [List.drop_left] at hdrop

/-- A text put together from well-formed texts is well formed. -/
theorem WellFormed.flatMap {ι : Type} {f : ι → JsString} {l : List ι}
    (h : ∀ i ∈ l, WellFormed (f i)) : WellFormed (l.flatMap f) := by
  induction l with
  | nil => exact wellFormed_nil
  | cons i l ih =>
    rw [List.flatMap_cons]
    exact (h i List.mem_cons_self).append (ih fun j hj => h j (List.mem_cons_of_mem i hj))

/-! ## Texts without surrogates -/

theorem wellFormed_singleton {x : CodeUnit} (h : isWhole x) : WellFormed [x] := by
  have hhigh := isHighSurrogate_of_isWhole h
  have hlow := isLowSurrogate_of_isWhole h
  rw [← Bool.not_eq_true, isHighSurrogate_iff] at hhigh
  rw [← Bool.not_eq_true, isLowSurrogate_iff] at hlow
  have hlt : x.toNat < 0x10000 := x.toNat_lt
  -- the character with this number
  let c : Char := ⟨x.toUInt32, by
    change x.toUInt32.toNat < 0xD800 ∨ 0xDFFF < x.toUInt32.toNat ∧ x.toUInt32.toNat < 0x110000
    rw [UInt16.toNat_toUInt32]
    omega⟩
  refine ⟨[c], ?_⟩
  have hval : c.val < 0x10000 := by
    rw [UInt32.lt_iff_toNat_lt, UInt16.toNat_toUInt32]
    exact hlt
  rw [List.flatMap_singleton, encodeUtf16, if_pos hval, UInt16.toUInt16_toUInt32]

/-- A text without surrogates is well-formed. -/
theorem wellFormed_of_isWhole {s : JsString} (h : ∀ x ∈ s, isWhole x) : WellFormed s := by
  have hflat : s = s.flatMap fun x => [x] := (List.flatMap_singleton' s).symm
  rw [hflat]
  exact WellFormed.flatMap fun x hx => wellFormed_singleton (h x hx)

/-! ## Texts that are rewritten -/

/-- In front of a text, a whole character makes no difference. -/
theorem wellFormed_cons_iff {x : CodeUnit} (hx : isWhole x) {s : JsString} :
    WellFormed (x :: s) ↔ WellFormed s := by
  have hcut : splitsPair ([x] ++ s) [x].length = false :=
    splitsPair_of_getLast? (by simpa using isHighSurrogate_of_isWhole hx)
  rw [← List.singleton_append, wellFormed_append_iff hcut]
  exact and_iff_right (wellFormed_singleton hx)

/-- A well-formed text stays so when some of its whole characters are replaced. -/
theorem WellFormed.flatMap_units {f : CodeUnit → JsString}
    (hwhole : ∀ x, isWhole x → WellFormed (f x)) (hhalf : ∀ x, isWhole x = false → f x = [x])
    {s : JsString} (h : WellFormed s) : WellFormed (s.flatMap f) := by
  obtain ⟨chars, rfl⟩ := h
  rw [List.flatMap_assoc]
  refine WellFormed.flatMap fun c _ => ?_
  rcases encodeUtf16_cases c with ⟨x, hx, hhigh, hlow⟩ | ⟨high, low, hx, hhigh, hlow⟩
  · rw [hx, List.flatMap_singleton]
    exact hwhole x (by simp [isWhole, hhigh, hlow])
  · -- the halves of a pair are kept
    refine ⟨[c], ?_⟩
    rw [List.flatMap_singleton, hx, List.flatMap_cons, List.flatMap_singleton,
      hhalf high (by simp [isWhole, hhigh]), hhalf low (by simp [isWhole, hlow])]
    rfl

/-- A text is well-formed exactly if its parts between whole characters are. -/
theorem wellFormed_join {c : CodeUnit} (hc : isWhole c) (parts : List JsString) :
    WellFormed (join [c] parts) ↔ ∀ part ∈ parts, WellFormed part := by
  induction parts with
  | nil => exact iff_of_true wellFormed_nil (by simp)
  | cons part parts ih =>
    cases parts with
    | nil => simp [join]
    | cons part' parts =>
      have hjoin : join [c] (part :: part' :: parts) =
          part ++ c :: join [c] (part' :: parts) := by
        simp [join, List.intercalate]
      have hcut := splitsPair_of_head? (u := part) (v := c :: join [c] (part' :: parts))
        (by simpa using isLowSurrogate_of_isWhole hc)
      rw [hjoin, wellFormed_append_iff hcut, wellFormed_cons_iff hc, ih]
      simp only [List.forall_mem_cons]

end Js
