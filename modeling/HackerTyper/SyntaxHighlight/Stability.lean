import HackerTyper.SyntaxHighlight.Classification
import HackerTyper.SyntaxHighlight.Segmentation
import Mathlib.Algebra.Group.Nat.Even

/-!
# Tokens of a growing text

The overlay tokenizes the revealed part of a source anew after every key. The scanner looks
at most two characters ahead, so tokens that end that far before the end of a text stay when
the text grows. Two things are beyond that look-ahead: a string that runs to the end of the
text and a number at its end may turn out to be neither, and then a gap in front of them
grows over them.

## Main definitions

* `trailingBackslashes`: the length of the run of backslashes at the end of a text;
* `Lexeme.Fragile`: numbers and strings.

## Main results

* `openedLength_append`, `numberLength_append`, `identifierLength_append`: what ends inside a text
  stays when text follows;
* `length?_extend`, `length?_extend_of_none`: how an alternative matches when text follows;
* `decides_lexer`: the lexer of a configuration decides with look-ahead two on every text
  that ends in an even number of backslashes;
* `tokenize_stable`: the tokens of a text are tokens of its continuations.
-/

namespace SyntaxHighlight

open Js Lexeme

/-- The number of backslashes at the end of a text. -/
def trailingBackslashes (s : JsString) : ℕ := (s.reverse.takeWhile (· = unit '\\')).length

/-- The alternatives whose match may vanish when text follows: numbers and strings. -/
def Lexeme.Fragile : Lexeme → Prop
  | string _ => True
  | number => True
  | _ => False

/-! ## Matches in a text and in its continuations -/

/-- A run that ends inside a text ends there in its continuations. -/
theorem takeWhile_append_of_lt {p : CodeUnit → Bool} {u s : JsString}
    (h : (u.takeWhile p).length < u.length) : (u ++ s).takeWhile p = u.takeWhile p := by
  rw [List.takeWhile_append, if_neg (by omega)]

/-- A run of digits that ends inside a text ends there in every continuation. -/
theorem digitRun_append {u s : JsString} (h : digitRun u < u.length) :
    digitRun (u ++ s) = digitRun u := by
  rw [digitRun, takeWhile_append_of_lt h, ← digitRun]

theorem wordAhead_append {u s : JsString} (h : u ≠ []) : wordAhead (u ++ s) = wordAhead u := by
  cases u with
  | nil => exact absurd rfl h
  | cons x xs => rfl

/-- A comment that ends inside a text is closed there. -/
theorem length_closer_le_blockEnd {closer u : JsString} (h : blockEnd closer u < u.length) :
    closer.length ≤ blockEnd closer u := by
  induction u with
  | nil => cases h
  | cons x xs ih =>
    rw [blockEnd] at h ⊢
    split at h
    next hpre => simp [hpre]
    next hpre =>
      rw [if_neg hpre]
      -- the comment goes on, and is closed by induction
      exact (ih (Nat.succ_lt_succ_iff.mp h)).trans (Nat.le_succ _)

/-- A block comment that is closed inside a text is so in every continuation. -/
theorem blockEnd_append {closer u s : JsString} (h : blockEnd closer u < u.length) :
    blockEnd closer (u ++ s) = blockEnd closer u := by
  induction u with
  | nil => cases h
  | cons x xs ih =>
    have hlen := (length_closer_le_blockEnd h).trans h.le
    -- the closer fits into the text, so what follows does not matter for it
    have hext : closer <+: x :: (xs ++ s) ↔ closer <+: x :: xs :=
      List.isPrefix_append_of_length hlen
    rw [List.cons_append, blockEnd, blockEnd]
    by_cases hpre : closer <+: x :: xs
    · rw [if_pos hpre, if_pos (hext.mpr hpre)]
    · rw [blockEnd, if_neg hpre] at h
      rw [if_neg hpre, if_neg (mt hext.mp hpre), ih (Nat.succ_lt_succ_iff.mp h)]

/-- A string that ends inside a text ends there in its continuations. -/
theorem stringEnd_append {q : CodeUnit} {u s : JsString} {m : ℕ}
    (h : stringEnd [q] u = some m) (hm : m < u.length) : stringEnd [q] (u ++ s) = some m := by
  have hpre : ∀ x xs, [q] <+: x :: (xs ++ s) ↔ [q] <+: x :: xs :=
    fun x xs => List.isPrefix_append_of_length (show [q].length ≤ (x :: xs).length by simp)
  induction u using stringEnd.induct [q] generalizing m with
  -- the text ends here, so the string does not end inside it
  | case1 => cases hm
  | case2 x xs hd =>
    rw [stringEnd_closer hd] at h
    rw [List.cons_append, stringEnd_closer ((hpre x xs).mpr hd), h]
  | case3 hd => simp [stringEnd, hd] at h
  | case4 y ys hy hd => simp [stringEnd, hd, hy] at h
  | case5 y ys hy hd ih =>
    rw [stringEnd_escape hd hy, Option.map_eq_some_iff] at h
    obtain ⟨n, hn, rfl⟩ := h
    have hd' : ¬[q] <+: unit '\\' :: y :: (ys ++ s) := mt (hpre _ (y :: ys)).mp hd
    -- an escape: both of its characters are in the text
    rw [List.cons_append, List.cons_append, stringEnd_escape hd' hy,
      ih hn (by simpa using hm)]
    rfl
  | case6 x xs hd hx ih =>
    rw [stringEnd_plain hd hx, Option.map_eq_some_iff] at h
    obtain ⟨n, hn, rfl⟩ := h
    rw [List.cons_append, stringEnd_plain (mt (hpre x xs).mp hd) hx, ih hn (by simpa using hm)]
    rfl

theorem trailingBackslashes_cons (x : CodeUnit) (xs : JsString) :
    trailingBackslashes (x :: xs) =
      if trailingBackslashes xs = xs.length ∧ x = unit '\\' then xs.length + 1
      else trailingBackslashes xs := by
  rw [trailingBackslashes, List.reverse_cons, List.takeWhile_append, List.length_reverse,
    ← trailingBackslashes]
  by_cases hall : trailingBackslashes xs = xs.length
  · by_cases hx : x = unit '\\' <;> simp [hall, hx]
  · simp only [hall, false_and, if_false]
    rfl

theorem trailingBackslashes_append (b : JsString) {x : CodeUnit} {xs : JsString}
    (hx : x ≠ unit '\\') : trailingBackslashes (b ++ x :: xs) = trailingBackslashes xs := by
  induction b with
  | nil => simp [trailingBackslashes_cons, hx]
  | cons y b ih =>
    have hlt : trailingBackslashes xs ≤ xs.length := by
      rw [trailingBackslashes]
      exact (List.takeWhile_prefix _).length_le.trans_eq (List.length_reverse)
    -- the run does not reach over `x`
    rw [List.cons_append, trailingBackslashes_cons, ih, if_neg]
    rintro ⟨h, -⟩
    rw [List.length_append, List.length_cons] at h
    omega

/-- Where no string ends in a text, none ends in its continuations, unless the text ends in
an unpaired backslash. -/
theorem stringEnd_append_eq_none {q : CodeUnit} {u s : JsString} (h : stringEnd [q] u = none)
    (heven : Even (trailingBackslashes u)) : stringEnd [q] (u ++ s) = none := by
  have hpre : ∀ x xs, [q] <+: x :: (xs ++ s) ↔ [q] <+: x :: xs :=
    fun x xs => List.isPrefix_append_of_length (show [q].length ≤ (x :: xs).length by simp)
  induction u using stringEnd.induct [q] with
  | case1 => simp [stringEnd] at h
  | case2 x xs hd =>
    rw [stringEnd_closer hd] at h
    cases h
  -- a single backslash at the end, which the parity excludes
  | case3 hd => simp [trailingBackslashes] at heven
  | case4 y ys hy hd =>
    -- an escaped line terminator fails in every continuation
    have hd' := mt (hpre (unit '\\') (y :: ys)).mp hd
    rw [List.cons_append] at hd'
    simp [stringEnd, hd', hy]
  | case5 y ys hy hd ih =>
    rw [stringEnd_escape hd hy, Option.map_eq_none_iff] at h
    -- behind the escape, the run at the end has the same parity
    have hparity : Even (trailingBackslashes ys) := by
      rw [trailingBackslashes_cons, trailingBackslashes_cons] at heven
      by_cases hall : trailingBackslashes ys = ys.length
      · by_cases hy' : y = unit '\\'
        · simpa [hall, hy', Nat.even_add_one] using heven
        · simpa [hall, hy'] using heven
      · have hne : trailingBackslashes ys ≠ ys.length + 1 := by
          have hle := (List.takeWhile_prefix (l := ys.reverse) (· = unit '\\')).length_le
          rw [List.length_reverse, ← trailingBackslashes] at hle
          omega
        simpa [hall, hne] using heven
    have hd' : ¬[q] <+: unit '\\' :: y :: (ys ++ s) := mt (hpre _ (y :: ys)).mp hd
    rw [List.cons_append, List.cons_append, stringEnd_escape hd' hy, ih h hparity]
    rfl
  | case6 x xs hd hx ih =>
    rw [stringEnd_plain hd hx, Option.map_eq_none_iff] at h
    -- `x` is no backslash, so the run at the end is behind it
    rw [trailingBackslashes_cons, if_neg (fun h => hx h.2)] at heven
    rw [List.cons_append, stringEnd_plain (mt (hpre x xs).mp hd) hx, ih h heven]
    rfl

/-! ## Alternatives in a text and in its continuations -/

theorem digitRun_le (u : JsString) : digitRun u ≤ u.length :=
  (List.takeWhile_prefix _).length_le

/-- A fraction that ends inside a text, or is not there, is the same in its continuations. -/
theorem fractionLength_append {u s : JsString} (h : fractionLength u + 2 ≤ u.length) :
    fractionLength (u ++ s) = fractionLength u := by
  cases u with
  | nil => simp at h
  | cons x xs =>
    have hrun := digitRun_le xs
    rw [List.cons_append, fractionLength, fractionLength]
    rw [fractionLength, List.length_cons] at h
    have hlt : digitRun xs < xs.length ∨ digitRun xs = xs.length := by omega
    rcases hlt with hlt | hall
    · -- the digits stop inside the text
      have hdrop : xs.drop (digitRun xs) ≠ [] := by simpa using hlt
      rw [digitRun_append hlt, List.drop_append_of_le_length hlt.le, wordAhead_append hdrop]
    · -- digits up to the end would be part of the fraction
      by_cases hx : x = unit '.'
      · exfalso
        have hend : wordAhead (xs.drop (digitRun xs)) = false := by simp [hall, wordAhead]
        by_cases hzero : digitRun xs = 0
        · simp only [hzero, ne_eq, not_true, false_and, and_false, if_false] at h
          omega
        · simp only [hx, hzero, hend, ne_eq, not_false_iff, Bool.not_false, and_self,
            if_true] at h
          omega
      · simp [hx]

/-- What starts with an opener and ends inside a text stays when text follows, if its end does. -/
theorem openedLength_append {opener rest s : JsString} {close? : JsString → Option ℕ} {n : ℕ}
    (hclose : ∀ {u m}, close? u = some m → m < u.length → close? (u ++ s) = some m)
    (h : openedLength opener close? rest = some n) (hn : n < rest.length) :
    openedLength opener close? (rest ++ s) = some n := by
  obtain ⟨u, m, rfl, hm, rfl⟩ := openedLength_eq_some h
  rw [List.length_append] at hn
  rw [List.append_assoc, openedLength_append_left, hclose hm (Nat.add_lt_add_iff_left.mp hn)]
  rfl

/-- What does not start where its opener fits into a text does not start there when text follows,
if its end stays away. -/
theorem openedLength_append_of_none {opener rest s : JsString} {close? : JsString → Option ℕ}
    (hclose : ∀ u, rest = opener ++ u → close? u = none → close? (u ++ s) = none)
    (h : openedLength opener close? rest = none) (hlen : opener.length ≤ rest.length) :
    openedLength opener close? (rest ++ s) = none := by
  by_cases hpre : opener <+: rest
  · obtain ⟨u, rfl⟩ := hpre
    rw [openedLength_append_left, Option.map_eq_none_iff] at h
    rw [List.append_assoc, openedLength_append_left, hclose u rfl h]
    rfl
  · rw [openedLength, if_neg (mt (List.isPrefix_append_of_length hlen).mp hpre)]

/-- What always ends starts in every continuation where it starts. -/
theorem openedLength_append_ne_none {opener rest s : JsString} {f : JsString → ℕ} {n : ℕ}
    (h : openedLength opener (fun u => some (f u)) rest = some n) :
    openedLength opener (fun u => some (f u)) (rest ++ s) ≠ none := by
  obtain ⟨u, m, rfl, -, -⟩ := openedLength_eq_some h
  rw [List.append_assoc, openedLength_append_left]
  exact Option.some_ne_none _

/-- A number that ends so early that a point and a digit behind it are in the text stays. -/
theorem numberLength_append {b rest s : JsString} {n : ℕ} (h : numberLength ⟨b, rest⟩ = some n)
    (hn : n + 2 ≤ rest.length) : numberLength ⟨b, rest ++ s⟩ = some n := by
  simp only [numberLength] at h ⊢
  split at h
  next => cases h
  next hcond =>
    cases h
    have hlt : digitRun rest < rest.length := by omega
    have hdrop : rest.drop (digitRun rest) ≠ [] := by simpa using hlt
    have hfraction : fractionLength (rest.drop (digitRun rest)) + 2 ≤
        (rest.drop (digitRun rest)).length := by
      rw [List.length_drop]
      omega
    rw [digitRun_append hlt, List.drop_append_of_le_length hlt.le, wordAhead_append hdrop,
      if_neg hcond, fractionLength_append hfraction]

/-- Where no number starts in a text, none starts when text follows. -/
theorem numberLength_append_of_none {b rest s : JsString} (h : numberLength ⟨b, rest⟩ = none)
    (hne : rest ≠ []) : numberLength ⟨b, rest ++ s⟩ = none := by
  have hpos := List.length_pos_iff.mpr hne
  simp only [numberLength] at h ⊢
  split at h
  next hcond =>
    rcases hcond with hbehind | hrest
    · -- what is behind the cursor stays
      rw [if_pos (Or.inl hbehind)]
    · -- no digit, or a word character behind the digits
      have hlt : digitRun rest < rest.length := by
        rcases hrest with hzero | hahead
        · omega
        · by_contra hge
          simp [List.drop_eq_nil_of_le (not_lt.mp hge), wordAhead] at hahead
      have hdrop : rest.drop (digitRun rest) ≠ [] := by simpa using hlt
      rw [digitRun_append hlt, List.drop_append_of_le_length hlt.le, wordAhead_append hdrop,
        if_pos (Or.inr hrest)]
  next => cases h

/-- A number that is none when text follows reaches the end of the text. -/
theorem eq_length_of_numberLength_append {b rest s : JsString} {n : ℕ}
    (h : numberLength ⟨b, rest⟩ = some n) (hle : n ≤ rest.length)
    (hnone : numberLength ⟨b, rest ++ s⟩ = none) : n = rest.length := by
  simp only [numberLength] at h hnone
  split at h
  next => cases h
  next hcond =>
    cases h
    by_contra hne
    -- digits that end earlier would stay a number
    have hlt : digitRun rest < rest.length := by omega
    have hdrop : rest.drop (digitRun rest) ≠ [] := by simpa using hlt
    rw [digitRun_append hlt, List.drop_append_of_le_length hlt.le, wordAhead_append hdrop,
      if_neg hcond] at hnone
    cases hnone

/-- An identifier that ends inside a text stays when text follows. -/
theorem identifierLength_append {rest s : JsString} {n : ℕ} (h : identifierLength rest = some n)
    (hn : n < rest.length) : identifierLength (rest ++ s) = some n := by
  cases rest with
  | nil => cases hn
  | cons x xs =>
    rw [identifierLength] at h
    split at h
    next hx =>
      cases h
      have hend : (xs.takeWhile isWord).length < xs.length := Nat.succ_lt_succ_iff.mp hn
      rw [List.cons_append, identifierLength, if_pos hx, takeWhile_append_of_lt hend]
    next => cases h

/-- Whether an identifier starts is decided by the first character. -/
theorem identifierLength_append_eq_none_iff {rest s : JsString} (hne : rest ≠ []) :
    identifierLength (rest ++ s) = none ↔ identifierLength rest = none := by
  cases rest with
  | nil => exact absurd rfl hne
  | cons x xs =>
    rw [List.cons_append, identifierLength, identifierLength]
    split <;> simp

/-- A match that ends two characters before the end of a text stays when text follows. -/
theorem length?_extend {cfg : LangConfig} (hcfg : cfg.Lexable) {a : Lexeme}
    (ha : a ∈ alternatives cfg) {c : Cursor CodeUnit} {s : JsString} {n : ℕ}
    (h : a.length? c = some n) (hn : n + 2 ≤ c.rest.length) :
    a.length? (c.extend s) = some n := by
  have hlt : n < c.rest.length := by omega
  rcases mem_alternatives.mp ha with ⟨b, hb, rfl⟩ | ⟨opener, ho, rfl⟩ | ⟨d, hd, rfl⟩ | rfl | rfl
  · -- the block comment is closed inside the text
    rw [length?_blockComment] at h ⊢
    refine openedLength_append (fun {u m} hm hlt => ?_) h hlt
    rw [← Option.some.inj hm] at hlt ⊢
    rw [blockEnd_append hlt]
  · -- the line comment ends at a newline of the text
    rw [length?_lineComment] at h ⊢
    refine openedLength_append (fun {u m} hm hlt => ?_) h hlt
    rw [← Option.some.inj hm] at hlt ⊢
    rw [takeWhile_append_of_lt hlt]
  · obtain ⟨q, rfl⟩ := List.length_eq_one_iff.mp (hcfg.string d hd).1
    exact openedLength_append stringEnd_append h hlt
  · exact numberLength_append h hn
  · exact identifierLength_append h hlt

/-- Where an alternative does not match two characters before the end of a text, it does not
match when text follows, unless the text ends in an unpaired backslash. -/
theorem length?_extend_of_none {cfg : LangConfig} (hcfg : cfg.Lexable) (hcompact : cfg.Compact)
    {a : Lexeme} (ha : a ∈ alternatives cfg) {c : Cursor CodeUnit} {s : JsString}
    (h : a.length? c = none) (hc : 2 ≤ c.rest.length)
    (heven : Even (trailingBackslashes c.text)) : a.length? (c.extend s) = none := by
  have hne : c.rest ≠ [] := List.length_pos_iff.mp (by omega)
  rcases mem_alternatives.mp ha with ⟨b, hb, rfl⟩ | ⟨opener, ho, rfl⟩ | ⟨d, hd, rfl⟩ | rfl | rfl
  · -- the opener fits into what is left of the text
    rw [length?_blockComment] at h ⊢
    exact openedLength_append_of_none (fun _ _ h => absurd h (Option.some_ne_none _)) h
      ((hcompact.block _ hb).trans hc)
  · rw [length?_lineComment] at h ⊢
    exact openedLength_append_of_none (fun _ _ h => absurd h (Option.some_ne_none _)) h
      ((hcompact.line _ ho).trans hc)
  · obtain ⟨q, rfl⟩ := List.length_eq_one_iff.mp (hcfg.string d hd).1
    have hq : q ≠ unit '\\' := fun he => hcompact.string _ hd (by simp [he])
    refine openedLength_append_of_none (fun u hu hnone => ?_) h (Nat.le_of_succ_le hc)
    -- a string that fails: it meets an escape that fails
    rw [Cursor.text, hu, List.singleton_append, trailingBackslashes_append _ hq] at heven
    exact stringEnd_append_eq_none hnone heven
  · exact numberLength_append_of_none h hne
  · exact (identifierLength_append_eq_none_iff hne).mpr h

/-- A match that vanishes when text follows is a number or a string that reaches the end of
the text. -/
theorem fragile_of_extend_eq_none {cfg : LangConfig} (hcfg : cfg.Lexable) {a : Lexeme}
    (ha : a ∈ alternatives cfg) {c : Cursor CodeUnit} {s : JsString} {n : ℕ}
    (h : a.length? c = some n) (hext : a.length? (c.extend s) = none) :
    a.Fragile ∧ n = c.rest.length := by
  obtain ⟨hpos, hle⟩ := Lexeme.length?_spec hcfg ha h
  rcases mem_alternatives.mp ha with ⟨b, hb, rfl⟩ | ⟨opener, ho, rfl⟩ | ⟨d, hd, rfl⟩ | rfl | rfl
  · -- a comment still starts with its opener
    rw [length?_blockComment] at h hext
    exact absurd hext (openedLength_append_ne_none h)
  · rw [length?_lineComment] at h hext
    exact absurd hext (openedLength_append_ne_none h)
  · obtain ⟨q, rfl⟩ := List.length_eq_one_iff.mp (hcfg.string d hd).1
    refine ⟨trivial, ?_⟩
    by_contra hne
    -- a string that ends earlier would stay
    have hstay := openedLength_append (s := s) stringEnd_append h (by omega)
    exact Option.some_ne_none n (hstay.symm.trans hext)
  · exact ⟨trivial, eq_length_of_numberLength_append h hle hext⟩
  · -- an identifier still starts with its first character
    have hne : c.rest ≠ [] := List.length_pos_iff.mp (by omega)
    have hnone : identifierLength c.rest = none :=
      (identifierLength_append_eq_none_iff hne).mp hext
    exact absurd (h.symm.trans hnone) (Option.some_ne_none n)

/-- The lexer of a configuration with short openers decides with look-ahead two on texts that
do not end in an unpaired backslash. -/
theorem decides_lexer {cfg : LangConfig} (hcfg : cfg.Lexable) (hcompact : cfg.Compact)
    {p : JsString} (heven : Even (trailingBackslashes p)) (s : JsString) :
    (lexer cfg hcfg).Decides 2 Fragile p s where
  look_pos := Nat.two_pos
  token := by
    rintro c rfl k n hm hn
    -- the alternatives before the one that matches do not match
    obtain ⟨before, a, after, hsplit, ha, hbefore⟩ := List.findSome?_eq_some_iff.mp hm
    refine List.findSome?_eq_some_iff.mpr ⟨before, a, after, hsplit, ?_, fun x hx => ?_⟩
    · obtain ⟨m, hlength, heq⟩ := Option.map_eq_some_iff.mp ha
      cases heq
      rw [length?_extend hcfg (by simp [hsplit]) hlength hn]
      rfl
    · have hnone := hbefore x hx
      rw [Option.map_eq_none_iff] at hnone ⊢
      exact length?_extend_of_none hcfg hcompact (by simp [hsplit, hx]) hnone (by omega) heven
  skip := by
    rintro c rfl hc hm
    -- no alternative matches
    refine List.findSome?_eq_none_iff.mpr fun a ha => ?_
    have hnone := List.findSome?_eq_none_iff.mp hm a ha
    rw [Option.map_eq_none_iff] at hnone ⊢
    exact length?_extend_of_none hcfg hcompact ha hnone hc heven
  start := by
    rintro c rfl k n hm hext
    obtain ⟨hk, hlength⟩ := length?_of_match? hm
    have hnone := List.findSome?_eq_none_iff.mp hext k hk
    rw [Option.map_eq_none_iff] at hnone
    exact fragile_of_extend_eq_none hcfg hk hlength hnone

/-! ## Tokens of a growing text -/

/-- The token `t` at offset `i` of the tokens `ps` of `p` is a gap that becomes longer in the
tokens `ts` of a continuation: no alternative matches in it, a number or a string that
reaches the end of `p` follows it, and `ts` has a plain token that starts where it starts and
begins with its text. -/
structure Grows (cfg : LangConfig) (p : JsString) (ps ts : List Token) (i : ℕ) (t : Token) :
    Prop where
  /-- It is plain. -/
  plain : t.type = .plain
  /-- Nothing matches in it. -/
  gap : ∀ j, i ≤ j → j < i + t.text.length →
    ∀ a ∈ alternatives cfg, a.regex.first (Cursor.ofIndex p j) = none
  /-- A number or a string that reaches the end of `p` follows it. -/
  followed : ∃ j next, (j, next) ∈ located 0 ps ∧ j = i + t.text.length ∧
    j + next.text.length = p.length ∧ (next.type = .number ∨ next.type = .string)
  /-- The continuation has a longer token in its place. -/
  grown : ∃ t', (i, t') ∈ located 0 ts ∧ t'.type = .plain ∧ t.text <+: t'.text

/-- A segment of a fragile kind is a number or a string. -/
theorem type_toToken_of_fragile {cfg : LangConfig} {hcfg : cfg.Lexable} {text : JsString}
    {seg : Segment Lexeme CodeUnit} (hseg : seg ∈ (lexer cfg hcfg).segments text) {k : Lexeme}
    (hkind : seg.kind = some k) (hk : k.Fragile) :
    (toToken cfg seg).type = .number ∨ (toToken cfg seg).type = .string := by
  obtain ⟨kind, start, w⟩ := seg
  cases hkind
  obtain ⟨hm, hw⟩ := (lexer cfg hcfg).match?_of_mem_segments hseg
  have htype : ∀ type, k.type? = some type →
      (toToken cfg ⟨some k, start, w⟩).type = type := by
    intro type h
    rw [← classify_of_match? hm h, toToken]
    simp only [Option.isSome_some, if_true]
    congr 1
  cases k with
  | number => exact Or.inl (htype .number rfl)
  | string d => exact Or.inr (htype .string rfl)
  | blockComment opener closer => cases hk
  | lineComment opener => cases hk
  | identifier => cases hk

/-- When a text that does not end in an unpaired backslash is continued, each of its tokens
that ends two characters before its end stays, with its offset, text and type, except that a
gap in front of a number or string at its end may become longer. -/
theorem tokenize_stable {language : JsString} {a : LanguageArgs}
    (ha : argsFor language = some a) {p t : JsString} (hpre : p <+: t)
    (heven : Even (trailingBackslashes p)) {cache₁ cache₂ : ScannerCache}
    (hcache₁ : cache₁.Reachable) (hcache₂ : cache₂.Reachable) :
    ∃ ps ts cache₁' cache₂', tokenize p language cache₁ = .ok (ps, cache₁') ∧
      tokenize t language cache₂ = .ok (ts, cache₂') ∧
      ∀ i tok, (i, tok) ∈ located 0 ps → i + tok.text.length + 2 ≤ p.length →
        (i, tok) ∈ located 0 ts ∨ Grows a.config p ps ts i tok := by
  obtain ⟨s, rfl⟩ := hpre
  obtain ⟨cache₁', -, hrun₁⟩ := tokenize_eq ha hcache₁ p
  obtain ⟨cache₂', -, hrun₂⟩ := tokenize_eq ha hcache₂ (p ++ s)
  refine ⟨_, _, cache₁', cache₂', hrun₁, hrun₂, fun i tok htok hend => ?_⟩
  have hcfg := lexable_of_argsFor ha
  -- the tokens are the segments of the lexer, which are stable
  obtain ⟨seg, hseg, rfl, rfl⟩ := mem_located_tokens.mp htok
  rcases (lexer a.config hcfg).segments_stable
    (decides_lexer hcfg (compact_of_argsFor ha) heven s) hseg hend with hstay | hgrow
  · exact Or.inl (mem_located_tokens.mpr ⟨seg, hstay, rfl, rfl⟩)
  · right
    -- the gap that grows is a plain token in front of a number or a string
    obtain ⟨hkind, ⟨next, hnext, ⟨k, hk, hfragile⟩, hstart, hstop⟩, seg', hseg', hkind',
      hstart', hpre⟩ := hgrow
    refine ⟨by simp [toToken, hkind], fun j hj hlt b hb => ?_, ?_, ?_⟩
    · exact (match?_eq_none_iff hcfg).mp
        ((lexer a.config hcfg).match?_eq_none_of_mem_segments hseg hkind hj hlt) b hb
    · exact ⟨next.start, toToken a.config next, mem_located_tokens.mpr ⟨next, hnext, rfl, rfl⟩,
        hstart, hstop, type_toToken_of_fragile hnext hk hfragile⟩
    · exact ⟨toToken a.config seg', mem_located_tokens.mpr ⟨seg', hseg', hstart', rfl⟩,
        by simp [toToken, hkind'], hpre⟩

/-- A number that turns out to be none: after another character, the blank in front of it is
no longer a token of its own. -/
theorem exists_tokenize_blank_number : ∃ cache₁ cache₂,
    tokenize (js " 123") (js "") PlainObject.empty =
      .ok ([⟨.plain, js " "⟩, ⟨.number, js "123"⟩], cache₁) ∧
    tokenize (js " 123a") (js "") PlainObject.empty =
      .ok ([⟨.plain, js " 123"⟩, ⟨.plain, js "a"⟩], cache₂) := by
  have hrun₁ : Prod.fst <$> tokenize (js " 123") (js "") PlainObject.empty =
      .ok [⟨.plain, js " "⟩, ⟨.number, js "123"⟩] := by decide +kernel
  have hrun₂ : Prod.fst <$> tokenize (js " 123a") (js "") PlainObject.empty =
      .ok [⟨.plain, js " 123"⟩, ⟨.plain, js "a"⟩] := by decide +kernel
  obtain ⟨⟨ts₁, cache₁⟩, h₁, rfl⟩ := Result.map_eq_ok.mp hrun₁
  obtain ⟨⟨ts₂, cache₂⟩, h₂, rfl⟩ := Result.map_eq_ok.mp hrun₂
  exact ⟨cache₁, cache₂, h₁, h₂⟩

/-- The blank in front of a number is a token that need not stay. -/
theorem not_mem_located_of_blank_number : ∃ ps ts cache₁ cache₂ tok,
    tokenize (js " 123") (js "") PlainObject.empty = .ok (ps, cache₁) ∧
    tokenize (js " 123a") (js "") PlainObject.empty = .ok (ts, cache₂) ∧
    js " 123" <+: js " 123a" ∧ Even (trailingBackslashes (js " 123")) ∧
    (0, tok) ∈ located 0 ps ∧ 0 + tok.text.length + 2 ≤ (js " 123").length ∧
    (0, tok) ∉ located 0 ts := by
  obtain ⟨cache₁, cache₂, h₁, h₂⟩ := exists_tokenize_blank_number
  exact ⟨_, _, cache₁, cache₂, ⟨.plain, js " "⟩, h₁, h₂, by decide, by decide, by decide,
    by decide, by decide⟩

/-- A gap in front of a number that grows to a word. -/
theorem tokenize_stable_blank_number : ∃ ps ts cache₁' cache₂',
    tokenize (js " 123") (js "") PlainObject.empty = .ok (ps, cache₁') ∧
      tokenize (js " 123a") (js "") PlainObject.empty = .ok (ts, cache₂') ∧
      ∀ i tok, (i, tok) ∈ located 0 ps → i + tok.text.length + 2 ≤ (js " 123").length →
        (i, tok) ∈ located 0 ts ∨
          Grows Language.fallback.config (js " 123") ps ts i tok :=
  tokenize_stable (by decide +kernel) (by decide) (by decide) .empty .empty

end SyntaxHighlight
