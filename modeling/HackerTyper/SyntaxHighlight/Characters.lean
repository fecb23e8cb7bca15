import HackerTyper.Js.Characters
import HackerTyper.SyntaxHighlight.Words

/-!
# Tokens are made of whole characters

The scanner reads code units, and a character may be a pair of them. Yet no token begins or ends
between the two halves of a pair: what tokens begin and end with is never a half, except at the
end of the text and in front of a newline.

## Main results

* `splitsPair_of_mem_located`: no token begins between the halves of a pair;
* `tokenize_wellFormed`: the tokens of the beginnings of a well-formed text.
-/

namespace SyntaxHighlight

open Js Json

/-! ## What matches begin and end with -/

/-- An ASCII character is no half of a pair. -/
theorem isWhole_of_lt {x : CodeUnit} (h : x.toNat < 128) : isWhole x := by
  rw [isWhole, Bool.and_eq_true, Bool.not_eq_true', Bool.not_eq_true', ← Bool.not_eq_true,
    ← Bool.not_eq_true, isHighSurrogate_iff, isLowSurrogate_iff]
  omega

theorem isWhole_of_isPunctuation {x : CodeUnit} (h : isPunctuation x) : isWhole x := by
  simp only [isPunctuation, Bool.and_eq_true, decide_eq_true_eq] at h
  exact isWhole_of_lt h.1.1

/-- A word character is no half of a pair. -/
theorem isWhole_of_isWord {x : CodeUnit} (h : isWord x) : isWhole x := by
  refine isWhole_of_lt ?_
  rcases Bool.or_eq_true_iff.mp h with h | h
  · rcases Bool.or_eq_true_iff.mp h with h | h
    · rw [isLetter_iff] at h
      omega
    · rw [isDigit_iff] at h
      omega
  · rw [of_decide_eq_true h]
    decide

theorem isWhole_of_isNameUnit {x : CodeUnit} (h : isNameUnit x) : isWhole x := by
  rcases Bool.or_eq_true_iff.mp h with h | h
  · exact isWhole_of_isWord h
  · rw [of_decide_eq_true h]
    decide

/-- No match begins with the second half of a pair. -/
theorem isWhole_of_match? {cfg : LangConfig} {hcfg : cfg.Lexable} (hwhole : cfg.DelimitedBy isWhole)
    {c : Cursor CodeUnit} {k : Lexeme} {n : ℕ} (h : (lexer cfg hcfg).match? c = some (k, n)) :
    ∀ x ∈ c.rest.head?, isWhole x := by
  obtain ⟨hk, hlength⟩ := length?_of_match? h
  have hhead : ∀ {w : JsString}, w ≠ [] → (∀ x ∈ w, isWhole x) → w <+: c.rest →
      ∀ x ∈ c.rest.head?, isWhole x := by
    rintro w hne hw ⟨u, hu⟩ x hx
    obtain ⟨y, ys, rfl⟩ := List.exists_cons_of_ne_nil hne
    rw [← hu] at hx
    cases hx
    exact hw x List.mem_cons_self
  rcases mem_alternatives.mp hk with ⟨b, hb, rfl⟩ | ⟨o, ho, rfl⟩ | ⟨d, hd, rfl⟩ | rfl | rfl
  · rw [length?_blockComment] at hlength
    exact hhead (hcfg.block b hb) (hwhole.opener b hb) (openedLength_cases hlength).1
  · rw [length?_lineComment] at hlength
    exact hhead (hcfg.line o ho) (hwhole.line o ho) (openedLength_cases hlength).1
  · rw [length?_string] at hlength
    exact hhead (hcfg.string_ne_nil hd) (hwhole.string d hd) (openedLength_cases hlength).1
  · obtain ⟨-, ⟨digits, hne, hdigits, hw⟩, -⟩ := numberLength_cases hlength
    have hpre : digits <+: c.rest.take n := by
      rcases hw with hw | ⟨fraction, -, -, hw⟩
      · rw [hw]
      · rw [hw]
        exact List.prefix_append _ _
    exact hhead hne (fun x hx => isWhole_of_isWord (isWord_of_isDigit (hdigits x hx)))
      (hpre.trans (List.take_prefix n c.rest))
  · obtain ⟨⟨x, xs, hrest, hstart⟩, -, -⟩ := identifierLength_cases hlength
    rw [hrest]
    rintro y hy
    cases hy
    exact isWhole_of_isWord (isWord_of_isIdentifierStart hstart)

/-- A text that ends with whole characters does not end with the first half of a pair. -/
theorem isHighSurrogate_of_suffix {w s : JsString} (hne : w ≠ []) (hw : ∀ x ∈ w, isWhole x)
    (h : w <:+ s) : ∀ x ∈ s.getLast?, isHighSurrogate x = false := by
  obtain ⟨u, rfl⟩ := h
  intro x hx
  rw [List.getLast?_append_of_ne_nil u hne] at hx
  exact isHighSurrogate_of_isWhole (hw x (List.mem_of_getLast? hx))

/-- A match of an opener and a rest that ends with `w` or with the text. -/
theorem whole_end_of_suffix {s w : JsString} {m n : ℕ} (hne : w ≠ [])
    (hw : ∀ x ∈ w, isWhole x) (h : n = (s.drop m).length ∨ w <:+ (s.drop m).take n) :
    (∀ x ∈ (s.take (m + n)).getLast?, isHighSurrogate x = false) ∨
      ∀ x ∈ (s.drop (m + n)).head?, isLowSurrogate x = false := by
  rcases h with rfl | hsuffix
  · -- nothing follows
    right
    rw [List.length_drop, List.drop_eq_nil_of_le (by omega)]
    simp
  · left
    refine isHighSurrogate_of_suffix hne hw ?_
    rw [List.take_add]
    exact hsuffix.trans (List.suffix_append _ _)

/-- No match ends between the halves of a pair. -/
theorem whole_end_of_match? {cfg : LangConfig} {hcfg : cfg.Lexable} (hsep : cfg.Separated)
    (hwhole : cfg.DelimitedBy isWhole) {c : Cursor CodeUnit} {k : Lexeme} {n : ℕ}
    (h : (lexer cfg hcfg).match? c = some (k, n)) :
    (∀ x ∈ (c.rest.take n).getLast?, isHighSurrogate x = false) ∨
      ∀ x ∈ (c.rest.drop n).head?, isLowSurrogate x = false := by
  obtain ⟨hk, hlength⟩ := length?_of_match? h
  rcases mem_alternatives.mp hk with ⟨b, hb, rfl⟩ | ⟨o, ho, rfl⟩ | ⟨d, hd, rfl⟩ | rfl | rfl
  · rw [length?_blockComment] at hlength
    obtain ⟨-, m, hm, rfl⟩ := openedLength_cases hlength
    cases hm
    exact whole_end_of_suffix (hsep.closer b hb).1 (hwhole.closer b hb)
      (blockEnd_eq_or_suffix b.2 _)
  · -- a newline follows a line comment
    rw [length?_lineComment] at hlength
    obtain ⟨-, m, hm, rfl⟩ := openedLength_cases hlength
    cases hm
    right
    rw [← List.drop_drop, drop_length_takeWhile]
    intro x hx
    have hstop := List.head?_dropWhile_not (· ≠ unit '\n') (c.rest.drop o.length)
    rw [Option.mem_def.mp hx] at hstop
    obtain rfl : x = unit '\n' := by simpa using hstop
    rfl
  · rw [length?_string] at hlength
    obtain ⟨-, m, hm, rfl⟩ := openedLength_cases hlength
    exact whole_end_of_suffix (hcfg.string_ne_nil hd) (hwhole.string d hd)
      (stringEnd_eq_or_suffix hm)
  · -- numbers and identifiers end with word characters
    left
    intro x hx
    have hunit := isNameUnit_of_match? h (Or.inl rfl) x (List.mem_of_getLast? hx)
    exact isHighSurrogate_of_isWhole (isWhole_of_isNameUnit hunit)
  · left
    intro x hx
    have hunit := isNameUnit_of_match? h (Or.inr rfl) x (List.mem_of_getLast? hx)
    exact isHighSurrogate_of_isWhole (isWhole_of_isNameUnit hunit)

/-! ## Where tokens begin and end -/

/-- No match ends between the halves of a pair, wherever it starts. -/
theorem splitsPair_of_match? {cfg : LangConfig} {hcfg : cfg.Lexable} (hsep : cfg.Separated)
    (hwhole : cfg.DelimitedBy isWhole) {text : JsString} {j : ℕ} {k : Lexeme} {n : ℕ}
    (hm : (lexer cfg hcfg).match? (Cursor.ofIndex text j) = some (k, n)) :
    splitsPair text (j + n) = false := by
  have hpos := (lexer cfg hcfg).pos hm
  have hle := (lexer cfg hcfg).le hm
  have hends := whole_end_of_match? hsep hwhole hm
  rw [Cursor.rest_ofIndex] at hle hends
  rw [List.length_drop] at hle
  have hlen : (text.take (j + n)).length = j + n := List.length_take_of_le (by omega)
  have hne : (text.drop j).take n ≠ [] := by
    rw [← List.length_pos_iff, List.length_take, List.length_drop]
    omega
  have hsplit : text = text.take (j + n) ++ text.drop (j + n) :=
    (List.take_append_drop (j + n) text).symm
  rcases hends with hlast | hhead
  · have hcut := splitsPair_of_getLast? (u := text.take (j + n)) (v := text.drop (j + n))
    rw [← hsplit, hlen, List.take_add, List.getLast?_append_of_ne_nil _ hne] at hcut
    exact hcut hlast
  · have hcut := splitsPair_of_head? (u := text.take (j + n)) (v := text.drop (j + n))
    rw [← hsplit, hlen, ← List.drop_drop] at hcut
    exact hcut hhead

section Located

variable {cfg : LangConfig} {hcfg : cfg.Lexable} (hsep : cfg.Separated)
  (hwhole : cfg.DelimitedBy isWhole)
  {text : JsString} {i : ℕ} {t : Token} (ht : (i, t) ∈ located 0 (tokens cfg hcfg text))

include hsep hwhole ht

/-- No token begins between the halves of a pair. -/
theorem splitsPair_of_mem_located : splitsPair text i = false := by
  have hle := add_length_le_of_mem_located ht
  have hpos := List.length_pos_iff.mpr (token_cases ht).1
  obtain ⟨-, -, ⟨k, hm, -⟩ | ⟨-, hgap⟩⟩ := token_cases ht
  · -- a match begins with a whole character
    have hhead := isWhole_of_match? hwhole hm
    have hlen : (text.take i).length = i := List.length_take_of_le (by omega)
    have hcut := splitsPair_of_head? (u := text.take i) (v := text.drop i)
      fun x hx => isLowSurrogate_of_isWhole (hhead x hx)
    rwa [List.take_append_drop, hlen] at hcut
  · by_cases hi : i = 0
    · rw [hi]
      rfl
    · -- a gap begins where a match ends
      obtain ⟨j, k, n, hm, rfl⟩ := exists_match_before ht (hgap i le_rfl (by omega)) hi
      exact splitsPair_of_match? hsep hwhole hm

/-- No token ends between the halves of a pair. -/
theorem splitsPair_stop_of_mem_located : splitsPair text (i + t.text.length) = false := by
  have hle := add_length_le_of_mem_located ht
  by_cases hlt : i + t.text.length < text.length
  · obtain ⟨u, hu⟩ := exists_token_at_stop ht hlt
    exact splitsPair_of_mem_located hsep hwhole hu
  · -- nothing follows the last token
    have hcut := splitsPair_of_head? (u := text) (v := []) (by simp)
    rw [List.append_nil] at hcut
    rwa [show i + t.text.length = text.length by omega]

end Located

section Cut

variable {cfg : LangConfig} {hcfg : cfg.Lexable} (hsep : cfg.Separated)
  (hwhole : cfg.DelimitedBy isWhole)
  {text : JsString}

include hsep hwhole

/-- Wherever the tokens of a text are cut in two, no pair is split. -/
theorem splitsPair_of_tokens_append {before after : List Token}
    (h : tokens cfg hcfg text = before ++ after) :
    splitsPair (before.flatMap Token.text ++ after.flatMap Token.text)
      (before.flatMap Token.text).length = false := by
  have htext := flatMap_text_tokens hcfg text
  rw [h, List.flatMap_append] at htext
  rw [htext]
  cases after with
  | nil =>
    -- nothing follows the last token
    rw [List.flatMap_nil, List.append_nil] at htext
    have hcut := splitsPair_of_head? (u := text) (v := []) (by simp)
    rw [List.append_nil] at hcut
    rwa [htext]
  | cons t after =>
    have ht : ((before.flatMap Token.text).length, t) ∈ located 0 (tokens cfg hcfg text) := by
      rw [h, located_append, located, Nat.zero_add]
      exact List.mem_append_right _ List.mem_cons_self
    exact splitsPair_of_mem_located hsep hwhole ht

/-- The first tokens of a text are well-formed if together they are. -/
theorem wellFormed_of_tokens_append {before after : List Token}
    (h : tokens cfg hcfg text = before ++ after)
    (hbefore : WellFormed (before.flatMap Token.text)) : ∀ t ∈ before, WellFormed t.text := by
  induction before using List.reverseRecOn generalizing after with
  | nil => simp
  | append_singleton before t ih =>
    rw [List.append_assoc, List.singleton_append] at h
    have hcut := splitsPair_of_tokens_append hsep hwhole h
    rw [List.flatMap_append, List.flatMap_singleton] at hbefore
    rw [List.flatMap_cons] at hcut
    obtain ⟨hinit, hlast⟩ := (wellFormed_append_iff (splitsPair_of_append hcut)).mp hbefore
    intro u hu
    rcases List.mem_append.mp hu with hu | hu
    · exact ih h hinit u hu
    · rw [List.mem_singleton.mp hu]
      exact hlast

end Cut

/-- For every language with a configuration, no token of any text begins or ends between the two
halves of a surrogate pair, and the tokens of a well-formed text are well-formed. -/
theorem tokenize_wellFormed {language : JsString} {a : LanguageArgs}
    (ha : argsFor language = some a) (text : JsString) {cache : ScannerCache}
    (hcache : cache.Reachable) :
    ∃ ts cache', tokenize text language cache = .ok (ts, cache') ∧
      (∀ i t, (i, t) ∈ located 0 ts →
        splitsPair text i = false ∧ splitsPair text (i + t.text.length) = false) ∧
      (WellFormed text → ∀ t ∈ ts, WellFormed t.text) := by
  have hsep := separated_of_argsFor ha
  have hwhole := (delimitedBy_of_argsFor ha).mono fun _ => isWhole_of_isPunctuation
  obtain ⟨cache', -, hrun⟩ := tokenize_eq ha hcache text
  refine ⟨_, cache', hrun, fun i t ht => ⟨splitsPair_of_mem_located hsep hwhole ht,
    splitsPair_stop_of_mem_located hsep hwhole ht⟩, fun htext => ?_⟩
  refine wellFormed_of_tokens_append hsep hwhole (List.append_nil _).symm ?_
  rwa [flatMap_text_tokens]

/-- A pair in a string, one outside, and half of one at the end. -/
theorem tokenize_wellFormed_pair : ∃ ts cache',
    tokenize (js "\"😀\" 😀" ++ [0xD83D]) (js "Lua") PlainObject.empty = .ok (ts, cache') ∧
      (∀ i t, (i, t) ∈ located 0 ts →
        splitsPair (js "\"😀\" 😀" ++ [0xD83D]) i = false ∧
          splitsPair (js "\"😀\" 😀" ++ [0xD83D]) (i + t.text.length) = false) ∧
      (WellFormed (js "\"😀\" 😀" ++ [0xD83D]) → ∀ t ∈ ts, WellFormed t.text) :=
  tokenize_wellFormed (a := Language.lua) (by decide +kernel) _ .empty

end SyntaxHighlight
