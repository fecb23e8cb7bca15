import HackerTyper.Foundations.Segments
import HackerTyper.SyntaxHighlight.Classification
import HackerTyper.SyntaxHighlight.Segmentation

/-!
# Where tokens start and end

A comment or a string starts wherever one of the scanner's alternatives for it matches and no
comment or string is under way. No number or identifier is in the way, and every token ends
where a word could not go on.

## Main definitions

* `Covered`: an offset inside a comment or string token;
* `Lexeme.Begins`: the characters that the matches of an alternative begin with.

## Main results

* `token_cases`: a token is a match of the lexer at its offset, or a gap;
* `exists_token`, `exists_token_at_stop`, `exists_token_before`: the tokens next to an offset;
* `exists_match_before`: what stops in front of a gap is a match;
* `mem_located_of_match?`: where a match is a token;
* `not_isWord_of_match?`: every match ends at the end of a word, or where none is.
-/

namespace SyntaxHighlight

open Js

/-- Offset `i` lies inside a comment or string token that starts before it. -/
def Covered (ts : List Token) (i : ℕ) : Prop :=
  ∃ p ∈ located 0 ts, (p.2.type = .comment ∨ p.2.type = .string) ∧
    p.1 < i ∧ i < p.1 + p.2.text.length

instance (ts : List Token) (i : ℕ) : Decidable (Covered ts i) :=
  inferInstanceAs (Decidable (∃ p ∈ located 0 ts,
    (p.2.type = .comment ∨ p.2.type = .string) ∧ p.1 < i ∧ i < p.1 + p.2.text.length))

/-! ## Tokens and matches -/

theorem slice_eq_take_drop (text : JsString) (i n : ℕ) :
    slice text i (i + n) = (text.drop i).take n := by
  rw [slice, List.drop_take, Nat.add_sub_cancel_left]

section Located

variable {cfg : LangConfig} {hcfg : cfg.Lexable} {text : JsString} {i : ℕ} {t : Token}

/-- A token is a part of the text that the lexer matches, of the type of the alternative, or
a part in which it matches nowhere. -/
theorem token_cases (h : (i, t) ∈ located 0 (tokens cfg hcfg text)) :
    t.text ≠ [] ∧ t.text = (text.drop i).take t.text.length ∧
      ((∃ k, (lexer cfg hcfg).match? (Cursor.ofIndex text i) = some (k, t.text.length) ∧
          t.type = classify cfg t.text ∧ t.type.Agrees k) ∨
        t.type = .plain ∧ ∀ j, i ≤ j → j < i + t.text.length →
          (lexer cfg hcfg).match? (Cursor.ofIndex text j) = none) := by
  obtain ⟨seg, hseg, rfl, rfl⟩ := mem_located_tokens.mp h
  have hne := (lexer cfg hcfg).text_ne_nil_of_mem_segments text seg hseg
  have htext := (lexer cfg hcfg).text_eq_of_mem_segments hseg
  refine ⟨hne, htext, ?_⟩
  obtain ⟨kind, start, w⟩ := seg
  cases kind with
  | none =>
    right
    exact ⟨rfl, fun j hj hlt =>
      (lexer cfg hcfg).match?_eq_none_of_mem_segments hseg rfl hj hlt⟩
  | some k =>
    left
    obtain ⟨hm, hw⟩ := (lexer cfg hcfg).match?_of_mem_segments hseg
    have hagrees := agrees_of_match? hm
    rw [Cursor.rest_ofIndex, ← hw] at hagrees
    exact ⟨k, hm, rfl, hagrees⟩

/-- A token is a part of the text that begins at its offset. -/
theorem prefix_drop_of_mem_located (ht : (i, t) ∈ located 0 (tokens cfg hcfg text)) :
    t.text <+: text.drop i := by
  rw [(token_cases ht).2.1]
  exact List.take_prefix _ _

/-- A token ends inside the text. -/
theorem add_length_le_of_mem_located (ht : (i, t) ∈ located 0 (tokens cfg hcfg text)) :
    i + t.text.length ≤ text.length := by
  have hpos := List.length_pos_iff.mpr (token_cases ht).1
  have hlen := (prefix_drop_of_mem_located ht).length_le
  rw [List.length_drop] at hlen
  omega

/-- Two tokens are the same or do not overlap. -/
theorem eq_or_le_of_mem_located {j : ℕ} {u : Token}
    (ht : (i, t) ∈ located 0 (tokens cfg hcfg text))
    (hu : (j, u) ∈ located 0 (tokens cfg hcfg text)) :
    i = j ∧ t = u ∨ i + t.text.length ≤ j ∨ j + u.text.length ≤ i := by
  obtain ⟨seg, hseg, rfl, rfl⟩ := mem_located_tokens.mp ht
  obtain ⟨seg', hseg', rfl, rfl⟩ := mem_located_tokens.mp hu
  rcases (lexer cfg hcfg).eq_or_stop_le hseg hseg' with rfl | hle
  · exact Or.inl ⟨rfl, rfl⟩
  · exact Or.inr hle

/-- No token lies over the start of another one. -/
theorem not_covered_of_mem_located (h : (i, t) ∈ located 0 (tokens cfg hcfg text)) :
    ¬Covered (tokens cfg hcfg text) i := by
  rintro ⟨⟨j, u⟩, hu, -, hlt, hstop⟩
  have hpos := List.length_pos_iff.mpr (token_cases h).1
  rcases eq_or_le_of_mem_located h hu with ⟨rfl, -⟩ | hle | hle
  · exact absurd hlt (lt_irrefl _)
  · simp only at hlt
    omega
  · simp only at hstop
    omega

/-- Every offset of a text lies in one of its tokens. -/
theorem exists_token (hcfg : cfg.Lexable) (h : i < text.length) :
    ∃ j t, (j, t) ∈ located 0 (tokens cfg hcfg text) ∧ j ≤ i ∧ i < j + t.text.length := by
  obtain ⟨seg, hseg, hstart, hstop⟩ := (lexer cfg hcfg).exists_segment h
  exact ⟨_, _, mem_located_tokens.mpr ⟨seg, hseg, rfl, rfl⟩, hstart, hstop⟩

/-- Behind a token the next one starts, or the text ends. -/
theorem exists_token_at_stop (ht : (i, t) ∈ located 0 (tokens cfg hcfg text))
    (hlt : i + t.text.length < text.length) :
    ∃ u, (i + t.text.length, u) ∈ located 0 (tokens cfg hcfg text) := by
  obtain ⟨j, u, hu, hle, hin⟩ := exists_token hcfg hlt
  rcases eq_or_le_of_mem_located ht hu with ⟨rfl, rfl⟩ | hstop | hstop
  · omega
  · obtain rfl : j = i + t.text.length := by omega
    exact ⟨u, hu⟩
  · omega

/-- In front of a token another one stops, or the text begins. -/
theorem exists_token_before (ht : (i, t) ∈ located 0 (tokens cfg hcfg text)) (hi : i ≠ 0) :
    ∃ j u, (j, u) ∈ located 0 (tokens cfg hcfg text) ∧ j + u.text.length = i := by
  have hle := add_length_le_of_mem_located ht
  obtain ⟨j, u, hu, hj, hin⟩ := exists_token hcfg (show i - 1 < text.length by omega)
  have hpos := List.length_pos_iff.mpr (token_cases ht).1
  rcases eq_or_le_of_mem_located ht hu with ⟨rfl, -⟩ | hstop | hstop
  · omega
  · omega
  · exact ⟨j, u, hu, by omega⟩

/-- What stops in front of a gap is a match. -/
theorem exists_match_before (ht : (i, t) ∈ located 0 (tokens cfg hcfg text))
    (hgap : (lexer cfg hcfg).match? (Cursor.ofIndex text i) = none) (hi : i ≠ 0) :
    ∃ j k n, (lexer cfg hcfg).match? (Cursor.ofIndex text j) = some (k, n) ∧ j + n = i := by
  obtain ⟨⟨kind, start, w⟩, hseg, rfl, rfl⟩ := mem_located_tokens.mp ht
  cases kind with
  | some k =>
    rw [((lexer cfg hcfg).match?_of_mem_segments hseg).1] at hgap
    cases hgap
  | none =>
    rcases (lexer cfg hcfg).exists_token_of_gap hseg rfl with hstart | ⟨prev, hprev, hsome, hstop⟩
    · exact absurd hstart hi
    · obtain ⟨kind, j, u⟩ := prev
      obtain ⟨k, rfl⟩ := Option.isSome_iff_exists.mp hsome
      exact ⟨j, k, u.length, ((lexer cfg hcfg).match?_of_mem_segments hprev).1, hstop⟩

end Located

/-! ## Comments and strings are tokens -/

/-- The matches of an alternative begin with the character `x`. -/
def Lexeme.Begins (cfg : LangConfig) (x : CodeUnit) : Lexeme → Prop
  | blockComment _ _ => isNameUnit x = false ∧ [x] ∉ cfg.stringChars
  | lineComment _ => isNameUnit x = false ∧ [x] ∉ cfg.stringChars
  | string d => isNameUnit x = false ∧ d = [x]
  | number => isDigit x
  | identifier => isIdentifierStart x

/-- Comments and strings do not begin like a number or an identifier. -/
theorem Lexeme.Begins.isNameUnit {cfg : LangConfig} {x : CodeUnit} {k : Lexeme}
    (h : k.Begins cfg x) (hk : ¬(k = .number ∨ k = .identifier)) : isNameUnit x = false := by
  cases k with
  | blockComment opener closer => exact h.1
  | lineComment opener => exact h.1
  | string d => exact h.1
  | number => exact absurd (Or.inl rfl) hk
  | identifier => exact absurd (Or.inr rfl) hk

theorem head?_rest_ofIndex (text : JsString) (i : ℕ) :
    (Cursor.ofIndex text i).rest.head? = text[i]? := by
  rw [Cursor.ofIndex, List.head?_drop]

/-- A comment opener begins with a character of its own. -/
theorem exists_head?_of_foreign {cfg : LangConfig} {w s : JsString} (hne : w ≠ [])
    (hforeign : cfg.Foreign w) (hpre : w <+: s) :
    ∃ x, s.head? = some x ∧ isNameUnit x = false ∧ [x] ∉ cfg.stringChars := by
  obtain ⟨x, xs, rfl⟩ := List.exists_cons_of_ne_nil hne
  obtain ⟨u, rfl⟩ := hpre
  exact ⟨x, rfl, hforeign.1 x rfl⟩

/-- What a match begins with. -/
theorem begins_of_match? {cfg : LangConfig} {hcfg : cfg.Lexable} (hsep : cfg.Separated)
    {c : Cursor CodeUnit} {k : Lexeme} {n : ℕ} (h : (lexer cfg hcfg).match? c = some (k, n)) :
    ∃ x, c.rest.head? = some x ∧ k.Begins cfg x := by
  obtain ⟨hmem, hlength⟩ := length?_of_match? h
  rcases mem_alternatives.mp hmem with ⟨b, hb, rfl⟩ | ⟨o, ho, rfl⟩ | ⟨d, hd, rfl⟩ | rfl | rfl
  · rw [length?_blockComment] at hlength
    exact exists_head?_of_foreign (hcfg.block b hb) (hsep.block b hb)
      (openedLength_cases hlength).1
  · rw [length?_lineComment] at hlength
    exact exists_head?_of_foreign (hcfg.line o ho) (hsep.line o ho) (openedLength_cases hlength).1
  · -- the delimiter is a single character, neither a word character nor a point
    obtain ⟨hlen, hword⟩ := hcfg.string d hd
    obtain ⟨x, rfl⟩ := List.length_eq_one_iff.mp hlen
    have hx : isWord x = false := hword x (List.mem_singleton_self x)
    have hpoint : x ≠ unit '.' := by
      rintro rfl
      exact hsep.string _ hd (List.mem_singleton_self _)
    rw [length?_string] at hlength
    obtain ⟨u, hu⟩ := (openedLength_cases hlength).1
    refine ⟨x, by rw [← hu]; rfl, ?_, rfl⟩
    simp [isNameUnit, hx, hpoint]
  · obtain ⟨-, ⟨digits, hne, hdigits, hw⟩, -⟩ := numberLength_cases hlength
    obtain ⟨x, xs, rfl⟩ := List.exists_cons_of_ne_nil hne
    have hpre : x :: xs <+: c.rest.take n := by
      rcases hw with hw | ⟨fraction, -, -, hw⟩
      · rw [hw]
      · rw [hw]
        exact List.prefix_append _ _
    obtain ⟨u, hu⟩ := hpre.trans (List.take_prefix n c.rest)
    refine ⟨x, by rw [← hu]; rfl, hdigits x List.mem_cons_self⟩
  · obtain ⟨⟨x, xs, hrest, hstart⟩, -, -⟩ := identifierLength_cases hlength
    exact ⟨x, by rw [hrest]; rfl, hstart⟩

/-- The characters of a number or an identifier. -/
theorem isNameUnit_of_match? {cfg : LangConfig} {hcfg : cfg.Lexable} {c : Cursor CodeUnit}
    {k : Lexeme} {n : ℕ} (h : (lexer cfg hcfg).match? c = some (k, n))
    (hk : k = .number ∨ k = .identifier) : ∀ x ∈ c.rest.take n, isNameUnit x := by
  have hword : ∀ x, isWord x → isNameUnit x := fun x hx => by simp [isNameUnit, hx]
  have hlength := (length?_of_match? h).2
  rcases hk with rfl | rfl
  · -- digits, or digits around a point
    obtain ⟨-, ⟨digits, -, hdigits, hw⟩, -⟩ := numberLength_cases hlength
    intro x hx
    rcases hw with hw | ⟨fraction, -, hfraction, hw⟩
    · rw [hw] at hx
      exact hword x (isWord_of_isDigit (hdigits x hx))
    · rw [hw] at hx
      rcases List.mem_append.mp hx with hx | hx
      · exact hword x (isWord_of_isDigit (hdigits x hx))
      · rcases List.mem_cons.mp hx with rfl | hx
        · rfl
        · exact hword x (isWord_of_isDigit (hfraction x hx))
  · obtain ⟨-, hall, -⟩ := identifierLength_cases hlength
    exact fun x hx => hword x (hall x hx)

/-- Outside comments and strings, a token that lies over the opener of a match of a comment or
a string starts there. -/
theorem eq_of_match?_of_not_covered {cfg : LangConfig} {hcfg : cfg.Lexable}
    (hsep : cfg.Separated) {text : JsString} {i j n : ℕ} {k : Lexeme} {t : Token}
    (hm : (lexer cfg hcfg).match? (Cursor.ofIndex text i) = some (k, n))
    (hk : ¬(k = .number ∨ k = .identifier))
    (ht : (j, t) ∈ located 0 (tokens cfg hcfg text)) (hle : j ≤ i) (hlt : i < j + t.text.length)
    (hcovered : ¬Covered (tokens cfg hcfg text) i) : j = i := by
  by_contra hne
  have hlt' : j < i := by omega
  obtain ⟨x, hx, hbegins⟩ := begins_of_match? hsep hm
  rw [head?_rest_ofIndex] at hx
  obtain ⟨-, -, ⟨k', hm', -, hagrees⟩ | ⟨-, hgap⟩⟩ := token_cases ht
  · -- the token is a number or an identifier, to which the character does not belong
    have hk' : k' = .number ∨ k' = .identifier := by
      have hcomment : t.type ≠ .comment := fun h => hcovered ⟨_, ht, Or.inl h, hlt', hlt⟩
      have hstring : t.type ≠ .string := fun h => hcovered ⟨_, ht, Or.inr h, hlt', hlt⟩
      cases htype : t.type with
      | comment => exact absurd htype hcomment
      | string => exact absurd htype hstring
      | number => exact Or.inl (hagrees.number.mp htype)
      | keyword => exact Or.inr (hagrees.identifier.mp (Or.inl htype))
      | plain => exact Or.inr (hagrees.identifier.mp (Or.inr htype))
    have hmem : x ∈ (Cursor.ofIndex text j).rest.take t.text.length := by
      show x ∈ (text.drop j).take t.text.length
      refine List.mem_iff_getElem?.mpr ⟨i - j, ?_⟩
      rw [List.getElem?_take, if_pos (by omega), List.getElem?_drop,
        show j + (i - j) = i by omega, hx]
    have hunit := isNameUnit_of_match? hm' hk' x hmem
    rw [hbegins.isNameUnit hk] at hunit
    cases hunit
  · -- nothing matches inside a gap
    rw [hgap i hle hlt] at hm
    cases hm

/-- A match of a comment or a string is a token, unless it lies inside a comment or a string. -/
theorem mem_located_of_match? {cfg : LangConfig} {hcfg : cfg.Lexable} (hsep : cfg.Separated)
    {text : JsString} {i : ℕ} {k : Lexeme} {n : ℕ}
    (hm : (lexer cfg hcfg).match? (Cursor.ofIndex text i) = some (k, n)) {type : TokenType}
    (htype : k.type? = some type) (hnumber : type ≠ .number)
    (hcovered : ¬Covered (tokens cfg hcfg text) i) :
    (i, ⟨type, slice text i (i + n)⟩) ∈ located 0 (tokens cfg hcfg text) := by
  have hk : ¬(k = .number ∨ k = .identifier) := by
    rintro (rfl | rfl)
    · exact hnumber (Option.some.inj htype).symm
    · cases htype
  obtain ⟨x, hx, -⟩ := begins_of_match? hsep hm
  rw [head?_rest_ofIndex] at hx
  obtain ⟨j, t, ht, hle, hlt⟩ := exists_token hcfg (List.getElem?_eq_some_iff.mp hx).1
  obtain rfl := eq_of_match?_of_not_covered hsep hm hk ht hle hlt hcovered
  obtain ⟨-, htext, ⟨k', hm', hclassify, -⟩ | ⟨-, hgap⟩⟩ := token_cases ht
  · -- the token is the match
    obtain ⟨rfl, rfl⟩ := Prod.mk.inj (Option.some.inj (hm.symm.trans hm'))
    have hclass : classify cfg ((text.drop j).take t.text.length) = type :=
      classify_of_match? hm htype
    rw [← htext, ← hclassify] at hclass
    have heq : t = ⟨type, slice text j (j + t.text.length)⟩ := by
      rw [slice_eq_take_drop, ← htext, ← hclass]
    exact heq ▸ ht
  · rw [hgap j le_rfl hlt] at hm
    cases hm

/-! ## The ends of tokens -/

/-- What is in front of the end of a token that ends with `w`. -/
theorem isWord_before_advance {c : Cursor CodeUnit} {n : ℕ} {w : JsString} (hw : w ≠ [])
    (hlast : ∀ x ∈ w.getLast?, isWord x = false) (h : w <:+ c.rest.take n) :
    (c.advance n).before.head?.any isWord = false := by
  obtain ⟨u, hu⟩ := h
  obtain ⟨v, x, rfl⟩ := List.eq_nil_or_concat w |>.resolve_left hw
  have hx : isWord x = false := hlast x (by simp)
  simp [Cursor.before_advance, ← hu, hx]

/-- A match that consists of an opener and a rest that ends with `w` or with the text. -/
theorem not_isWord_of_suffix {c : Cursor CodeUnit} {m n : ℕ} (hm : m ≤ c.rest.length)
    {w : JsString} (hw : w ≠ []) (hlast : ∀ x ∈ w.getLast?, isWord x = false)
    (h : n = (c.rest.drop m).length ∨ w <:+ (c.rest.drop m).take n) :
    (c.advance (m + n)).before.head?.any isWord = false ∨
      wordAhead (c.rest.drop (m + n)) = false := by
  rcases h with rfl | hsuffix
  · -- nothing follows
    right
    rw [List.length_drop, List.drop_eq_nil_of_le (by omega)]
    rfl
  · left
    apply isWord_before_advance hw hlast
    rw [List.take_add]
    exact hsuffix.trans (List.suffix_append _ _)

/-- No token ends inside a word: what is in front of its end or what follows it is no word
character. -/
theorem not_isWord_of_match? {cfg : LangConfig} {hcfg : cfg.Lexable} (hsep : cfg.Separated)
    {c : Cursor CodeUnit} {k : Lexeme} {n : ℕ} (h : (lexer cfg hcfg).match? c = some (k, n)) :
    (c.advance n).before.head?.any isWord = false ∨ wordAhead (c.rest.drop n) = false := by
  obtain ⟨hk, hlength⟩ := length?_of_match? h
  rcases mem_alternatives.mp hk with ⟨b, hb, rfl⟩ | ⟨o, ho, rfl⟩ | ⟨d, hd, rfl⟩ | rfl | rfl
  · -- the closer ends with no word character
    rw [length?_blockComment] at hlength
    obtain ⟨hpre, m, hm, rfl⟩ := openedLength_cases hlength
    cases hm
    obtain ⟨hne, hlast⟩ := hsep.closer b hb
    exact not_isWord_of_suffix hpre.length_le hne hlast (blockEnd_eq_or_suffix b.2 _)
  · -- a newline follows a line comment
    rw [length?_lineComment] at hlength
    obtain ⟨-, m, hm, rfl⟩ := openedLength_cases hlength
    cases hm
    right
    rw [← List.drop_drop]
    refine any_head?_drop_takeWhile (fun x hx => ?_) _
    rw [of_decide_eq_false hx |> not_not.mp]
    rfl
  · -- the delimiter is no word character
    rw [length?_string] at hlength
    obtain ⟨hpre, m, hm, rfl⟩ := openedLength_cases hlength
    exact not_isWord_of_suffix hpre.length_le (hcfg.string_ne_nil hd)
      (fun x hx => (hcfg.string d hd).2 x (List.mem_of_getLast? hx)) (stringEnd_eq_or_suffix hm)
  · exact Or.inr (numberLength_cases hlength).2.2
  · exact Or.inr (identifierLength_cases hlength).2.2

end SyntaxHighlight
