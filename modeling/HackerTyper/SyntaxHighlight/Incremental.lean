import HackerTyper.Foundations.Restart
import HackerTyper.SyntaxHighlight.Stability
import HackerTyper.SyntaxHighlight.Words

/-!
# Incremental tokens

The overlay tokenizes the whole revealed text after every key. The scanner looks at one
character in front of a position at most, and no token starts where that character matters, so
the tokens behind a token are the tokens of the text behind it. It would be enough to keep the
tokens that are settled and to tokenize the rest.

## Main definitions

* `Token.IsMatch`: a token that is no gap, judged by its type and text.

## Main results

* `local_lexer`: the scanner looks at one character in front of a position at most;
* `tokenize_restart`: the last tokens of a text are the tokens of their own text;
* `tokenize_incremental`: the tokens of a longer text, from those that are kept and from the
  rest of the text.
-/

namespace SyntaxHighlight

open Js

/-- The token is no gap: it is coloured, or it contains a character of `[A-Za-z_]`. -/
def Token.IsMatch (t : Token) : Prop := t.type ≠ .plain ∨ ∃ x ∈ t.text, isIdentifierStart x

instance (t : Token) : Decidable t.IsMatch :=
  inferInstanceAs (Decidable (t.type ≠ .plain ∨ ∃ x ∈ t.text, isIdentifierStart x))

/-! ## What is in front of a token -/

theorem digitRun_eq_zero {s : JsString} (h : ∀ x ∈ s.head?, isDigit x = false) :
    digitRun s = 0 := by
  cases s with
  | nil => rfl
  | cons x xs =>
    have hx : isDigit x = false := h x rfl
    simp [digitRun, hx]

/-- An alternative matches alike at two positions with the same text ahead, if a word
character is in front of both or of none, or if no digit is ahead. -/
theorem length?_eq_of_rest {c c' : Cursor CodeUnit} (hrest : c.rest = c'.rest)
    (hbefore : c.before.head?.any isWord = c'.before.head?.any isWord ∨ digitRun c.rest = 0)
    (a : Lexeme) : a.length? c = a.length? c' := by
  obtain ⟨b, s⟩ := c
  obtain ⟨b', s'⟩ := c'
  obtain rfl : s = s' := hrest
  cases a with
  | blockComment opener closer => rfl
  | lineComment opener => rfl
  | string delimiter => rfl
  | number =>
    simp only [Lexeme.length?, numberLength]
    rcases hbefore with heq | hzero
    · simp only [heq]
    · simp only [hzero, true_or, or_true, if_true]
  | identifier => rfl

theorem isDigit_eq_false {x : CodeUnit} (h : isNameUnit x = false) : isDigit x = false := by
  by_contra hdigit
  have hword := isWord_of_isDigit (Bool.not_eq_false _ ▸ hdigit)
  simp [isNameUnit, hword] at h

/-- At two positions with the same text ahead the scanner finds the same, if a word character is in
front of both or of none, or if no digit is ahead. -/
theorem match?_eq_of_rest {cfg : LangConfig} (hcfg : cfg.Lexable) {c c' : Cursor CodeUnit}
    (hrest : c.rest = c'.rest)
    (hbefore : c.before.head?.any isWord = c'.before.head?.any isWord ∨ digitRun c.rest = 0) :
    (lexer cfg hcfg).match? c = (lexer cfg hcfg).match? c' := by
  simp only [lexer, length?_eq_of_rest hrest hbefore]

/-- The scanner looks at one character in front of a position at most. -/
theorem local_lexer (cfg : LangConfig) (hcfg : cfg.Lexable) : (lexer cfg hcfg).Local := by
  intro b b' rest hhead
  exact match?_eq_of_rest hcfg rfl (Or.inl (by rw [hhead]))

/-- Where a token starts, no word character is in front, or no digit is ahead. -/
theorem not_isWord_or_not_isDigit {cfg : LangConfig} {hcfg : cfg.Lexable} (hsep : cfg.Separated)
    {text : JsString} {i : ℕ} {t : Token} (ht : (i, t) ∈ located 0 (tokens cfg hcfg text)) :
    (Cursor.ofIndex text i).before.head?.any isWord = false ∨ digitRun (text.drop i) = 0 := by
  have hle := add_length_le_of_mem_located ht
  obtain ⟨hne, -, ⟨k, hm, -⟩ | ⟨-, hgap⟩⟩ := token_cases ht
  · obtain ⟨x, hhead, hbegins⟩ := begins_of_match? hsep hm
    have hdigit : isDigit x = false → digitRun (text.drop i) = 0 := by
      intro hx
      refine digitRun_eq_zero fun y hy => ?_
      rw [← Cursor.rest_ofIndex, hhead] at hy
      cases hy
      exact hx
    cases k with
    -- no word character touches a number
    | number => exact Or.inl (numberLength_cases (length?_of_match? hm).2).1
    | identifier =>
      exact Or.inr (hdigit (Bool.not_eq_true _ ▸ not_isDigit_of_isIdentifierStart hbegins))
    | blockComment opener closer => exact Or.inr (hdigit (isDigit_eq_false hbegins.1))
    | lineComment opener => exact Or.inr (hdigit (isDigit_eq_false hbegins.1))
    | string d => exact Or.inr (hdigit (isDigit_eq_false hbegins.1))
  · by_cases hi : i = 0
    · rw [hi]
      exact Or.inl rfl
    · -- a match stops in front of a gap, and not inside a word
      have hpos := List.length_pos_iff.mpr hne
      obtain ⟨j, k, n, hm, rfl⟩ := exists_match_before ht (hgap i le_rfl (by omega)) hi
      rcases not_isWord_at_stop hsep (by omega) hm with h | h
      · left
        rw [head?_before_ofIndex (by omega), ← Bool.not_eq_true, Option.any_eq_true]
        rintro ⟨x, hx, hword⟩
        rw [h x hx] at hword
        cases hword
      · right
        refine digitRun_eq_zero fun x hx => ?_
        rw [List.head?_drop] at hx
        by_contra hdigit
        have hword := isWord_of_isDigit (Bool.not_eq_false _ ▸ hdigit)
        rw [h x hx] at hword
        cases hword

/-! ## Restarting -/

/-- The tokens of a text behind some of its first ones are the tokens of the text behind
them. -/
theorem tokens_restart {cfg : LangConfig} {hcfg : cfg.Lexable} (hsep : cfg.Separated)
    {text : JsString} {pre post : List Token} (hsplit : tokens cfg hcfg text = pre ++ post) :
    tokens cfg hcfg (post.flatMap Token.text) = post := by
  obtain ⟨segs, segs', hsegs, rfl, rfl⟩ := List.map_eq_append_iff.mp hsplit
  rw [List.flatMap_map]
  change tokens cfg hcfg (segs'.flatMap Segment.text) = _
  have hfirst : (lexer cfg hcfg).match?
      (Cursor.ofIndex text (segs.flatMap Segment.text).length) =
        (lexer cfg hcfg).match? (Cursor.ofIndex (segs'.flatMap Segment.text) 0) := by
    have hdrop : text.drop (segs.flatMap Segment.text).length = segs'.flatMap Segment.text := by
      have htext := (lexer cfg hcfg).flatMap_text_segments text
      rw [hsegs, List.flatMap_append] at htext
      rw [← htext, List.drop_left]
    refine match?_eq_of_rest hcfg hdrop ?_
    cases segs' with
    | nil =>
      -- nothing is left of the text
      right
      rw [Cursor.rest_ofIndex, hdrop]
      rfl
    | cons seg segs' =>
      -- a token starts there
      have hstart : seg.start = (segs.flatMap Segment.text).length := by
        have htiles := (lexer cfg hcfg).tiles_segments text
        rw [hsegs] at htiles
        rw [htiles.start_eq, Nat.zero_add]
      have hmem : ((segs.flatMap Segment.text).length, toToken cfg seg) ∈
          located 0 (tokens cfg hcfg text) :=
        mem_located_tokens.mpr ⟨seg, by simp [hsegs], hstart, rfl⟩
      exact not_isWord_or_not_isDigit hsep hmem
  have hpost := (lexer cfg hcfg).segments_restart (local_lexer cfg hcfg) hsegs hfirst
  conv_rhs => rw [hpost]
  rw [tokens, List.map_map]
  rfl

/-- However the tokens of a text are cut in two, the second part is the result of tokenizing its
own text. -/
theorem tokenize_restart {language : JsString} {a : LanguageArgs}
    (ha : argsFor language = some a) (text : JsString) {cache₁ cache₂ : ScannerCache}
    (hcache₁ : cache₁.Reachable) (hcache₂ : cache₂.Reachable) :
    ∃ ts cache₁', tokenize text language cache₁ = .ok (ts, cache₁') ∧
      ∀ pre post, ts = pre ++ post → ∃ cache₂',
        tokenize (post.flatMap Token.text) language cache₂ = .ok (post, cache₂') := by
  obtain ⟨cache₁', -, hrun₁⟩ := tokenize_eq ha hcache₁ text
  refine ⟨_, cache₁', hrun₁, fun pre post hsplit => ?_⟩
  obtain ⟨cache₂', -, hrun₂⟩ := tokenize_eq ha hcache₂ (post.flatMap Token.text)
  exact ⟨cache₂', by rw [hrun₂, tokens_restart (separated_of_argsFor ha) hsplit]⟩

/-- The last two tokens of a text in Rust, with a digit behind a letter in front of them. -/
theorem tokenize_restart_rust : ∃ ts cache₁',
    tokenize (js "let x1=\"2\"") (js "Rust") PlainObject.empty = .ok (ts, cache₁') ∧
      ∀ pre post, ts = pre ++ post → ∃ cache₂',
        tokenize (post.flatMap Token.text) (js "Rust") PlainObject.empty = .ok (post, cache₂') :=
  tokenize_restart (a := Language.rust) (by decide +kernel) _ .empty .empty

/-! ## Keeping tokens -/

/-- A token that is no gap comes from a segment that is none. -/
theorem isSome_kind_of_isMatch {cfg : LangConfig} {hcfg : cfg.Lexable} {text : JsString}
    {seg : Segment Lexeme CodeUnit} (hseg : seg ∈ (lexer cfg hcfg).segments text)
    (h : (toToken cfg seg).IsMatch) : seg.kind ≠ none := by
  intro hgap
  rcases h with htype | ⟨x, hx, hstart⟩
  · -- a gap is plain
    simp [toToken, hgap] at htype
  · -- and contains no character that an identifier could start with
    obtain ⟨j, hj, hget⟩ := List.mem_iff_getElem.mp hx
    change j < seg.text.length at hj
    have hx' : text[seg.start + j]? = some x := by
      rw [← List.getElem?_drop]
      have hget' : seg.text[j]? = some x := by
        rw [List.getElem?_eq_getElem hj]
        exact congrArg some hget
      rw [(lexer cfg hcfg).text_eq_of_mem_segments hseg, List.getElem?_take, if_pos hj] at hget'
      exact hget'
    have hnone := (lexer cfg hcfg).match?_eq_none_of_mem_segments hseg hgap
      (Nat.le_add_right seg.start j) (by rw [Segment.stop]; omega)
    rw [isIdentifierStart_of_gap hnone hx'] at hstart
    cases hstart

/-- The tokens up to one that is no gap and stops well inside a text are the first tokens of
every continuation. -/
theorem tokens_of_isPrefix {cfg : LangConfig} (hcfg : cfg.Lexable) (hcompact : cfg.Compact)
    {p : JsString} (heven : Even (trailingBackslashes p)) (s : JsString) {pre post : List Token}
    {tok : Token} (hsplit : tokens cfg hcfg p = pre ++ tok :: post) (hmatch : tok.IsMatch)
    (hstop : ((pre ++ [tok]).flatMap Token.text).length + 2 ≤ p.length) :
    pre ++ [tok] <+: tokens cfg hcfg (p ++ s) := by
  obtain ⟨segs, rest, hsegs, rfl, htail⟩ := List.map_eq_append_iff.mp hsplit
  obtain ⟨seg, segs', rfl, rfl, -⟩ := List.map_eq_cons_iff.mp htail
  have hmem : seg ∈ (lexer cfg hcfg).segments p := by simp [hsegs]
  have hend : seg.stop + 2 ≤ p.length := by
    have htiles := (lexer cfg hcfg).tiles_segments p
    rw [hsegs] at htiles
    rw [List.flatMap_append, List.flatMap_map, List.flatMap_singleton, List.length_append]
      at hstop
    have hstart : seg.start = 0 + (segs.flatMap Segment.text).length := htiles.start_eq
    have heq : (segs.flatMap fun seg => (toToken cfg seg).text) = segs.flatMap Segment.text := rfl
    have heq' : (toToken cfg seg).text = seg.text := rfl
    rw [heq, heq'] at hstop
    rw [Segment.stop]
    omega
  have hpre := Lexer.isPrefix_of_token (decides_lexer hcfg hcompact heven s) hsegs
    (isSome_kind_of_isMatch hmem hmatch) hend
  have hmap := hpre.map (toToken cfg)
  rwa [List.map_append] at hmap

/-- When a text that does not end in an unpaired backslash is continued, the tokens up to one
that is no gap and stops two characters before its end can be kept: together with the tokens of
the rest they are the tokens of the longer text. -/
theorem tokenize_incremental {language : JsString} {a : LanguageArgs}
    (ha : argsFor language = some a) {p t : JsString} (hpre : p <+: t)
    (heven : Even (trailingBackslashes p)) {cache₁ cache₂ cache₃ : ScannerCache}
    (hcache₁ : cache₁.Reachable) (hcache₂ : cache₂.Reachable) (hcache₃ : cache₃.Reachable) :
    ∃ ps cache₁', tokenize p language cache₁ = .ok (ps, cache₁') ∧
      ∀ pre tok post, ps = pre ++ tok :: post → tok.IsMatch →
        ((pre ++ [tok]).flatMap Token.text).length + 2 ≤ p.length →
        ∃ rest cache₂' cache₃',
          tokenize (t.drop ((pre ++ [tok]).flatMap Token.text).length) language cache₂ =
              .ok (rest, cache₂') ∧
            tokenize t language cache₃ = .ok (pre ++ tok :: rest, cache₃') := by
  obtain ⟨s, rfl⟩ := hpre
  have hcfg := lexable_of_argsFor ha
  obtain ⟨cache₁', -, hrun₁⟩ := tokenize_eq ha hcache₁ p
  refine ⟨_, cache₁', hrun₁, fun pre tok post hsplit hmatch hstop => ?_⟩
  obtain ⟨rest, hrest⟩ := tokens_of_isPrefix hcfg (compact_of_argsFor ha) heven s hsplit hmatch
    hstop
  have hdrop : (p ++ s).drop ((pre ++ [tok]).flatMap Token.text).length =
      rest.flatMap Token.text := by
    have htext := flatMap_text_tokens hcfg (p ++ s)
    rw [← hrest, List.flatMap_append] at htext
    rw [← htext, List.drop_left]
  obtain ⟨cache₂', -, hrun₂⟩ := tokenize_eq ha hcache₂
    ((p ++ s).drop ((pre ++ [tok]).flatMap Token.text).length)
  obtain ⟨cache₃', -, hrun₃⟩ := tokenize_eq ha hcache₃ (p ++ s)
  refine ⟨rest, cache₂', cache₃', ?_, ?_⟩
  · rw [hrun₂, hdrop, tokens_restart (separated_of_argsFor ha) hrest.symm]
  · rw [hrun₃, ← hrest, List.append_assoc, List.singleton_append]

/-- The keyword at the front of a text in Go is kept. -/
theorem tokenize_incremental_go : ∃ ps cache₁',
    tokenize (js "func \"a") (js "Go") PlainObject.empty = .ok (ps, cache₁') ∧
      ∀ pre tok post, ps = pre ++ tok :: post → tok.IsMatch →
        ((pre ++ [tok]).flatMap Token.text).length + 2 ≤ (js "func \"a").length →
        ∃ rest cache₂' cache₃',
          tokenize ((js "func \"a\" 1").drop ((pre ++ [tok]).flatMap Token.text).length) (js "Go")
              PlainObject.empty = .ok (rest, cache₂') ∧
            tokenize (js "func \"a\" 1") (js "Go") PlainObject.empty =
              .ok (pre ++ tok :: rest, cache₃') :=
  tokenize_incremental (a := Language.go) (by decide +kernel) (by decide) (by decide) .empty .empty
    .empty

end SyntaxHighlight
