import HackerTyper.SyntaxHighlight.Tokenize

/-!
# The tokens tile the text

`tokenize` returns on every text, and its tokens are a cut of the text into non-empty pieces:
nothing is lost, repeated or reordered, so that a token has an offset in the text.

## Main definitions

* `located`: the tokens with their offsets.

## Main results

* `tokenize_lossless`: the tokens are not empty and concatenate to the text;
* `mem_located_tokens`: the tokens of a text with their offsets are its segments with theirs.
-/

namespace SyntaxHighlight

open Js

/-- The tokens lose nothing of the text. -/
theorem flatMap_text_tokens {cfg : LangConfig} (hcfg : cfg.Lexable) (text : JsString) :
    (tokens cfg hcfg text).flatMap Token.text = text := by
  rw [tokens, List.flatMap_map]
  exact (lexer cfg hcfg).flatMap_text_segments text

/-- No token is empty. -/
theorem text_ne_nil_of_mem_tokens {cfg : LangConfig} (hcfg : cfg.Lexable) {text : JsString}
    {t : Token} (ht : t ∈ tokens cfg hcfg text) : t.text ≠ [] := by
  obtain ⟨seg, hseg, rfl⟩ := List.mem_map.mp ht
  exact (lexer cfg hcfg).text_ne_nil_of_mem_segments text seg hseg

/-- For every text and every language with a configuration, whatever was tokenized before,
`tokenize` returns non-empty tokens that concatenate to the text. -/
theorem tokenize_lossless (text : JsString) {language : JsString}
    (hlanguage : language ∉ objectPrototype) {cache : ScannerCache} (hcache : cache.Reachable) :
    ∃ tokens cache', tokenize text language cache = .ok (tokens, cache') ∧
      (∀ t ∈ tokens, t.text ≠ []) ∧ tokens.flatMap Token.text = text := by
  obtain ⟨a, ha⟩ := exists_argsFor hlanguage
  obtain ⟨cache', -, htokenize⟩ := tokenize_eq ha hcache text
  exact ⟨_, cache', htokenize, fun t ht => text_ne_nil_of_mem_tokens _ ht,
    flatMap_text_tokens _ text⟩

/-- An unterminated string in Java. -/
theorem tokenize_lossless_unterminated : js "Java" ∉ objectPrototype ∧
    ∃ tokens cache', tokenize (js "x = \"1") (js "Java") PlainObject.empty = .ok (tokens, cache') ∧
      (∀ t ∈ tokens, t.text ≠ []) ∧ tokens.flatMap Token.text = js "x = \"1" :=
  ⟨by decide, tokenize_lossless (js "x = \"1") (by decide) .empty⟩

/-! ## Offsets -/

/-- The tokens with their offsets, the first one at `i`. -/
def located : ℕ → List Token → List (ℕ × Token)
  | _, [] => []
  | i, t :: ts => (i, t) :: located (i + t.text.length) ts

/-- The second part of a list of tokens starts where the first one stops. -/
theorem located_append (i : ℕ) (ts us : List Token) :
    located i (ts ++ us) = located i ts ++ located (i + (ts.flatMap Token.text).length) us := by
  induction ts generalizing i with
  | nil => rfl
  | cons t ts ih =>
    rw [List.cons_append, located, located, ih, List.flatMap_cons, List.length_append,
      Nat.add_assoc, List.cons_append]

/-- A token stands behind tokens whose texts reach up to it. -/
theorem exists_append_of_mem_located {k i : ℕ} {t : Token} {ts : List Token}
    (h : (i, t) ∈ located k ts) :
    ∃ pre post, ts = pre ++ t :: post ∧ i = k + (pre.flatMap Token.text).length := by
  induction ts generalizing k with
  | nil => cases h
  | cons u ts ih =>
    rcases List.mem_cons.mp h with heq | hlater
    · cases heq
      exact ⟨[], ts, rfl, rfl⟩
    · obtain ⟨pre, post, rfl, rfl⟩ := ih hlater
      refine ⟨u :: pre, post, rfl, ?_⟩
      rw [List.flatMap_cons, List.length_append, Nat.add_assoc]

/-- No token starts in front of the first one, and none stops behind the end of them all. -/
theorem bounds_of_mem_located {k i : ℕ} {t : Token} {ts : List Token} (h : (i, t) ∈ located k ts) :
    k ≤ i ∧ i + t.text.length ≤ k + (ts.flatMap Token.text).length := by
  obtain ⟨pre, post, rfl, rfl⟩ := exists_append_of_mem_located h
  rw [List.flatMap_append, List.flatMap_cons, List.length_append, List.length_append]
  exact ⟨Nat.le_add_right _ _, by omega⟩

/-- The tokens of segments that lie side by side are where the segments are. -/
theorem located_map_toToken {cfg : LangConfig} {segs : List (Segment Lexeme CodeUnit)} {i : ℕ}
    (h : Lexer.Tiles i segs) :
    located i (segs.map (toToken cfg)) = segs.map fun seg => (seg.start, toToken cfg seg) := by
  induction segs generalizing i with
  | nil => rfl
  | cons seg segs ih =>
    -- a segment starts where the one before it stops
    obtain ⟨rfl, hsegs⟩ := h
    rw [List.map_cons, located, List.map_cons]
    congr 1
    exact ih hsegs

/-- The tokens of a text with their offsets are its segments with theirs. -/
theorem mem_located_tokens {cfg : LangConfig} {hcfg : cfg.Lexable} {text : JsString} {i : ℕ}
    {t : Token} :
    (i, t) ∈ located 0 (tokens cfg hcfg text) ↔
      ∃ seg ∈ (lexer cfg hcfg).segments text, seg.start = i ∧ toToken cfg seg = t := by
  rw [tokens, located_map_toToken ((lexer cfg hcfg).tiles_segments text)]
  simp only [List.mem_map, Prod.mk.injEq]

end SyntaxHighlight
