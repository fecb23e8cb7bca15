import HackerTyper.SyntaxHighlight.Placement
import HackerTyper.SyntaxHighlight.Stability

/-!
# The type of every character

What is seen of a token is the colour of its characters. A token that ends two characters
before the end of a text may become part of a longer one when the text grows, but then both are
gaps, and no character changes its type.

## Main definitions

* `characters`: the characters of tokens, each with the type of its token;
* `Token.Extends`: what may become of a settled token.

## Main results

* `getElem?_characters`: the type of a character is that of the token it lies in;
* `tokens_settled`: which tokens stay when the text grows;
* `tokenize_characters_stable`: settled characters keep their types.
-/

namespace SyntaxHighlight

open Js

/-- The characters of tokens, each with the type of its token. -/
def characters (ts : List Token) : List (CodeUnit × TokenType) :=
  ts.flatMap fun t => t.text.map fun c => (c, t.type)

/-- The characters of tokens are those of their texts. -/
theorem map_fst_characters (ts : List Token) :
    (characters ts).map Prod.fst = ts.flatMap Token.text := by
  simp only [characters, List.map_flatMap, List.map_map, Function.comp_def, List.map_id']

theorem characters_append (ts us : List Token) :
    characters (ts ++ us) = characters ts ++ characters us := List.flatMap_append

/-- A character of a token has the type of the token. -/
theorem getElem?_characters {ts : List Token} {k i j : ℕ} {t : Token}
    (ht : (i, t) ∈ located k ts) (hj : j < t.text.length) :
    k ≤ i ∧ (characters ts)[i - k + j]? = (t.text[j]?).map fun c => (c, t.type) := by
  induction ts generalizing k with
  | nil => cases ht
  | cons u ts ih =>
    rw [characters, List.flatMap_cons]
    rcases List.mem_cons.mp ht with heq | hlater
    · cases heq
      refine ⟨le_rfl, ?_⟩
      rw [Nat.sub_self, Nat.zero_add, List.getElem?_append_left (by simpa using hj),
        List.getElem?_map]
    · -- the token is one of the later ones
      obtain ⟨hle, hget⟩ := ih hlater
      refine ⟨by omega, ?_⟩
      rw [List.getElem?_append_right (by rw [List.length_map]; omega), List.length_map,
        ← hget, characters]
      congr 1
      omega

/-- The second token is the first one, or both are plain and the second one begins with the text
of the first one. -/
def Token.Extends (t t' : Token) : Prop :=
  t' = t ∨ t.type = .plain ∧ t'.type = .plain ∧ t.text <+: t'.text

theorem Token.Extends.type_eq {t t' : Token} (h : t.Extends t') : t'.type = t.type := by
  rcases h with rfl | ⟨htype, htype', -⟩
  · rfl
  · rw [htype, htype']

theorem Token.Extends.isPrefix {t t' : Token} (h : t.Extends t') : t.text <+: t'.text := by
  rcases h with rfl | ⟨-, -, hpre⟩
  · exact List.prefix_refl _
  · exact hpre

/-- A token that ends two characters before the end of a text is extended by a token of every
continuation. -/
theorem exists_longer_token {cfg : LangConfig} (hcfg : cfg.Lexable) (hcompact : cfg.Compact)
    {p : JsString} (heven : Even (trailingBackslashes p)) (s : JsString) {i : ℕ} {t : Token}
    (ht : (i, t) ∈ located 0 (tokens cfg hcfg p)) (hstop : i + t.text.length + 2 ≤ p.length) :
    ∃ t', (i, t') ∈ located 0 (tokens cfg hcfg (p ++ s)) ∧ t.Extends t' := by
  obtain ⟨seg, hseg, rfl, rfl⟩ := mem_located_tokens.mp ht
  rcases (lexer cfg hcfg).segments_stable (decides_lexer hcfg hcompact heven s) hseg hstop with
    hstay | ⟨hgap, -, seg', hseg', hgap', hstart, hpre⟩
  · exact ⟨_, mem_located_tokens.mpr ⟨seg, hstay, rfl, rfl⟩, Or.inl rfl⟩
  · -- a gap that grows is plain before and after
    exact ⟨_, mem_located_tokens.mpr ⟨seg', hseg', hstart, rfl⟩,
      Or.inr ⟨by simp [toToken, hgap], by simp [toToken, hgap'], hpre⟩⟩

/-- The token at the place where a list of tokens starts is its first one. -/
theorem exists_cons_of_mem_located {k : ℕ} {t : Token} {ts : List Token}
    (hne : ∀ t ∈ ts, t.text ≠ []) (h : (k, t) ∈ located k ts) : ∃ rest, ts = t :: rest := by
  cases ts with
  | nil => cases h
  | cons u ts =>
    rcases List.mem_cons.mp h with heq | hlater
    · cases heq
      exact ⟨ts, rfl⟩
    · have hpos := List.length_pos_iff.mpr (hne u List.mem_cons_self)
      have hle := (bounds_of_mem_located hlater).1
      omega

/-- A token that starts behind the start of a list is not its first one. -/
theorem mem_located_of_lt {k i : ℕ} {t u : Token} {ts : List Token}
    (h : (i, t) ∈ located k (u :: ts)) (hlt : k < i) : (i, t) ∈ located (k + u.text.length) ts := by
  rcases List.mem_cons.mp h with heq | hlater
  · cases heq
    exact absurd hlt (lt_irrefl _)
  · exact hlater

/-- If each of some tokens is extended at the same place in another list, the other list starts
with the same tokens, of which only the last one may be longer. -/
theorem eq_append_of_located {us ts : List Token} {last : Token} {k : ℕ}
    (hus : ∀ t ∈ us, t.text ≠ []) (hts : ∀ t ∈ ts, t.text ≠ [])
    (h : ∀ i t, (i, t) ∈ located k (us ++ [last]) →
      ∃ t', (i, t') ∈ located k ts ∧ t.Extends t') :
    ∃ last' rest, ts = us ++ last' :: rest ∧ last.Extends last' := by
  induction us generalizing k ts with
  | nil =>
    obtain ⟨last', hmem, hlast⟩ := h k last List.mem_cons_self
    obtain ⟨rest, rfl⟩ := exists_cons_of_mem_located hts hmem
    exact ⟨last', rest, rfl, hlast⟩
  | cons u us ih =>
    have hpos := List.length_pos_iff.mpr (hus u List.mem_cons_self)
    obtain ⟨v, hv, hextends⟩ := h k u List.mem_cons_self
    obtain ⟨rest, rfl⟩ := exists_cons_of_mem_located hts hv
    -- the next token starts where `u` stops, so the longer token stops there as well
    have hlater : ∀ i t, (i, t) ∈ located (k + u.text.length) (us ++ [last]) →
        ∃ t', (i, t') ∈ located (k + v.text.length) rest ∧ t.Extends t' := by
      intro i t hmem
      obtain ⟨t', hmem', hextends'⟩ := h i t (List.mem_cons_of_mem _ hmem)
      have hle := (bounds_of_mem_located hmem).1
      exact ⟨t', mem_located_of_lt hmem' (by omega), hextends'⟩
    obtain ⟨next, more, hnext⟩ : ∃ next more, us ++ [last] = next :: more :=
      List.exists_cons_of_ne_nil (by simp)
    obtain ⟨t', hmem', -⟩ := hlater (k + u.text.length) next (by
      rw [hnext]
      exact List.mem_cons_self)
    have hle := (bounds_of_mem_located hmem').1
    have htext : u.text = v.text := hextends.isPrefix.eq_of_length_le (by omega)
    obtain rfl : u = v := by
      rcases hextends with rfl | ⟨htype, htype', -⟩
      · rfl
      · cases u
        cases v
        simp_all
    obtain ⟨last', rest', rfl, hlast⟩ := ih (fun t ht => hus t (List.mem_cons_of_mem _ ht))
      (fun t ht => hts t (List.mem_cons_of_mem _ ht)) hlater
    exact ⟨last', rest', rfl, hlast⟩

/-- In every continuation of a text, its tokens stay up to one that ends two characters before its
end, and that one becomes longer at most. -/
theorem tokens_settled {cfg : LangConfig} (hcfg : cfg.Lexable) (hcompact : cfg.Compact)
    {p : JsString} (heven : Even (trailingBackslashes p)) (s : JsString) {pre post : List Token}
    {tok : Token} (hsplit : tokens cfg hcfg p = pre ++ tok :: post)
    (hstop : ((pre ++ [tok]).flatMap Token.text).length + 2 ≤ p.length) :
    ∃ tok' rest, tokens cfg hcfg (p ++ s) = pre ++ tok' :: rest ∧ tok.Extends tok' := by
  have hmem : ∀ t ∈ pre, t ∈ tokens cfg hcfg p := fun t ht => by
    rw [hsplit]
    exact List.mem_append_left _ ht
  refine eq_append_of_located (k := 0) (fun t ht => text_ne_nil_of_mem_tokens hcfg (hmem t ht))
    (fun t ht => text_ne_nil_of_mem_tokens hcfg ht) fun i t ht => ?_
  have hbound := (bounds_of_mem_located ht).2
  refine exists_longer_token hcfg hcompact heven s ?_ (by omega)
  rw [hsplit, List.append_cons, located_append]
  exact List.mem_append_left _ ht

/-- In every continuation of a text, its characters have the same types up to the end of each
token that ends two characters before its end. -/
theorem characters_stable {cfg : LangConfig} (hcfg : cfg.Lexable) (hcompact : cfg.Compact)
    {p : JsString} (heven : Even (trailingBackslashes p)) (s : JsString) {i : ℕ} {t : Token}
    (ht : (i, t) ∈ located 0 (tokens cfg hcfg p)) (hstop : i + t.text.length + 2 ≤ p.length) :
    (characters (tokens cfg hcfg p)).take (i + t.text.length) <+:
      characters (tokens cfg hcfg (p ++ s)) := by
  obtain ⟨pre, post, hsplit, rfl⟩ := exists_append_of_mem_located ht
  have hlength : (pre.flatMap Token.text).length + t.text.length =
      (characters (pre ++ [t])).length := by
    rw [← List.length_map (f := Prod.fst), map_fst_characters]
    simp
  obtain ⟨t', rest, hsplit', hextends⟩ :=
    tokens_settled hcfg hcompact heven s hsplit (by simpa [Nat.add_assoc] using hstop)
  obtain ⟨u, hu⟩ := hextends.isPrefix
  -- the tokens up to `t` are the same, and the longer one begins with the characters of `t`
  have hlonger : characters [t] <+: characters [t'] := by
    rw [characters, characters, List.flatMap_singleton, List.flatMap_singleton, hextends.type_eq,
      ← hu, List.map_append]
    exact List.prefix_append _ _
  have hbefore : characters (pre ++ t :: post) = characters (pre ++ [t]) ++ characters post := by
    rw [← characters_append, ← List.append_cons]
  have hafter : characters (pre ++ t' :: rest) =
      characters pre ++ (characters [t'] ++ characters rest) := by
    rw [← characters_append, ← characters_append, List.singleton_append]
  rw [hsplit, hsplit', zero_add, hlength, hbefore, hafter, List.take_left, characters_append]
  exact (List.prefix_append_right_inj _).mpr (hlonger.trans (List.prefix_append _ _))

/-- When a text that does not end in an unpaired backslash is continued, its characters keep
their types up to the end of each of its tokens that ends two characters before its end. -/
theorem tokenize_characters_stable {language : JsString} {a : LanguageArgs}
    (ha : argsFor language = some a) {p t : JsString} (hpre : p <+: t)
    (heven : Even (trailingBackslashes p)) {cache₁ cache₂ : ScannerCache}
    (hcache₁ : cache₁.Reachable) (hcache₂ : cache₂.Reachable) :
    ∃ ps ts cache₁' cache₂', tokenize p language cache₁ = .ok (ps, cache₁') ∧
      tokenize t language cache₂ = .ok (ts, cache₂') ∧
      ∀ i tok, (i, tok) ∈ located 0 ps → i + tok.text.length + 2 ≤ p.length →
        (characters ps).take (i + tok.text.length) <+: characters ts := by
  obtain ⟨s, rfl⟩ := hpre
  obtain ⟨cache₁', -, hrun₁⟩ := tokenize_eq ha hcache₁ p
  obtain ⟨cache₂', -, hrun₂⟩ := tokenize_eq ha hcache₂ (p ++ s)
  exact ⟨_, _, cache₁', cache₂', hrun₁, hrun₂, fun i tok htok hstop =>
    characters_stable (lexable_of_argsFor ha) (compact_of_argsFor ha) heven s htok hstop⟩

/-- A gap in front of a number that turns out to be none. -/
theorem tokenize_characters_stable_number : ∃ ps ts cache₁' cache₂',
    tokenize (js "x = 123") (js "") PlainObject.empty = .ok (ps, cache₁') ∧
      tokenize (js "x = 123a") (js "") PlainObject.empty = .ok (ts, cache₂') ∧
      ∀ i tok, (i, tok) ∈ located 0 ps → i + tok.text.length + 2 ≤ (js "x = 123").length →
        (characters ps).take (i + tok.text.length) <+: characters ts :=
  tokenize_characters_stable (a := Language.fallback) (by decide +kernel) (by decide) (by decide)
    .empty .empty

end SyntaxHighlight
