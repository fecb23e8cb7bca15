import HackerTyper.Overlay.StyledText
import HackerTyper.SyntaxHighlight.Coloring

/-!
# Colours on the screen

An element that shows styled text as documented shows every character of a text in the colour of
its token. When the text is typed on, the markup itself begins as before: up to the end of a
settled token nothing of it changes.

## Main definitions

* `paint`: the characters of tokens as they are shown, in the colours of their types.

## Main results

* `ShowsStyledText.tokens`: what an element shows of the markup of tokens;
* `display_buildHighlightedMarkup`: what it shows of the markup of a text;
* `buildHighlightedMarkup_stable`: what stays of the markup when the text grows.
-/

namespace Overlay

open Js SyntaxHighlight

/-- Characters as they are shown, in the colours of their types. -/
def paint (color : TokenType → JsString) (cs : List (CodeUnit × TokenType)) :
    List (CodeUnit × JsString) :=
  cs.flatMap fun (c, type) => (shownUnit c).map fun x => (x, color type)

/-! ## The markup of tokens -/

theorem paint_append (color : TokenType → JsString) (cs cs' : List (CodeUnit × TokenType)) :
    paint color (cs ++ cs') = paint color cs ++ paint color cs' := List.flatMap_append

/-- Characters of one type are shown in one colour. -/
theorem paint_map (color : TokenType → JsString) (text : JsString) (type : TokenType) :
    paint color (text.map fun c => (c, type)) = (shown text).map fun c => (c, color type) := by
  rw [paint, shown, List.flatMap_map, List.map_flatMap]

/-- No character disappears. -/
theorem escapeUnit_ne_nil (c : CodeUnit) : escapeUnit c ≠ [] := by
  induction c using escapeUnit_induction with
  | other c h₁ h₂ h₃ h₄ h₅ h₆ =>
    rw [escapeUnit_of_ne h₁ h₂ h₃ h₄ h₅ h₆]
    exact List.cons_ne_nil _ _
  | _ => decide

/-- A token with a text has a part in the markup. -/
theorem tokenMarkup_of_ne_nil (color : TokenType → JsString) {token : Token}
    (h : token.text ≠ []) :
    tokenMarkup color token =
      if token.type = .plain then escapeMarkup token.text
      else openTag (color token.type) ++ escapeMarkup token.text ++ closeTag := by
  have hne : escapeMarkup token.text ≠ [] := by
    obtain ⟨c, cs, hc⟩ := List.exists_cons_of_ne_nil h
    rw [escapeMarkup_eq, hc, List.flatMap_cons]
    exact List.append_ne_nil_of_left_ne_nil (escapeUnit_ne_nil c) _
  rw [tokenMarkup, markupPart]
  by_cases hplain : token.type = .plain
  · simp [hne, hplain]
  · simp [hne, hplain]

section Shows

variable {color : TokenType → JsString} (hcolor : ∀ type, HexColor (color type))

include hcolor

/-- The markup of a token may stand in front of any markup. -/
theorem styled_tokenMarkup {token : Token} (htext : Legible token.text) {s : JsString}
    (hs : Styled true s) : Styled true (tokenMarkup color token ++ s) := by
  have hinside : Styled false (escapeMarkup token.text) := by
    have h := styled_escapeMarkup htext (.nil : Styled false [])
    rwa [List.append_nil] at h
  rcases tokenMarkup_cases color token with h | ⟨-, h⟩
  · rw [h]
    exact styled_escapeMarkup htext hs
  · rw [h]
    exact .font (hcolor token.type) hinside hs

/-- The markup of tokens may stand in front of any markup. -/
theorem styled_tokens {ts : List Token} (htext : ∀ t ∈ ts, Legible t.text) {s : JsString}
    (hs : Styled true s) : Styled true (ts.flatMap (tokenMarkup color) ++ s) := by
  induction ts with
  | nil => exact hs
  | cons t ts ih =>
    obtain ⟨ht, hrest⟩ := List.forall_mem_cons.mp htext
    rw [List.flatMap_cons, List.append_assoc]
    exact styled_tokenMarkup hcolor ht (ih hrest)

variable {display : JsString → JsString → List (CodeUnit × JsString)}
  (h : ShowsStyledText display)

include h

/-- A token is shown in its colour, whatever follows. -/
theorem ShowsStyledText.token {token : Token} (hne : token.text ≠ [])
    (htext : Legible token.text) {s : JsString} (hs : Styled true s) :
    display (color .plain) (tokenMarkup color token ++ s) =
      paint color (token.text.map fun c => (c, token.type)) ++ display (color .plain) s := by
  rw [tokenMarkup_of_ne_nil color hne, paint_map]
  by_cases hplain : token.type = .plain
  · -- without a tag, the characters have the colour of the element
    rw [if_pos hplain, hplain, h.escapeMarkup _ htext hs]
  · have hstyled := styled_escapeMarkup htext (.nil : Styled false [])
    have hinside := h.escapeMarkup (color token.type) htext (.nil : Styled false [])
    rw [List.append_nil] at hstyled hinside
    rw [h.nil, List.append_nil] at hinside
    rw [if_neg hplain, h.font _ (hcolor token.type) hstyled hs, hinside]

/-- Tokens are shown in their colours, whatever follows. -/
theorem ShowsStyledText.tokens {ts : List Token} (hne : ∀ t ∈ ts, t.text ≠ [])
    (htext : ∀ t ∈ ts, Legible t.text) {s : JsString} (hs : Styled true s) :
    display (color .plain) (ts.flatMap (tokenMarkup color) ++ s) =
      paint color (characters ts) ++ display (color .plain) s := by
  induction ts with
  | nil => rfl
  | cons t ts ih =>
    obtain ⟨ht, hrest⟩ := List.forall_mem_cons.mp htext
    obtain ⟨hnet, hnerest⟩ := List.forall_mem_cons.mp hne
    have hcharacters : characters (t :: ts) = t.text.map (fun c => (c, t.type)) ++ characters ts :=
      List.flatMap_cons
    rw [List.flatMap_cons, List.append_assoc,
      h.token hcolor hnet ht (styled_tokens hcolor hrest hs), ih hnerest hrest, hcharacters,
      paint_append, List.append_assoc]

end Shows

/-! ## The markup of a text -/

/-- The tokens of a legible text are legible. -/
theorem legible_of_mem_tokens {cfg : LangConfig} (hcfg : cfg.Lexable) {text : JsString}
    (htext : Legible text) : ∀ t ∈ tokens cfg hcfg text, Legible t.text := by
  intro t ht c hc
  refine htext c ?_
  rw [← flatMap_text_tokens hcfg text]
  exact List.mem_flatMap.mpr ⟨t, ht, hc⟩

/-- The markup of a text is that of its tokens. -/
theorem buildHighlightedMarkup_eq {language : JsString} {a : LanguageArgs}
    (ha : argsFor language = some a) (color : TokenType → JsString) (text : JsString)
    {cache : ScannerCache} (hcache : cache.Reachable) :
    ∃ cache' : ScannerCache, cache'.Reachable ∧
      buildHighlightedMarkup color text language cache =
        .ok ((tokens a.config (lexable_of_argsFor ha) text).flatMap (tokenMarkup color),
          cache') := by
  by_cases hempty : text = []
  · subst hempty
    have hnil : tokens a.config (lexable_of_argsFor ha) [] = [] := by
      have htext := flatMap_text_tokens (lexable_of_argsFor ha) []
      rw [List.flatMap_eq_nil_iff] at htext
      rw [List.eq_nil_iff_forall_not_mem]
      exact fun t ht => text_ne_nil_of_mem_tokens _ ht (htext t ht)
    exact ⟨cache, hcache, by rw [buildHighlightedMarkup, if_pos rfl, hnil]; rfl⟩
  · obtain ⟨cache', hcache', hrun⟩ := tokenize_eq ha hcache text
    refine ⟨cache', hcache', ?_⟩
    rw [buildHighlightedMarkup, if_neg hempty, hrun, Result.ok_bind]
    simp only [join_filterMap_markupPart]

/-- Whatever markup follows, the markup of a text shows its characters in the colours of their
tokens. -/
theorem ShowsStyledText.text {display : JsString → JsString → List (CodeUnit × JsString)}
    (h : ShowsStyledText display) {color : TokenType → JsString}
    (hcolor : ∀ type, HexColor (color type)) {cfg : LangConfig} (hcfg : cfg.Lexable)
    {text : JsString} (htext : Legible text) {s : JsString} (hs : Styled true s) :
    display (color .plain) ((SyntaxHighlight.tokens cfg hcfg text).flatMap (tokenMarkup color) ++ s)
      = paint color (characters (SyntaxHighlight.tokens cfg hcfg text)) ++
        display (color .plain) s :=
  h.tokens hcolor (fun _ ht => text_ne_nil_of_mem_tokens hcfg ht)
    (legible_of_mem_tokens hcfg htext) hs

/-- An element of the colour of plain text that shows styled text as documented shows every
character of a legible text in the colour of its token, whatever tags and entities the text
contains. -/
theorem display_buildHighlightedMarkup
    {display : JsString → JsString → List (CodeUnit × JsString)}
    (hdisplay : ShowsStyledText display) {language : JsString} {a : LanguageArgs}
    (ha : argsFor language = some a) {color : TokenType → JsString}
    (hcolor : ∀ type, HexColor (color type)) {text : JsString} (htext : Legible text)
    {cache₁ cache₂ : ScannerCache} (hcache₁ : cache₁.Reachable) (hcache₂ : cache₂.Reachable) :
    ∃ ts markup cache₁' cache₂', tokenize text language cache₁ = .ok (ts, cache₁') ∧
      buildHighlightedMarkup color text language cache₂ = .ok (markup, cache₂') ∧
      display (color .plain) markup = paint color (characters ts) := by
  obtain ⟨cache₁', -, hrun₁⟩ := tokenize_eq ha hcache₁ text
  obtain ⟨cache₂', -, hrun₂⟩ := buildHighlightedMarkup_eq ha color text hcache₂
  refine ⟨_, _, cache₁', cache₂', hrun₁, hrun₂, ?_⟩
  have hshown := hdisplay.text hcolor (lexable_of_argsFor ha) htext .nil
  rwa [hdisplay.nil, List.append_nil, List.append_nil] at hshown

/-- A comment and a string that look like markup are shown in their own colours. -/
theorem display_buildHighlightedMarkup_tag : ∃ ts markup cache₁' cache₂',
    tokenize (js "</font> // <br>") (js "C") PlainObject.empty = .ok (ts, cache₁') ∧
      buildHighlightedMarkup (colorForTokenType ⟨js "#808080", js "#ffffff"⟩)
        (js "</font> // <br>") (js "C") PlainObject.empty = .ok (markup, cache₂') ∧
      readStyledText (js "#ffffff") markup =
        paint (colorForTokenType ⟨js "#808080", js "#ffffff"⟩) (characters ts) :=
  display_buildHighlightedMarkup (a := Language.c) showsStyledText_readStyledText
    (by decide +kernel) (hexColor_colorForTokenType (by decide) (by decide)) (by decide) .empty
    .empty

/-! ## What stays of the markup -/

/-- The markup of a token begins with that of the token which it extends. -/
theorem tokenMarkup_of_extends (color : TokenType → JsString) {t t' : Token} (h : t.Extends t') :
    tokenMarkup color t <+: tokenMarkup color t' := by
  rcases h with rfl | ⟨htype, htype', u, hu⟩
  · exact List.prefix_refl _
  · -- without tags, the markup is escaped character by character
    have hplain : ∀ {token : Token}, token.type = .plain →
        tokenMarkup color token = escapeMarkup token.text := by
      intro token htype
      rcases tokenMarkup_cases color token with h | ⟨hne, -⟩
      · exact h
      · exact absurd htype hne
    rw [hplain htype, hplain htype', escapeMarkup_eq, escapeMarkup_eq, ← hu, List.flatMap_append]
    exact List.prefix_append _ _

/-- When a text that does not end in an unpaired backslash is continued, its markup and that of
the longer text both begin with the markup of the tokens up to any one that ends two characters
before the end of the text. -/
theorem buildHighlightedMarkup_stable {language : JsString} {a : LanguageArgs}
    (ha : argsFor language = some a) (color : TokenType → JsString) {p t : JsString}
    (hpre : p <+: t) (heven : Even (trailingBackslashes p)) {cache₁ cache₂ cache₃ : ScannerCache}
    (hcache₁ : cache₁.Reachable) (hcache₂ : cache₂.Reachable) (hcache₃ : cache₃.Reachable) :
    ∃ ps before after cache₁' cache₂' cache₃',
      tokenize p language cache₁ = .ok (ps, cache₁') ∧
      buildHighlightedMarkup color p language cache₂ = .ok (before, cache₂') ∧
      buildHighlightedMarkup color t language cache₃ = .ok (after, cache₃') ∧
      ∀ settled tok post, ps = settled ++ tok :: post →
        ((settled ++ [tok]).flatMap Token.text).length + 2 ≤ p.length →
        (settled ++ [tok]).flatMap (tokenMarkup color) <+: before ∧
          (settled ++ [tok]).flatMap (tokenMarkup color) <+: after := by
  obtain ⟨s, rfl⟩ := hpre
  have hcfg := lexable_of_argsFor ha
  obtain ⟨cache₁', -, hrun₁⟩ := tokenize_eq ha hcache₁ p
  obtain ⟨cache₂', -, hrun₂⟩ := buildHighlightedMarkup_eq ha color p hcache₂
  obtain ⟨cache₃', -, hrun₃⟩ := buildHighlightedMarkup_eq ha color (p ++ s) hcache₃
  refine ⟨_, _, _, cache₁', cache₂', cache₃', hrun₁, hrun₂, hrun₃,
    fun settled tok post hsplit hstop => ⟨?_, ?_⟩⟩
  · have hbefore : (settled ++ tok :: post).flatMap (tokenMarkup color) =
        (settled ++ [tok]).flatMap (tokenMarkup color) ++ post.flatMap (tokenMarkup color) := by
      rw [← List.flatMap_append, ← List.append_cons]
    rw [hsplit, hbefore]
    exact List.prefix_append _ _
  · obtain ⟨tok', rest, hsplit', hextends⟩ :=
      tokens_settled hcfg (compact_of_argsFor ha) heven s hsplit hstop
    have hafter : (settled ++ tok' :: rest).flatMap (tokenMarkup color) =
        settled.flatMap (tokenMarkup color) ++
          (tokenMarkup color tok' ++ rest.flatMap (tokenMarkup color)) := by
      rw [List.flatMap_append, List.flatMap_cons]
    rw [hsplit', hafter, List.flatMap_append, List.flatMap_singleton]
    exact (List.prefix_append_right_inj _).mpr
      ((tokenMarkup_of_extends color hextends).trans (List.prefix_append _ _))

/-- A string that is still open, behind a keyword whose markup stays. -/
theorem buildHighlightedMarkup_stable_typed : ∃ ps before after cache₁' cache₂' cache₃',
    tokenize (js "if \"<b") (js "C") PlainObject.empty = .ok (ps, cache₁') ∧
    buildHighlightedMarkup (colorForTokenType ⟨js "#808080", js "#ffffff"⟩) (js "if \"<b") (js "C")
      PlainObject.empty = .ok (before, cache₂') ∧
    buildHighlightedMarkup (colorForTokenType ⟨js "#808080", js "#ffffff"⟩) (js "if \"<b>\"")
      (js "C") PlainObject.empty = .ok (after, cache₃') ∧
    ∀ settled tok post, ps = settled ++ tok :: post →
      ((settled ++ [tok]).flatMap Token.text).length + 2 ≤ (js "if \"<b").length →
      (settled ++ [tok]).flatMap
          (tokenMarkup (colorForTokenType ⟨js "#808080", js "#ffffff"⟩)) <+: before ∧
        (settled ++ [tok]).flatMap
          (tokenMarkup (colorForTokenType ⟨js "#808080", js "#ffffff"⟩)) <+: after :=
  buildHighlightedMarkup_stable (a := Language.c) (by decide +kernel) _ (by decide) (by decide)
    .empty .empty .empty

end Overlay
