import HackerTyper.Overlay.Screen
import HackerTyper.SyntaxHighlight.Characters

/-!
# The markup is made of whole characters

The overlay reveals code units, so that the revealed text may end with half a character. That is
the only half in the markup: the tags and entities around the tokens do not come between the
halves of any other pair.

## Main results

* `wellFormed_tokenMarkup`: the markup of a well-formed token;
* `wellFormed_renderedMarkup`: the markup of the beginning of a well-formed text.
-/

namespace Overlay

open Js Json SyntaxHighlight

/-! ## The markup of a token -/

/-- Whole characters are escaped as such. -/
theorem wellFormed_escapeUnit {x : CodeUnit} (h : isWhole x) : WellFormed (escapeUnit x) := by
  induction x using escapeUnit_induction with
  | other x h₁ h₂ h₃ h₄ h₅ h₆ =>
    rw [escapeUnit_of_ne h₁ h₂ h₃ h₄ h₅ h₆]
    exact wellFormed_singleton h
  | tab => exact wellFormed_of_isWhole (by decide)
  | space => exact wellFormed_of_isWhole (by decide)
  | _ => exact ⟨_, rfl⟩

/-- Halves of pairs are not escaped. -/
theorem escapeUnit_of_half {x : CodeUnit} (h : isWhole x = false) : escapeUnit x = [x] := by
  induction x using escapeUnit_induction with
  | other x h₁ h₂ h₃ h₄ h₅ h₆ => exact escapeUnit_of_ne h₁ h₂ h₃ h₄ h₅ h₆
  | _ => exact absurd h (by decide)

/-- A well-formed text is escaped as one. -/
theorem wellFormed_escapeMarkup {text : JsString} (h : WellFormed text) :
    WellFormed (escapeMarkup text) := by
  rw [escapeMarkup_eq]
  exact h.flatMap_units (fun x hx => wellFormed_escapeUnit hx) fun x hx => escapeUnit_of_half hx

theorem wellFormed_openTag {color : JsString} (h : WellFormed color) :
    WellFormed (openTag color) :=
  (WellFormed.append ⟨_, rfl⟩ h).append ⟨_, rfl⟩

/-- The markup of a well-formed token in well-formed colours is well-formed. -/
theorem wellFormed_tokenMarkup {color : TokenType → JsString}
    (hcolor : ∀ type, WellFormed (color type)) {token : Token} (h : WellFormed token.text) :
    WellFormed (tokenMarkup color token) := by
  have hescaped := wellFormed_escapeMarkup h
  rcases tokenMarkup_cases color token with heq | ⟨-, heq⟩
  · rwa [heq]
  · rw [heq]
    exact ((wellFormed_openTag (hcolor _)).append hescaped).append ⟨_, rfl⟩

/-- The markup of a token that ends with half a character has no other half. -/
theorem exists_half_tokenMarkup {color : TokenType → JsString}
    (hcolor : ∀ type, WellFormed (color type)) {token : Token} {w : JsString} {half : CodeUnit}
    (htext : token.text = w ++ [half]) (hw : WellFormed w) (hhalf : isWhole half = false) :
    ∃ u v, tokenMarkup color token = u ++ half :: v ∧ WellFormed u ∧ WellFormed v := by
  have hescaped : escapeMarkup token.text = escapeMarkup w ++ [half] := by
    rw [escapeMarkup_eq, htext, List.flatMap_append, List.flatMap_singleton,
      escapeUnit_of_half hhalf, ← escapeMarkup_eq]
  rcases tokenMarkup_cases color token with heq | ⟨-, heq⟩
  · exact ⟨escapeMarkup w, [], by rw [heq, hescaped], wellFormed_escapeMarkup hw,
      wellFormed_nil⟩
  · refine ⟨openTag (color token.type) ++ escapeMarkup w, closeTag, ?_,
      (wellFormed_openTag (hcolor _)).append (wellFormed_escapeMarkup hw), ⟨_, rfl⟩⟩
    rw [heq, hescaped]
    simp

/-! ## The markup of a text -/

theorem wellFormed_cursor (st : State) : WellFormed [cursor st] := by
  apply wellFormed_singleton
  rw [cursor]
  split <;> decide

/-- The markup of a well-formed text in well-formed colours is well-formed. -/
theorem wellFormed_markup {cfg : LangConfig} (hcfg : cfg.Lexable) (hsep : cfg.Separated)
    (hwhole : cfg.DelimitedBy isWhole) {color : TokenType → JsString}
    (hcolor : ∀ type, WellFormed (color type)) {text : JsString} (htext : WellFormed text) :
    WellFormed ((tokens cfg hcfg text).flatMap (tokenMarkup color)) := by
  have hall := wellFormed_of_tokens_append hsep hwhole
    (List.append_nil (tokens cfg hcfg text)).symm (by rwa [flatMap_text_tokens])
  exact WellFormed.flatMap fun t ht => wellFormed_tokenMarkup hcolor (hall t ht)

/-- The markup of a text that ends with half a character, and has no other half. -/
theorem exists_half_markup {cfg : LangConfig} (hcfg : cfg.Lexable) (hsep : cfg.Separated)
    (hwhole : cfg.DelimitedBy isWhole) {color : TokenType → JsString}
    (hcolor : ∀ type, WellFormed (color type)) {w : JsString} (hw : WellFormed w)
    {half : CodeUnit} (hhalf : isWhole half = false) :
    ∃ u v, (tokens cfg hcfg (w ++ [half])).flatMap (tokenMarkup color) = u ++ half :: v ∧
      WellFormed u ∧ WellFormed v := by
  have htext := flatMap_text_tokens hcfg (w ++ [half])
  rcases List.eq_nil_or_concat (tokens cfg hcfg (w ++ [half])) with hnil | ⟨ts, t, hts⟩
  · rw [hnil] at htext
    cases w <;> cases htext
  rw [List.concat_eq_append] at hts
  have ht : t ∈ tokens cfg hcfg (w ++ [half]) := by
    rw [hts]
    exact List.mem_append_right _ (List.mem_singleton_self t)
  rw [hts, List.flatMap_append, List.flatMap_singleton] at htext ⊢
  -- the half is the last code unit of the last token
  obtain ⟨w', x, hx⟩ :=
    (List.eq_nil_or_concat t.text).resolve_left (text_ne_nil_of_mem_tokens hcfg ht)
  rw [List.concat_eq_append] at hx
  rw [hx, ← List.append_assoc] at htext
  obtain ⟨rfl, hlast⟩ := List.append_inj' htext rfl
  obtain rfl := List.singleton_inj.mp hlast
  -- the cut in front of that token splits no pair
  have hcut := splitsPair_of_tokens_append hsep hwhole hts
  rw [List.flatMap_singleton, hx] at hcut
  obtain ⟨hinit, hlast⟩ := (wellFormed_append_iff (splitsPair_of_append hcut)).mp hw
  have hall := wellFormed_of_tokens_append hsep hwhole hts hinit
  obtain ⟨u, v, hmarkup, hu, hv⟩ := exists_half_tokenMarkup hcolor hx hlast hhalf
  have hfront : WellFormed (ts.flatMap (tokenMarkup color)) :=
    WellFormed.flatMap fun t ht => wellFormed_tokenMarkup hcolor (hall t ht)
  exact ⟨ts.flatMap (tokenMarkup color) ++ u, v, by rw [hmarkup, List.append_assoc],
    hfront.append hu, hv⟩

/-- The markup of the beginning of a well-formed text is well-formed, apart from one half of a
pair where the position is between the halves of a pair. -/
theorem wellFormed_renderedMarkup {service : Option Service.State} {a : LanguageArgs}
    (ha : argsFor (sourceLanguage service) = some a) (htext : WellFormed (sourceText service))
    {color : TokenType → JsString} (hcolor : ∀ type, WellFormed (color type)) (st : State)
    {cache : ScannerCache} (hcache : cache.Reachable) :
    ∃ markup cache', cache'.Reachable ∧
      renderedMarkup color service st cache = .ok (markup, cache') ∧
      (splitsPair (sourceText service) st.progress.toNat = false ∧ WellFormed markup ∨
        splitsPair (sourceText service) st.progress.toNat = true ∧ ∃ u half v,
          markup = u ++ half :: v ∧ isHighSurrogate half ∧ WellFormed u ∧ WellFormed v) := by
  have hcfg := lexable_of_argsFor ha
  have hsep := separated_of_argsFor ha
  have hwhole := (delimitedBy_of_argsFor ha).mono fun _ => isWhole_of_isPunctuation
  obtain ⟨cache', hcache', hrun⟩ :=
    buildHighlightedMarkup_eq ha color (revealed (sourceText service) st) hcache
  refine ⟨_, cache', hcache', by rw [renderedMarkup, hrun, Result.ok_bind], ?_⟩
  rcases wellFormed_take_cases htext st.progress.toNat with ⟨hsplit, htake⟩ |
    ⟨hsplit, w, high, htake, hw, hhigh⟩
  · left
    exact ⟨hsplit, (wellFormed_markup hcfg hsep hwhole hcolor htake).append (wellFormed_cursor st)⟩
  · right
    obtain ⟨u, v, hmarkup, hu, hv⟩ := exists_half_markup hcfg hsep hwhole hcolor hw
      (show isWhole high = false by simp [isWhole, hhigh])
    refine ⟨hsplit, u, high, v ++ [cursor st], ?_, hhigh, hu, hv.append (wellFormed_cursor st)⟩
    rw [revealed, htake, hmarkup, List.append_assoc, List.cons_append]

end Overlay
