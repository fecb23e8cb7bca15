import HackerTyper.SyntaxHighlight.Classification
import HackerTyper.SyntaxHighlight.Segmentation

/-!
# Keyword highlighting

The words of a language are the keys of a plain object, and an identifier is a keyword if the
read of its name there finds something truthy. A plain object also answers to the names it
inherits, so highlighting is exact for every other identifier only.

## Main definitions

* `LanguageArgs.fold`: the form in which a word is looked up;
* `IsIdentifier`: the token was found by the identifier alternative of the scanner;
* `KeywordExact`: the type of an identifier agrees with the listed words.

## Main results

* `keywordExact_iff`: an identifier is highlighted exactly when it is not the name of an
  inherited property.
-/

namespace SyntaxHighlight

open Js

/-- A word as it is looked up in the set of keywords. -/
def LanguageArgs.fold (a : LanguageArgs) (word : JsString) : JsString :=
  if a.config.caseInsensitive then toLowerCase word else word

/-- The text `w` at offset `i` is what the scanner's identifier alternative matches there,
and no earlier alternative matches there. -/
def IsIdentifier (cfg : LangConfig) (text : JsString) (i : ℕ) (w : JsString) : Prop :=
  Lexeme.identifier.regex.first (Cursor.ofIndex text i) =
      some ((Cursor.ofIndex text i).advance w.length) ∧
    ∀ a ∈ alternatives cfg, a ≠ .identifier → a.regex.first (Cursor.ofIndex text i) = none

/-- An identifier is a keyword exactly when it is one of the listed words, and plain
otherwise. -/
def KeywordExact (a : LanguageArgs) (t : Token) : Prop :=
  (t.type = .keyword ↔ a.fold t.text ∈ a.keywords) ∧
    (a.fold t.text ∉ a.keywords → t.type = .plain)

instance (cfg : LangConfig) (text : JsString) (i : ℕ) (w : JsString) :
    Decidable (IsIdentifier cfg text i w) :=
  inferInstanceAs (Decidable (Lexeme.identifier.regex.first (Cursor.ofIndex text i) =
      some ((Cursor.ofIndex text i).advance w.length) ∧
    ∀ a ∈ alternatives cfg, a ≠ .identifier → a.regex.first (Cursor.ofIndex text i) = none))

instance (a : LanguageArgs) (t : Token) : Decidable (KeywordExact a t) :=
  inferInstanceAs (Decidable ((t.type = .keyword ↔ a.fold t.text ∈ a.keywords) ∧
    (a.fold t.text ∉ a.keywords → t.type = .plain)))

/-- Where the identifier alternative matches and no earlier one does, the lexer reports an
identifier. -/
theorem match?_of_isIdentifier {cfg : LangConfig} (hcfg : cfg.Lexable) {text : JsString} {i : ℕ}
    {w : JsString} (h : IsIdentifier cfg text i w) :
    ∃ n, (lexer cfg hcfg).match? (Cursor.ofIndex text i) = some (.identifier, n) := by
  obtain ⟨hfirst, hother⟩ := h
  rw [Lexeme.first_regex, Option.map_eq_some_iff] at hfirst
  obtain ⟨n, hlength, -⟩ := hfirst
  refine ⟨n, ?_⟩
  cases hm : (lexer cfg hcfg).match? (Cursor.ofIndex text i) with
  | none =>
    have hnone := List.findSome?_eq_none_iff.mp hm .identifier (mem_alternatives.mpr (by simp))
    rw [hlength] at hnone
    cases hnone
  | some m =>
    obtain ⟨k, n'⟩ := m
    obtain ⟨hk, hlength'⟩ := length?_of_match? hm
    by_cases hident : k = .identifier
    · subst hident
      rw [hlength] at hlength'
      cases hlength'
      rfl
    · have hnone := hother k hk hident
      rw [Lexeme.first_regex, hlength'] at hnone
      cases hnone

/-- An identifier is highlighted by what its name reads as in the set of keywords. -/
theorem type_of_isIdentifier {a : LanguageArgs} (hcfg : a.config.Lexable) {text : JsString}
    {i : ℕ} {t : Token} (ht : (i, t) ∈ located 0 (tokens a.config hcfg text))
    (hident : IsIdentifier a.config text i t.text) :
    t.type = if truthy (a.config.keywords.get (a.fold t.text)) then .keyword else .plain := by
  obtain ⟨⟨kind, start, w⟩, hseg, rfl, rfl⟩ := mem_located_tokens.mp ht
  obtain ⟨n, hm⟩ := match?_of_isIdentifier hcfg hident
  have hpos : 0 < w.length := List.length_pos_iff.mpr
    ((lexer a.config hcfg).text_ne_nil_of_mem_segments text _ hseg)
  cases kind with
  | none =>
    -- no token starts inside a gap
    rw [(lexer a.config hcfg).match?_eq_none_of_mem_segments hseg rfl le_rfl
      (Nat.lt_add_of_pos_right hpos)] at hm
    cases hm
  | some k =>
    obtain ⟨hm', hw⟩ := (lexer a.config hcfg).match?_of_mem_segments hseg
    rw [hm] at hm'
    cases hm'
    change w = (Cursor.ofIndex text start).rest.take w.length at hw
    have htype := classify_of_match?_identifier hm
    rw [← hw] at htype
    exact htype

/-- The look-up in the set of keywords finds the listed keywords and the inherited names. -/
theorem truthy_keywords_get {language word : JsString} {a : LanguageArgs}
    (h : argsFor language = some a) :
    truthy (a.config.keywords.get word) = true ↔ word ∈ a.keywords ∨ word ∈ objectPrototype := by
  rw [keywords_get h]
  by_cases hword : word ∈ a.keywords
  · simp [hword, truthy]
  · -- an inherited function is truthy
    by_cases hproto : word ∈ objectPrototype <;> simp [hword, hproto, truthy]

/-- An identifier is highlighted exactly, unless it is the name of a property that every
object inherits. -/
theorem keywordExact_iff {text language : JsString} {a : LanguageArgs}
    (ha : argsFor language = some a) {cache cache' : ScannerCache} (hcache : cache.Reachable)
    {ts : List Token} (hrun : tokenize text language cache = .ok (ts, cache')) {i : ℕ}
    {t : Token} (ht : (i, t) ∈ located 0 ts) (hident : IsIdentifier a.config text i t.text) :
    KeywordExact a t ↔ a.fold t.text ∉ objectPrototype := by
  obtain ⟨cache'', -, heq⟩ := tokenize_eq ha hcache text
  rw [heq] at hrun
  cases hrun
  have htype := type_of_isIdentifier (lexable_of_argsFor ha) ht hident
  have hlisted : a.fold t.text ∈ a.keywords → a.fold t.text ∉ objectPrototype :=
    not_mem_objectPrototype_of_mem_keywords ha
  rw [KeywordExact, htype]
  split
  next htruthy =>
    -- listed, or only inherited
    rcases (truthy_keywords_get ha).mp htruthy with hword | hproto
    · simp [hword, hlisted hword]
    · have hword : a.fold t.text ∉ a.keywords := fun h => hlisted h hproto
      simp [hword, hproto]
  next hfalsy =>
    obtain ⟨hword, hproto⟩ := not_or.mp fun h => hfalsy ((truthy_keywords_get ha).mpr h)
    simp [hword, hproto]

/-- The name of the constructor in TypeScript is highlighted as a keyword. -/
theorem exists_tokenize_constructor : ∃ cache',
    tokenize (js "constructor") (js "TypeScript") PlainObject.empty =
      .ok ([⟨.keyword, js "constructor"⟩], cache') := by
  have hrun : Prod.fst <$> tokenize (js "constructor") (js "TypeScript") PlainObject.empty =
      .ok [⟨.keyword, js "constructor"⟩] := by decide +kernel
  obtain ⟨⟨ts, cache'⟩, h, rfl⟩ := Result.map_eq_ok.mp hrun
  exact ⟨cache', h⟩

/-- `constructor` is no TypeScript keyword of the table. -/
theorem not_keywordExact_constructor : ∃ cache' ts t,
    argsFor (js "TypeScript") = some Language.typeScript ∧
      tokenize (js "constructor") (js "TypeScript") PlainObject.empty = .ok (ts, cache') ∧
      (0, t) ∈ located 0 ts ∧
      IsIdentifier Language.typeScript.config (js "constructor") 0 t.text ∧
      ¬KeywordExact Language.typeScript t := by
  obtain ⟨cache', h⟩ := exists_tokenize_constructor
  exact ⟨cache', _, ⟨.keyword, js "constructor"⟩, by decide +kernel, h, by decide,
    by decide +kernel, by decide +kernel⟩

/-- An identifier that every object inherits. -/
theorem keywordExact_iff_constructor :
    KeywordExact Language.typeScript ⟨.keyword, js "constructor"⟩ ↔
      Language.typeScript.fold (js "constructor") ∉ objectPrototype := by
  obtain ⟨cache', h⟩ := exists_tokenize_constructor
  exact keywordExact_iff (i := 0) (by decide +kernel) .empty h (by decide) (by decide +kernel)

end SyntaxHighlight
