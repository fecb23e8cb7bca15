import HackerTyper.Foundations.Matching
import HackerTyper.SyntaxHighlight.Placement

/-!
# What the tokens match

The tokenizer in terms of what the pieces of its pattern mean, apart from how a matcher goes
about them: a coloured token is a match of a piece, no earlier piece matches there, and no piece
matches anywhere in a gap.

## Main results

* `matches_of_mem_located`: the tokens of a configuration;
* `tokenize_matches`: the tokens of a language.
-/

namespace SyntaxHighlight

open Js

/-- The token `t` at offset `i` is a match of an alternative whose type it has, and no earlier
alternative matches there. -/
def IsFirstMatch (cfg : LangConfig) (text : JsString) (i : ℕ) (t : Token) : Prop :=
  ∃ before a after, alternatives cfg = before ++ a :: after ∧ t.type.Agrees a ∧
    a.regex.Matches (Cursor.ofIndex text i) (Cursor.ofIndex text (i + t.text.length)) ∧
    ∀ b ∈ before, ∀ e, ¬b.regex.Matches (Cursor.ofIndex text i) e

/-- The token `t` at offset `i` is plain, and no alternative matches from any place in it to any
other. -/
def IsUnmatched (cfg : LangConfig) (text : JsString) (i : ℕ) (t : Token) : Prop :=
  t.type = .plain ∧ ∀ j, i ≤ j → j < i + t.text.length →
    ∀ a ∈ alternatives cfg, ∀ e, ¬a.regex.Matches (Cursor.ofIndex text j) e

/-- Every token is the first match where it starts, or unmatched. -/
theorem matches_of_mem_located {cfg : LangConfig} {hcfg : cfg.Lexable} {text : JsString} {i : ℕ}
    {t : Token} (ht : (i, t) ∈ located 0 (tokens cfg hcfg text)) :
    IsFirstMatch cfg text i t ∨ IsUnmatched cfg text i t := by
  obtain ⟨-, -, ⟨k, hm, -, hagrees⟩ | ⟨hplain, hgap⟩⟩ := token_cases ht
  · left
    -- the alternative that produced the match is the first the matcher does not fail for
    obtain ⟨before, after, hsplit, hfirst, hbefore⟩ :=
      producedBy_of_match? (m := ⟨i, t.text⟩) hm
    exact ⟨before, k, after, hsplit, hagrees, Regex.matches_of_first hfirst,
      fun b hb => Regex.first_eq_none_iff.mp (hbefore b hb)⟩
  · right
    refine ⟨hplain, fun j hj hlt a ha => ?_⟩
    have hnone := (match?_eq_none_iff hcfg).mp (hgap j hj hlt)
    exact Regex.first_eq_none_iff.mp (hnone a ha)

/-- For every language with a configuration and every text, every token is a match of an
alternative before which none matches where it starts, with the type of that alternative, or it
is plain and no alternative matches anywhere in it. -/
theorem tokenize_matches {language : JsString} {a : LanguageArgs}
    (ha : argsFor language = some a) (text : JsString) {cache : ScannerCache}
    (hcache : cache.Reachable) :
    ∃ ts cache', tokenize text language cache = .ok (ts, cache') ∧
      ∀ i t, (i, t) ∈ located 0 ts →
        IsFirstMatch a.config text i t ∨ IsUnmatched a.config text i t := by
  obtain ⟨cache', -, hrun⟩ := tokenize_eq ha hcache text
  exact ⟨_, cache', hrun, fun i t ht => matches_of_mem_located ht⟩

/-- A string in Rust that meets an escape that fails. -/
theorem tokenize_matches_rust : ∃ ts cache',
    tokenize (js "let s = \"\\\n\";") (js "Rust") PlainObject.empty = .ok (ts, cache') ∧
      ∀ i t, (i, t) ∈ located 0 ts →
        IsFirstMatch Language.rust.config (js "let s = \"\\\n\";") i t ∨
          IsUnmatched Language.rust.config (js "let s = \"\\\n\";") i t :=
  tokenize_matches (by decide +kernel) _ .empty

end SyntaxHighlight
