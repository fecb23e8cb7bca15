import HackerTyper.Foundations.Extent
import HackerTyper.SyntaxHighlight.Placement
import HackerTyper.SyntaxHighlight.Stability

/-!
# String literals

A string literal runs from its delimiter through the next one that no backslash escapes, or to
the end of the text. The scanner reads an escape as a backslash and what `.` matches, so it
finds the literal unless a backslash in it stands in front of a line terminator or last in the
text; then the delimiter is no token at all.

## Main definitions

* `Escaped`: a character that a backslash in front of it consumes;
* `LiteralEnds`: where a string literal that starts at an offset ends;
* `Intact`: every escape of a part of the text is one that the scanner reads.

## Main results

* `stringEnd_eq_some_iff`: how far the scanner reads a string;
* `tokenize_strings`: which string literals of a text are string tokens.
-/

namespace SyntaxHighlight

open Js

/-- The character at offset `j` is the second one of an escape, as an odd number of backslashes
stands directly in front of it. -/
def Escaped (text : JsString) (j : ℕ) : Prop := ¬Even (trailingBackslashes (text.take j))

/-- A delimiter `q` at offset `j` closes a string. -/
def Closes (q : CodeUnit) (text : JsString) (j : ℕ) : Prop :=
  text[j]? = some q ∧ ¬Escaped text j

/-- The string literal whose opening delimiter `q` is at offset `i` ends at `e`: behind the
first later delimiter that is not escaped, or at the end of the text. -/
def LiteralEnds (q : CodeUnit) (text : JsString) (i e : ℕ) : Prop :=
  EndsAt (Closes q text) 1 text.length (i + 1) e

/-- From offset `k` to offset `e` no line terminator is escaped, and neither is what comes
behind: no escape is left open. -/
def Intact (text : JsString) (k e : ℕ) : Prop :=
  (∀ j x, k ≤ j → j < e → text[j]? = some x → isLineTerminator x → ¬Escaped text j) ∧
    ¬Escaped text e

/-! ## Escapes -/

/-- What follows a character is escaped if the character is a backslash that is not. -/
theorem escaped_succ {text : JsString} {j : ℕ} {x : CodeUnit} (h : text[j]? = some x) :
    Escaped text (j + 1) ↔ x = unit '\\' ∧ ¬Escaped text j := by
  unfold Escaped trailingBackslashes
  rw [List.take_add_one, h, Option.toList_some, List.reverse_append, List.reverse_singleton,
    List.singleton_append]
  by_cases hx : x = unit '\\'
  · simp [hx, Nat.even_add_one]
  · simp [hx]

/-- At an offset where no line terminator is escaped, nothing has to be checked. -/
theorem intact_succ {text : JsString} {k e : ℕ}
    (h : ∀ x, text[k]? = some x → isLineTerminator x → ¬Escaped text k) :
    Intact text k e ↔ Intact text (k + 1) e := by
  refine and_congr_left fun _ => ⟨fun hall j x hj => hall j x (by omega), fun hall j x hj => ?_⟩
  rcases Nat.eq_or_lt_of_le hj with rfl | hlt
  · exact fun _ hx hterm => h x hx hterm
  · exact hall j x hlt

/-! ## How far a string reaches -/

/-- Where the delimiter does not stand, it closes no string. -/
theorem not_closes {q x : CodeUnit} {text xs : JsString} {k : ℕ} (hs : text.drop k = x :: xs)
    (hpre : ¬[q] <+: x :: xs) : ¬Closes q text k := by
  rintro ⟨hq, -⟩
  rw [getElem?_of_drop_eq_cons hs] at hq
  cases hq
  exact hpre (List.prefix_append [q] xs)

theorem not_closes_of_length_le {q : CodeUnit} {text : JsString} {k : ℕ}
    (h : text.length ≤ k) : ¬Closes q text k := by
  rintro ⟨hq, -⟩
  exact absurd (List.getElem?_eq_some_iff.mp hq).1 (Nat.not_lt.mpr h)

/-- Where the rest of a string is read from offset `k + w` to its end, the whole of it is read
from offset `k`. -/
theorem map_add_eq_some_iff {r : Option ℕ} {p : Prop} {k w e : ℕ}
    (h : ∀ m, r = some m ↔ p ∧ e = k + w + m) (hle : k + w ≤ e) (n : ℕ) :
    r.map (· + w) = some n ↔ p ∧ e = k + n := by
  rw [Option.map_eq_some_iff]
  constructor
  · rintro ⟨m, hm, rfl⟩
    obtain ⟨hp, rfl⟩ := (h m).mp hm
    exact ⟨hp, by omega⟩
  · rintro ⟨hp, he⟩
    refine ⟨n - w, (h _).mpr ⟨hp, ?_⟩, ?_⟩ <;> omega

/-- The scanner reads a string to its end if all of its escapes can be read. -/
theorem stringEnd_eq_some_iff {q : CodeUnit} (hq : q ≠ unit '\\') {text : JsString} {k e : ℕ}
    (hk : k ≤ text.length) (hesc : ¬Escaped text k)
    (hend : EndsAt (Closes q text) 1 text.length k e) (n : ℕ) :
    stringEnd [q] (text.drop k) = some n ↔ Intact text k e ∧ e = k + n := by
  generalize hs : text.drop k = s
  induction s using stringEnd.induct [q] generalizing k n with
  | case1 =>
    -- the text ends here, and with it the string
    have hlen : k = text.length := le_antisymm hk (List.drop_eq_nil_iff.mp hs)
    have he : e = text.length := hend.unique <| endsAt_of_forall_not fun j hj =>
      not_closes_of_length_le (hlen ▸ hj)
    have hintact : Intact text k e :=
      ⟨fun j x hj hje => absurd hje (by omega), by rwa [he, ← hlen]⟩
    rw [stringEnd, Option.some_inj, and_iff_right hintact]
    omega
  | case2 x xs hd =>
    have hx := getElem?_of_drop_eq_cons hs
    obtain rfl : q = x := by
      obtain ⟨u, hu⟩ := hd
      cases hu
      rfl
    have he : e = k + 1 := hend.unique (endsAt_here ⟨hx, hesc⟩)
    have hintact : Intact text k e := by
      rw [he, intact_succ fun _ _ _ => hesc]
      exact ⟨fun j x hj hje => absurd hje (by omega), fun h => hq ((escaped_succ hx).mp h).1⟩
    rw [stringEnd_closer hd, Option.some_inj, and_iff_right hintact, List.length_singleton]
    omega
  | case3 hd =>
    -- a backslash at the end of the text escapes what would come next
    have hlen : text.length = k + 1 := le_antisymm
      (List.drop_eq_nil_iff.mp (drop_succ_of_drop_eq_cons hs)) (lt_length_of_drop_eq_cons hs)
    have he : e = text.length := by
      rw [endsAt_succ (not_closes hs hd)] at hend
      exact hend.unique (endsAt_of_forall_not fun j hj => not_closes_of_length_le (hlen ▸ hj))
    have hopen : Escaped text e := by
      rw [he, hlen]
      exact (escaped_succ (getElem?_of_drop_eq_cons hs)).mpr ⟨rfl, hesc⟩
    simp [stringEnd, hd, Intact, hopen]
  | case4 y ys hy hd =>
    -- an escaped line terminator
    have hrest := drop_succ_of_drop_eq_cons hs
    have hesc' := (escaped_succ (getElem?_of_drop_eq_cons hs)).mpr ⟨rfl, hesc⟩
    rw [endsAt_succ (not_closes hs hd), endsAt_succ fun h => h.2 hesc'] at hend
    have hle := hend.le (lt_length_of_drop_eq_cons hrest)
    have hbroken : ¬Intact text k e := fun h =>
      h.1 (k + 1) y (Nat.le_succ k) hle (getElem?_of_drop_eq_cons hrest) hy hesc'
    simp [stringEnd, hd, hy, hbroken]
  | case5 y ys hy hd ih =>
    -- the string goes on behind the escape
    have hrest := drop_succ_of_drop_eq_cons hs
    have hy' := getElem?_of_drop_eq_cons hrest
    have hesc' := (escaped_succ (getElem?_of_drop_eq_cons hs)).mpr ⟨rfl, hesc⟩
    have hterm : ∀ x, text[k + 1]? = some x → isLineTerminator x → ¬Escaped text (k + 1) := by
      intro x hx hterm
      rw [hy'] at hx
      cases hx
      exact absurd hterm hy
    rw [endsAt_succ (not_closes hs hd), endsAt_succ fun h => h.2 hesc'] at hend
    have hlt := lt_length_of_drop_eq_cons hrest
    have hih := fun m => ih hlt (fun h => ((escaped_succ hy').mp h).2 hesc') hend m
      (drop_succ_of_drop_eq_cons hrest)
    rw [intact_succ fun _ _ _ => hesc, intact_succ hterm, stringEnd_escape hd hy]
    exact map_add_eq_some_iff (k := k) (w := 2) hih (hend.le hlt) n
  | case6 x xs hd hx ih =>
    -- the string goes on with the next character
    have hesc' : ¬Escaped text (k + 1) := fun h =>
      hx ((escaped_succ (getElem?_of_drop_eq_cons hs)).mp h).1
    rw [endsAt_succ (not_closes hs hd)] at hend
    have hlt := lt_length_of_drop_eq_cons hs
    have hih := fun m => ih hlt hesc' hend m (drop_succ_of_drop_eq_cons hs)
    rw [intact_succ fun _ _ _ => hesc, stringEnd_plain hd hx]
    exact map_add_eq_some_iff hih (hend.le hlt) n

/-! ## The strings of a text -/

/-- Where a delimiter stands, only the alternative of its strings can match. -/
theorem eq_string_of_match? {cfg : LangConfig} {hcfg : cfg.Lexable} (hsep : cfg.Separated)
    {text : JsString} {i : ℕ} {q : CodeUnit} (hq : [q] ∈ cfg.stringChars)
    (htext : text[i]? = some q) {k : Lexeme} {n : ℕ}
    (hm : (lexer cfg hcfg).match? (Cursor.ofIndex text i) = some (k, n)) : k = .string [q] := by
  obtain ⟨x, hx, hbegins⟩ := begins_of_match? hsep hm
  rw [head?_rest_ofIndex, htext] at hx
  cases hx
  have hword : isWord q = false := (hcfg.string _ hq).2 q (List.mem_singleton_self q)
  cases k with
  | blockComment opener closer => exact absurd hq hbegins.2
  | lineComment opener => exact absurd hq hbegins.2
  | string d => rw [hbegins.2]
  | number =>
    rw [isWord_of_isDigit hbegins] at hword
    cases hword
  | identifier =>
    rw [isWord_of_isIdentifierStart hbegins] at hword
    cases hword

/-- What the lexer reports where a delimiter stands. -/
theorem match?_of_delimiter {cfg : LangConfig} (hcfg : cfg.Lexable) (hsep : cfg.Separated)
    {text : JsString} {i : ℕ} {q : CodeUnit} (hq : [q] ∈ cfg.stringChars)
    (htext : text[i]? = some q) :
    (lexer cfg hcfg).match? (Cursor.ofIndex text i) =
      (stringEnd [q] (text.drop (i + 1))).map fun n => (.string [q], 1 + n) := by
  have hlength : (Lexeme.string [q]).length? (Cursor.ofIndex text i) =
      (stringEnd [q] (text.drop (i + 1))).map (1 + ·) := by
    have hpre : [q] <+: text.drop i := by
      rw [← List.head?_drop, List.head?_eq_some_iff] at htext
      obtain ⟨xs, hs⟩ := htext
      exact ⟨xs, hs.symm⟩
    rw [Lexeme.length?, Cursor.rest_ofIndex, if_pos hpre, List.length_singleton, List.drop_drop]
  cases hm : (lexer cfg hcfg).match? (Cursor.ofIndex text i) with
  | none =>
    have hnone := List.findSome?_eq_none_iff.mp hm (.string [q])
      (mem_alternatives.mpr (Or.inr (Or.inr (Or.inl ⟨[q], hq, rfl⟩))))
    rw [hlength, Option.map_map, Option.map_eq_none_iff] at hnone
    rw [hnone, Option.map_none]
  | some m =>
    obtain ⟨k, n⟩ := m
    obtain rfl := eq_string_of_match? hsep hq htext hm
    have hsome := (length?_of_match? hm).2
    rw [hlength, Option.map_eq_some_iff] at hsome
    obtain ⟨m, hstring, rfl⟩ := hsome
    rw [hstring, Option.map_some]

/-- For every text, every language with a configuration and every offset with a delimiter that
lies inside no earlier comment or string: there is a string token of the literal's extent
exactly if every escape in the literal is one that the scanner reads. -/
theorem tokenize_strings {language : JsString} {a : LanguageArgs}
    (ha : argsFor language = some a) (text : JsString) {cache : ScannerCache}
    (hcache : cache.Reachable) :
    ∃ ts cache', tokenize text language cache = .ok (ts, cache') ∧
      ∀ i q, [q] ∈ a.config.stringChars → text[i]? = some q → ¬Covered ts i →
        ((∃ e, LiteralEnds q text i e ∧ (i, ⟨.string, slice text i e⟩) ∈ located 0 ts) ↔
          ∃ e, LiteralEnds q text i e ∧ Intact text (i + 1) e) := by
  have hcfg := lexable_of_argsFor ha
  have hsep := separated_of_argsFor ha
  obtain ⟨cache', -, hrun⟩ := tokenize_eq ha hcache text
  refine ⟨_, cache', hrun, fun i q hq htext hcovered => ?_⟩
  have hbackslash : q ≠ unit '\\' := by
    rintro rfl
    exact (compact_of_argsFor ha).string _ hq (List.mem_singleton_self _)
  have hlt : i < text.length := (List.getElem?_eq_some_iff.mp htext).1
  have hesc : ¬Escaped text (i + 1) := fun h => hbackslash ((escaped_succ htext).mp h).1
  have hmatch := match?_of_delimiter hcfg hsep hq htext
  -- the literal has one end
  obtain ⟨e, hend⟩ := exists_endsAt (Closes q text) 1 text.length (i + 1)
  have hends : ∀ e', LiteralEnds q text i e' ↔ e' = e := fun e' =>
    ⟨fun h => EndsAt.unique h hend, fun h => h ▸ hend⟩
  simp only [hends, exists_eq_left]
  constructor
  · intro ht
    -- the delimiter is matched, so the string is read to its end
    obtain ⟨-, -, ⟨k, hm, -⟩ | ⟨hplain, -⟩⟩ := token_cases ht
    · rw [hmatch, Option.map_eq_some_iff] at hm
      obtain ⟨n, hstring, -⟩ := hm
      exact ((stringEnd_eq_some_iff hbackslash hlt hesc hend n).mp hstring).1
    · cases hplain
  · intro hintact
    have hle : i + 1 ≤ e := hend.le hlt
    obtain ⟨n, rfl⟩ := Nat.exists_eq_add_of_le hle
    have hstring := (stringEnd_eq_some_iff hbackslash hlt hesc hend n).mpr ⟨hintact, rfl⟩
    rw [hstring, Option.map_some] at hmatch
    rw [Nat.add_assoc]
    exact mem_located_of_match? hsep hmatch rfl (by simp) hcovered

/-- A literal with a line break behind a backslash: its delimiter is no token. -/
theorem exists_tokenize_continuation : ∃ cache',
    tokenize (js "\"\\\n\"") (js "C") PlainObject.empty =
      .ok ([⟨.plain, js "\"\\\n"⟩, ⟨.string, js "\""⟩], cache') := by
  have hrun : Prod.fst <$> tokenize (js "\"\\\n\"") (js "C") PlainObject.empty =
      .ok [⟨.plain, js "\"\\\n"⟩, ⟨.string, js "\""⟩] := by decide +kernel
  obtain ⟨⟨ts, cache'⟩, h, rfl⟩ := Result.map_eq_ok.mp hrun
  exact ⟨cache', h⟩

/-- The literal with a line break behind a backslash is not one string token. -/
theorem not_mem_located_continuation : ∃ ts cache',
    argsFor (js "C") = some Language.c ∧
      tokenize (js "\"\\\n\"") (js "C") PlainObject.empty = .ok (ts, cache') ∧
      [unit '"'] ∈ Language.c.config.stringChars ∧
      (js "\"\\\n\"")[0]? = some (unit '"') ∧ ¬Covered ts 0 ∧
      ¬∃ e, LiteralEnds (unit '"') (js "\"\\\n\"") 0 e ∧
        (0, ⟨.string, slice (js "\"\\\n\"") 0 e⟩) ∈ located 0 ts := by
  obtain ⟨cache', h⟩ := exists_tokenize_continuation
  refine ⟨_, cache', by decide +kernel, h, by decide +kernel, rfl, by decide, ?_⟩
  -- no string token starts there, of whatever extent
  have hnone : ∀ p ∈ located 0 [Token.mk .plain (js "\"\\\n"), ⟨.string, js "\""⟩],
      p.2.type = .string → p.1 ≠ 0 := by decide
  rintro ⟨e, -, hmem⟩
  exact hnone _ hmem rfl rfl

/-- A string that ends in an escaped delimiter. -/
theorem tokenize_strings_escape :
    ∃ ts cache', tokenize (js "\"a\\\"") (js "C") PlainObject.empty = .ok (ts, cache') ∧
      ∀ i q, [q] ∈ Language.c.config.stringChars → (js "\"a\\\"")[i]? = some q →
        ¬Covered ts i →
        ((∃ e, LiteralEnds q (js "\"a\\\"") i e ∧
            (i, ⟨.string, slice (js "\"a\\\"") i e⟩) ∈ located 0 ts) ↔
          ∃ e, LiteralEnds q (js "\"a\\\"") i e ∧ Intact (js "\"a\\\"") (i + 1) e) :=
  tokenize_strings (by decide +kernel) _ .empty

end SyntaxHighlight
