import HackerTyper.SyntaxHighlight.Keywords
import HackerTyper.SyntaxHighlight.Placement

/-!
# Numbers and identifiers

Numbers stand alone, identifiers run to the end of a word, and nothing that looks like the one
or the other is left between the matches: the scanner skips digits only where a name follows
them without a break.

## Main definitions

* `unitBefore`: the character in front of an offset;
* `IsGap`: an offset at which no alternative of the scanner matches;
* `IsMaximalRun`: a run that cannot be extended;
* `WordsWhole`: a token cuts no number or identifier, and misses none.

## Main results

* `isDigit_eq_false_of_unitBefore`: no token starts between two digits;
* `tokenize_words`: the tokens of every text are whole.
-/

namespace SyntaxHighlight

open Js

/-- The character in front of an offset. -/
def unitBefore (text : JsString) : ℕ → Option CodeUnit
  | 0 => none
  | j + 1 => text[j]?

/-- No alternative of the scanner matches at offset `i`. -/
def IsGap (cfg : LangConfig) (text : JsString) (i : ℕ) : Prop :=
  ∀ a ∈ alternatives cfg, a.regex.first (Cursor.ofIndex text i) = none

/-- The part `d` of `u ++ d ++ v` is a maximal run of characters of a class. -/
structure IsMaximalRun (p : CodeUnit → Bool) (u d v : JsString) : Prop where
  /-- It is not empty. -/
  ne_nil : d ≠ []
  /-- Its characters are of the class. -/
  all : ∀ x ∈ d, p x
  /-- The character in front of it is not. -/
  before : ∀ x ∈ u.getLast?, p x = false
  /-- The character behind it is not. -/
  after : ∀ x ∈ v.head?, p x = false

/-- The token `t` at offset `i` of a text cuts no number or identifier, and misses none. -/
structure WordsWhole (cfg : LangConfig) (text : JsString) (i : ℕ) (t : Token) : Prop where
  /-- A number is digits, optionally with a point and digits behind it, and no character of
  `[A-Za-z0-9_]` touches it. -/
  number : t.type = .number → IsNumeral t.text ∧ (∀ x ∈ unitBefore text i, isWord x = false) ∧
    ∀ x ∈ text[i + t.text.length]?, isWord x = false
  /-- No character of `[A-Za-z_]` is in front of an identifier, and none of `[A-Za-z0-9_]`
  behind it. -/
  identifier : IsIdentifier cfg text i t.text →
    (∀ x ∈ unitBefore text i, isIdentifierStart x = false) ∧
      ∀ x ∈ text[i + t.text.length]?, isWord x = false
  /-- A gap has no character of `[A-Za-z_]`, and one of them follows every maximal run of
  digits in it. -/
  gap : IsGap cfg text i → (∀ x ∈ t.text, isIdentifierStart x = false) ∧
    ∀ u d v, t.text = u ++ d ++ v → IsMaximalRun isDigit u d v →
      ∃ x, text[i + u.length + d.length]? = some x ∧ isIdentifierStart x

/-! ## What is around an offset -/

theorem head?_before_ofIndex {text : JsString} {i : ℕ} (h : i ≤ text.length) :
    (Cursor.ofIndex text i).before.head? = unitBefore text i := by
  cases i with
  | zero => rfl
  | succ j =>
    rw [Cursor.ofIndex, List.head?_reverse, List.getLast?_take, if_neg (Nat.succ_ne_zero j),
      Nat.add_sub_cancel, unitBefore, List.getElem?_eq_getElem h, Option.some_or]

/-- No word goes on where no word character stands. -/
theorem wordAhead_drop_iff {text : JsString} {i : ℕ} :
    wordAhead (text.drop i) = false ↔ ∀ x ∈ text[i]?, isWord x = false := by
  rw [wordAhead, List.head?_drop]
  cases text[i]? <;> simp

theorem isIdentifierStart_of_isWord {x : CodeUnit} (h : isWord x) (hdigit : isDigit x = false) :
    isIdentifierStart x := by
  simpa [isWord, isIdentifierStart, hdigit] using h

/-- A match ends at the end of a word, or where none is. -/
theorem not_isWord_at_stop {cfg : LangConfig} {hcfg : cfg.Lexable} (hsep : cfg.Separated)
    {text : JsString} {j n : ℕ} {k : Lexeme} (hle : j + n ≤ text.length)
    (hm : (lexer cfg hcfg).match? (Cursor.ofIndex text j) = some (k, n)) :
    (∀ x ∈ unitBefore text (j + n), isWord x = false) ∨
      ∀ x ∈ text[j + n]?, isWord x = false := by
  have hends := not_isWord_of_match? hsep hm
  rw [Cursor.advance_ofIndex, head?_before_ofIndex hle, Cursor.rest_ofIndex,
    List.drop_drop] at hends
  refine hends.imp (fun h x hx => ?_) wordAhead_drop_iff.mp
  rw [Option.mem_def.mp hx] at h
  exact h

/-- An identifier is matched wherever one can start. -/
theorem isIdentifierStart_of_gap {cfg : LangConfig} {hcfg : cfg.Lexable} {text : JsString}
    {j : ℕ} (hm : (lexer cfg hcfg).match? (Cursor.ofIndex text j) = none) {x : CodeUnit}
    (hx : text[j]? = some x) : isIdentifierStart x = false := by
  have hnone := List.findSome?_eq_none_iff.mp hm .identifier (mem_alternatives.mpr (by simp))
  rw [Option.map_eq_none_iff, Lexeme.length?] at hnone
  rw [← head?_rest_ofIndex, List.head?_eq_some_iff] at hx
  obtain ⟨xs, hrest⟩ := hx
  rw [hrest, identifierLength] at hnone
  by_contra hstart
  rw [if_pos (Bool.not_eq_false _ ▸ hstart)] at hnone
  cases hnone

/-! ## What is around a token -/

/-- No token starts between two digits. -/
theorem isDigit_eq_false_of_unitBefore {cfg : LangConfig} {hcfg : cfg.Lexable}
    (hsep : cfg.Separated) {text : JsString} {i : ℕ} {t : Token}
    (ht : (i, t) ∈ located 0 (tokens cfg hcfg text)) {x y : CodeUnit}
    (hx : unitBefore text i = some x) (hdigit : isDigit x) (hy : text[i]? = some y) :
    isDigit y = false := by
  by_contra hy'
  have hdigit' : isDigit y := Bool.not_eq_false _ ▸ hy'
  have hle := add_length_le_of_mem_located ht
  have hword := isWord_of_isDigit hdigit
  obtain ⟨-, -, ⟨k, hm, -⟩ | ⟨-, hgap⟩⟩ := token_cases ht
  · -- the token would be a number, which no word character touches
    obtain ⟨y', hhead, hbegins⟩ := begins_of_match? hsep hm
    rw [head?_rest_ofIndex, hy] at hhead
    cases hhead
    have hunit : isNameUnit y = true := by simp [isNameUnit, isWord_of_isDigit hdigit']
    by_cases hk : k = .number ∨ k = .identifier
    · rcases hk with rfl | rfl
      · have hbefore := (numberLength_cases (length?_of_match? hm).2).1
        rw [head?_before_ofIndex (by omega), hx, Option.any_some, hword] at hbefore
        cases hbefore
      · exact not_isDigit_of_isIdentifierStart hbegins hdigit'
    · rw [hbegins.isNameUnit hk] at hunit
      cases hunit
  · -- what stops in front of a gap does not stop inside a word
    have hpos := List.length_pos_iff.mpr (token_cases ht).1
    have hi : i ≠ 0 := by
      rintro rfl
      cases hx
    obtain ⟨j, k, n, hm, rfl⟩ := exists_match_before ht (hgap i le_rfl (by omega)) hi
    rcases not_isWord_at_stop hsep (by omega) hm with h | h
    · rw [h x hx] at hword
      cases hword
    · have hy'' := h y hy
      rw [isWord_of_isDigit hdigit'] at hy''
      cases hy''

/-- No character of `[A-Za-z_]` is in front of a token that begins with one. -/
theorem isIdentifierStart_eq_false_of_unitBefore {cfg : LangConfig} {hcfg : cfg.Lexable}
    (hsep : cfg.Separated) {text : JsString} {i : ℕ} {t : Token}
    (ht : (i, t) ∈ located 0 (tokens cfg hcfg text)) {x y : CodeUnit}
    (hx : unitBefore text i = some x) (hy : text[i]? = some y) (hstart : isIdentifierStart y) :
    isIdentifierStart x = false := by
  by_contra hx'
  have hstart' : isIdentifierStart x := Bool.not_eq_false _ ▸ hx'
  have hle := add_length_le_of_mem_located ht
  have hi : i ≠ 0 := by
    rintro rfl
    cases hx
  obtain ⟨j, u, hu, rfl⟩ := exists_token_before ht hi
  have hpos := List.length_pos_iff.mpr (token_cases hu).1
  obtain ⟨-, -, ⟨k, hm, -⟩ | ⟨-, hgap⟩⟩ := token_cases hu
  · -- a match does not stop inside a word
    rcases not_isWord_at_stop hsep (by omega) hm with h | h
    · have hword := h x hx
      rw [isWord_of_isIdentifierStart hstart'] at hword
      cases hword
    · have hword := h y hy
      rw [isWord_of_isIdentifierStart hstart] at hword
      cases hword
  · -- and an identifier would start in the gap
    obtain ⟨m, hlast⟩ : ∃ m, j + u.text.length = m + 1 := ⟨j + u.text.length - 1, by omega⟩
    rw [hlast, unitBefore] at hx
    have hnone := isIdentifierStart_of_gap (hgap m (by omega) (by omega)) hx
    rw [hstart'] at hnone
    cases hnone

/-! ## Digits in gaps -/

/-- Where digits begin that are no number, a word character touches them. -/
theorem isWord_of_gap {cfg : LangConfig} {hcfg : cfg.Lexable} {text : JsString} {j : ℕ}
    (hle : j ≤ text.length)
    (hm : (lexer cfg hcfg).match? (Cursor.ofIndex text j) = none)
    (hdigits : digitRun (text.drop j) ≠ 0)
    (hbefore : ∀ x ∈ unitBefore text j, isWord x = false) :
    ∃ x, text[j + digitRun (text.drop j)]? = some x ∧ isWord x := by
  have hnone := List.findSome?_eq_none_iff.mp hm .number (mem_alternatives.mpr (by simp))
  have hboundary : ¬(unitBefore text j).any isWord = true := by
    intro h
    obtain ⟨x, hx, hword⟩ := (Option.any_eq_true _ _).mp h
    rw [hbefore x hx] at hword
    cases hword
  rw [Option.map_eq_none_iff, Lexeme.length?, numberLength, head?_before_ofIndex hle,
    Cursor.rest_ofIndex] at hnone
  by_contra hword
  have hahead : wordAhead (text.drop (j + digitRun (text.drop j))) = false :=
    wordAhead_drop_iff.mpr fun x hx => Bool.not_eq_true _ ▸ fun h => hword ⟨x, hx, h⟩
  simp [hboundary, hdigits, hahead] at hnone

/-- The character in front of the end of a part. -/
theorem unitBefore_add_length {w text : JsString} {i : ℕ} (hw : w ≠ [])
    (h : w <+: text.drop i) : unitBefore text (i + w.length) = w.getLast? := by
  obtain ⟨v, x, rfl⟩ := List.eq_nil_or_concat w |>.resolve_left hw
  obtain ⟨u, hu⟩ := h
  rw [List.concat_eq_append, List.length_append, List.length_singleton, ← Nat.add_assoc,
    unitBefore, ← List.getElem?_drop, ← hu]
  simp

/-- The character behind a part. -/
theorem getElem?_add_length {w v text : JsString} {i : ℕ} (hv : v ≠ [])
    (h : w ++ v <+: text.drop i) : text[i + w.length]? = v.head? := by
  obtain ⟨x, xs, rfl⟩ := List.exists_cons_of_ne_nil hv
  obtain ⟨u, hu⟩ := h
  rw [← List.getElem?_drop, ← hu]
  simp

theorem digitRun_append_of_all {d s : JsString} (hd : ∀ x ∈ d, isDigit x)
    (hs : ∀ x ∈ s.head?, isDigit x = false) : digitRun (d ++ s) = d.length := by
  have hnil : s.takeWhile isDigit = [] := by
    cases s with
    | nil => rfl
    | cons x xs => exact List.takeWhile_cons_of_neg (by simp [hs x rfl])
  rw [digitRun, List.takeWhile_append_of_pos hd, hnil, List.append_nil]

section Gap

variable {cfg : LangConfig} {hcfg : cfg.Lexable} {text : JsString} {i : ℕ} {t : Token}

/-- A gap has no character of `[A-Za-z_]`. -/
theorem isIdentifierStart_of_mem_gap (ht : (i, t) ∈ located 0 (tokens cfg hcfg text))
    (hgap : ∀ j, i ≤ j → j < i + t.text.length →
      (lexer cfg hcfg).match? (Cursor.ofIndex text j) = none) :
    ∀ x ∈ t.text, isIdentifierStart x = false := by
  intro x hx
  obtain ⟨m, hm, hget⟩ := List.mem_iff_getElem.mp hx
  refine isIdentifierStart_of_gap (hgap (i + m) (Nat.le_add_right i m) (by omega)) ?_
  rw [← List.getElem?_drop, ← hget, ← List.getElem?_eq_getElem hm, (token_cases ht).2.1,
    List.getElem?_take, if_pos hm]

variable {u d v : JsString}

/-- No word character is in front of a maximal run of digits in a gap. -/
theorem isWord_eq_false_before_digits (hsep : cfg.Separated)
    (ht : (i, t) ∈ located 0 (tokens cfg hcfg text))
    (hgap : ∀ j, i ≤ j → j < i + t.text.length →
      (lexer cfg hcfg).match? (Cursor.ofIndex text j) = none)
    (hsplit : t.text = u ++ d ++ v) (hrun : IsMaximalRun isDigit u d v) :
    ∀ x ∈ unitBefore text (i + u.length), isWord x = false := by
  have hle := add_length_le_of_mem_located ht
  have hpos := List.length_pos_iff.mpr (token_cases ht).1
  have hpre := prefix_drop_of_mem_located ht
  rw [hsplit, List.append_assoc] at hpre
  intro x hx
  by_cases hu : u = []
  · -- what stops in front of the gap does not stop inside a word
    subst hu
    have hi : i ≠ 0 := by
      rintro rfl
      cases hx
    obtain ⟨j, k, n, hm, rfl⟩ := exists_match_before ht (hgap i le_rfl (by omega)) hi
    refine (not_isWord_at_stop hsep (by omega) hm).elim (fun h => h x hx) fun h => ?_
    obtain ⟨y, ys, rfl⟩ := List.exists_cons_of_ne_nil hrun.ne_nil
    have hword := h y (getElem?_add_length (List.cons_ne_nil y (ys ++ v)) hpre)
    rw [isWord_of_isDigit (hrun.all y List.mem_cons_self)] at hword
    cases hword
  · -- a digit would belong to the run
    rw [unitBefore_add_length hu ((List.prefix_append u _).trans hpre)] at hx
    have hmem : x ∈ t.text := by
      rw [hsplit, List.append_assoc]
      exact List.mem_append_left _ (List.mem_of_getLast? hx)
    have hstart := isIdentifierStart_of_mem_gap ht hgap x hmem
    by_contra hword
    rw [isIdentifierStart_of_isWord (Bool.not_eq_false _ ▸ hword) (hrun.before x hx)] at hstart
    cases hstart

/-- No digit is behind a maximal run of digits in a token. -/
theorem isDigit_eq_false_after_digits (hsep : cfg.Separated)
    (ht : (i, t) ∈ located 0 (tokens cfg hcfg text)) (hsplit : t.text = u ++ d ++ v)
    (hrun : IsMaximalRun isDigit u d v) :
    ∀ x ∈ text[i + (u ++ d).length]?, isDigit x = false := by
  have hpre := prefix_drop_of_mem_located ht
  rw [hsplit] at hpre
  intro x hx
  by_cases hv : v = []
  · -- the run ends with the token, and the next one does not start with a digit
    subst hv
    rw [List.append_nil] at hsplit
    rw [← hsplit] at hx
    obtain ⟨next, hnext⟩ := exists_token_at_stop ht (List.getElem?_eq_some_iff.mp hx).1
    have hlast : unitBefore text (i + (u ++ d).length) = some (d.getLast hrun.ne_nil) := by
      rw [unitBefore_add_length (List.append_ne_nil_of_right_ne_nil u hrun.ne_nil)
        ((List.prefix_append _ _).trans hpre), List.getLast?_append_of_ne_nil u hrun.ne_nil,
        List.getLast?_eq_getLast_of_ne_nil hrun.ne_nil]
    rw [hsplit] at hnext hx
    exact isDigit_eq_false_of_unitBefore hsep hnext hlast
      (hrun.all _ (List.getLast_mem hrun.ne_nil)) hx
  · rw [getElem?_add_length hv hpre] at hx
    exact hrun.after x hx

/-- One of `[A-Za-z_]` follows every maximal run of digits in a gap. -/
theorem isIdentifierStart_after_digits (hsep : cfg.Separated)
    (ht : (i, t) ∈ located 0 (tokens cfg hcfg text))
    (hgap : ∀ j, i ≤ j → j < i + t.text.length →
      (lexer cfg hcfg).match? (Cursor.ofIndex text j) = none)
    (hsplit : t.text = u ++ d ++ v) (hrun : IsMaximalRun isDigit u d v) :
    ∃ x, text[i + u.length + d.length]? = some x ∧ isIdentifierStart x := by
  have hle := add_length_le_of_mem_located ht
  have hpos := List.length_pos_iff.mpr hrun.ne_nil
  have hlen : t.text.length = u.length + d.length + v.length := by
    rw [hsplit, List.length_append, List.length_append]
  have hafter := isDigit_eq_false_after_digits hsep ht hsplit hrun
  rw [List.length_append, ← Nat.add_assoc] at hafter
  -- the digits that start here are those of the run
  have hdigits : digitRun (text.drop (i + u.length)) = d.length := by
    have hdrop : text.drop (i + u.length) = d ++ text.drop (i + u.length + d.length) := by
      obtain ⟨s, hs⟩ := prefix_drop_of_mem_located ht
      rw [← List.drop_drop, ← List.drop_drop, ← List.drop_drop, ← hs, hsplit]
      simp
    rw [hdrop]
    refine digitRun_append_of_all hrun.all fun x hx => hafter x ?_
    rwa [List.head?_drop] at hx
  obtain ⟨x, hx, hword⟩ := isWord_of_gap (by omega)
    (hgap (i + u.length) (by omega) (by omega)) (by omega)
    (isWord_eq_false_before_digits hsep ht hgap hsplit hrun)
  rw [hdigits] at hx
  exact ⟨x, hx, isIdentifierStart_of_isWord hword (hafter x hx)⟩

end Gap

/-! ## The words of a text -/

section Word

variable {cfg : LangConfig} {hcfg : cfg.Lexable} {text : JsString} {i : ℕ} {t : Token}

/-- A number is a numeral that no word character touches. -/
theorem isNumeral_of_mem_located (ht : (i, t) ∈ located 0 (tokens cfg hcfg text))
    (htype : t.type = .number) :
    IsNumeral t.text ∧ (∀ x ∈ unitBefore text i, isWord x = false) ∧
      ∀ x ∈ text[i + t.text.length]?, isWord x = false := by
  have hle := add_length_le_of_mem_located ht
  obtain ⟨-, htext, ⟨k, hm, -, hagrees⟩ | ⟨hplain, -⟩⟩ := token_cases ht
  · obtain rfl := hagrees.number.mp htype
    obtain ⟨hbefore, hnumeral, hafter⟩ := numberLength_cases (length?_of_match? hm).2
    rw [Cursor.rest_ofIndex, ← htext] at hnumeral
    rw [Cursor.rest_ofIndex, List.drop_drop] at hafter
    rw [head?_before_ofIndex (by omega)] at hbefore
    refine ⟨hnumeral, fun x hx => ?_, wordAhead_drop_iff.mp hafter⟩
    rwa [Option.mem_def.mp hx, Option.any_some] at hbefore
  · rw [htype] at hplain
    cases hplain

/-- An identifier ends with the word it is in, and none of `[A-Za-z_]` is in front of it. -/
theorem isWord_eq_false_of_isIdentifier (hsep : cfg.Separated)
    (ht : (i, t) ∈ located 0 (tokens cfg hcfg text)) (hident : IsIdentifier cfg text i t.text) :
    (∀ x ∈ unitBefore text i, isIdentifierStart x = false) ∧
      ∀ x ∈ text[i + t.text.length]?, isWord x = false := by
  have hpos := List.length_pos_iff.mpr (token_cases ht).1
  obtain ⟨n, hm⟩ := match?_of_isIdentifier hcfg hident
  obtain ⟨-, -, ⟨k, hm', -⟩ | ⟨-, hgap⟩⟩ := token_cases ht
  · rw [hm] at hm'
    cases hm'
    obtain ⟨⟨y, ys, hy, hstart⟩, -, hafter⟩ := identifierLength_cases (length?_of_match? hm).2
    have hget : text[i]? = some y := by
      rw [← head?_rest_ofIndex, hy]
      rfl
    rw [Cursor.rest_ofIndex, List.drop_drop] at hafter
    exact ⟨fun x hx => isIdentifierStart_eq_false_of_unitBefore hsep ht hx hget hstart,
      wordAhead_drop_iff.mp hafter⟩
  · -- no identifier starts inside a gap
    rw [hgap i le_rfl (by omega)] at hm
    cases hm

/-- No token cuts a number or an identifier. -/
theorem wordsWhole_of_mem_located (hsep : cfg.Separated)
    (ht : (i, t) ∈ located 0 (tokens cfg hcfg text)) : WordsWhole cfg text i t where
  number htype := isNumeral_of_mem_located ht htype
  identifier hident := isWord_eq_false_of_isIdentifier hsep ht hident
  gap hnone := by
    obtain ⟨-, -, ⟨k, hm, -⟩ | ⟨-, hgap⟩⟩ := token_cases ht
    · rw [(match?_eq_none_iff hcfg).mpr hnone] at hm
      cases hm
    · exact ⟨isIdentifierStart_of_mem_gap ht hgap, fun u d v hsplit hrun =>
        isIdentifierStart_after_digits hsep ht hgap hsplit hrun⟩

end Word

/-- For every text and every language with a configuration, no number or identifier is cut or
missed. -/
theorem tokenize_words {language : JsString} {a : LanguageArgs}
    (ha : argsFor language = some a) (text : JsString) {cache : ScannerCache}
    (hcache : cache.Reachable) :
    ∃ ts cache', tokenize text language cache = .ok (ts, cache') ∧
      ∀ i t, (i, t) ∈ located 0 ts → WordsWhole a.config text i t := by
  obtain ⟨cache', -, hrun⟩ := tokenize_eq ha hcache text
  exact ⟨_, cache', hrun, fun i t ht => wordsWhole_of_mem_located (separated_of_argsFor ha) ht⟩

/-- A number with a fraction, one that a letter touches, and one with a second point. -/
theorem tokenize_words_fraction :
    ∃ ts cache', tokenize (js "1.5e3 + 0x1F + 1.2.3") (js "Go") PlainObject.empty =
        .ok (ts, cache') ∧
      ∀ i t, (i, t) ∈ located 0 ts →
        WordsWhole Language.go.config (js "1.5e3 + 0x1F + 1.2.3") i t :=
  tokenize_words (by decide +kernel) _ .empty

end SyntaxHighlight
