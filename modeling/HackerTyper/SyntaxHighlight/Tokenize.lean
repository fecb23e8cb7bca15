import HackerTyper.Foundations.Lexer
import HackerTyper.SyntaxHighlight.Lexemes

/-!
# The tokenizer

`tokenize` runs the scanner of a language over a text. The scanners are built once and kept
in `scannerCache`; each is one object with a `lastIndex` that the calls of `exec` move, so a
call of `tokenize` reads and changes the cache.

## Main definitions

* `classify`, `scannerFor`, `tokenize`: the functions of the source, on an explicit cache;
* `lexer`: the tokens of a configuration as a first-match lexer;
* `ScannerCache.Reachable`: the caches that calls of `tokenize` leave behind;
* `tokenizeAll`: a sequence of calls.

## Main results

* `exists_scanLoop`: the scanning loop ends, for every expression and every state;
* `realizes_lexer`: the scanner matches exactly the tokens of the lexer;
* `tokenize_eq`: from every reachable cache, `tokenize` returns the classified segments of
  the text;
* `tokenizeAll_memoryless`: no call of `tokenize` depends on the calls before it.
-/

namespace SyntaxHighlight

open Js

/-- The types of token. -/
inductive TokenType
  | keyword
  | string
  | comment
  | number
  | plain
deriving DecidableEq, Repr

/-- A token. -/
structure Token where
  /-- What it is shown as. -/
  type : TokenType
  /-- Its text. -/
  text : JsString
deriving DecidableEq, Repr

/-- Whether the value a read of a set of words finds is truthy. -/
def truthy : Property Bool → Bool
  | .own v => v
  | .inherited => true
  | .missing => false

/-- The type of a match, read off its text. -/
def classify (cfg : LangConfig) (m : JsString) : TokenType :=
  let first := m.take 1
  if cfg.blockComment.any fun b => indexOf m b.1 = some 0 then .comment
  else if cfg.lineComment.any fun o => indexOf m o = some 0 then .comment
  else if first ∈ cfg.stringChars then .string
  else if first.head?.any isDigit then .number
  else
    let word := if cfg.caseInsensitive then toLowerCase m else m
    if truthy (cfg.keywords.get word) then .keyword else .plain

/-- The cache of scanners. -/
abbrev ScannerCache := PlainObject RegExp

/-- The cached scanner of a key, built if there is none, with `lastIndex` reset. -/
def scannerFor (cacheKey : JsString) (cfg : LangConfig) (cache : ScannerCache) :
    Result (RegExp × ScannerCache) :=
  match cache.get cacheKey with
  | .own scanner =>
    let scanner := { scanner with lastIndex := 0 }
    .ok (scanner, cache.put cacheKey scanner)
  -- an inherited function has no method `exec`
  | .inherited => .throw .typeError
  | .missing => do
    let scanner ← buildScanner cfg
    let scanner := { scanner with lastIndex := 0 }
    .ok (scanner, cache.put cacheKey scanner)

/-- The variables of the scanning loop. -/
structure Scan where
  /-- The scanner, which every search changes. -/
  scanner : RegExp
  /-- The tokens so far. -/
  tokens : List Token
  /-- Where the last match ended. -/
  lastEnd : ℕ

/-- One round of the loop: the state after another match, or, after `exec` returned `null`,
the final state. -/
def scanStep (cfg : LangConfig) (text : JsString) (st : Scan) : Scan ⊕ Scan :=
  match st.scanner.exec text with
  | (none, scanner) => .inr { st with scanner }
  | (some m, scanner) =>
    let gap := if st.lastEnd < m.index then
        [Token.mk .plain (slice text st.lastEnd m.index)] else []
    -- the guard against empty matches
    let scanner := if m.text.length = 0 then
        { scanner with lastIndex := scanner.lastIndex + 1 } else scanner
    .inl ⟨scanner, st.tokens ++ gap ++ [⟨classify cfg m.text, m.text⟩],
      m.index + m.text.length⟩

/-- The loop, for at most `fuel` rounds. -/
def scanLoop (cfg : LangConfig) (text : JsString) : ℕ → Scan → Option Scan
  | 0, _ => none
  | fuel + 1, st =>
    match scanStep cfg text st with
    | .inl st' => scanLoop cfg text fuel st'
    | .inr st' => some st'

/-- The body of `tokenize` for the chosen configuration and cache key. -/
def tokenizeWith (cfg : LangConfig) (cacheKey text : JsString) (cache : ScannerCache) :
    Result (List Token × ScannerCache) := do
  let (scanner, cache) ← scannerFor cacheKey cfg cache
  -- every round moves `lastIndex`, so these rounds are enough
  match scanLoop cfg text (text.length + 2) ⟨scanner, [], 0⟩ with
  | none => .div
  | some st =>
    let tail := if st.lastEnd < text.length then
        [Token.mk .plain (slice text st.lastEnd text.length)] else []
    .ok (st.tokens ++ tail, cache.put cacheKey st.scanner)

/-- The key of the fallback's scanner. -/
def fallbackKey : JsString := js "__fallback__"

/-- The tokens of a text in a language, and the cache afterwards. A name inherited by every
object is taken for a configuration, and the call throws when it uses it as one. -/
def tokenize (text language : JsString) (cache : ScannerCache) :
    Result (List Token × ScannerCache) :=
  match LANGUAGES.get language with
  | .own cfg => tokenizeWith cfg language text cache
  | .inherited => .throw .typeError
  | .missing => tokenizeWith FALLBACK fallbackKey text cache

/-! ## The loop ends -/

/-- A match `exec` reports lies between the old and the new `lastIndex`, inside the text. -/
theorem exec_some {re re' : RegExp} {text : JsString} {m : Match}
    (h : re.exec text = (some m, re')) :
    re.lastIndex ≤ m.index ∧ m.index + m.text.length = re'.lastIndex ∧
      re'.lastIndex ≤ text.length ∧ re'.program = re.program := by
  by_cases hle : re.lastIndex ≤ text.length
  · cases hs : re.program.search (Cursor.ofIndex text re.lastIndex) with
    | none =>
      rw [RegExp.exec_of_search_none hs] at h
      cases h
    | some se =>
      obtain ⟨s, e⟩ := se
      rw [RegExp.exec_of_search_some hle hs] at h
      cases h
      obtain ⟨⟨i, hi, rfl⟩, hfirst⟩ := Regex.search_spec hs
      obtain ⟨n, hn, rfl⟩ := Regex.ahead_of_first hfirst
      have hstart := Cursor.index_advance hi
      have hend := Cursor.index_advance hn
      -- the start, the end and the length as offsets in the text
      have hlen := Cursor.length_text (Cursor.ofIndex text re.lastIndex)
      rw [Cursor.index_ofIndex hle] at hstart hlen
      rw [Cursor.text_ofIndex] at hlen
      rw [Cursor.rest_advance, List.length_drop] at hn
      simp only [slice, List.length_drop, List.length_take]
      exact ⟨by omega, by omega, by omega, trivial⟩
  · -- past the end of the text `exec` returns `null`
    rw [RegExp.exec, if_pos (by omega)] at h
    cases h

/-- Every round moves `lastIndex` forward, so the loop ends for every expression. -/
theorem exists_scanLoop (cfg : LangConfig) (text : JsString) (fuel : ℕ) (st : Scan)
    (h : text.length + 2 ≤ fuel + st.scanner.lastIndex) (hfuel : 0 < fuel) :
    ∃ st', scanLoop cfg text fuel st = some st' := by
  induction fuel generalizing st with
  | zero => omega
  | succ fuel ih =>
    rw [scanLoop, scanStep]
    cases hexec : st.scanner.exec text with
    | mk found scanner =>
      cases found with
      | none => exact ⟨_, rfl⟩
      | some m =>
        -- an empty match does not move `lastIndex`, but then the guard does
        obtain ⟨hstart, hend, hle, -⟩ := exec_some hexec
        apply ih
        · dsimp only
          split
          · change text.length + 2 ≤ fuel + (scanner.lastIndex + 1)
            omega
          · omega
        · omega

/-! ## The lexer of a configuration -/

/-- A block comment ends inside the text. -/
theorem blockEnd_le {closer s : JsString} : blockEnd closer s ≤ s.length := by
  induction s with
  | nil => exact le_rfl
  | cons x xs ih =>
    rw [blockEnd]
    split
    next h => exact h.length_le
    next => simpa using ih

theorem stringEnd_le {delimiter s : JsString} {n : ℕ} (h : stringEnd delimiter s = some n) :
    n ≤ s.length := by
  induction s using stringEnd.induct delimiter generalizing n with
  | case1 => simp [stringEnd] at h; omega
  | case2 x xs hd =>
    rw [stringEnd_closer hd] at h
    cases h
    exact hd.length_le
  | case3 hd => simp [stringEnd, hd] at h
  | case4 y ys hy hd => simp [stringEnd, hd, hy] at h
  | case5 y ys hy hd ih =>
    rw [stringEnd_escape hd hy, Option.map_eq_some_iff] at h
    obtain ⟨m, hm, rfl⟩ := h
    simpa using ih hm
  | case6 x xs hd hx ih =>
    rw [stringEnd_plain hd hx, Option.map_eq_some_iff] at h
    obtain ⟨m, hm, rfl⟩ := h
    simpa using ih hm

/-- A number is not empty and ends inside the text. -/
theorem numberLength_spec {c : Cursor CodeUnit} {n : ℕ} (h : numberLength c = some n) :
    0 < n ∧ n ≤ c.rest.length := by
  have hdigits : digitRun c.rest ≤ c.rest.length := (List.takeWhile_prefix _).length_le
  -- a fraction is no longer than what is left behind the digits
  have hfraction : fractionLength (c.rest.drop (digitRun c.rest)) ≤
      (c.rest.drop (digitRun c.rest)).length := by
    cases c.rest.drop (digitRun c.rest) with
    | nil => exact le_rfl
    | cons x xs =>
      have hxs : digitRun xs ≤ xs.length := (List.takeWhile_prefix _).length_le
      rw [fractionLength, List.length_cons]
      split <;> omega
  simp only [numberLength] at h
  split at h
  · cases h
  · cases h
    rw [List.length_drop] at hfraction
    omega

/-- An identifier is not empty and ends inside the text. -/
theorem identifierLength_spec {s : JsString} {n : ℕ} (h : identifierLength s = some n) :
    0 < n ∧ n ≤ s.length := by
  cases s with
  | nil => cases h
  | cons x xs =>
    rw [identifierLength] at h
    split at h
    · cases h
      have hle := (List.takeWhile_prefix (l := xs) isWord).length_le
      rw [List.length_cons]
      omega
    · cases h

/-- What starts with an opener is at least as long as that, and ends inside the text, if its end
does. -/
theorem openedLength_spec {opener s : JsString} {close? : JsString → Option ℕ} {n : ℕ}
    (hopener : opener ≠ []) (hclose : ∀ {u m}, close? u = some m → m ≤ u.length)
    (h : openedLength opener close? s = some n) : 0 < n ∧ n ≤ s.length := by
  obtain ⟨u, m, rfl, hm, rfl⟩ := openedLength_eq_some h
  have hpos := List.length_pos_iff.mpr hopener
  have hle := hclose hm
  rw [List.length_append]
  omega

/-- The lexemes of a lexable configuration are not empty and end inside the text. -/
theorem Lexeme.length?_spec {cfg : LangConfig} (hcfg : cfg.Lexable) {a : Lexeme}
    (ha : a ∈ alternatives cfg) {c : Cursor CodeUnit} {n : ℕ} (h : a.length? c = some n) :
    0 < n ∧ n ≤ c.rest.length := by
  rcases mem_alternatives.mp ha with ⟨b, hb, rfl⟩ | ⟨opener, ho, rfl⟩ | ⟨d, hd, rfl⟩ | rfl | rfl
  · rw [length?_blockComment] at h
    exact openedLength_spec (hcfg.block b hb) (fun hm => Option.some.inj hm ▸ blockEnd_le) h
  · rw [length?_lineComment] at h
    refine openedLength_spec (hcfg.line opener ho) (fun hm => ?_) h
    rw [← Option.some.inj hm]
    exact (List.takeWhile_prefix _).length_le
  · rw [length?_string] at h
    exact openedLength_spec (hcfg.string_ne_nil hd) stringEnd_le h
  · exact numberLength_spec h
  · exact identifierLength_spec h

/-- The tokens of a configuration: at each cursor the first of its lexemes that matches. -/
def lexer (cfg : LangConfig) (hcfg : cfg.Lexable) : Lexer Lexeme CodeUnit where
  match? c := (alternatives cfg).findSome? fun a => (a.length? c).map fun n => (a, n)
  pos := by
    intro c a n h
    obtain ⟨b, hb, hn⟩ := List.exists_of_findSome?_eq_some h
    obtain ⟨m, hm, heq⟩ := Option.map_eq_some_iff.mp hn
    cases heq
    exact (Lexeme.length?_spec hcfg hb hm).1
  le := by
    intro c a n h
    obtain ⟨b, hb, hn⟩ := List.exists_of_findSome?_eq_some h
    obtain ⟨m, hm, heq⟩ := Option.map_eq_some_iff.mp hn
    cases heq
    exact (Lexeme.length?_spec hcfg hb hm).2

/-- The scanner matches exactly the tokens of the lexer. -/
theorem realizes_lexer (cfg : LangConfig) (hcfg : cfg.Lexable) :
    Lexer.Realizes (scannerProgram cfg) (lexer cfg hcfg) := by
  intro c
  rw [scannerProgram, Regex.first_alts, List.findSome?_map, lexer, List.map_findSome?]
  -- of both, the first alternative that matches decides
  congr 1
  funext a
  rw [Function.comp_apply, a.first_regex, Function.comp_apply, Option.map_map]
  rfl

/-! ## The loop computes the segments -/

/-- A segment as a token: a match is classified by its text, a gap is plain. -/
def toToken (cfg : LangConfig) (seg : Segment Lexeme CodeUnit) : Token :=
  ⟨if seg.kind.isSome then classify cfg seg.text else .plain, seg.text⟩

/-- The tokens of a text under a configuration. -/
def tokens (cfg : LangConfig) (hcfg : cfg.Lexable) (text : JsString) : List Token :=
  ((lexer cfg hcfg).segments text).map (toToken cfg)

theorem map_toToken_flush {cfg : LangConfig} {text : JsString} {lastEnd : ℕ}
    {c : Cursor CodeUnit} (htext : c.text = text) :
    (Lexer.flush lastEnd c).map (toToken cfg) =
      if lastEnd < c.index then [Token.mk .plain (slice text lastEnd c.index)] else [] := by
  rw [Lexer.flush]
  split
  · simp [toToken, Cursor.since_eq_drop_take, htext, slice]
  · rfl

/-- Where `exec` finds nothing, no match is ahead of `lastIndex`. -/
theorem search_of_exec_none {re re' : RegExp} {text : JsString}
    (hle : re.lastIndex ≤ text.length) (h : re.exec text = (none, re')) :
    re.program.search (Cursor.ofIndex text re.lastIndex) = none ∧
      re' = { re with lastIndex := 0 } := by
  cases hs : re.program.search (Cursor.ofIndex text re.lastIndex) with
  | none =>
    rw [RegExp.exec_of_search_none hs] at h
    cases h
    exact ⟨rfl, rfl⟩
  | some se =>
    obtain ⟨s, e⟩ := se
    rw [RegExp.exec_of_search_some hle hs] at h
    cases h

/-- A successful `exec`, as a search by the lexer. -/
theorem exec_some_lexer {cfg : LangConfig} (hcfg : cfg.Lexable) {re re' : RegExp}
    {text : JsString} {m : Match} (hprogram : re.program = scannerProgram cfg)
    (hle : re.lastIndex ≤ text.length) (h : re.exec text = (some m, re')) (lastEnd : ℕ) :
    ∃ k, re' = { re with lastIndex := m.index + m.text.length } ∧ m.text ≠ [] ∧
      m.index + m.text.length ≤ text.length ∧
      (lexer cfg hcfg).match? (Cursor.ofIndex text m.index) = some (k, m.text.length) ∧
      m.text = (text.drop m.index).take m.text.length ∧
      (lexer cfg hcfg).scan lastEnd (Cursor.ofIndex text re.lastIndex) =
        Lexer.flush lastEnd (Cursor.ofIndex text m.index) ++
          ⟨some k, m.index, m.text⟩ ::
            (lexer cfg hcfg).scan (m.index + m.text.length)
              (Cursor.ofIndex text (m.index + m.text.length)) := by
  cases hs : re.program.search (Cursor.ofIndex text re.lastIndex) with
  | none =>
    rw [RegExp.exec_of_search_none hs] at h
    cases h
  | some se =>
    obtain ⟨s, e⟩ := se
    rw [RegExp.exec_of_search_some hle hs] at h
    cases h
    obtain ⟨⟨i, hi, hsi⟩, -⟩ := Regex.search_spec hs
    rw [hprogram] at hs
    obtain ⟨k, n, hm, rfl, hscan⟩ :=
      (lexer cfg hcfg).scan_of_search_some (realizes_lexer cfg hcfg) lastEnd hs
    -- the cursors of the search, as offsets in the text
    have htext : s.text = text := by rw [hsi, Cursor.text_advance, Cursor.text_ofIndex]
    have hn := (lexer cfg hcfg).le hm
    have hpos := (lexer cfg hcfg).pos hm
    have hend : (s.advance n).index = s.index + n := Cursor.index_advance hn
    have hslice : slice text s.index (s.index + n) = s.rest.take n := by
      rw [slice, ← hend, ← htext, ← Cursor.text_advance s n, ← Cursor.since_eq_drop_take,
        Cursor.since_advance le_rfl hn, Cursor.since_index, List.nil_append]
    have hlen : (s.rest.take n).length = n := by simp [hn]
    have hs' : s = Cursor.ofIndex text s.index := by rw [← htext, ← s.eq_ofIndex_index]
    have he' : s.advance n = Cursor.ofIndex text (s.index + n) := by
      rw [← hend, ← htext, ← Cursor.text_advance s n, ← (s.advance n).eq_ofIndex_index]
    -- the match lies inside the text
    have htotal := s.length_text
    rw [htext] at htotal
    have hrest : text.drop s.index = s.rest := by
      rw [← htext]
      simp [Cursor.text, Cursor.index]
    simp only [hend, hslice, hlen, ← hs', ← he', hrest]
    exact ⟨k, trivial, List.length_pos_iff.mp (by omega), by omega, hm, trivial, hscan⟩

/-- From a state between two matches, the loop appends the tokens of the rest of the text. -/
theorem scanLoop_spec {cfg : LangConfig} (hcfg : cfg.Lexable) {text : JsString} {fuel : ℕ}
    {st st' : Scan} (hprogram : st.scanner.program = scannerProgram cfg)
    (hle : st.scanner.lastIndex ≤ text.length) (hlast : st.lastEnd = st.scanner.lastIndex)
    (h : scanLoop cfg text fuel st = some st') :
    st'.scanner.program = scannerProgram cfg ∧
      (st'.tokens ++ if st'.lastEnd < text.length then
          [Token.mk .plain (slice text st'.lastEnd text.length)] else []) =
        st.tokens ++ ((lexer cfg hcfg).scan st.lastEnd (Cursor.ofIndex text st.lastEnd)).map
          (toToken cfg) := by
  induction fuel generalizing st with
  | zero => cases h
  | succ fuel ih =>
    rw [scanLoop, scanStep] at h
    cases hexec : st.scanner.exec text with
    | mk found scanner =>
      rw [hexec] at h
      cases found with
      | none =>
        cases h
        -- no token is left, and the tail is the last gap
        obtain ⟨hsearch, rfl⟩ := search_of_exec_none hle hexec
        rw [hprogram, ← hlast] at hsearch
        refine ⟨hprogram, ?_⟩
        have hend : ((Cursor.ofIndex text st.lastEnd).advance
            (Cursor.ofIndex text st.lastEnd).rest.length).index = text.length := by
          rw [Cursor.index_advance le_rfl, ← Cursor.length_text, Cursor.text_ofIndex]
        have htext : ((Cursor.ofIndex text st.lastEnd).advance
            (Cursor.ofIndex text st.lastEnd).rest.length).text = text := by
          rw [Cursor.text_advance, Cursor.text_ofIndex]
        rw [(lexer cfg hcfg).scan_of_search_none (realizes_lexer cfg hcfg) hsearch,
          map_toToken_flush htext, hend]
      | some m =>
        obtain ⟨k, rfl, hne, hend, -, -, hscan⟩ :=
          exec_some_lexer hcfg hprogram hle hexec st.lastEnd
        rw [← hlast] at hscan
        -- a match of a lexable configuration is not empty, so the guard does nothing
        have hlen : m.text.length ≠ 0 := fun h0 => hne (List.length_eq_zero_iff.mp h0)
        simp only [if_neg hlen] at h
        obtain ⟨hprogram', htokens⟩ := ih (by exact hprogram) (by exact hend) (by rfl) h
        refine ⟨hprogram', ?_⟩
        have hstart : (Cursor.ofIndex text m.index).index = m.index :=
          Cursor.index_ofIndex (by omega)
        -- the gap and the match of this round come before those of the others
        rw [htokens, hscan, List.map_append, List.map_cons,
          map_toToken_flush (Cursor.text_ofIndex text m.index), hstart]
        simp [toToken]

/-- With a scanner of its configuration, the body of `tokenize` returns the classified
segments of the text. -/
theorem tokenizeWith_eq {cfg : LangConfig} (hcfg : cfg.Lexable) {cacheKey : JsString}
    {cache : ScannerCache} (hcached : ∀ re, cache.get cacheKey = .own re →
      re.program = scannerProgram cfg) (hkey : cacheKey ∉ objectPrototype) (text : JsString) :
    ∃ scanner, scanner.program = scannerProgram cfg ∧
      tokenizeWith cfg cacheKey text cache =
        .ok (tokens cfg hcfg text, (cache.put cacheKey ⟨scannerProgram cfg, 0⟩).put cacheKey
          scanner) := by
  have hscanner : scannerFor cacheKey cfg cache =
      .ok (⟨scannerProgram cfg, 0⟩, cache.put cacheKey ⟨scannerProgram cfg, 0⟩) := by
    rw [scannerFor]
    cases hget : cache.get cacheKey with
    | own re =>
      -- a scanner of an earlier call, with `lastIndex` reset
      obtain ⟨program, lastIndex⟩ := re
      have hre : program = scannerProgram cfg := hcached _ hget
      simp only [hre]
    | inherited =>
      rw [PlainObject.get] at hget
      split at hget
      · cases hget
      · rw [if_neg hkey] at hget
        cases hget
    | missing => simp [buildScanner_eq]
  obtain ⟨st', hloop⟩ := exists_scanLoop cfg text (text.length + 2)
    ⟨⟨scannerProgram cfg, 0⟩, [], 0⟩ (by simp) (by omega)
  obtain ⟨hprogram, htokens⟩ := scanLoop_spec hcfg rfl (Nat.zero_le _) rfl hloop
  refine ⟨st'.scanner, hprogram, ?_⟩
  rw [List.nil_append] at htokens
  rw [tokenizeWith, hscanner, Result.ok_bind]
  simp only [hloop, htokens]
  rfl

/-! ## The cache -/

/-- The caches that calls of `tokenize` leave behind. -/
inductive ScannerCache.Reachable : ScannerCache → Prop
  /-- The cache is empty at first. -/
  | empty : Reachable PlainObject.empty
  /-- A call that returns leaves a cache. -/
  | tokenize {text language : JsString} {cache cache' : ScannerCache} {tokens : List Token} :
    Reachable cache → tokenize text language cache = .ok (tokens, cache') → Reachable cache'

/-- Every cached scanner is that of the configuration its key stands for. -/
def ScannerCache.Faithful (cache : ScannerCache) : Prop :=
  ∀ key re, cache.get key = .own re →
    ∃ a, argsFor key = some a ∧ re.program = scannerProgram a.config

/-- A cache stays faithful when the scanner of a language is stored under its name. -/
theorem ScannerCache.Faithful.put {cache : ScannerCache} (h : cache.Faithful)
    {key : JsString} {a : LanguageArgs} (ha : argsFor key = some a)
    (hkey : key ∉ objectPrototype) {re : RegExp} (hre : re.program = scannerProgram a.config) :
    ScannerCache.Faithful (PlainObject.put cache key re) := by
  -- the write creates a property of the cache itself
  have hproto : key ≠ js "__proto__" := fun he => hkey (by rw [he]; decide)
  intro k re' hget
  rw [PlainObject.get_put hproto] at hget
  split at hget
  next hk =>
    cases hget
    exact ⟨a, hk ▸ ha, hre⟩
  next => exact h k re' hget

/-- The key a language is cached under stands for the configuration it is highlighted
with. -/
theorem exists_cacheKey {language : JsString} {a : LanguageArgs}
    (h : argsFor language = some a) :
    ∃ key, argsFor key = some a ∧ key ∉ objectPrototype ∧ ∀ text cache,
      tokenize text language cache = tokenizeWith a.config key text cache := by
  have hnames : ∀ p ∈ languages, p.1 ∉ objectPrototype := by decide +kernel
  have hget := LANGUAGES_get language
  rw [argsFor] at h
  cases hown : PlainObject.getOwn language languages with
  | some b =>
    -- a language of the table is its own key
    rw [hown] at h hget
    cases h
    refine ⟨language, by rw [argsFor, hown], hnames _ (mem_of_getOwn hown), fun text cache => ?_⟩
    rw [tokenize, hget]
  | none =>
    rw [hown] at h hget
    by_cases hlang : language ∈ objectPrototype
    · simp [hlang] at h
    · -- every other name shares the key of the fallback, which is not in the table
      simp only [if_neg hlang] at h hget
      cases h
      refine ⟨fallbackKey, by decide +kernel, by decide +kernel, fun text cache => ?_⟩
      rw [tokenize, hget]
      rfl

/-- From a faithful cache, `tokenize` returns the classified segments of the text and leaves
a faithful cache. -/
theorem tokenize_of_faithful {language : JsString} {a : LanguageArgs}
    (h : argsFor language = some a) {cache : ScannerCache} (hcache : cache.Faithful)
    (text : JsString) :
    ∃ cache' : ScannerCache, cache'.Faithful ∧ tokenize text language cache =
      .ok (tokens a.config (lexable_of_argsFor h) text, cache') := by
  obtain ⟨key, hkey, hown, htokenize⟩ := exists_cacheKey h
  have hcached : ∀ re, cache.get key = .own re → re.program = scannerProgram a.config := by
    intro re hget
    obtain ⟨b, hb, hre⟩ := hcache key re hget
    rw [hkey] at hb
    cases hb
    exact hre
  obtain ⟨scanner, hscanner, heq⟩ :=
    tokenizeWith_eq (lexable_of_argsFor h) hcached hown text
  refine ⟨_, ?_, (htokenize text cache).trans heq⟩
  -- the scanner is written when it is built and changed by the loop
  exact (hcache.put hkey hown rfl).put hkey hown hscanner

/-- A name inherited by every object makes `tokenize` throw. -/
theorem tokenize_of_argsFor_none {language : JsString} (h : argsFor language = none)
    (text : JsString) (cache : ScannerCache) :
    tokenize text language cache = .throw .typeError := by
  have hget := LANGUAGES_get language
  rw [argsFor] at h
  split at h
  next => cases h
  next hown =>
    split at h
    next hlang =>
      rw [hown] at hget
      simp only [if_pos hlang] at hget
      rw [tokenize, hget]
    next => cases h

/-- Every reachable cache is faithful. -/
theorem ScannerCache.Reachable.faithful {cache : ScannerCache} (h : cache.Reachable) :
    cache.Faithful := by
  induction h with
  | empty =>
    -- nothing is cached yet
    intro key re hget
    by_cases hkey : key ∈ objectPrototype <;>
      simp [PlainObject.get, PlainObject.empty, PlainObject.getOwn, hkey] at hget
  | @tokenize text language cache cache' tokens _ htokenize ih =>
    cases ha : argsFor language with
    | none =>
      rw [tokenize_of_argsFor_none ha] at htokenize
      cases htokenize
    | some a =>
      obtain ⟨cache'', hcache, heq⟩ := tokenize_of_faithful ha ih text
      rw [heq] at htokenize
      cases htokenize
      exact hcache

/-- After any calls, `tokenize` returns the classified segments of the text. -/
theorem tokenize_eq {language : JsString} {a : LanguageArgs} (h : argsFor language = some a)
    {cache : ScannerCache} (hcache : cache.Reachable) (text : JsString) :
    ∃ cache' : ScannerCache, cache'.Reachable ∧ tokenize text language cache =
      .ok (tokens a.config (lexable_of_argsFor h) text, cache') := by
  obtain ⟨cache', -, heq⟩ := tokenize_of_faithful h hcache.faithful text
  exact ⟨cache', hcache.tokenize heq, heq⟩

/-! ## Sequences of calls -/

/-- A sequence of calls of `tokenize`, each given by its text and its language: what they
return, and the cache after the last one. -/
def tokenizeAll : List (JsString × JsString) → ScannerCache →
    Result (List (List Token) × ScannerCache)
  | [], cache => .ok ([], cache)
  | (text, language) :: calls, cache => do
    let (tokens, cache) ← tokenize text language cache
    let (results, cache) ← tokenizeAll calls cache
    .ok (tokens :: results, cache)

/-- What a call returns does not depend on the calls before it. -/
theorem exists_tokenize_first {language : JsString} (h : language ∉ objectPrototype)
    {cache : ScannerCache} (hcache : cache.Reachable) (text : JsString) :
    ∃ (tokens : List Token) (cache' first : ScannerCache), cache'.Reachable ∧
      tokenize text language cache = .ok (tokens, cache') ∧
      tokenize text language PlainObject.empty = .ok (tokens, first) := by
  obtain ⟨a, ha⟩ := exists_argsFor h
  -- both calls return the classified segments of the text
  obtain ⟨cache', hcache', hrun⟩ := tokenize_eq ha hcache text
  obtain ⟨first, -, hfirst⟩ := tokenize_eq ha .empty text
  exact ⟨_, cache', first, hcache', hrun, hfirst⟩

/-- From a reachable cache, every call of a sequence returns what it would return as the very
first call. -/
theorem exists_tokenizeAll {calls : List (JsString × JsString)}
    (hcalls : ∀ call ∈ calls, call.2 ∉ objectPrototype) {cache : ScannerCache}
    (hcache : cache.Reachable) :
    ∃ results cache', tokenizeAll calls cache = .ok (results, cache') ∧
      List.Forall₂ (fun call tokens => ∃ first,
        tokenize call.1 call.2 PlainObject.empty = .ok (tokens, first)) calls results := by
  induction calls generalizing cache with
  | nil => exact ⟨[], cache, rfl, .nil⟩
  | cons call calls ih =>
    obtain ⟨text, language⟩ := call
    obtain ⟨tokens, cache', first, hcache', hrun, hfirst⟩ :=
      exists_tokenize_first (hcalls _ List.mem_cons_self) hcache text
    -- the other calls start from the cache that this one leaves
    obtain ⟨results, cache'', hrest, hresults⟩ :=
      ih (fun other hother => hcalls other (List.mem_cons_of_mem _ hother)) hcache'
    refine ⟨tokens :: results, cache'', ?_, .cons ⟨first, hfirst⟩ hresults⟩
    rw [tokenizeAll, hrun, Result.ok_bind]
    simp only [hrest, Result.ok_bind]

/-- In every sequence of calls, each call returns the tokens that it would return as the very
first call, on an empty cache. -/
theorem tokenizeAll_memoryless {calls : List (JsString × JsString)}
    (hcalls : ∀ call ∈ calls, call.2 ∉ objectPrototype) :
    ∃ results cache', tokenizeAll calls PlainObject.empty = .ok (results, cache') ∧
      List.Forall₂ (fun call tokens => ∃ first,
        tokenize call.1 call.2 PlainObject.empty = .ok (tokens, first)) calls results :=
  exists_tokenizeAll hcalls .empty

/-- Two calls for a language of the table around one for the fallback. -/
theorem tokenizeAll_memoryless_three :
    ∃ results cache', tokenizeAll [(js "a // b", js "Go"), (js "\"", js ""), (js "1", js "Go")]
        PlainObject.empty = .ok (results, cache') ∧
      List.Forall₂ (fun call tokens => ∃ first,
        tokenize call.1 call.2 PlainObject.empty = .ok (tokens, first))
        [(js "a // b", js "Go"), (js "\"", js ""), (js "1", js "Go")] results :=
  tokenizeAll_memoryless (by decide)

end SyntaxHighlight
