import HackerTyper.SyntaxHighlight.Tokenize

/-!
# The types of matches

`classify` looks only at the text of a match, not at the alternative that found it. The two
agree in every configuration whose openers are not empty and whose delimiters are single
characters outside `[A-Za-z0-9_]`.

## Main definitions

* `Lexeme.type?`: the type of the matches of an alternative, where it determines it;
* `ProducedBy`: the alternative of a scanner that a match comes from;
* `TokenType.Agrees`: a type is that of the matches of an alternative.

## Main results

* `classify_of_match?`: comments, strings and numbers are classified as what they are;
* `classify_of_match?_identifier`: identifiers are classified by the set of keywords;
* `classify_agrees`: the type of a match agrees with the alternative that produced it.
-/

namespace SyntaxHighlight

open Js

/-- The type of the matches of an alternative. Identifiers may be keywords or not. -/
def Lexeme.type? : Lexeme → Option TokenType
  | blockComment _ _ => some .comment
  | lineComment _ => some .comment
  | string _ => some .string
  | number => some .number
  | identifier => none

/-- Comments are block comments and line comments. -/
theorem Lexeme.type?_eq_comment_iff {k : Lexeme} :
    k.type? = some .comment ↔
      (∃ opener closer, k = .blockComment opener closer) ∨ ∃ opener, k = .lineComment opener := by
  cases k <;> simp [Lexeme.type?]

/-- Where the opener of block comments stands, the lexer reports a block comment. -/
theorem match?_of_blockOpener {cfg : LangConfig} (hcfg : cfg.Lexable) {c : Cursor CodeUnit}
    {b : JsString × JsString} (hb : b ∈ cfg.blockComment) (h : b.1 <+: c.rest) :
    (lexer cfg hcfg).match? c = some (.blockComment b.1 b.2,
      b.1.length + blockEnd b.2 (c.rest.drop b.1.length)) := by
  obtain ⟨keywords, line, block, strings, fold⟩ := cfg
  -- it is tried before every other alternative
  cases hb
  simp [lexer, alternatives, Lexeme.length?, h]

/-- Where only the opener of line comments stands, the lexer reports a line comment. -/
theorem match?_of_lineOpener {cfg : LangConfig} (hcfg : cfg.Lexable) {c : Cursor CodeUnit}
    {o : JsString} (hblock : ∀ b ∈ cfg.blockComment, ¬b.1 <+: c.rest)
    (ho : o ∈ cfg.lineComment) (h : o <+: c.rest) :
    (lexer cfg hcfg).match? c = some (.lineComment o,
      o.length + ((c.rest.drop o.length).takeWhile (· ≠ unit '\n')).length) := by
  obtain ⟨keywords, line, block, strings, fold⟩ := cfg
  cases ho
  -- the alternative for block comments, if there is one, does not match
  cases block with
  | none => simp [lexer, alternatives, Lexeme.length?, h]
  | some b =>
    have hb : ¬b.1 <+: c.rest := hblock b rfl
    simp [lexer, alternatives, Lexeme.length?, h, hb]

/-- Where a comment opener stands, the lexer reports a comment. -/
theorem match?_of_opener {cfg : LangConfig} (hcfg : cfg.Lexable) {c : Cursor CodeUnit}
    (h : (∃ b ∈ cfg.blockComment, b.1 <+: c.rest) ∨ ∃ o ∈ cfg.lineComment, o <+: c.rest) :
    ∃ k n, (lexer cfg hcfg).match? c = some (k, n) ∧ k.type? = some .comment := by
  by_cases hblock : ∃ b ∈ cfg.blockComment, b.1 <+: c.rest
  · obtain ⟨b, hb, hpre⟩ := hblock
    exact ⟨_, _, match?_of_blockOpener hcfg hb hpre, rfl⟩
  · obtain ⟨o, ho, hpre⟩ := h.resolve_left hblock
    exact ⟨_, _, match?_of_lineOpener hcfg (fun b hb hpre => hblock ⟨b, hb, hpre⟩) ho hpre, rfl⟩

/-- The scanner finds one of the alternatives, with its own length. -/
theorem length?_of_match? {cfg : LangConfig} {hcfg : cfg.Lexable} {c : Cursor CodeUnit}
    {k : Lexeme} {n : ℕ} (h : (lexer cfg hcfg).match? c = some (k, n)) :
    k ∈ alternatives cfg ∧ k.length? c = some n := by
  obtain ⟨a, ha, hn⟩ := List.exists_of_findSome?_eq_some h
  obtain ⟨m, hm, heq⟩ := Option.map_eq_some_iff.mp hn
  cases heq
  exact ⟨ha, hm⟩

/-- The lexer reports nothing where no alternative matches. -/
theorem match?_eq_none_iff {cfg : LangConfig} (hcfg : cfg.Lexable) {c : Cursor CodeUnit} :
    (lexer cfg hcfg).match? c = none ↔ ∀ a ∈ alternatives cfg, a.regex.first c = none := by
  rw [lexer, List.findSome?_eq_none_iff]
  simp only [Lexeme.first_regex, Option.map_eq_none_iff]

/-- A text that starts with an opener is a comment. -/
theorem classify_of_opener {cfg : LangConfig} {m : JsString}
    (h : (∃ b ∈ cfg.blockComment, b.1 <+: m) ∨ ∃ o ∈ cfg.lineComment, o <+: m) :
    classify cfg m = .comment := by
  rw [classify]
  by_cases hblock : cfg.blockComment.any fun b => indexOf m b.1 = some 0
  · -- the test for block comments comes first
    rw [if_pos hblock]
  · rw [if_neg hblock, if_pos]
    rcases h with ⟨b, hb, hpre⟩ | ⟨o, ho, hpre⟩
    · exact absurd ((Option.any_eq_true _ _).mpr
        ⟨b, hb, decide_eq_true (indexOf_eq_zero_iff.mpr hpre)⟩) hblock
    · exact (Option.any_eq_true _ _).mpr ⟨o, ho, decide_eq_true (indexOf_eq_zero_iff.mpr hpre)⟩

/-- A text that starts with no opener is classified by its first character and its name. -/
theorem classify_of_not_opener {cfg : LangConfig} {m : JsString}
    (h : ¬((∃ b ∈ cfg.blockComment, b.1 <+: m) ∨ ∃ o ∈ cfg.lineComment, o <+: m)) :
    classify cfg m =
      if m.take 1 ∈ cfg.stringChars then .string
      else if (m.take 1).head?.any isDigit then .number
      else if truthy (cfg.keywords.get (if cfg.caseInsensitive then toLowerCase m else m)) then
        .keyword
      else .plain := by
  obtain ⟨hblock, hline⟩ := not_or.mp h
  rw [classify, if_neg, if_neg]
  · rw [Option.any_eq_true]
    rintro ⟨o, ho, hindex⟩
    exact hline ⟨o, ho, indexOf_eq_zero_iff.mp (of_decide_eq_true hindex)⟩
  · rw [Option.any_eq_true]
    rintro ⟨b, hb, hindex⟩
    exact hblock ⟨b, hb, indexOf_eq_zero_iff.mp (of_decide_eq_true hindex)⟩

/-- No string delimiter is a word character. -/
theorem not_mem_stringChars_of_isWord {cfg : LangConfig} (hcfg : cfg.Lexable) {x : CodeUnit}
    (hx : isWord x) : [x] ∉ cfg.stringChars := by
  intro hmem
  -- delimiters are no word characters
  have hx' := (hcfg.string _ hmem).2 x (by simp)
  rw [hx] at hx'
  cases hx'

/-- A match that is no comment starts with no opener. -/
theorem not_opener_of_match? {cfg : LangConfig} {hcfg : cfg.Lexable} {c : Cursor CodeUnit}
    {k : Lexeme} {n : ℕ} (h : (lexer cfg hcfg).match? c = some (k, n))
    (hk : k.type? ≠ some .comment) :
    ¬((∃ b ∈ cfg.blockComment, b.1 <+: c.rest.take n) ∨
      ∃ o ∈ cfg.lineComment, o <+: c.rest.take n) := by
  intro hopener
  -- an opener in front of the match is in front of the text
  have hrest : (∃ b ∈ cfg.blockComment, b.1 <+: c.rest) ∨ ∃ o ∈ cfg.lineComment, o <+: c.rest :=
    hopener.imp (fun ⟨b, hb, hpre⟩ => ⟨b, hb, hpre.trans (List.take_prefix _ _)⟩)
      fun ⟨o, ho, hpre⟩ => ⟨o, ho, hpre.trans (List.take_prefix _ _)⟩
  obtain ⟨k', n', hm, hcomment⟩ := match?_of_opener hcfg hrest
  rw [h] at hm
  cases hm
  exact hk hcomment

/-- The text of a match starts with the opener. -/
theorem isPrefix_take_of_openedLength {opener s : JsString} {close? : JsString → Option ℕ} {n : ℕ}
    (h : openedLength opener close? s = some n) : opener <+: s.take n := by
  obtain ⟨hpre, m, -, rfl⟩ := openedLength_cases h
  exact List.prefix_take_iff.mpr ⟨hpre, Nat.le_add_right _ _⟩

/-- Comments, strings and numbers are classified as what they are. -/
theorem classify_of_match? {cfg : LangConfig} {hcfg : cfg.Lexable} {c : Cursor CodeUnit}
    {k : Lexeme} {n : ℕ} (h : (lexer cfg hcfg).match? c = some (k, n)) {type : TokenType}
    (htype : k.type? = some type) : classify cfg (c.rest.take n) = type := by
  obtain ⟨hk, hlength⟩ := length?_of_match? h
  obtain ⟨hpos, hle⟩ := Lexeme.length?_spec hcfg hk hlength
  rcases mem_alternatives.mp hk with ⟨b, hb, rfl⟩ | ⟨o, ho, rfl⟩ | ⟨d, hd, rfl⟩ | rfl | rfl
  · -- a block comment starts with its opener
    cases htype
    rw [length?_blockComment] at hlength
    exact classify_of_opener (Or.inl ⟨b, hb, isPrefix_take_of_openedLength hlength⟩)
  · -- a line comment starts with its opener
    cases htype
    rw [length?_lineComment] at hlength
    exact classify_of_opener (Or.inr ⟨o, ho, isPrefix_take_of_openedLength hlength⟩)
  · -- a string starts with its delimiter, which is a single character
    cases htype
    rw [classify_of_not_opener (not_opener_of_match? h (by simp [Lexeme.type?]))]
    rw [length?_string] at hlength
    have htake := List.prefix_iff_eq_take.mp (isPrefix_take_of_openedLength hlength)
    rw [(hcfg.string d hd).1] at htake
    rw [← htake, if_pos hd]
  · -- a number starts with a digit, which is no delimiter
    cases htype
    rw [classify_of_not_opener (not_opener_of_match? h (by simp [Lexeme.type?]))]
    have hdigits : digitRun c.rest ≠ 0 := by
      intro h0
      simp [Lexeme.length?, numberLength, h0] at hlength
    cases hrest : c.rest with
    | nil => simp [hrest, digitRun] at hdigits
    | cons x xs =>
      have hx : isDigit x := by
        by_contra hx
        simp [hrest, digitRun, hx] at hdigits
      rw [← Nat.succ_pred_eq_of_pos hpos, List.take_succ_cons]
      simp [not_mem_stringChars_of_isWord hcfg (isWord_of_isDigit hx), hx]
  · cases htype

theorem not_isDigit_of_isIdentifierStart {x : CodeUnit} (hx : isIdentifierStart x) :
    ¬isDigit x := by
  rw [isDigit_iff]
  rcases Bool.or_eq_true_iff.mp hx with h | h
  · rw [isLetter_iff] at h
    omega
  · rw [of_decide_eq_true h]
    decide

/-- Identifiers are classified by what they read as in the set of keywords. -/
theorem classify_of_match?_identifier {cfg : LangConfig} {hcfg : cfg.Lexable}
    {c : Cursor CodeUnit} {n : ℕ} (h : (lexer cfg hcfg).match? c = some (.identifier, n)) :
    classify cfg (c.rest.take n) =
      if truthy (cfg.keywords.get
        (if cfg.caseInsensitive then toLowerCase (c.rest.take n) else c.rest.take n)) then .keyword
      else .plain := by
  have hlength := (length?_of_match? h).2
  have hpos := (lexer cfg hcfg).pos h
  rw [classify_of_not_opener (not_opener_of_match? h (by simp [Lexeme.type?]))]
  rw [Lexeme.length?] at hlength
  cases hrest : c.rest with
  | nil =>
    rw [hrest] at hlength
    cases hlength
  | cons x xs =>
    rw [hrest, identifierLength] at hlength
    split at hlength
    next hx =>
      -- its first character is neither a delimiter nor a digit
      rw [← Nat.succ_pred_eq_of_pos hpos, List.take_succ_cons]
      simp [not_mem_stringChars_of_isWord hcfg (isWord_of_isIdentifierStart hx),
        not_isDigit_of_isIdentifierStart hx]
    next => cases hlength

/-! ## The matches of a scanner -/

/-- The alternative `a` produced the match `m` of a text: it is the first alternative that
matches where `m` starts, and its match is `m`. -/
def ProducedBy (cfg : LangConfig) (text : JsString) (m : Match) (a : Lexeme) : Prop :=
  ∃ before after, alternatives cfg = before ++ a :: after ∧
    a.regex.first (Cursor.ofIndex text m.index) =
      some (Cursor.ofIndex text (m.index + m.text.length)) ∧
    ∀ b ∈ before, b.regex.first (Cursor.ofIndex text m.index) = none

/-- A type is that of the matches of an alternative. -/
structure TokenType.Agrees (type : TokenType) (a : Lexeme) : Prop where
  /-- Comments are the matches of the alternatives for comments. -/
  comment : type = .comment ↔
    (∃ opener closer, a = .blockComment opener closer) ∨ ∃ opener, a = .lineComment opener
  /-- Strings are the matches of the alternatives for strings. -/
  string : type = .string ↔ ∃ delimiter, a = .string delimiter
  /-- Numbers are the matches of the alternative for numbers. -/
  number : type = .number ↔ a = .number
  /-- Keywords and plain matches are those of the alternative for identifiers. -/
  identifier : type = .keyword ∨ type = .plain ↔ a = .identifier

/-- The type of a match agrees with the alternative that the lexer reports. -/
theorem agrees_of_match? {cfg : LangConfig} {hcfg : cfg.Lexable} {c : Cursor CodeUnit}
    {k : Lexeme} {n : ℕ} (h : (lexer cfg hcfg).match? c = some (k, n)) :
    (classify cfg (c.rest.take n)).Agrees k := by
  cases k with
  | blockComment opener closer =>
    rw [classify_of_match? h rfl]
    constructor <;> simp
  | lineComment opener =>
    rw [classify_of_match? h rfl]
    constructor <;> simp
  | string delimiter =>
    rw [classify_of_match? h rfl]
    constructor <;> simp
  | number =>
    rw [classify_of_match? h rfl]
    constructor <;> simp
  | identifier =>
    rw [classify_of_match?_identifier h]
    generalize (if cfg.caseInsensitive then toLowerCase (c.rest.take n) else c.rest.take n) = word
    -- an identifier is a keyword or plain
    by_cases hword : truthy (cfg.keywords.get word) = true
    · rw [if_pos hword]
      constructor <;> simp
    · rw [if_neg hword]
      constructor <;> simp

/-- The scanner finds the alternative that has produced a match. -/
theorem match?_of_producedBy {cfg : LangConfig} (hcfg : cfg.Lexable) {text : JsString}
    {m : Match} {a : Lexeme} (h : ProducedBy cfg text m a) :
    ∃ n, (lexer cfg hcfg).match? (Cursor.ofIndex text m.index) = some (a, n) := by
  obtain ⟨before, after, hsplit, hfirst, hbefore⟩ := h
  rw [Lexeme.first_regex, Option.map_eq_some_iff] at hfirst
  obtain ⟨n, hlength, -⟩ := hfirst
  refine ⟨n, List.findSome?_eq_some_iff.mpr ⟨before, a, after, hsplit, ?_, fun b hb => ?_⟩⟩
  · rw [hlength, Option.map_some]
  · have hnone := hbefore b hb
    rw [Lexeme.first_regex, Option.map_eq_none_iff] at hnone
    rw [hnone, Option.map_none]

/-- What the scanner finds has produced the match. -/
theorem producedBy_of_match? {cfg : LangConfig} {hcfg : cfg.Lexable} {text : JsString} {m : Match}
    {k : Lexeme} (h : (lexer cfg hcfg).match? (Cursor.ofIndex text m.index) =
      some (k, m.text.length)) : ProducedBy cfg text m k := by
  obtain ⟨before, a, after, hsplit, ha, hbefore⟩ := List.findSome?_eq_some_iff.mp h
  obtain ⟨n, hlength, heq⟩ := Option.map_eq_some_iff.mp ha
  cases heq
  refine ⟨before, after, hsplit, ?_, fun b hb => ?_⟩
  · rw [Lexeme.first_regex, hlength, Option.map_some, Cursor.advance_ofIndex]
  · have hnone := hbefore b hb
    rw [Option.map_eq_none_iff] at hnone
    rw [Lexeme.first_regex, hnone, Option.map_none]

/-- For every configuration whose comment openers are not empty and whose string delimiters
are single characters outside `[A-Za-z0-9_]`, the type of every match that its scanner finds
agrees with the alternative that produced the match. -/
theorem classify_agrees {cfg : LangConfig} (hcfg : cfg.Lexable) {re : RegExp}
    (hbuild : buildScanner cfg = .ok re) {lastIndex : ℕ} {text : JsString} {m : Match}
    {re' : RegExp} (hexec : { re with lastIndex := lastIndex }.exec text = (some m, re')) :
    (∃ a, ProducedBy cfg text m a) ∧
      ∀ a, ProducedBy cfg text m a → (classify cfg m.text).Agrees a := by
  rw [buildScanner_eq] at hbuild
  cases hbuild
  obtain ⟨hstart, hend, hle, -⟩ := exec_some hexec
  obtain ⟨k, -, -, -, hm, htext, -⟩ :=
    exec_some_lexer hcfg rfl (by omega) hexec lastIndex
  refine ⟨⟨k, producedBy_of_match? hm⟩, fun a ha => ?_⟩
  -- the alternative that produced the match is the one the lexer reports
  obtain ⟨n, hm'⟩ := match?_of_producedBy hcfg ha
  rw [hm] at hm'
  cases hm'
  rw [htext, ← Cursor.rest_ofIndex]
  exact agrees_of_match? hm

/-- A number, in a configuration whose line comments start with a letter. -/
theorem classify_agrees_number :
    let cfg := langConfig [] (some (js "rem")) none none none
    (∃ a, ProducedBy cfg (js "a 12") ⟨2, js "12"⟩ a) ∧
      ∀ a, ProducedBy cfg (js "a 12") ⟨2, js "12"⟩ a → (classify cfg (js "12")).Agrees a := by
  intro cfg
  have hexec : { (⟨scannerProgram cfg, 0⟩ : RegExp) with lastIndex := 1 }.exec (js "a 12") =
      (some ⟨2, js "12"⟩, ⟨scannerProgram cfg, 4⟩) := rfl
  exact classify_agrees (by decide) (buildScanner_eq cfg) hexec

end SyntaxHighlight
