import HackerTyper.SyntaxHighlight.Languages
import HackerTyper.Js.RegExp
import Mathlib.Data.List.Forall2

/-!
# The scanner's pattern

`buildScanner` writes the pattern of a language's scanner as text: one piece for each kind of
token, joined with `|`. This file shows that the text denotes the intended choice of regular
expressions for every configuration, because `escapeRegExp` makes openers, closers and
delimiters stand for themselves.

## Main definitions

* `escapeRegExp`, `scannerParts`, `buildScanner`;
* `Lexeme` and `Lexeme.regex`: the kinds of token, and the expression of each;
* `alternatives`: the alternatives of a configuration, in the order they are tried.

## Main results

* `buildScanner_eq`: the scanner of any configuration is the choice between the expressions
  of its alternatives, with `lastIndex` zero.
-/

namespace SyntaxHighlight

open Js Js.Pattern

/-- Put a backslash before every character that is special in a pattern. -/
def escapeRegExp (ch : JsString) : JsString :=
  -- `ch.replace(/[.*+?^${}()|[\]\\]/g, "\\$&")`
  ch.flatMap fun c => if c ∈ syntaxCharacters then [unit '\\', c] else [c]

/-- The piece for block comments. -/
def blockCommentPart (opener closer : JsString) : JsString :=
  escapeRegExp opener ++ js "[\\s\\S]*?(?:" ++ escapeRegExp closer ++ js "|$)"

/-- The piece for line comments. -/
def lineCommentPart (opener : JsString) : JsString := escapeRegExp opener ++ js "[^\\n]*"

/-- The piece for strings with one of the delimiters. -/
def stringPart (delimiter : JsString) : JsString :=
  let ch := escapeRegExp delimiter
  ch ++ js "(?:\\\\.|[^\\\\])*?(?:" ++ ch ++ js "|$)"

/-- The piece for numbers. -/
def numberPart : JsString := js "\\b\\d+(?:\\.\\d+)?\\b"

/-- The piece for identifiers. -/
def identifierPart : JsString := js "[A-Za-z_][A-Za-z0-9_]*"

/-- The pieces of a scanner's pattern. -/
def scannerParts (cfg : LangConfig) : List JsString :=
  (cfg.blockComment.map fun b => blockCommentPart b.1 b.2).toList ++
    (cfg.lineComment.map lineCommentPart).toList ++
    cfg.stringChars.map stringPart ++
    [numberPart, identifierPart]

/-- The scanner of a configuration. -/
def buildScanner (cfg : LangConfig) : Result RegExp :=
  RegExp.new (join (js "|") (scannerParts cfg))

/-! ## The alternatives -/

/-- The kinds of text a scanner looks for. -/
inductive Lexeme
  /-- A block comment. -/
  | blockComment (opener closer : JsString)
  /-- A line comment. -/
  | lineComment (opener : JsString)
  /-- A string. -/
  | string (delimiter : JsString)
  /-- A number. -/
  | number
  /-- An identifier. -/
  | identifier
deriving DecidableEq, Repr

namespace Lexeme

/-- The piece of the pattern for an alternative. -/
def part : Lexeme → JsString
  | blockComment opener closer => blockCommentPart opener closer
  | lineComment opener => lineCommentPart opener
  | string delimiter => stringPart delimiter
  | number => numberPart
  | identifier => identifierPart

/-- One character of a string that is not a backslash, or two that are an escape. -/
def stringElement : Regex CodeUnit :=
  .alts [.seqs [.set (oneOf (unit '\\')), dot], .seqs [classSet true [oneOf (unit '\\')]]]

/-- The fraction of a number. -/
def fraction : Regex CodeUnit :=
  .alts [.seqs [.set (oneOf (unit '.')), .plus true (classSet false [isDigit])]]

/-- The expression for an alternative. -/
def regex : Lexeme → Regex CodeUnit
  | blockComment opener closer =>
    .seqs (Regex.lit opener ++ [.star false (classSet false [isSpace, fun c => !isSpace c]),
      .alts [.seqs (Regex.lit closer), .seqs [endOfInput]]])
  | lineComment opener =>
    .seqs (Regex.lit opener ++ [.star true (classSet true [oneOf (unit '\n')])])
  | string delimiter =>
    .seqs (Regex.lit delimiter ++ [.star false stringElement,
      .alts [.seqs (Regex.lit delimiter), .seqs [endOfInput]]])
  | number =>
    .seqs [wordBoundary, .plus true (classSet false [isDigit]), .opt true fraction,
      wordBoundary]
  | identifier =>
    .seqs [classSet false [range (unit 'A') (unit 'Z'), range (unit 'a') (unit 'z'),
        oneOf (unit '_')],
      .star true (classSet false [range (unit 'A') (unit 'Z'), range (unit 'a') (unit 'z'),
        range (unit '0') (unit '9'), oneOf (unit '_')])]

end Lexeme

/-- The alternatives of a configuration, in the order they are tried. -/
def alternatives (cfg : LangConfig) : List Lexeme :=
  (cfg.blockComment.map fun b => .blockComment b.1 b.2).toList ++
    (cfg.lineComment.map .lineComment).toList ++
    cfg.stringChars.map .string ++
    [.number, .identifier]

/-- The alternatives of a scanner, one by one. -/
theorem mem_alternatives {cfg : LangConfig} {a : Lexeme} :
    a ∈ alternatives cfg ↔
      (∃ b ∈ cfg.blockComment, a = .blockComment b.1 b.2) ∨
        (∃ o ∈ cfg.lineComment, a = .lineComment o) ∨
        (∃ d ∈ cfg.stringChars, a = .string d) ∨ a = .number ∨ a = .identifier := by
  simp only [alternatives, List.mem_append, Option.mem_toList, Option.map_eq_some_iff,
    List.mem_map, List.mem_cons, List.not_mem_nil, or_false, Option.mem_def, or_assoc,
    @eq_comm _ _ a]

/-- A configuration's scanner is the choice between its alternatives. -/
def scannerProgram (cfg : LangConfig) : Regex CodeUnit :=
  .alts ((alternatives cfg).map Lexeme.regex)

/-- The parts of the pattern are those of the alternatives, in the same order. -/
theorem scannerParts_eq (cfg : LangConfig) :
    scannerParts cfg = (alternatives cfg).map Lexeme.part := by
  obtain ⟨_, line, block, strings, _⟩ := cfg
  simp only [scannerParts, alternatives, List.map_append, List.map_map]
  cases line <;> cases block <;> rfl

/-! ## Reading the pieces -/

/-- Escaped text reads as itself. -/
theorem read_escapeRegExp (w : JsString) (alternatives terms : List (Regex CodeUnit))
    (outer : List Frame) {mode : Mode} (h : mode.isOpen) :
    ∃ mode', mode'.isOpen ∧
      read ⟨⟨alternatives, terms⟩, outer, mode⟩ (escapeRegExp w) =
        some ⟨⟨alternatives, (Regex.lit w).reverse ++ terms⟩, outer, mode'⟩ := by
  induction w generalizing terms mode with
  | nil => exact ⟨mode, h, rfl⟩
  | cons c cs ih =>
    obtain ⟨mode', hmode', hread⟩ := ih (.set (oneOf c) :: terms) (show Mode.atom.isOpen from rfl)
    refine ⟨mode', hmode', ?_⟩
    -- the terms are kept with the latest first
    have hterms : (Regex.lit (c :: cs)).reverse ++ terms =
        (Regex.lit cs).reverse ++ .set (oneOf c) :: terms := by
      simp only [Regex.lit, List.map_cons, List.reverse_cons, List.append_assoc]
      rfl
    rw [hterms, ← hread, escapeRegExp, List.flatMap_cons]
    by_cases hc : c ∈ syntaxCharacters
    · -- two characters of the pattern, the backslash and the character
      rw [if_pos hc, read_append, read_escaped h hc]
      rfl
    · rw [if_neg hc, List.singleton_append, read_cons, step_of_not_mem_syntaxCharacters h hc]
      rfl

/-- A piece that consists of an escaped text and what reads after it. -/
theorem read_escapeRegExp_append {w rest : JsString} {alternatives terms : List (Regex CodeUnit)}
    {outer : List Frame} {mode : Mode} (h : mode.isOpen) {s : State}
    (hrest : ∀ mode', mode'.isOpen →
      read ⟨⟨alternatives, (Regex.lit w).reverse ++ terms⟩, outer, mode'⟩ rest = some s) :
    read ⟨⟨alternatives, terms⟩, outer, mode⟩ (escapeRegExp w ++ rest) = some s := by
  obtain ⟨mode', hmode', hread⟩ := read_escapeRegExp w alternatives terms outer h
  rw [read_append, hread, Option.bind_some, hrest mode' hmode']

/-- The end of a group whose last alternative is the end of the input. -/
theorem read_orEnd (w : JsString) (alternatives terms : List (Regex CodeUnit))
    (outer : List Frame) :
    read ⟨⟨[], []⟩, ⟨alternatives, terms⟩ :: outer, .start⟩ (escapeRegExp w ++ js "|$)") =
      some ⟨⟨alternatives, .alts [.seqs (Regex.lit w), .seqs [endOfInput]] :: terms⟩, outer,
        .atom⟩ := by
  apply read_escapeRegExp_append rfl
  intro mode hmode
  -- the terms of the closer are closed up in the order they were read
  generalize hts : (Regex.lit w).reverse = ts
  have hw : Regex.lit w = ts.reverse := by rw [← hts, List.reverse_reverse]
  rw [List.append_nil, hw]
  cases mode <;> first | rfl | cases hmode

/-- The part for block comments reads as their expression. -/
theorem denotes_blockComment (opener closer : JsString) :
    Denotes (blockCommentPart opener closer) (Lexeme.blockComment opener closer).regex := by
  intro alternatives outer
  refine ⟨.alts [.seqs (Regex.lit closer), .seqs [endOfInput]] ::
    .star false (classSet false [isSpace, fun c => !isSpace c]) :: (Regex.lit opener).reverse,
    .atom, rfl, by simp [Lexeme.regex], ?_⟩
  rw [blockCommentPart, List.append_assoc, List.append_assoc]
  apply read_escapeRegExp_append rfl
  intro mode hmode
  rw [List.append_nil, ← read_orEnd, read_append]
  -- whatever a `[` follows, it opens a class
  cases mode <;> first | rfl | cases hmode

theorem denotes_lineComment (opener : JsString) :
    Denotes (lineCommentPart opener) (Lexeme.lineComment opener).regex := by
  intro alternatives outer
  refine ⟨.star true (classSet true [oneOf (unit '\n')]) :: (Regex.lit opener).reverse,
    .quantified, rfl, by simp [Lexeme.regex], ?_⟩
  apply read_escapeRegExp_append rfl
  intro mode hmode
  rw [List.append_nil]
  cases mode <;> first | rfl | cases hmode

theorem denotes_string (delimiter : JsString) :
    Denotes (stringPart delimiter) (Lexeme.string delimiter).regex := by
  intro alternatives outer
  refine ⟨.alts [.seqs (Regex.lit delimiter), .seqs [endOfInput]] ::
    .star false Lexeme.stringElement :: (Regex.lit delimiter).reverse,
    .atom, rfl, by simp [Lexeme.regex], ?_⟩
  rw [stringPart, List.append_assoc, List.append_assoc]
  apply read_escapeRegExp_append rfl
  intro mode hmode
  rw [List.append_nil, ← read_orEnd, read_append]
  cases mode <;> first | rfl | cases hmode

theorem denotes_number : Denotes numberPart Lexeme.number.regex := by
  intro alternatives outer
  -- a fixed pattern, which is read by computation
  exact ⟨_, .start, rfl, rfl, rfl⟩

theorem denotes_identifier : Denotes identifierPart Lexeme.identifier.regex := by
  intro alternatives outer
  exact ⟨_, .quantified, rfl, rfl, rfl⟩

/-- Each piece of the pattern reads as the expression of its alternative. -/
theorem denotes_part (a : Lexeme) : Denotes a.part a.regex := by
  cases a with
  | blockComment opener closer => exact denotes_blockComment opener closer
  | lineComment opener => exact denotes_lineComment opener
  | string delimiter => exact denotes_string delimiter
  | number => exact denotes_number
  | identifier => exact denotes_identifier

/-- The pattern of every configuration is well formed and denotes the choice between its
alternatives. -/
theorem buildScanner_eq (cfg : LangConfig) :
    buildScanner cfg = .ok ⟨scannerProgram cfg, 0⟩ := by
  have hparts : List.Forall₂ Denotes (scannerParts cfg)
      ((alternatives cfg).map Lexeme.regex) := by
    rw [scannerParts_eq, List.forall₂_map_left_iff, List.forall₂_map_right_iff]
    exact List.forall₂_same.mpr fun a _ => denotes_part a
  -- there is always the piece for identifiers
  have hne : scannerParts cfg ≠ [] := by simp [scannerParts]
  rw [buildScanner, RegExp.new, compile_join hparts hne]
  rfl

end SyntaxHighlight
