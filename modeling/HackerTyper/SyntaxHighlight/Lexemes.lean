import HackerTyper.SyntaxHighlight.Scanner
import Mathlib.Data.List.TakeWhile

/-!
# How far each lexeme matches

The regular expressions of the scanner, solved: for every alternative the length of its match
at a cursor, as a recursion over the text ahead. The repetitions of the patterns backtrack
only where these functions say so.

## Main definitions

* `blockEnd`, `stringEnd`: the length up to and including the closer of a comment or string;
* `numberLength`, `identifierLength`;
* `Lexeme.length?`: the length of the match of an alternative, if it matches;
* `IsNumeral`: the texts of numbers.

## Main results

* `Lexeme.first_regex`: the matcher reports exactly that match;
* `numberLength_cases`, `identifierLength_cases`, `blockEnd_eq_or_suffix`,
  `stringEnd_eq_or_suffix`: what the matches look like.
-/

namespace SyntaxHighlight

open Js Js.Pattern Lexeme

/-- The length of a block comment after its opener: through the first closer, or to the end
of the text. -/
def blockEnd (closer : JsString) : JsString → ℕ
  | [] => 0
  | x :: xs => if closer <+: x :: xs then closer.length else blockEnd closer xs + 1

/-- The length of a string after its opening delimiter: through the first delimiter that no
backslash escapes, or to the end of the text. There is none when a backslash stands before a
line terminator, or last in the text. -/
def stringEnd (delimiter : JsString) : JsString → Option ℕ
  | [] => some 0
  | x :: xs =>
    -- the repetition is lazy, so the delimiter is tried before the next element
    if delimiter <+: x :: xs then some delimiter.length
    else if x = unit '\\' then
      match xs with
      | [] => none
      -- `.` does not match a line terminator
      | y :: ys => if isLineTerminator y then none else (stringEnd delimiter ys).map (· + 2)
    else (stringEnd delimiter xs).map (· + 1)

/-- A string ends at its delimiter. -/
theorem stringEnd_closer {delimiter xs : JsString} {x : CodeUnit} (h : delimiter <+: x :: xs) :
    stringEnd delimiter (x :: xs) = some delimiter.length := by
  cases xs <;> simp [stringEnd, h]

/-- A string goes on over what is neither its delimiter nor a backslash. -/
theorem stringEnd_plain {delimiter xs : JsString} {x : CodeUnit} (h : ¬delimiter <+: x :: xs)
    (hx : x ≠ unit '\\') :
    stringEnd delimiter (x :: xs) = (stringEnd delimiter xs).map (· + 1) := by
  cases xs <;> simp [stringEnd, h, hx]

/-- A string goes on over an escape, unless that escapes the end of a line. -/
theorem stringEnd_escape {delimiter ys : JsString} {y : CodeUnit}
    (h : ¬delimiter <+: unit '\\' :: y :: ys) (hy : ¬isLineTerminator y) :
    stringEnd delimiter (unit '\\' :: y :: ys) = (stringEnd delimiter ys).map (· + 2) := by
  simp [stringEnd, h, hy]

/-- The number of digits in front. -/
def digitRun (s : JsString) : ℕ := (s.takeWhile isDigit).length

/-- A word character comes next. -/
def wordAhead (s : JsString) : Bool := s.head?.any isWord

/-- The length of a fraction in front that ends at a word boundary. -/
def fractionLength : JsString → ℕ
  | [] => 0
  | x :: xs =>
    if x = unit '.' ∧ digitRun xs ≠ 0 ∧ !wordAhead (xs.drop (digitRun xs)) then digitRun xs + 1
    else 0

/-- The length of the number that starts at a cursor. -/
def numberLength (c : Cursor CodeUnit) : Option ℕ :=
  let n := digitRun c.rest
  -- no boundary in front, no digits, or no boundary behind them
  if c.before.head?.any isWord ∨ n = 0 ∨ wordAhead (c.rest.drop n) then none
  else some (n + fractionLength (c.rest.drop n))

/-- The class `[A-Za-z_]`. -/
def isIdentifierStart (c : CodeUnit) : Bool := isLetter c || decide (c = unit '_')

/-- The length of the identifier in front. -/
def identifierLength : JsString → Option ℕ
  | [] => none
  | x :: xs => if isIdentifierStart x then some ((xs.takeWhile isWord).length + 1) else none

/-- The length of the match of an alternative at a cursor. -/
def Lexeme.length? (a : Lexeme) (c : Cursor CodeUnit) : Option ℕ :=
  match a with
  | blockComment opener closer =>
    if opener <+: c.rest then some (opener.length + blockEnd closer (c.rest.drop opener.length))
    else none
  | lineComment opener =>
    if opener <+: c.rest then
      some (opener.length + ((c.rest.drop opener.length).takeWhile (· ≠ unit '\n')).length)
    else none
  | string delimiter =>
    if delimiter <+: c.rest then
      (stringEnd delimiter (c.rest.drop delimiter.length)).map (delimiter.length + ·)
    else none
  | number => numberLength c
  | identifier => identifierLength c.rest

/-- The length of a match that starts with `opener`, where `close?` is the length of what belongs to
it behind the opener. -/
def openedLength (opener : JsString) (close? : JsString → Option ℕ) (s : JsString) : Option ℕ :=
  if opener <+: s then (close? (s.drop opener.length)).map (opener.length + ·) else none

/-- A block comment runs from its opener to its closer. -/
theorem length?_blockComment (opener closer : JsString) (c : Cursor CodeUnit) :
    (Lexeme.blockComment opener closer).length? c =
      openedLength opener (fun s => some (blockEnd closer s)) c.rest := rfl

/-- A line comment runs from its opener to the end of the line. -/
theorem length?_lineComment (opener : JsString) (c : Cursor CodeUnit) :
    (Lexeme.lineComment opener).length? c =
      openedLength opener (fun s => some (s.takeWhile (· ≠ unit '\n')).length) c.rest := rfl

/-- A string runs from its delimiter to the next one. -/
theorem length?_string (delimiter : JsString) (c : Cursor CodeUnit) :
    (Lexeme.string delimiter).length? c = openedLength delimiter (stringEnd delimiter) c.rest :=
  rfl

/-- What is matched behind an opener. -/
theorem openedLength_append_left (opener : JsString) (close? : JsString → Option ℕ) (u : JsString) :
    openedLength opener close? (opener ++ u) = (close? u).map (opener.length + ·) := by
  rw [openedLength, if_pos (List.prefix_append _ _), List.drop_left]

/-- A match starts with its opener. -/
theorem openedLength_eq_some {opener s : JsString} {close? : JsString → Option ℕ} {n : ℕ}
    (h : openedLength opener close? s = some n) :
    ∃ u m, s = opener ++ u ∧ close? u = some m ∧ n = opener.length + m := by
  rw [openedLength] at h
  split at h
  next hpre =>
    obtain ⟨u, rfl⟩ := hpre
    rw [List.drop_left, Option.map_eq_some_iff] at h
    obtain ⟨m, hm, rfl⟩ := h
    exact ⟨u, m, rfl, hm, rfl⟩
  next => cases h

/-- A match starts with its opener, and what follows in the text decides where it ends. -/
theorem openedLength_cases {opener s : JsString} {close? : JsString → Option ℕ} {n : ℕ}
    (h : openedLength opener close? s = some n) :
    opener <+: s ∧ ∃ m, close? (s.drop opener.length) = some m ∧ n = opener.length + m := by
  obtain ⟨u, m, rfl, hm, rfl⟩ := openedLength_eq_some h
  exact ⟨List.prefix_append _ _, m, by rwa [List.drop_left], rfl⟩

/-! ## Comments -/

/-- `$` matches at the end of the text only. -/
theorem run_endOfInput (c : Cursor CodeUnit) :
    endOfInput.run c = if c.rest = [] then [c] else [] := by
  obtain ⟨b, rest⟩ := c
  cases rest <;> simp [endOfInput, Regex.run]

/-- The end of a comment or string: its closer, or the end of the text. -/
theorem run_orEnd (w : JsString) (c : Cursor CodeUnit) :
    (Regex.seqs [.alts [.seqs (Regex.lit w), .seqs [endOfInput]]]).run c =
      (if w <+: c.rest then [c.advance w.length] else []) ++
        if c.rest = [] then [c] else [] := by
  simp only [Regex.run_seqs_singleton, Regex.run_alts_cons, Regex.run_alts_nil, Regex.run_lit,
    run_endOfInput, List.append_nil]

/-- `[\s\S]` matches every character. -/
theorem run_anything (b : List CodeUnit) (x : CodeUnit) (xs : JsString) :
    (classSet false [isSpace, fun c => !isSpace c]).run ⟨b, x :: xs⟩ = [⟨x :: b, xs⟩] := by
  rw [classSet, Regex.run_set_cons]
  simp

/-- What follows the opener of a block comment matches up to the closer. -/
theorem first_blockEnd (closer : JsString) (c : Cursor CodeUnit) :
    (Regex.seqs [.star false (classSet false [isSpace, fun c => !isSpace c]),
      .alts [.seqs (Regex.lit closer), .seqs [endOfInput]]]).first c =
      some (c.advance (blockEnd closer c.rest)) := by
  obtain ⟨b, rest⟩ := c
  rw [Regex.first, Regex.run_seqs_cons]
  induction rest generalizing b with
  | nil =>
    rw [Regex.head?_lazy_star, run_orEnd]
    -- at the end of the text, `$` matches if the closer does not
    by_cases h : closer <+: []
    · simp [blockEnd, List.prefix_nil.mp h]
    · simp [blockEnd, h]
  | cons x xs ih =>
    rw [Regex.head?_lazy_star, run_orEnd, classSet, Regex.consuming_set, ← classSet, run_anything]
    by_cases h : closer <+: x :: xs
    · -- the comment is closed here
      simp [h, blockEnd]
    · -- the repetition takes one more character
      simp [h, blockEnd, ih]

/-- What follows the opener of a line comment matches up to the end of the line. -/
theorem first_lineEnd (c : Cursor CodeUnit) :
    (Regex.seqs [.star true (classSet true [oneOf (unit '\n')])]).first c =
      some (c.advance (c.rest.takeWhile (· ≠ unit '\n')).length) := by
  have hset : classSet true [oneOf (unit '\n')] = .set (fun x => decide (x ≠ unit '\n')) := by
    simp [classSet, oneOf]
  rw [hset, Regex.first, Regex.run_seqs_singleton]
  exact Regex.first_star_set _ c

/-! ## Strings -/

/-- One step inside a string. -/
theorem run_stringElement (b : List CodeUnit) (x : CodeUnit) (xs : JsString) :
    Lexeme.stringElement.run ⟨b, x :: xs⟩ =
      if x = unit '\\' then
        match xs with
        | [] => []
        | y :: ys => if isLineTerminator y then [] else [⟨y :: x :: b, ys⟩]
      else [⟨x :: b, xs⟩] := by
  simp only [Lexeme.stringElement, Regex.run_alts_cons, Regex.run_alts_nil,
    Regex.run_seqs_cons, Regex.flatMap_run_seqs_nil, classSet, dot, Regex.run_set_cons,
    List.append_nil]
  -- a backslash can only be read together with what follows it
  by_cases hx : x = unit '\\'
  · cases xs with
    | nil => simp [hx, oneOf]
    | cons y ys =>
      cases hy : isLineTerminator y <;> simp [hx, hy, oneOf, Regex.run_set_cons]
  · simp [hx, oneOf]

/-- An element of a string is not empty. -/
theorem consuming_stringElement (c : Cursor CodeUnit) :
    Regex.consuming Lexeme.stringElement.run c = Lexeme.stringElement.run c := by
  obtain ⟨b, rest⟩ := c
  cases rest with
  | nil => rfl
  | cons x xs =>
    rw [Regex.consuming, run_stringElement]
    by_cases hx : x = unit '\\'
    · cases xs with
      | nil => simp [hx]
      | cons y ys =>
        have hlt : ys.length < ys.length + 1 + 1 := by omega
        cases hy : isLineTerminator y with
        | false =>
          simp only [hx, hy, if_true, Bool.false_eq_true, if_false, List.length_cons,
            List.filter_cons, List.filter_nil, hlt, decide_true]
        | true => simp [hx, hy]
    · simp [hx]

/-- What follows the delimiter of a string matches up to the next one. -/
theorem first_stringEnd (delimiter : JsString) (c : Cursor CodeUnit) :
    (Regex.seqs [.star false Lexeme.stringElement,
      .alts [.seqs (Regex.lit delimiter), .seqs [endOfInput]]]).first c =
      (stringEnd delimiter c.rest).map c.advance := by
  obtain ⟨b, rest⟩ := c
  rw [Regex.first, Regex.run_seqs_cons]
  induction rest using stringEnd.induct delimiter generalizing b with
  | case1 =>
    rw [Regex.head?_lazy_star, run_orEnd]
    by_cases h : delimiter <+: []
    · simp [stringEnd, List.prefix_nil.mp h]
    · simp [stringEnd, h]
  | case2 x xs h =>
    rw [Regex.head?_lazy_star, run_orEnd]
    simp [stringEnd_closer, h]
  | case3 h =>
    -- a backslash at the end of the text: there is no way on
    rw [Regex.head?_lazy_star, run_orEnd, consuming_stringElement, run_stringElement]
    simp [stringEnd, h]
  | case4 y ys h hy =>
    rw [Regex.head?_lazy_star, run_orEnd, consuming_stringElement, run_stringElement]
    -- a backslash in front of a line terminator: there is no way on
    simp [stringEnd, h, hy]
  | case5 y ys h hy ih =>
    rw [Regex.head?_lazy_star, run_orEnd, consuming_stringElement, run_stringElement]
    simp [stringEnd, h, hy, ih, Option.map_map, Function.comp_def]
  | case6 x xs h hx ih =>
    rw [Regex.head?_lazy_star, run_orEnd, consuming_stringElement, run_stringElement]
    simp [stringEnd_plain, h, hx, ih, Option.map_map, Function.comp_def]

/-! ## Numbers and identifiers -/

theorem take_length_takeWhile (p : CodeUnit → Bool) (s : JsString) :
    s.take (s.takeWhile p).length = s.takeWhile p :=
  (List.prefix_iff_eq_take.mp (List.takeWhile_prefix _)).symm

theorem take_digitRun (s : JsString) : s.take (digitRun s) = s.takeWhile isDigit :=
  take_length_takeWhile isDigit s

theorem takeWhile_isDigit_ne_nil {s : JsString} (h : digitRun s ≠ 0) :
    s.takeWhile isDigit ≠ [] :=
  List.length_pos_iff.mp (Nat.pos_of_ne_zero h)

theorem classSet_isDigit : classSet false [isDigit] = .set isDigit := by
  simp [classSet]

/-- `\b` matches where a word character is on one side only. -/
theorem run_wordBoundary (c : Cursor CodeUnit) :
    wordBoundary.run c =
      if c.before.head?.any isWord != wordAhead c.rest then [c] else [] := rfl

/-- There is no word boundary between two digits. -/
theorem run_wordBoundary_digits {b : List CodeUnit} {x y : CodeUnit} {xs : JsString}
    (hx : isDigit x) (hy : isDigit y) : wordBoundary.run ⟨x :: b, y :: xs⟩ = [] := by
  simp [run_wordBoundary, wordAhead, isWord_of_isDigit hx, isWord_of_isDigit hy]

/-- A fraction is a point with digits behind it. -/
theorem run_fraction (c : Cursor CodeUnit) :
    fraction.run c = (Regex.seq (.set (oneOf (unit '.'))) (.plus true (.set isDigit))).run c := by
  simp only [fraction, classSet_isDigit, Regex.run_alts_singleton, Regex.run_seqs_cons, Regex.run]
  congr 1
  funext c'
  exact Regex.run_seqs_singleton _ c'

/-- The candidates for a fraction, once the boundary after it is taken into account. -/
theorem flatMap_fraction (c : Cursor CodeUnit) :
    (fraction.run c).flatMap wordBoundary.run =
      match c.rest with
      | [] => []
      | x :: xs =>
        if x = unit '.' ∧ digitRun xs ≠ 0 then wordBoundary.run (c.advance (digitRun xs + 1))
        else [] := by
  obtain ⟨b, rest⟩ := c
  have hstop : ∀ b x y xs, isDigit x → isDigit y → wordBoundary.run ⟨x :: b, y :: xs⟩ = [] :=
    fun b x y xs hx hy => run_wordBoundary_digits hx hy
  rw [run_fraction, Regex.run]
  cases rest with
  | nil => rfl
  | cons x xs =>
    rw [Regex.run_set_cons]
    by_cases hx : x = unit '.'
    · -- the digits behind the point are possessive, as the boundary must come after them
      subst hx
      have hplus := Regex.flatMap_plus_set_of_possessive isDigit _ hstop ⟨unit '.' :: b, xs⟩
      by_cases hn : (xs.takeWhile isDigit).length = 0 <;> simp [oneOf, digitRun, hn, hplus]
    · simp [hx, oneOf]

/-- The candidates for the end of a number after its integer part. -/
theorem flatMap_opt_fraction (c : Cursor CodeUnit) :
    ((Regex.opt true fraction).run c).flatMap wordBoundary.run =
      (fraction.run c).flatMap wordBoundary.run ++ wordBoundary.run c := by
  -- a fraction is never empty, since it starts with the point
  have hconsuming : Regex.consuming fraction.run c = fraction.run c := by
    have hrun : fraction.run =
        (Regex.seq (.set (oneOf (unit '.'))) (.plus true (.set isDigit))).run :=
      funext run_fraction
    rw [hrun]
    exact Regex.consuming_seq_set _ _ c
  rw [Regex.run, Regex.arrange, if_pos rfl, hconsuming, List.flatMap_append,
    List.flatMap_singleton]

/-- After a run of digits the character behind the cursor is a word character. -/
theorem wordBehind_advance_digitRun {c : Cursor CodeUnit} (h : digitRun c.rest ≠ 0) :
    (c.advance (digitRun c.rest)).before.head?.any isWord = true := by
  have hne := takeWhile_isDigit_ne_nil h
  -- the last element of the run is a digit
  have hlast : isDigit ((c.rest.takeWhile isDigit).getLast hne) :=
    List.mem_takeWhile_imp (List.getLast_mem hne)
  rw [Cursor.before_advance, take_digitRun, List.head?_append, List.head?_reverse,
    List.getLast?_eq_getLast_of_ne_nil hne]
  simpa using isWord_of_isDigit hlast

/-- Behind digits, the matcher takes the longest fraction that ends at a word boundary. -/
theorem head?_afterDigits {c : Cursor CodeUnit} (h : c.before.head?.any isWord = true) :
    (((Regex.opt true fraction).run c).flatMap wordBoundary.run).head? =
      if wordAhead c.rest then none else some (c.advance (fractionLength c.rest)) := by
  rw [flatMap_opt_fraction, flatMap_fraction, run_wordBoundary, h]
  obtain ⟨b, rest⟩ := c
  cases rest with
  | nil => simp [wordAhead, fractionLength]
  | cons x xs =>
    by_cases hx : x = unit '.'
    · subst hx
      have hdot : wordAhead (unit '.' :: xs) = false := rfl
      by_cases hn : digitRun xs = 0
      · -- a point without digits: the number ends in front of it
        simp [hdot, hn, fractionLength]
      · -- with digits, it depends on what follows them whether the fraction is taken
        have hbehind := wordBehind_advance_digitRun (c := ⟨unit '.' :: b, xs⟩) hn
        have hend : wordBoundary.run ((Cursor.mk (unit '.' :: b) xs).advance (digitRun xs)) =
            if wordAhead (xs.drop (digitRun xs)) then []
            else [(Cursor.mk (unit '.' :: b) xs).advance (digitRun xs)] := by
          rw [run_wordBoundary, hbehind, Cursor.rest_advance]
          cases wordAhead (xs.drop (digitRun xs)) <;> rfl
        cases hw : wordAhead (xs.drop (digitRun xs)) <;>
          simp [hdot, hn, hw, hend, fractionLength]
    · -- without a point, the number ends here if there is a boundary
      cases hw : wordAhead (x :: xs) <;> simp [hx, fractionLength]

theorem wordAhead_of_digitRun {s : JsString} (h : digitRun s ≠ 0) : wordAhead s = true := by
  cases s with
  | nil => exact absurd rfl h
  | cons x xs =>
    by_cases hx : isDigit x
    · -- a digit is a word character
      simp [wordAhead, isWord_of_isDigit hx]
    · simp [digitRun, hx] at h

/-- The number of the scanner, by its length. -/
theorem first_number (c : Cursor CodeUnit) :
    Lexeme.number.regex.first c = (numberLength c).map c.advance := by
  -- the optional fraction and the boundary after it, as the continuation of the digits
  let K : Cursor CodeUnit → List (Cursor CodeUnit) := fun c =>
    ((Regex.opt true fraction).run c).flatMap wordBoundary.run
  -- between two digits the number can neither go on with a point nor end
  have hK : ∀ b x y xs, isDigit x → isDigit y → K ⟨x :: b, y :: xs⟩ = [] := by
    intro b x y xs hx hy
    have hdot : y ≠ unit '.' := by
      rintro rfl
      exact absurd hy (by decide)
    simp only [K, flatMap_opt_fraction, flatMap_fraction, hdot, false_and, if_false,
      run_wordBoundary_digits hx hy, List.append_nil]
  have hrun : Lexeme.number.regex.run c =
      (wordBoundary.run c).flatMap fun c' =>
        ((Regex.plus true (.set isDigit)).run c').flatMap K := by
    have hlast : ∀ c, (Regex.seqs [.opt true fraction, wordBoundary]).run c = K c := by
      intro c
      rw [Regex.run_seqs_cons]
      congr 1
      funext c'
      exact Regex.run_seqs_singleton _ c'
    rw [Lexeme.regex, classSet_isDigit, Regex.run_seqs_cons]
    congr 1
    funext c'
    rw [Regex.run_seqs_cons]
    congr 1
    funext c''
    exact hlast c''
  rw [Regex.first, hrun, run_wordBoundary, numberLength]
  by_cases hn : digitRun c.rest = 0
  · -- no digit comes next
    have hnone : ((Regex.plus true (.set isDigit)).run c).flatMap K = [] := by
      rw [Regex.flatMap_plus_set_of_possessive isDigit K hK]
      exact if_pos hn
    split <;> simp [hnone, hn]
  · -- the whole run of digits is taken
    have hdigits : ((Regex.plus true (.set isDigit)).run c).flatMap K =
        K (c.advance (digitRun c.rest)) := by
      rw [Regex.flatMap_plus_set_of_possessive isDigit K hK]
      exact if_neg hn
    have hafter := head?_afterDigits (wordBehind_advance_digitRun hn)
    rw [wordAhead_of_digitRun hn]
    cases hprev : c.before.head?.any isWord with
    -- a word character behind the cursor: no boundary in front of the digits
    | true => simp
    | false =>
      simp only [Bool.false_bne, if_true, List.flatMap_singleton, hdigits, K, hafter,
        Cursor.rest_advance, Cursor.advance_advance, hn, false_or, Bool.false_eq_true]
      split <;> simp

theorem classSet_identifierStart :
    classSet false [range (unit 'A') (unit 'Z'), range (unit 'a') (unit 'z'), oneOf (unit '_')] =
      .set isIdentifierStart := by
  rw [classSet]
  congr 1
  funext c
  simp [isIdentifierStart, isLetter, between, range, oneOf, Bool.or_assoc]

theorem classSet_identifierPart :
    classSet false [range (unit 'A') (unit 'Z'), range (unit 'a') (unit 'z'),
      range (unit '0') (unit '9'), oneOf (unit '_')] = .set isWord := by
  rw [classSet]
  congr 1
  funext c
  simp [isWord, isDigit, isLetter, between, range, oneOf, Bool.or_assoc]

/-- The identifier of the scanner, by its length. -/
theorem first_identifier (c : Cursor CodeUnit) :
    Lexeme.identifier.regex.first c = (identifierLength c.rest).map c.advance := by
  obtain ⟨b, rest⟩ := c
  rw [Lexeme.regex, classSet_identifierStart, classSet_identifierPart, Regex.first,
    Regex.run_seqs_cons]
  cases rest with
  | nil => rfl
  | cons x xs =>
    -- nothing follows the repetition, so it takes the whole run
    have hstar := Regex.first_star_set isWord ⟨x :: b, xs⟩
    rw [Regex.first] at hstar
    by_cases hx : isIdentifierStart x
    · simp [Regex.run_set_cons, hx, identifierLength, hstar]
    · simp [Regex.run_set_cons, hx, identifierLength]

/-- The matcher reports for each alternative the match of the given length. -/
theorem Lexeme.first_regex (a : Lexeme) (c : Cursor CodeUnit) :
    a.regex.first c = (a.length? c).map c.advance := by
  cases a with
  | blockComment opener closer =>
    rw [Lexeme.regex, Regex.first_seqs_lit_append, first_blockEnd, Lexeme.length?]
    split <;> simp [Cursor.advance_advance]
  | lineComment opener =>
    rw [Lexeme.regex, Regex.first_seqs_lit_append, first_lineEnd, Lexeme.length?]
    split <;> simp [Cursor.advance_advance]
  | string delimiter =>
    rw [Lexeme.regex, Regex.first_seqs_lit_append, first_stringEnd, Lexeme.length?]
    split
    · rw [Option.map_map]
      congr 1
      funext n
      exact Cursor.advance_advance c _ n
    · rfl
  | number => exact first_number c
  | identifier => exact first_identifier c

/-! ## What the lexemes look like -/

/-- Digits, optionally followed by a point and digits. -/
def IsNumeral (w : JsString) : Prop :=
  ∃ digits, digits ≠ [] ∧ (∀ x ∈ digits, isDigit x) ∧
    (w = digits ∨ ∃ fraction, fraction ≠ [] ∧ (∀ x ∈ fraction, isDigit x) ∧
      w = digits ++ unit '.' :: fraction)

theorem drop_length_takeWhile (p : CodeUnit → Bool) (s : JsString) :
    s.drop (s.takeWhile p).length = s.dropWhile p := by
  induction s with
  | nil => rfl
  | cons x xs ih => by_cases hx : p x <;> simp [hx, ih]

/-- A run is followed by an element that does not belong to it, or by none. -/
theorem any_head?_drop_takeWhile {p q : CodeUnit → Bool} (hpq : ∀ x, p x = false → q x = false)
    (s : JsString) : (s.drop (s.takeWhile p).length).head?.any q = false := by
  have hhead := List.head?_dropWhile_not p s
  rw [drop_length_takeWhile]
  cases hd : (s.dropWhile p).head? with
  | none => rfl
  | some x =>
    rw [hd] at hhead
    exact hpq x hhead

/-- No word character follows a run of word characters. -/
theorem wordAhead_drop_takeWhile (s : JsString) :
    wordAhead (s.drop (s.takeWhile isWord).length) = false :=
  any_head?_drop_takeWhile (fun _ h => h) s

/-- A fraction is a point and digits at the end of a word, or is not there. -/
theorem fractionLength_cases (s : JsString) :
    fractionLength s = 0 ∨ ∃ fraction, fraction ≠ [] ∧ (∀ x ∈ fraction, isDigit x) ∧
      s.take (fractionLength s) = unit '.' :: fraction ∧
      wordAhead (s.drop (fractionLength s)) = false := by
  cases s with
  | nil => exact Or.inl rfl
  | cons x xs =>
    rw [fractionLength]
    split
    next h =>
      obtain ⟨rfl, hdigits, hend⟩ := h
      right
      refine ⟨xs.takeWhile isDigit, takeWhile_isDigit_ne_nil hdigits,
        fun x hx => List.mem_takeWhile_imp hx, ?_, ?_⟩
      · rw [List.take_succ_cons, take_digitRun]
      · simpa using hend
    next => exact Or.inl rfl

/-- A number is a numeral that no word character touches. -/
theorem numberLength_cases {c : Cursor CodeUnit} {n : ℕ} (h : numberLength c = some n) :
    c.before.head?.any isWord = false ∧ IsNumeral (c.rest.take n) ∧
      wordAhead (c.rest.drop n) = false := by
  simp only [numberLength] at h
  split at h
  next => cases h
  next hcond =>
    cases h
    obtain ⟨hbefore, hrest⟩ := not_or.mp hcond
    obtain ⟨hdigits, hahead⟩ := not_or.mp hrest
    rw [List.take_add, take_digitRun, ← List.drop_drop]
    have hall : ∀ x ∈ c.rest.takeWhile isDigit, isDigit x := fun x hx =>
      List.mem_takeWhile_imp hx
    refine ⟨Bool.not_eq_true _ ▸ hbefore, ?_⟩
    rcases fractionLength_cases (c.rest.drop (digitRun c.rest)) with
      hzero | ⟨fraction, hne, hfraction, htake, hend⟩
    · -- the number ends behind its digits
      rw [hzero, List.take_zero, List.append_nil, List.drop_zero]
      exact ⟨⟨_, takeWhile_isDigit_ne_nil hdigits, hall, Or.inl rfl⟩,
        Bool.not_eq_true _ ▸ hahead⟩
    · rw [htake]
      exact ⟨⟨_, takeWhile_isDigit_ne_nil hdigits, hall, Or.inr ⟨fraction, hne, hfraction, rfl⟩⟩,
        hend⟩

theorem isWord_of_isIdentifierStart {x : CodeUnit} (hx : isIdentifierStart x) : isWord x := by
  rcases Bool.or_eq_true_iff.mp hx with h | h
  · simp [isWord, h]
  · simp [isWord, of_decide_eq_true h]

/-- An identifier is a run of word characters that begins with no digit. -/
theorem identifierLength_cases {s : JsString} {n : ℕ} (h : identifierLength s = some n) :
    (∃ x xs, s = x :: xs ∧ isIdentifierStart x) ∧ (∀ x ∈ s.take n, isWord x) ∧
      wordAhead (s.drop n) = false := by
  cases s with
  | nil => cases h
  | cons x xs =>
    rw [identifierLength] at h
    split at h
    next hx =>
      cases h
      refine ⟨⟨x, xs, rfl, hx⟩, ?_, wordAhead_drop_takeWhile xs⟩
      rw [List.take_succ_cons, take_length_takeWhile]
      intro y hy
      rcases List.mem_cons.mp hy with rfl | hy
      · exact isWord_of_isIdentifierStart hx
      · exact List.mem_takeWhile_imp hy
    next => cases h

/-- A block comment ends with its closer, or with the text. -/
theorem blockEnd_eq_or_suffix (closer s : JsString) :
    blockEnd closer s = s.length ∨ closer <:+ s.take (blockEnd closer s) := by
  induction s with
  | nil => exact Or.inl rfl
  | cons x xs ih =>
    rw [blockEnd]
    split
    next hpre =>
      right
      rw [← List.prefix_iff_eq_take.mp hpre]
    next =>
      rcases ih with hlen | hsuffix
      · exact Or.inl (by rw [hlen, List.length_cons])
      · exact Or.inr (hsuffix.trans (List.suffix_cons x _))

/-- A string ends with its delimiter, or with the text. -/
theorem stringEnd_eq_or_suffix {delimiter s : JsString} {n : ℕ}
    (h : stringEnd delimiter s = some n) : n = s.length ∨ delimiter <:+ s.take n := by
  induction s using stringEnd.induct delimiter generalizing n with
  | case1 =>
    cases h
    exact Or.inl rfl
  | case2 x xs hd =>
    rw [stringEnd_closer hd] at h
    cases h
    right
    rw [← List.prefix_iff_eq_take.mp hd]
  | case3 hd => simp [stringEnd, hd] at h
  | case4 y ys hy hd => simp [stringEnd, hd, hy] at h
  | case5 y ys hy hd ih =>
    rw [stringEnd_escape hd hy, Option.map_eq_some_iff] at h
    obtain ⟨m, hm, rfl⟩ := h
    rcases ih hm with rfl | hsuffix
    · exact Or.inl rfl
    · exact Or.inr ((hsuffix.trans (List.suffix_cons y _)).trans (List.suffix_cons _ _))
  | case6 x xs hd hx ih =>
    rw [stringEnd_plain hd hx, Option.map_eq_some_iff] at h
    obtain ⟨m, hm, rfl⟩ := h
    rcases ih hm with rfl | hsuffix
    · exact Or.inl rfl
    · exact Or.inr (hsuffix.trans (List.suffix_cons x _))

end SyntaxHighlight
