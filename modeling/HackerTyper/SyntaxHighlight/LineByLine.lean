import HackerTyper.Foundations.Concatenation
import HackerTyper.SyntaxHighlight.Coloring
import HackerTyper.SyntaxHighlight.Incremental

/-!
# Line by line

Most editors colour a text line by line. Here the whole text is scanned, and a string or a block
comment may run over the end of a line. Where a newline is in neither, nothing in front of it
matters behind it: a newline is part of no word, so that it ends every identifier and number,
and it is part of no opener.

## Main results

* `length?_extend_of_newline`: an alternative that matches inside a text that ends in a newline
  does so in every continuation, and one that does not match there never does;
* `characters_tokens_append`: the characters behind a plain newline have the types they have alone;
* `tokenize_lines`: a text whose newlines are plain can be tokenized line by line.
-/

namespace SyntaxHighlight

open Js Lexeme

/-! ## In front of a newline -/

/-- What has no newline does not reach behind one. -/
theorem prefix_newline_iff {w : JsString} (hw : unit '\n' ∉ w) (u s : JsString) :
    w <+: u ++ unit '\n' :: s ↔ w <+: u := by
  refine ⟨fun hpre => ?_, fun hpre => hpre.trans (List.prefix_append _ _)⟩
  have hline : u ++ [unit '\n'] <+: u ++ unit '\n' :: s := ⟨s, by simp⟩
  rcases le_or_gt w.length u.length with hle | hlt
  · exact List.prefix_of_prefix_length_le hpre (List.prefix_append _ _) hle
  · -- a longer opener would contain the newline
    have hin : u ++ [unit '\n'] <+: w :=
      List.prefix_of_prefix_length_le hline hpre (by rw [List.length_append]; exact hlt)
    exact absurd (hin.subset (by simp)) hw

/-- A run of characters ends at a newline at the latest. -/
theorem takeWhile_newline {p : CodeUnit → Bool} (hp : p (unit '\n') = false) (u s : JsString) :
    (u ++ unit '\n' :: s).takeWhile p = u.takeWhile p := by
  induction u with
  | nil => simp [hp]
  | cons x xs ih => rw [List.cons_append, List.takeWhile_cons, List.takeWhile_cons, ih]

theorem digitRun_newline (u s : JsString) : digitRun (u ++ unit '\n' :: s) = digitRun u := by
  rw [digitRun, takeWhile_newline (by decide), digitRun]

theorem wordAhead_newline (u s : JsString) : wordAhead (u ++ unit '\n' :: s) = wordAhead u := by
  cases u with
  | nil => rfl
  | cons x xs => rfl

theorem drop_digitRun_newline (u s : JsString) :
    (u ++ unit '\n' :: s).drop (digitRun u) = u.drop (digitRun u) ++ unit '\n' :: s :=
  List.drop_append_of_le_length (digitRun_le u)

theorem fractionLength_newline (u s : JsString) :
    fractionLength (u ++ unit '\n' :: s) = fractionLength u := by
  cases u with
  | nil => rfl
  | cons x xs =>
    rw [List.cons_append, fractionLength, fractionLength, digitRun_newline,
      drop_digitRun_newline, wordAhead_newline]

/-- A newline ends a number, whatever follows it. -/
theorem numberLength_newline (b u s : JsString) :
    numberLength ⟨b, u ++ unit '\n' :: s⟩ = numberLength ⟨b, u⟩ := by
  simp only [numberLength, digitRun_newline, drop_digitRun_newline, wordAhead_newline,
    fractionLength_newline]

/-- A newline ends an identifier, whatever follows it. -/
theorem identifierLength_newline (u s : JsString) :
    identifierLength (u ++ unit '\n' :: s) = identifierLength u := by
  cases u with
  | nil => rfl
  | cons x xs =>
    rw [List.cons_append, identifierLength, identifierLength, takeWhile_newline (by decide)]

/-- A string that is closed in front of a newline is so whatever follows it, and one that meets
an escape that fails fails in any case. -/
theorem stringEnd_newline {q : CodeUnit} {u : JsString} (s : JsString)
    (hin : ∀ n, stringEnd [q] (u ++ [unit '\n']) = some n → n < u.length + 1) :
    stringEnd [q] (u ++ unit '\n' :: s) = stringEnd [q] (u ++ [unit '\n']) := by
  have happend : u ++ unit '\n' :: s = (u ++ [unit '\n']) ++ s := by simp
  have heven : Even (trailingBackslashes (u ++ [unit '\n'])) := by
    have hzero : trailingBackslashes (u ++ [unit '\n']) = 0 := by
      rw [trailingBackslashes, List.reverse_append]
      rfl
    rw [hzero]
    exact Even.zero
  rw [happend]
  cases hend : stringEnd [q] (u ++ [unit '\n']) with
  | none => exact stringEnd_append_eq_none hend heven
  | some n => exact stringEnd_append hend (by simpa using hin n hend)

/-- What starts with an opener does so in every continuation of a text that ends in a newline, and
ends there as it ends in the text, if its end does. -/
theorem openedLength_newline {opener u : JsString} {close? : JsString → Option ℕ} (s : JsString)
    (hopener : unit '\n' ∉ opener)
    (hclose : ∀ v, (∀ n, close? (v ++ [unit '\n']) = some n → n < v.length + 1) →
      close? (v ++ unit '\n' :: s) = close? (v ++ [unit '\n']))
    (hin : ∀ n, openedLength opener close? (u ++ [unit '\n']) = some n → n < u.length + 1) :
    openedLength opener close? (u ++ unit '\n' :: s) =
      openedLength opener close? (u ++ [unit '\n']) := by
  by_cases hpre : opener <+: u
  · obtain ⟨v, rfl⟩ := hpre
    simp only [List.append_assoc, openedLength_append_left, List.length_append] at hin ⊢
    rw [hclose v]
    intro n hn
    have hlt := hin (opener.length + n) (by rw [hn]; rfl)
    omega
  · rw [openedLength, openedLength, if_neg (mt (prefix_newline_iff hopener u s).mp hpre),
      if_neg (mt (prefix_newline_iff hopener u []).mp hpre)]

/-- An alternative that matches inside a text that ends in a newline does so in every
continuation, and one that does not match there does not match in any. -/
theorem length?_extend_of_newline {cfg : LangConfig} (hcfg : cfg.Lexable)
    (hsep : cfg.Separated) (hline : [unit '\n'] ∉ cfg.stringChars)
    {a : Lexeme} (ha : a ∈ alternatives cfg) {c : Cursor CodeUnit} {u s : JsString}
    (hrest : c.rest = u ++ [unit '\n']) (hin : ∀ n, a.length? c = some n → n < c.rest.length) :
    a.length? (c.extend s) = a.length? c := by
  obtain ⟨b, rest⟩ := c
  obtain rfl : rest = u ++ [unit '\n'] := hrest
  have happend : u ++ [unit '\n'] ++ s = u ++ unit '\n' :: s := by simp
  simp only [Cursor.extend, happend, List.length_append, List.length_singleton] at *
  rcases mem_alternatives.mp ha with ⟨b, hb, rfl⟩ | ⟨opener, ho, rfl⟩ | ⟨d, hd, rfl⟩ | rfl | rfl
  · rw [length?_blockComment, length?_blockComment]
    simp only [length?_blockComment] at hin
    refine openedLength_newline s (hsep.block _ hb).2 (fun v hv => ?_) hin
    -- the comment is closed in front of the newline
    have hend : blockEnd b.2 (v ++ [unit '\n']) < (v ++ [unit '\n']).length := by
      simpa using hv _ rfl
    rw [← blockEnd_append hend, List.append_assoc, List.singleton_append]
  · rw [length?_lineComment, length?_lineComment]
    simp only [length?_lineComment] at hin
    refine openedLength_newline s (hsep.line _ ho).2 (fun v _ => ?_) hin
    -- the comment ends at the newline at the latest
    rw [takeWhile_newline (by simp), takeWhile_newline (by simp)]
  · obtain ⟨q, rfl⟩ := List.length_eq_one_iff.mp (hcfg.string d hd).1
    have hq : unit '\n' ∉ [q] := fun hmem => hline (by rwa [List.mem_singleton.mp hmem])
    exact openedLength_newline s hq (fun v hv => stringEnd_newline s hv) hin
  · exact (numberLength_newline _ u s).trans (numberLength_newline _ u []).symm
  · exact (identifierLength_newline u s).trans (identifierLength_newline u []).symm

/-- At every position of a text that ends in a newline, the scanner finds what it finds in every
continuation, unless it finds a match that reaches the end of the text. -/
theorem match?_extend_of_newline {cfg : LangConfig} (hcfg : cfg.Lexable)
    (hsep : cfg.Separated) (hline : [unit '\n'] ∉ cfg.stringChars) {p : JsString}
    (hp : p.getLast? = some (unit '\n')) (s : JsString) {c : Cursor CodeUnit} (htext : c.text = p)
    (hne : c.rest ≠ [])
    (hin : ∀ k n, (lexer cfg hcfg).match? c = some (k, n) → n < c.rest.length) :
    (lexer cfg hcfg).match? (c.extend s) = (lexer cfg hcfg).match? c := by
  have hrest : c.rest = c.rest.dropLast ++ [unit '\n'] := by
    have hlast : c.rest.getLast? = some (unit '\n') := by
      rw [← hp, ← htext, Cursor.text, List.getLast?_append_of_ne_nil _ hne]
    exact (List.dropLast_append_getLast? _ hlast).symm
  have hextend : ∀ a ∈ alternatives cfg, (∀ n, a.length? c = some n → n < c.rest.length) →
      a.length? (c.extend s) = a.length? c :=
    fun a ha => length?_extend_of_newline hcfg hsep hline ha hrest
  have hnone : ∀ a ∈ alternatives cfg, a.length? c = none → a.length? (c.extend s) = none := by
    intro a ha h
    rw [hextend a ha (by rw [h]; rintro n ⟨⟩), h]
  cases hm : (lexer cfg hcfg).match? c with
  | none =>
    refine List.findSome?_eq_none_iff.mpr fun a ha => ?_
    have h := List.findSome?_eq_none_iff.mp hm a ha
    rw [Option.map_eq_none_iff] at h ⊢
    exact hnone a ha h
  | some m =>
    obtain ⟨k, n⟩ := m
    -- the alternatives before the one that matches do not match
    obtain ⟨before, a, after, hsplit, ha, hbefore⟩ := List.findSome?_eq_some_iff.mp hm
    refine List.findSome?_eq_some_iff.mpr ⟨before, a, after, hsplit, ?_, fun x hx => ?_⟩
    · obtain ⟨m, hlength, heq⟩ := Option.map_eq_some_iff.mp ha
      cases heq
      have hstay : k.length? (c.extend s) = k.length? c := by
        refine hextend k (by simp [hsplit]) fun m hm' => ?_
        rw [hlength] at hm'
        cases hm'
        exact hin k n hm
      rw [hstay, hlength]
      rfl
    · have h := hbefore x hx
      rw [Option.map_eq_none_iff] at h ⊢
      exact hnone x (by simp [hsplit, hx]) h

/-! ## Behind a newline -/

/-- The type that the characters of a segment have. -/
def cellType (cfg : LangConfig) : Option (Lexeme × JsString) → TokenType
  | some (_, m) => classify cfg m
  | none => .plain

/-- The types of characters are the labels of the scanner. -/
theorem characters_tokens (cfg : LangConfig) (hcfg : cfg.Lexable) (text : JsString) :
    characters (tokens cfg hcfg text) = (lexer cfg hcfg).cells (cellType cfg) text := by
  rw [characters, tokens, List.flatMap_map, Lexer.cells]
  congr 1
  funext seg
  obtain ⟨kind, start, w⟩ := seg
  cases kind with
  | none => rfl
  | some k => rfl

/-- A plain newline at the end of a text is in a gap. -/
theorem endsInGap_of_newline {cfg : LangConfig} (hcfg : cfg.Lexable) {p : JsString}
    (hp : (characters (tokens cfg hcfg p)).getLast? = some (unit '\n', .plain)) :
    (lexer cfg hcfg).EndsInGap p := by
  intro seg hseg hstop
  have hmem : (seg.start, toToken cfg seg) ∈ located 0 (tokens cfg hcfg p) :=
    mem_located_tokens.mpr ⟨seg, hseg, rfl, rfl⟩
  have hpos := List.length_pos_iff.mpr ((lexer cfg hcfg).text_ne_nil_of_mem_segments p seg hseg)
  rw [Segment.stop] at hstop
  -- the newline is the last character of the segment
  have hlast : seg.text[seg.text.length - 1]? = some (unit '\n') ∧
      (toToken cfg seg).type = .plain := by
    have hlength : (characters (tokens cfg hcfg p)).length = p.length := by
      rw [← List.length_map (f := Prod.fst), map_fst_characters, flatMap_text_tokens]
    have hget := (getElem?_characters hmem (j := seg.text.length - 1)
      (show seg.text.length - 1 < seg.text.length by omega)).2
    rw [List.getLast?_eq_getElem?, hlength] at hp
    rw [show seg.start - 0 + (seg.text.length - 1) = p.length - 1 by omega, hp] at hget
    obtain ⟨x, hx, heq⟩ := Option.map_eq_some_iff.mp hget.symm
    obtain ⟨rfl, htype⟩ := Prod.mk.inj heq
    exact ⟨hx, htype⟩
  obtain ⟨hnewline, hplain⟩ := hlast
  cases hkind : seg.kind with
  | none => rfl
  | some k =>
    -- a plain match is an identifier, and a newline is part of none
    exfalso
    obtain ⟨kind, start, w⟩ := seg
    cases hkind
    obtain ⟨hm, hw⟩ := (lexer cfg hcfg).match?_of_mem_segments hseg
    have hagrees := agrees_of_match? hm
    rw [Cursor.rest_ofIndex, ← hw] at hagrees
    have hk : k = .identifier := hagrees.identifier.mp (Or.inr hplain)
    subst hk
    obtain ⟨-, hword, -⟩ := identifierLength_cases (length?_of_match? hm).2
    rw [Cursor.rest_ofIndex, ← hw] at hword
    exact absurd (hword _ (List.mem_of_getElem? hnewline)) (by decide)

/-- Behind a newline the scanner finds what it finds at the front of a text. -/
theorem match?_behind_newline {cfg : LangConfig} (hcfg : cfg.Lexable) {p : JsString}
    (hp : p.getLast? = some (unit '\n')) (s : JsString) :
    (lexer cfg hcfg).match? ⟨p.reverse, s⟩ = (lexer cfg hcfg).match? ⟨[], s⟩ := by
  refine match?_eq_of_rest hcfg rfl (Or.inl ?_)
  rw [List.head?_reverse, hp]
  rfl

/-- The characters behind a plain newline have the types they have alone, and those up to it
too. -/
theorem characters_tokens_append {cfg : LangConfig} (hcfg : cfg.Lexable) (hsep : cfg.Separated)
    (hline : [unit '\n'] ∉ cfg.stringChars) {p : JsString}
    (hp : (characters (tokens cfg hcfg p)).getLast? = some (unit '\n', .plain)) (s : JsString) :
    characters (tokens cfg hcfg (p ++ s)) =
      characters (tokens cfg hcfg p) ++ characters (tokens cfg hcfg s) := by
  have hlast : p.getLast? = some (unit '\n') := by
    rw [← flatMap_text_tokens hcfg p, ← map_fst_characters, List.getLast?_map, hp]
    rfl
  have hgap := endsInGap_of_newline hcfg hp
  simp only [characters_tokens]
  exact Lexer.cells_append _ (local_lexer cfg hcfg)
    (fun c htext hne hin => match?_extend_of_newline hcfg hsep hline hlast s htext hne hin) hgap
    (match?_behind_newline hcfg hlast s)

/-- Lines whose newlines are plain have the types they have alone, and so has what follows
them. -/
theorem characters_lines {cfg : LangConfig} (hcfg : cfg.Lexable) (hsep : cfg.Separated)
    (hline : [unit '\n'] ∉ cfg.stringChars) {lines : List JsString}
    (hlines : ∀ line ∈ lines,
      (characters (tokens cfg hcfg line)).getLast? = some (unit '\n', .plain)) (s : JsString) :
    characters (tokens cfg hcfg (lines.flatten ++ s)) =
      (lines.flatMap fun line => characters (tokens cfg hcfg line)) ++
        characters (tokens cfg hcfg s) := by
  induction lines with
  | nil => rfl
  | cons line lines ih =>
    obtain ⟨hfirst, hrest⟩ := List.forall_mem_cons.mp hlines
    rw [List.flatten_cons, List.append_assoc, characters_tokens_append hcfg hsep hline hfirst,
      ih hrest, List.flatMap_cons, List.append_assoc]

/-- A newline is no string delimiter. -/
theorem newline_not_mem_stringChars_of_argsFor {language : JsString} {a : LanguageArgs}
    (h : argsFor language = some a) : [unit '\n'] ∉ a.config.stringChars := by
  have hall : ∀ a ∈ allArgs, [unit '\n'] ∉ a.config.stringChars := by decide +kernel
  exact hall a (mem_allArgs_of_argsFor h)

/-- A text whose newlines are plain can be tokenized line by line: if the newline at the end of
each line, tokenized alone, is plain, then in the whole text and in what follows the lines all
characters have the types they have alone. -/
theorem tokenize_lines {language : JsString} {a : LanguageArgs}
    (ha : argsFor language = some a) {lines : List JsString} {tss : List (List Token)}
    {cache₁ cache₂ cache₃ : ScannerCache} (hcache₁ : cache₁.Reachable)
    (hcache₂ : cache₂.Reachable) (hcache₃ : cache₃.Reachable)
    (hlines : List.Forall₂ (fun line ts => ∃ cache', tokenize line language cache₁ =
      .ok (ts, cache')) lines tss)
    (hnewline : ∀ ts ∈ tss, (characters ts).getLast? = some (unit '\n', .plain))
    (s : JsString) :
    ∃ ts us cache₂' cache₃', tokenize s language cache₂ = .ok (us, cache₂') ∧
      tokenize (lines.flatten ++ s) language cache₃ = .ok (ts, cache₃') ∧
      characters ts = tss.flatMap characters ++ characters us := by
  have hcfg := lexable_of_argsFor ha
  have htss : tss = lines.map (tokens a.config hcfg) := by
    induction hlines with
    | nil => rfl
    | cons hline _ ih =>
      obtain ⟨cache', hrun⟩ := hline
      obtain ⟨cache₁', -, hrun₁⟩ := tokenize_eq ha hcache₁ _
      rw [hrun₁] at hrun
      cases hrun
      rw [List.map_cons, ← ih fun ts hts => hnewline ts (List.mem_cons_of_mem _ hts)]
  obtain ⟨cache₂', -, hrun₂⟩ := tokenize_eq ha hcache₂ s
  obtain ⟨cache₃', -, hrun₃⟩ := tokenize_eq ha hcache₃ (lines.flatten ++ s)
  refine ⟨_, _, cache₂', cache₃', hrun₂, hrun₃, ?_⟩
  subst htss
  rw [List.flatMap_map]
  exact characters_lines hcfg (separated_of_argsFor ha)
    (newline_not_mem_stringChars_of_argsFor ha) (List.forall_mem_map.mp hnewline) s

/-- A line in Go that ends in a comment, and a string that is open in front of no newline. -/
theorem tokenize_lines_go : ∃ ts us cache₂' cache₃',
    tokenize (js "y = \"b") (js "Go") PlainObject.empty = .ok (us, cache₂') ∧
      tokenize (js "// a\ny = \"b") (js "Go") PlainObject.empty = .ok (ts, cache₃') ∧
      characters ts =
        characters [⟨.comment, js "// a"⟩, ⟨.plain, js "\n"⟩] ++ characters us := by
  have hrun : Prod.fst <$> tokenize (js "// a\n") (js "Go") PlainObject.empty =
      .ok [⟨.comment, js "// a"⟩, ⟨.plain, js "\n"⟩] := by decide +kernel
  obtain ⟨⟨ts, cache⟩, h, rfl⟩ := Result.map_eq_ok.mp hrun
  have hnewline : ∀ ts ∈ [[⟨.comment, js "// a"⟩, ⟨.plain, js "\n"⟩]],
      (characters ts).getLast? = some (unit '\n', .plain) := by decide
  obtain ⟨ts, us, cache₂', cache₃', hrun₂, hrun₃, hcells⟩ :=
    tokenize_lines (a := Language.go) (by decide +kernel) .empty .empty
      .empty (.cons ⟨cache, h⟩ .nil) hnewline (js "y = \"b")
  exact ⟨ts, us, cache₂', cache₃', hrun₂, hrun₃, by simpa using hcells⟩

end SyntaxHighlight
