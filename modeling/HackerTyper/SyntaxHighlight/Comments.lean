import HackerTyper.Foundations.Extent
import HackerTyper.SyntaxHighlight.Placement

/-!
# Comments

The comment tokens of a text are found by its openers alone: every opener outside the earlier
comments and strings starts a comment, which runs to its closer, to the end of its line, or to
the end of the text.

## Main definitions

* `CommentEnds`: where a comment that starts at an offset ends.

## Main results

* `endsAt_blockEnd` and `endsAt_lineEnd`: how far the scanner reads a comment;
* `tokenize_comments`: the comment tokens of a text.
-/

namespace SyntaxHighlight

open Js

/-- A comment that starts at offset `i` ends at `e`: a block comment behind the first closer at
or after the end of its opener, and a line comment in front of the next newline, or each of
them at the end of the text. Where both openers stand, it is a block comment. -/
def CommentEnds (cfg : LangConfig) (text : JsString) (i e : ℕ) : Prop :=
  (∃ b ∈ cfg.blockComment, b.1 <+: text.drop i ∧
    EndsAt (fun j => b.2 <+: text.drop j) b.2.length text.length (i + b.1.length) e) ∨
  (∀ b ∈ cfg.blockComment, ¬b.1 <+: text.drop i) ∧
    ∃ o ∈ cfg.lineComment, o <+: text.drop i ∧
      EndsAt (fun j => text[j]? = some (unit '\n')) 0 text.length i e

/-- A comment has one end only. -/
theorem CommentEnds.unique {cfg : LangConfig} {text : JsString} {i e e' : ℕ}
    (h : CommentEnds cfg text i e) (h' : CommentEnds cfg text i e') : e = e' := by
  rcases h with ⟨b, hb, hpre, hend⟩ | ⟨hblock, o, ho, -, hend⟩ <;>
    rcases h' with ⟨b', hb', hpre', hend'⟩ | ⟨hblock', o', ho', -, hend'⟩
  · cases hb.symm.trans hb'
    exact hend.unique hend'
  · exact absurd hpre (hblock' b hb)
  · exact absurd hpre' (hblock b' hb')
  · exact hend.unique hend'

/-! ## How far a comment reaches -/

/-- A block comment is read to its first closer. -/
theorem endsAt_blockEnd {closer : JsString} (hcloser : closer ≠ []) (text : JsString) {k : ℕ}
    (hk : k ≤ text.length) :
    EndsAt (fun j => closer <+: text.drop j) closer.length text.length k
      (k + blockEnd closer (text.drop k)) := by
  generalize hs : text.drop k = s
  induction s generalizing k with
  | nil =>
    have hlen : text.length ≤ k := List.drop_eq_nil_iff.mp hs
    have heq : k + blockEnd closer [] = text.length := by
      rw [blockEnd]
      omega
    rw [heq]
    apply endsAt_of_forall_not
    intro j hj hpre
    -- nothing is left of the text
    rw [List.drop_eq_nil_of_le (by omega)] at hpre
    exact hcloser (List.prefix_nil.mp hpre)
  | cons x xs ih =>
    rw [blockEnd]
    split
    next hpre => exact endsAt_here (by rwa [hs])
    next hpre =>
      -- the comment goes on with the next character
      rw [endsAt_succ (by rwa [hs]), show k + (blockEnd closer xs + 1) = k + 1 +
        blockEnd closer xs by omega]
      exact ih (lt_length_of_drop_eq_cons hs) (drop_succ_of_drop_eq_cons hs)

theorem add_length_le_of_isPrefix {w text : JsString} {i : ℕ} (hw : w ≠ [])
    (h : w <+: text.drop i) : i + w.length ≤ text.length := by
  have hlen := h.length_le
  have hpos := List.length_pos_iff.mpr hw
  rw [List.length_drop] at hlen
  omega

/-- A line comment is read to the next newline. -/
theorem endsAt_lineEnd {opener text : JsString} {i : ℕ} (hne : opener ≠ [])
    (hopener : unit '\n' ∉ opener) (h : opener <+: text.drop i) :
    EndsAt (fun j => text[j]? = some (unit '\n')) 0 text.length i
      (i + (opener.length +
        ((text.drop (i + opener.length)).takeWhile (· ≠ unit '\n')).length)) := by
  -- there is no newline in the opener
  have hnone : ∀ j, i ≤ j → j < i + opener.length → text[j]? ≠ some (unit '\n') := by
    intro j hj hlt hnewline
    obtain ⟨u, hu⟩ := h
    have hget : (text.drop i)[j - i]? = text[j]? := by
      rw [List.getElem?_drop, show i + (j - i) = j by omega]
    rw [← hget, ← hu, List.getElem?_append_left (by omega)] at hnewline
    exact hopener (List.mem_of_getElem? hnewline)
  have hk := add_length_le_of_isPrefix hne h
  have hstop : ∀ j : ℕ, text[j]? = some (unit '\n') ↔
      ∃ x, text[j]? = some x ∧ decide (x ≠ unit '\n') = false := by
    intro j
    simp
  rw [endsAt_of_forall_lt (Nat.le_add_right i opener.length) hnone, ← Nat.add_assoc,
    endsAt_congr hstop]
  exact endsAt_takeWhile _ text hk

/-- A comment that the lexer reports ends where it should. -/
theorem commentEnds_of_match? {cfg : LangConfig} {hcfg : cfg.Lexable} (hsep : cfg.Separated)
    {text : JsString} {i : ℕ} {k : Lexeme} {n : ℕ}
    (hm : (lexer cfg hcfg).match? (Cursor.ofIndex text i) = some (k, n))
    (hk : k.type? = some .comment) : CommentEnds cfg text i (i + n) := by
  obtain ⟨hmem, hlength⟩ := length?_of_match? hm
  rw [mem_alternatives] at hmem
  rcases Lexeme.type?_eq_comment_iff.mp hk with ⟨opener, closer, rfl⟩ | ⟨opener, rfl⟩
  · obtain ⟨b, hb, heq⟩ : ∃ b ∈ cfg.blockComment,
        Lexeme.blockComment opener closer = .blockComment b.1 b.2 := by simpa using hmem
    cases heq
    rw [Lexeme.length?, Cursor.rest_ofIndex] at hlength
    split at hlength
    next hpre =>
      cases hlength
      left
      refine ⟨b, hb, hpre, ?_⟩
      rw [List.drop_drop, ← Nat.add_assoc]
      exact endsAt_blockEnd (hsep.closer b hb).1 text
        (add_length_le_of_isPrefix (hcfg.block b hb) hpre)
    next => cases hlength
  · obtain ⟨o, ho, heq⟩ : ∃ o ∈ cfg.lineComment,
        Lexeme.lineComment opener = .lineComment o := by simpa using hmem
    cases heq
    rw [Lexeme.length?, Cursor.rest_ofIndex] at hlength
    split at hlength
    next hpre =>
      cases hlength
      right
      refine ⟨fun b hb hblock => ?_, opener, ho, hpre, ?_⟩
      · -- a block comment would have been reported
        rw [match?_of_blockOpener hcfg hb hblock] at hm
        cases hm
      · rw [List.drop_drop]
        exact endsAt_lineEnd (hcfg.line opener ho) (hsep.line opener ho).2 hpre
    next => cases hlength

/-- Where a comment starts, the lexer reports it. -/
theorem match?_of_commentEnds {cfg : LangConfig} (hcfg : cfg.Lexable) {text : JsString}
    {i e : ℕ} (h : CommentEnds cfg text i e) :
    ∃ k n, (lexer cfg hcfg).match? (Cursor.ofIndex text i) = some (k, n) ∧
      k.type? = some .comment := by
  rcases h with ⟨b, hb, hpre, -⟩ | ⟨-, o, ho, hpre, -⟩
  · exact match?_of_opener hcfg (Or.inl ⟨b, hb, hpre⟩)
  · exact match?_of_opener hcfg (Or.inr ⟨o, ho, hpre⟩)

/-! ## The comments of a text -/

/-- For every text and every language with a configuration, the comment tokens are exactly
these: one at every offset at which a comment opener stands and that lies inside no earlier
comment or string, up to where a comment that starts there ends. -/
theorem tokenize_comments {language : JsString} {a : LanguageArgs}
    (ha : argsFor language = some a) (text : JsString) {cache : ScannerCache}
    (hcache : cache.Reachable) :
    ∃ ts cache', tokenize text language cache = .ok (ts, cache') ∧
      ∀ i t, (i, t) ∈ located 0 ts ∧ t.type = .comment ↔
        ¬Covered ts i ∧ ∃ e, CommentEnds a.config text i e ∧ t = ⟨.comment, slice text i e⟩ := by
  have hcfg := lexable_of_argsFor ha
  have hsep := separated_of_argsFor ha
  obtain ⟨cache', -, hrun⟩ := tokenize_eq ha hcache text
  refine ⟨_, cache', hrun, fun i t => ⟨?_, ?_⟩⟩
  · rintro ⟨ht, htype⟩
    refine ⟨not_covered_of_mem_located ht, ?_⟩
    obtain ⟨-, htext, ⟨k, hm, -, hagrees⟩ | ⟨hplain, -⟩⟩ := token_cases ht
    · -- the alternatives for comments produced the token
      have hk := Lexeme.type?_eq_comment_iff.mpr (hagrees.comment.mp htype)
      refine ⟨_, commentEnds_of_match? hsep hm hk, ?_⟩
      rw [slice_eq_take_drop, ← htext, ← htype]
    · rw [htype] at hplain
      cases hplain
  · rintro ⟨hcovered, e, hend, rfl⟩
    obtain ⟨k, n, hm, hk⟩ := match?_of_commentEnds hcfg hend
    obtain rfl : e = i + n := hend.unique (commentEnds_of_match? hsep hm hk)
    exact ⟨mem_located_of_match? hsep hm hk (by simp) hcovered, rfl⟩

/-- A comment opener inside a string is none, and the closer does not overlap the opener. -/
theorem tokenize_comments_slash :
    ∃ ts cache', tokenize (js "\"//\" /*/ x") (js "C") PlainObject.empty = .ok (ts, cache') ∧
      ∀ i t, (i, t) ∈ located 0 ts ∧ t.type = .comment ↔
        ¬Covered ts i ∧ ∃ e, CommentEnds Language.c.config (js "\"//\" /*/ x") i e ∧
          t = ⟨.comment, slice (js "\"//\" /*/ x") i e⟩ :=
  tokenize_comments (by decide +kernel) _ .empty

end SyntaxHighlight
