import HackerTyper.SyntaxHighlight.Incremental

/-!
# A token alone

What a match is does not depend on the text behind it: cut off where the match ends, the text
still matches, with the same alternative. A token that is no gap is therefore the only token of
its own text. A gap need not be: a quotation mark whose string meets an escape that fails is a
gap, and alone it is a string.

## Main results

* `length?_truncate` and `match?_truncate`: matches of a text that is cut off where they end;
* `tokenize_token`: every token that is no gap, tokenized alone, is itself.
-/

namespace SyntaxHighlight

open Js Lexeme

/-! ## Cutting off what follows a match -/

/-- A run that ends where a text is cut reaches that end in the text that is left. -/
theorem length_takeWhile_truncate {p : CodeUnit → Bool} {u v : JsString}
    (h : ((u ++ v).takeWhile p).length = u.length) : (u.takeWhile p).length = u.length := by
  rw [List.takeWhile_append] at h
  split at h
  next hall => exact hall
  next => exact h

/-- A block comment that ends where a text is cut ends there in the text that is left. -/
theorem blockEnd_truncate {closer u v : JsString} (h : blockEnd closer (u ++ v) = u.length) :
    blockEnd closer u = u.length := by
  induction u with
  | nil => rfl
  | cons x xs ih =>
    rw [List.cons_append, blockEnd] at h
    rw [blockEnd]
    split at h
    next hpre =>
      -- the closer ends where the text is cut off
      have hpre' : closer <+: x :: xs := (List.isPrefix_append_of_length h.le).mp hpre
      rw [if_pos hpre', h]
    next hpre =>
      have hpre' : ¬closer <+: x :: xs := fun hpre' => hpre (hpre'.trans ⟨v, rfl⟩)
      rw [if_neg hpre', ih (Nat.succ.inj h), List.length_cons]

theorem stringEnd_truncate {q : CodeUnit} {u v : JsString}
    (h : stringEnd [q] (u ++ v) = some u.length) : stringEnd [q] u = some u.length := by
  have hpre : ∀ x xs, [q] <+: x :: (xs ++ v) ↔ [q] <+: x :: xs :=
    fun x xs => List.isPrefix_append_of_length (show [q].length ≤ (x :: xs).length by simp)
  induction u using stringEnd.induct [q] with
  | case1 => rfl
  | case2 x xs hd =>
    rw [List.cons_append, stringEnd_closer ((hpre x xs).mpr hd)] at h
    rw [stringEnd_closer hd, h]
  | case3 hd =>
    -- an escape would be cut in two
    exfalso
    have hd' := mt (hpre (unit '\\') []).mp hd
    cases v with
    | nil => simp [stringEnd, hd] at h
    | cons y ys =>
      rw [List.nil_append] at hd'
      by_cases hy : isLineTerminator y
      · simp [stringEnd, hd', hy] at h
      · rw [List.singleton_append, stringEnd_escape hd' hy, Option.map_eq_some_iff] at h
        obtain ⟨n, -, hn⟩ := h
        simp at hn
  | case4 y ys hy hd =>
    have hd' := mt (hpre (unit '\\') (y :: ys)).mp hd
    rw [List.cons_append] at hd'
    simp [stringEnd, hd', hy] at h
  | case5 y ys hy hd ih =>
    have hd' : ¬[q] <+: unit '\\' :: y :: (ys ++ v) := mt (hpre _ (y :: ys)).mp hd
    rw [List.cons_append, List.cons_append, stringEnd_escape hd' hy, Option.map_eq_some_iff] at h
    obtain ⟨n, hn, hlen⟩ := h
    rw [stringEnd_escape hd hy, ih (by rw [hn]; simpa using hlen)]
    rfl
  | case6 x xs hd hx ih =>
    rw [List.cons_append, stringEnd_plain (mt (hpre x xs).mp hd) hx, Option.map_eq_some_iff] at h
    obtain ⟨n, hn, hlen⟩ := h
    rw [stringEnd_plain hd hx, ih (by rw [hn]; simpa using hlen)]
    rfl

theorem digitRun_truncate {u v : JsString} (h : digitRun (u ++ v) ≤ u.length) :
    digitRun u = digitRun (u ++ v) := by
  have hle := digitRun_le u
  rcases Nat.lt_or_eq_of_le hle with hlt | heq
  · exact (digitRun_append hlt).symm
  · -- all of `u` are digits
    rw [digitRun, digitRun, List.takeWhile_append] at *
    rw [if_pos heq, List.length_append] at *
    omega

theorem fractionLength_truncate {u v : JsString} (h : fractionLength (u ++ v) = u.length) :
    fractionLength u = u.length := by
  cases u with
  | nil => rfl
  | cons x xs =>
    rw [List.cons_append, fractionLength] at h
    split at h
    next hcond =>
      obtain ⟨hx, hdigits, -⟩ := hcond
      have hlen : digitRun (xs ++ v) = xs.length := Nat.succ.inj h
      have hrun : digitRun xs = xs.length := (digitRun_truncate hlen.le).trans hlen
      rw [hlen] at hdigits
      rw [fractionLength, hrun, List.drop_length, if_pos ⟨hx, hdigits, rfl⟩, List.length_cons]
    next => cases h

/-- A number that ends where a text is cut ends there in the text that is left. -/
theorem numberLength_truncate {b w v : JsString} (h : numberLength ⟨b, w ++ v⟩ = some w.length) :
    numberLength ⟨b, w⟩ = some w.length := by
  simp only [numberLength] at h ⊢
  split at h
  next => cases h
  next hcond =>
    obtain ⟨hbefore, hrest⟩ := not_or.mp hcond
    obtain ⟨hdigits, hahead⟩ := not_or.mp hrest
    have hlen := Option.some.inj h
    have hle : digitRun (w ++ v) ≤ w.length := by omega
    have hrun := digitRun_truncate hle
    rw [← hrun] at hdigits hahead hle hlen
    rw [List.drop_append_of_le_length hle] at hahead hlen
    have hfraction : fractionLength (w.drop (digitRun w)) = (w.drop (digitRun w)).length := by
      refine fractionLength_truncate (v := v) ?_
      rw [List.length_drop]
      omega
    -- what follows the digits is their fraction, or the text is cut off there
    have hahead' : ¬wordAhead (w.drop (digitRun w)) = true := by
      cases hdrop : w.drop (digitRun w) with
      | nil => simp [wordAhead]
      | cons x xs =>
        rw [hdrop] at hahead
        exact hahead
    rw [if_neg (not_or.mpr ⟨hbefore, not_or.mpr ⟨hdigits, hahead'⟩⟩), hfraction,
      List.length_drop]
    congr 1
    omega

theorem identifierLength_truncate {w v : JsString}
    (h : identifierLength (w ++ v) = some w.length) : identifierLength w = some w.length := by
  cases w with
  | nil =>
    cases v with
    | nil => exact h
    | cons y ys =>
      rw [List.nil_append, identifierLength] at h
      split at h <;> cases h
  | cons x xs =>
    rw [List.cons_append, identifierLength] at h
    rw [identifierLength]
    split at h
    next hx =>
      have hlen := Nat.succ.inj (Option.some.inj h)
      rw [if_pos hx, length_takeWhile_truncate hlen, List.length_cons]
    next => cases h

/-- What starts with an opener does so in the text that is cut off where it ends, if its end does
not look further. -/
theorem openedLength_truncate {opener w v : JsString} {close? : JsString → Option ℕ}
    (hclose : ∀ {u : JsString}, close? (u ++ v) = some u.length → close? u = some u.length)
    (h : openedLength opener close? (w ++ v) = some w.length) :
    openedLength opener close? w = some w.length := by
  obtain ⟨u', m, hsplit, hm, hlen⟩ := openedLength_eq_some h
  -- the opener is part of the match
  obtain ⟨u, rfl⟩ : opener <+: w :=
    (List.isPrefix_append_of_length (by omega)).mp ⟨u', hsplit.symm⟩
  rw [List.append_assoc] at hsplit
  obtain rfl := List.append_cancel_left hsplit
  rw [List.length_append] at hlen ⊢
  obtain rfl := Nat.add_left_cancel hlen
  rw [openedLength_append_left, hclose hm]
  rfl

/-- A match of an alternative is one of the text that is cut off where it ends. -/
theorem length?_truncate {cfg : LangConfig} (hcfg : cfg.Lexable) {a : Lexeme}
    (ha : a ∈ alternatives cfg) {b w v : JsString} (h : a.length? ⟨b, w ++ v⟩ = some w.length) :
    a.length? ⟨b, w⟩ = some w.length := by
  rcases mem_alternatives.mp ha with ⟨b, hb, rfl⟩ | ⟨opener, ho, rfl⟩ | ⟨d, hd, rfl⟩ | rfl | rfl
  · exact openedLength_truncate
      (fun hclose => congrArg some (blockEnd_truncate (Option.some.inj hclose))) h
  · exact openedLength_truncate
      (fun hclose => congrArg some (length_takeWhile_truncate (Option.some.inj hclose))) h
  · obtain ⟨q, rfl⟩ := List.length_eq_one_iff.mp (hcfg.string d hd).1
    exact openedLength_truncate stringEnd_truncate h
  · exact numberLength_truncate h
  · exact identifierLength_truncate h

/-- Strings, numbers and identifiers are told apart from all other matches by the character
they begin with. -/
theorem eq_of_begins {cfg : LangConfig} {k k' : Lexeme} {x : CodeUnit}
    (hk : k ∈ alternatives cfg) (hbegins : k.Begins cfg x) (hcomment : k.type? ≠ some .comment)
    (hbegins' : k'.Begins cfg x) : k' = k := by
  have hword : isWord x = true → ¬isNameUnit x = false := fun hx h => by simp [isNameUnit, hx] at h
  cases k with
  | blockComment opener closer => exact absurd rfl hcomment
  | lineComment opener => exact absurd rfl hcomment
  | string d =>
    obtain ⟨hx, rfl⟩ := hbegins
    have hd : [x] ∈ cfg.stringChars := by simpa [mem_alternatives] using hk
    cases k' with
    | blockComment opener closer => exact absurd hd hbegins'.2
    | lineComment opener => exact absurd hd hbegins'.2
    | string d => rw [hbegins'.2]
    | number => exact absurd hx (hword (isWord_of_isDigit hbegins'))
    | identifier => exact absurd hx (hword (isWord_of_isIdentifierStart hbegins'))
  | number =>
    by_cases hk' : k' = .number ∨ k' = .identifier
    · rcases hk' with rfl | rfl
      · rfl
      · exact absurd hbegins (not_isDigit_of_isIdentifierStart hbegins')
    · exact absurd (hbegins'.isNameUnit hk') (hword (isWord_of_isDigit hbegins))
  | identifier =>
    by_cases hk' : k' = .number ∨ k' = .identifier
    · rcases hk' with rfl | rfl
      · exact absurd hbegins' (not_isDigit_of_isIdentifierStart hbegins)
      · rfl
    · exact absurd (hbegins'.isNameUnit hk') (hword (isWord_of_isIdentifierStart hbegins))

/-- What the scanner finds in a text it also finds in the text that is cut off where the match
ends. -/
theorem match?_truncate {cfg : LangConfig} {hcfg : cfg.Lexable} (hsep : cfg.Separated)
    {b w v : JsString} {k : Lexeme}
    (h : (lexer cfg hcfg).match? ⟨b, w ++ v⟩ = some (k, w.length)) :
    (lexer cfg hcfg).match? ⟨b, w⟩ = some (k, w.length) := by
  obtain ⟨hk, hlength⟩ := length?_of_match? h
  have hlength' := length?_truncate hcfg hk hlength
  have hshort : ∀ {o : JsString}, o <+: w → o <+: w ++ v :=
    fun hpre => hpre.trans (List.prefix_append _ _)
  by_cases hcomment : k.type? = some .comment
  · -- the opener of the comment stands in front of what is left of the text
    rcases mem_alternatives.mp hk with ⟨c, hc, rfl⟩ | ⟨o, ho, rfl⟩ | ⟨d, hd, rfl⟩ | rfl | rfl
    · have hpre : c.1 <+: w := by
        by_contra hpre
        simp [length?, hpre] at hlength'
      rw [match?_of_blockOpener hcfg hc hpre]
      simp only [length?, if_pos hpre, Option.some.injEq] at hlength'
      rw [hlength']
    · have hpre : o <+: w := by
        by_contra hpre
        simp [length?, hpre] at hlength'
      have hblock : ∀ c ∈ cfg.blockComment, ¬c.1 <+: w := by
        intro c hc hpre'
        rw [match?_of_blockOpener hcfg hc (hshort hpre')] at h
        cases h
      rw [match?_of_lineOpener hcfg hblock ho hpre]
      simp only [length?, if_pos hpre, Option.some.injEq] at hlength'
      rw [hlength']
    · cases hcomment
    · cases hcomment
    · cases hcomment
  · -- something is found, and its first character says what it is
    obtain ⟨x, hx, hbegins⟩ := begins_of_match? hsep h
    have hne : w ≠ [] := List.length_pos_iff.mp (Lexeme.length?_spec hcfg hk hlength).1
    cases hm : (lexer cfg hcfg).match? ⟨b, w⟩ with
    | none =>
      have hnone := List.findSome?_eq_none_iff.mp hm k hk
      rw [hlength'] at hnone
      cases hnone
    | some m =>
      obtain ⟨k', n⟩ := m
      obtain ⟨x', hx', hbegins'⟩ := begins_of_match? hsep hm
      have hsame : x' = x := by
        obtain ⟨y, ys, rfl⟩ := List.exists_cons_of_ne_nil hne
        exact Option.some.inj (hx'.symm.trans hx)
      obtain rfl := eq_of_begins hk hbegins hcomment (hsame ▸ hbegins')
      rw [(length?_of_match? hm).2] at hlength'
      rw [Option.some.inj hlength']

/-! ## A token alone -/

/-- A token that is no gap is the only token of its own text. -/
theorem tokens_token {cfg : LangConfig} {hcfg : cfg.Lexable} (hsep : cfg.Separated)
    {text : JsString} {i : ℕ} {t : Token} (ht : (i, t) ∈ located 0 (tokens cfg hcfg text))
    (hmatch : t.IsMatch) : tokens cfg hcfg t.text = [t] := by
  obtain ⟨hne, htext, -⟩ := token_cases ht
  obtain ⟨v, hv⟩ := prefix_drop_of_mem_located ht
  have hbefore := not_isWord_or_not_isDigit hsep ht
  obtain ⟨seg, hseg, hstart, rfl⟩ := mem_located_tokens.mp ht
  obtain ⟨k, hkind⟩ := Option.ne_none_iff_exists'.mp (isSome_kind_of_isMatch hseg hmatch)
  obtain ⟨kind, start, w⟩ := seg
  cases hkind
  cases hstart
  have hm := ((lexer cfg hcfg).match?_of_mem_segments hseg).1
  have htype : (toToken cfg ⟨some k, start, w⟩).text = w := rfl
  rw [htype] at hne hv ⊢
  -- at the front of the text from the token on, the scanner finds the same
  have hfront : (lexer cfg hcfg).match? ⟨[], w ++ v⟩ = some (k, w.length) := by
    rw [← hm]
    refine match?_eq_of_rest hcfg hv ?_
    rcases hbefore with hword | hdigit
    · exact Or.inl hword.symm
    · exact Or.inr (by rw [hv]; exact hdigit)
  have halone := match?_truncate hsep hfront
  -- so that it finds one match, which reaches the end
  have hcursor : Cursor.ofIndex w 0 = ⟨[], w⟩ := rfl
  have hend : ((⟨[], w⟩ : Cursor CodeUnit).advance w.length).rest = [] := by simp
  have hindex : (⟨[], w⟩ : Cursor CodeUnit).index + w.length =
      ((⟨[], w⟩ : Cursor CodeUnit).advance w.length).index := (Cursor.index_advance le_rfl).symm
  rw [tokens, Lexer.segments, hcursor, Lexer.scan_some _ halone, Lexer.scan_nil _ hend, hindex,
    Lexer.flush_index, List.take_length]
  rfl

/-- Every token that is no gap, tokenized alone, is itself: its text gives one token, with the
same type. -/
theorem tokenize_token {language : JsString} {a : LanguageArgs}
    (ha : argsFor language = some a) (text : JsString) {cache₁ cache₂ : ScannerCache}
    (hcache₁ : cache₁.Reachable) (hcache₂ : cache₂.Reachable) :
    ∃ ts cache₁', tokenize text language cache₁ = .ok (ts, cache₁') ∧
      ∀ t ∈ ts, t.IsMatch → ∃ cache₂', tokenize t.text language cache₂ = .ok ([t], cache₂') := by
  obtain ⟨cache₁', -, hrun₁⟩ := tokenize_eq ha hcache₁ text
  refine ⟨_, cache₁', hrun₁, fun t ht hmatch => ?_⟩
  obtain ⟨seg, hseg, rfl⟩ := List.mem_map.mp ht
  have hmem := mem_located_tokens.mpr ⟨seg, hseg, rfl, rfl⟩
  obtain ⟨cache₂', -, hrun₂⟩ := tokenize_eq ha hcache₂ (toToken a.config seg).text
  exact ⟨cache₂', by rw [hrun₂, tokens_token (separated_of_argsFor ha) hmem hmatch]⟩

/-- A comment and a string in SQL, where a quotation mark in the comment is none. -/
theorem tokenize_token_sql : ∃ ts cache₁',
    tokenize (js "-- it's\nSELECT 'a'") (js "SQL") PlainObject.empty = .ok (ts, cache₁') ∧
      ∀ t ∈ ts, t.IsMatch →
        ∃ cache₂', tokenize t.text (js "SQL") PlainObject.empty = .ok ([t], cache₂') :=
  tokenize_token (a := Language.sql) (by decide +kernel) _ .empty .empty

end SyntaxHighlight
