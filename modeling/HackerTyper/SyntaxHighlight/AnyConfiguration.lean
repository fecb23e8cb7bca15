import HackerTyper.SyntaxHighlight.Tokenize

/-!
# Any configuration

The languages of the table have openers that are not empty, so that no match is. The scanning
loop is written for more: its guard moves on behind an empty match. With it the loop returns for
every configuration, the tokens concatenate to the text, and there are not too many of them.

## Main definitions

* `Scan.Lossless`: what holds between two rounds of the loop.

## Main results

* `Scan.Lossless.step`: every round keeps it;
* `tokenizeWith_lossless`: for every configuration nothing is lost, repeated or reordered.
-/

namespace SyntaxHighlight

open Js

theorem take_append_slice (text : JsString) {i j : ℕ} (h : i ≤ j) :
    text.take i ++ slice text i j = text.take j := by
  have htake : text.take i = (text.take j).take i := by rw [List.take_take, Nat.min_eq_left h]
  rw [htake, slice, List.take_append_drop]

/-- What `exec` reports is the text up to the new `lastIndex`. -/
theorem text_of_exec_some {re re' : RegExp} {text : JsString} {m : Match}
    (h : re.exec text = (some m, re')) : m.text = slice text m.index re'.lastIndex := by
  rw [RegExp.exec] at h
  split at h
  next => cases h
  next =>
    split at h
    next => cases h
    next =>
      cases h
      rfl

/-- What holds between two rounds of the loop: the tokens concatenate to the text in front of
the end of the last match, the next search starts there or, behind an empty match, one
character further, and there are at most as many tokens as these offsets allow. -/
structure Scan.Lossless (text : JsString) (st : Scan) : Prop where
  /-- The tokens concatenate to the text in front of the end of the last match. -/
  concat : st.tokens.flatMap Token.text = text.take st.lastEnd
  /-- The last match ends inside the text. -/
  lastEnd_le : st.lastEnd ≤ text.length
  /-- The next search starts at its end or behind it. -/
  le_lastIndex : st.lastEnd ≤ st.scanner.lastIndex
  /-- It starts one character further at most. -/
  lastIndex_le : st.scanner.lastIndex ≤ st.lastEnd + 1
  /-- Every token moves one of the two offsets. -/
  count : st.tokens.length ≤ st.lastEnd + st.scanner.lastIndex

/-- A round that finds a match keeps what holds between two rounds. -/
theorem Scan.Lossless.step {cfg : LangConfig} {text : JsString} {st st' : Scan}
    (h : st.Lossless text) (hstep : scanStep cfg text st = .inl st') : st'.Lossless text := by
  rw [scanStep] at hstep
  cases hexec : st.scanner.exec text with
  | mk found scanner =>
    rw [hexec] at hstep
    cases found with
    | none => cases hstep
    | some m =>
      obtain ⟨hstart, hend, hle, -⟩ := exec_some hexec
      have htext := text_of_exec_some hexec
      have hlastEnd := h.le_lastIndex
      have hlastIndex := h.lastIndex_le
      have hcount := h.count
      -- the gap and the match are the text between the ends of the two matches
      have hgap : (if st.lastEnd < m.index then
          [Token.mk .plain (slice text st.lastEnd m.index)] else []).flatMap Token.text =
            slice text st.lastEnd m.index := by
        split
        · rw [List.flatMap_singleton]
        · have heq : m.index = st.lastEnd := by omega
          rw [heq, slice, List.drop_take, Nat.sub_self, List.take_zero]
          rfl
      have hconcat : (st.tokens ++ (if st.lastEnd < m.index then
          [Token.mk .plain (slice text st.lastEnd m.index)] else []) ++
            [Token.mk (classify cfg m.text) m.text]).flatMap Token.text =
              text.take (m.index + m.text.length) := by
        rw [List.flatMap_append, List.flatMap_append, h.concat, hgap, List.flatMap_singleton,
          take_append_slice text (hlastEnd.trans hstart), hend,
          ← take_append_slice text (show m.index ≤ scanner.lastIndex by omega), ← htext]
      have hnext : (if m.text.length = 0 then { scanner with lastIndex := scanner.lastIndex + 1 }
          else scanner).lastIndex =
            m.index + m.text.length + if m.text.length = 0 then 1 else 0 := by
        split
        · exact congrArg (· + 1) hend.symm
        · exact hend.symm
      cases hstep
      refine ⟨hconcat, hend.trans_le hle, hnext ▸ Nat.le_add_right _ _, ?_, ?_⟩
      · rw [hnext]
        change _ ≤ m.index + m.text.length + 1
        split <;> omega
      · -- a match that is not empty moves the end, and the guard moves the next search
        rw [hnext, List.length_append, List.length_append, List.length_singleton]
        change _ ≤ m.index + m.text.length + _
        split <;> split <;> simp only [List.length_nil, List.length_singleton] <;> omega

/-- The loop ends with tokens that concatenate to the text in front of the end of the last
match. -/
theorem Scan.Lossless.scanLoop {cfg : LangConfig} {text : JsString} {fuel : ℕ} {st st' : Scan}
    (h : st.Lossless text) (hloop : SyntaxHighlight.scanLoop cfg text fuel st = some st') :
    st'.tokens.flatMap Token.text = text.take st'.lastEnd ∧ st'.lastEnd ≤ text.length ∧
      st'.tokens.length ≤ 2 * st'.lastEnd + 1 := by
  induction fuel generalizing st with
  | zero => cases hloop
  | succ fuel ih =>
    rw [SyntaxHighlight.scanLoop] at hloop
    cases hstep : scanStep cfg text st with
    | inl next =>
      rw [hstep] at hloop
      exact ih (h.step hstep) hloop
    | inr last =>
      rw [hstep] at hloop
      cases hloop
      -- the round without a match changes the scanner only
      have hsame : st'.tokens = st.tokens ∧ st'.lastEnd = st.lastEnd := by
        rw [scanStep] at hstep
        cases hexec : st.scanner.exec text with
        | mk found scanner =>
          rw [hexec] at hstep
          cases found with
          | none =>
            cases hstep
            exact ⟨rfl, rfl⟩
          | some m => cases hstep
      rw [hsame.1, hsame.2]
      have hcount := h.count
      have hlastIndex := h.lastIndex_le
      exact ⟨h.concat, h.lastEnd_le, by omega⟩

/-- For every configuration, whatever scanner is cached for it, the loop returns, the tokens
concatenate to the text, and there are at most two for each of its characters and one more. -/
theorem tokenizeWith_lossless (cfg : LangConfig) {cacheKey : JsString}
    (hkey : cacheKey ∉ objectPrototype) (text : JsString) (cache : ScannerCache) :
    ∃ ts cache', tokenizeWith cfg cacheKey text cache = .ok (ts, cache') ∧
      ts.flatMap Token.text = text ∧ ts.length ≤ 2 * text.length + 1 := by
  obtain ⟨scanner, cache', hscanner, hzero⟩ : ∃ scanner cache',
      scannerFor cacheKey cfg cache = .ok (scanner, cache') ∧ scanner.lastIndex = 0 := by
    rw [scannerFor]
    cases hget : cache.get cacheKey with
    | own re => exact ⟨_, _, rfl, rfl⟩
    | inherited =>
      rw [PlainObject.get] at hget
      split at hget
      · cases hget
      · rw [if_neg hkey] at hget
        cases hget
    | missing =>
      rw [buildScanner_eq]
      exact ⟨_, _, rfl, rfl⟩
  obtain ⟨st', hloop⟩ := exists_scanLoop cfg text (text.length + 2) ⟨scanner, [], 0⟩
    (by simp) (by omega)
  have hfirst : Scan.Lossless text ⟨scanner, [], 0⟩ :=
    ⟨rfl, Nat.zero_le _, Nat.zero_le _, by simp [hzero], Nat.zero_le _⟩
  obtain ⟨hconcat, hle, hcount⟩ := hfirst.scanLoop hloop
  refine ⟨st'.tokens ++ if st'.lastEnd < text.length then
    [Token.mk .plain (slice text st'.lastEnd text.length)] else [],
    cache'.put cacheKey st'.scanner, ?_, ?_, ?_⟩
  · rw [tokenizeWith, hscanner, Result.ok_bind]
    simp only [hloop]
  · rw [List.flatMap_append, hconcat]
    split
    · rw [List.flatMap_singleton, take_append_slice text hle, List.take_length]
    · rw [List.take_of_length_le (by omega), List.flatMap_nil, List.append_nil]
  · rw [List.length_append]
    split
    · rw [List.length_singleton]
      omega
    · rw [List.length_nil]
      omega

/-- A configuration whose strings have an empty delimiter, with an empty match everywhere. -/
theorem tokenizeWith_lossless_empty_delimiter : ∃ ts cache',
    tokenizeWith ⟨PlainObject.empty, none, none, [[]], false⟩ (js "Empty") (js "a1")
        PlainObject.empty = .ok (ts, cache') ∧
      ts.flatMap Token.text = js "a1" ∧ ts.length ≤ 2 * (js "a1").length + 1 :=
  tokenizeWith_lossless _ (by decide) _ _

end SyntaxHighlight
