import HackerTyper.Foundations.Lexer
import Mathlib.Data.List.Pairwise

/-!
# Places in a segmented text

The segments of a text are disjoint and cover it, and a gap that is not at the front of the
text stands directly behind a token.

## Main results

* `text_eq_of_mem_segments`: which part of the text a segment is;
* `exists_segment`: every offset lies in a segment;
* `eq_or_stop_le`: two segments are the same or do not overlap;
* `exists_token_of_gap`: what stands in front of a gap.
-/

namespace Lexer

variable {κ α : Type*}

/-- Segments that lie side by side start where the first one starts, or behind. -/
theorem Tiles.le_start {i : ℕ} {segs : List (Segment κ α)} (h : Tiles i segs) :
    ∀ seg ∈ segs, i ≤ seg.start := by
  induction segs generalizing i with
  | nil => simp
  | cons seg segs ih =>
    obtain ⟨rfl, hsegs⟩ := h
    intro other hother
    rcases List.mem_cons.mp hother with rfl | hother
    · exact le_rfl
    · have hle := ih hsegs other hother
      rw [Segment.stop] at hle
      omega

/-- Segments that lie side by side do not overlap. -/
theorem Tiles.pairwise {i : ℕ} {segs : List (Segment κ α)} (h : Tiles i segs) :
    segs.Pairwise fun a b => a.stop ≤ b.start := by
  induction segs generalizing i with
  | nil => exact .nil
  | cons seg segs ih => exact .cons h.2.le_start (ih h.2)

/-- Every offset that the segments reach lies in one of them. -/
theorem Tiles.exists_segment {i j : ℕ} {segs : List (Segment κ α)} (h : Tiles i segs)
    (hle : i ≤ j) (hlt : j < i + (segs.flatMap Segment.text).length) :
    ∃ seg ∈ segs, seg.start ≤ j ∧ j < seg.stop := by
  induction segs generalizing i with
  | nil =>
    rw [List.flatMap_nil, List.length_nil] at hlt
    omega
  | cons seg segs ih =>
    obtain ⟨rfl, hsegs⟩ := h
    by_cases hstop : j < seg.stop
    · exact ⟨seg, List.mem_cons_self, hle, hstop⟩
    · -- the offset lies behind the first segment
      rw [List.flatMap_cons, List.length_append] at hlt
      rw [Segment.stop] at hstop
      obtain ⟨other, hother, hin⟩ := ih hsegs (by rw [Segment.stop]; omega)
        (by rw [Segment.stop]; omega)
      exact ⟨other, List.mem_cons_of_mem _ hother, hin⟩

/-- A segment is the part of the text that begins at its offset. -/
theorem Tiles.prefix_drop {before : List α} {segs : List (Segment κ α)}
    (h : Tiles before.length segs) :
    ∀ seg ∈ segs, seg.text <+: (before ++ segs.flatMap Segment.text).drop seg.start := by
  induction segs generalizing before with
  | nil => simp
  | cons seg segs ih =>
    obtain ⟨hstart, hsegs⟩ := h
    intro other hother
    rcases List.mem_cons.mp hother with rfl | hother
    · rw [hstart, List.drop_left, List.flatMap_cons]
      exact List.prefix_append _ _
    · -- the first segment joins what is in front
      have hstop : (before ++ seg.text).length = seg.stop := by
        rw [List.length_append, Segment.stop, hstart]
      have hpre := ih (hstop ▸ hsegs) other hother
      rwa [List.append_assoc, ← List.flatMap_cons] at hpre

variable (L : Lexer κ α)

/-- A segment is the part of the text at its place. -/
theorem text_eq_of_mem_segments {text : List α} {seg : Segment κ α}
    (hseg : seg ∈ L.segments text) :
    seg.text = (text.drop seg.start).take seg.text.length := by
  have htiles : Tiles ([] : List α).length (L.segments text) := L.tiles_segments text
  have hpre := htiles.prefix_drop seg hseg
  rw [List.nil_append, flatMap_text_segments] at hpre
  exact List.prefix_iff_eq_take.mp hpre

/-- Every offset of a text lies in one of its segments. -/
theorem exists_segment {text : List α} {j : ℕ} (h : j < text.length) :
    ∃ seg ∈ L.segments text, seg.start ≤ j ∧ j < seg.stop := by
  refine (L.tiles_segments text).exists_segment (Nat.zero_le j) ?_
  rwa [flatMap_text_segments, Nat.zero_add]

/-- Two segments of a text are the same or do not overlap. -/
theorem eq_or_stop_le {text : List α} {a b : Segment κ α} (ha : a ∈ L.segments text)
    (hb : b ∈ L.segments text) : a = b ∨ a.stop ≤ b.start ∨ b.stop ≤ a.start := by
  let R (a b : Segment κ α) : Prop := a = b ∨ a.stop ≤ b.start ∨ b.stop ≤ a.start
  have hsymm : Std.Symm R := ⟨fun a b h => h.imp Eq.symm Or.symm⟩
  have hpairwise : (L.segments text).Pairwise R :=
    (L.tiles_segments text).pairwise.imp fun h => Or.inr (Or.inl h)
  have hrefl : ∀ x ∈ L.segments text, R x x := fun _ _ => Or.inl rfl
  exact hpairwise.forall_of_forall hrefl ha hb

/-- A gap is the one that was being read, or it follows a token. -/
theorem exists_token_of_gap_scan {lastEnd : ℕ} {c : Cursor α} {seg : Segment κ α}
    (hseg : seg ∈ L.scan lastEnd c) (hgap : seg.kind = none) :
    seg.start = lastEnd ∨
      ∃ prev ∈ L.scan lastEnd c, prev.kind.isSome ∧ prev.stop = seg.start := by
  induction lastEnd, c using L.scan_induction with
  | nil lastEnd c hnil =>
    rw [scan_nil L hnil, mem_flush] at hseg
    rw [hseg.2]
    exact Or.inl rfl
  | token lastEnd c k n hm ih =>
    rw [scan_some L hm] at hseg ⊢
    rcases List.mem_append.mp hseg with hseg | hseg
    · rw [(mem_flush.mp hseg).2]
      exact Or.inl rfl
    · right
      rcases List.mem_cons.mp hseg with rfl | hseg
      · cases hgap
      · rcases ih hseg with hstart | ⟨prev, hprev, hrest⟩
        · -- the gap directly behind the token of this step
          refine ⟨⟨some k, c.index, c.rest.take n⟩, by simp, rfl, ?_⟩
          have hlen : (c.rest.take n).length = n := by simp [L.le hm]
          rw [Segment.stop, hlen, hstart]
        · exact ⟨prev, by simp [hprev], hrest⟩
  | skip lastEnd c hne hm ih =>
    rw [scan_none L hne hm] at hseg ⊢
    exact ih hseg

/-- A gap that is not at the front of a text stands directly behind a token. -/
theorem exists_token_of_gap {text : List α} {seg : Segment κ α}
    (hseg : seg ∈ L.segments text) (hgap : seg.kind = none) :
    seg.start = 0 ∨ ∃ prev ∈ L.segments text, prev.kind.isSome ∧ prev.stop = seg.start :=
  L.exists_token_of_gap_scan hseg hgap

end Lexer
