import HackerTyper.Foundations.Restart

/-!
# Scanning one text behind the other

The segments of two texts one behind the other are not the segments of both: a gap at the end
of the first text and one at the front of the second are one gap. Element by element nothing is
lost, and the labels of the elements of the two texts are those of the whole, if no token
reaches the end of the first text and what follows it does not change what the lexer finds
there.

## Main definitions

* `Lexer.cells`: the elements of a text, each with a label of the segment it lies in;
* `Lexer.EndsInGap`: no token reaches the end of a text.

## Main results

* `flatMap_cells_scan`: a scan labels the gap it has read, and then what is ahead;
* `cells_append`: the labels of one text behind the other.
-/

/-- The elements of a segment, each with the label of the segment. A label is chosen by the kind
and the text of a token, and is the same for all gaps. -/
def Segment.cells {κ α β : Type*} (label : Option (κ × List α) → β) (seg : Segment κ α) :
    List (α × β) :=
  seg.text.map fun x => (x, label (seg.kind.map fun k => (k, seg.text)))

namespace Lexer

variable {κ α β : Type*} (L : Lexer κ α) (label : Option (κ × List α) → β)

/-- The elements ahead of a cursor, each with the label of its segment. -/
def cellsAhead (c : Cursor α) : List (α × β) := (L.scan c.index c).flatMap (Segment.cells label)

/-- The elements of a text, each with the label of its segment. -/
def cells (text : List α) : List (α × β) := (L.segments text).flatMap (Segment.cells label)

/-- No token reaches the end of the text. -/
def EndsInGap (text : List α) : Prop :=
  ∀ seg ∈ L.segments text, seg.stop = text.length → seg.kind = none

/-! ## The labels ahead of a cursor -/

/-- The labelled elements of a gap that has been read. -/
theorem flatMap_cells_flush (lastEnd : ℕ) (c : Cursor α) :
    (flush lastEnd c).flatMap (Segment.cells label) =
      (c.since lastEnd).map fun x => (x, label none) := by
  rw [flush]
  by_cases hlt : lastEnd < c.index
  · rw [if_pos hlt, List.flatMap_singleton]
    rfl
  · -- nothing has been read since `lastEnd`
    have hzero : c.index - lastEnd = 0 := by omega
    rw [if_neg hlt, Cursor.since, hzero]
    rfl

/-- A scan labels the gap it has read, and then what is ahead. -/
theorem flatMap_cells_scan {lastEnd : ℕ} {c : Cursor α} (h : lastEnd ≤ c.index) :
    (L.scan lastEnd c).flatMap (Segment.cells label) =
      (c.since lastEnd).map (fun x => (x, label none)) ++ L.cellsAhead label c := by
  -- for every offset behind the cursor at once, its own among them
  suffices hscan : ∀ i ≤ c.index, (L.scan i c).flatMap (Segment.cells label) =
      (c.since i).map (fun x => (x, label none)) ++ L.cellsAhead label c from hscan lastEnd h
  clear h
  induction lastEnd, c using L.scan_induction with
  | nil lastEnd c hnil =>
    intro i _
    rw [cellsAhead, scan_nil L hnil, scan_nil L hnil, flatMap_cells_flush, flush_index,
      List.flatMap_nil, List.append_nil]
  | token lastEnd c k n hm ih =>
    intro i _
    rw [cellsAhead, scan_some L hm, scan_some L hm, List.flatMap_append, flatMap_cells_flush,
      flush_index, List.nil_append]
  | skip lastEnd c hne hm ih =>
    intro i hi
    have hlen : 1 ≤ c.rest.length := List.length_pos_iff.mpr hne
    have hidx := index_advance_one hne
    -- the element at the cursor joins the gap, wherever it began
    rw [cellsAhead, scan_none L hne hm, scan_none L hne hm, ih i (by omega),
      ih c.index (by omega), Cursor.since_advance hi hlen, Cursor.since_advance le_rfl hlen,
      Cursor.since_index, List.nil_append, List.map_append, List.append_assoc]

/-- Nothing is ahead of the end of the text. -/
theorem cellsAhead_nil {c : Cursor α} (h : c.rest = []) : L.cellsAhead label c = [] := by
  rw [cellsAhead, scan_nil L h, flush_index, List.flatMap_nil]

/-- The elements of a token have its label, and those behind it follow. -/
theorem cellsAhead_some {c : Cursor α} {k : κ} {n : ℕ} (h : L.match? c = some (k, n)) :
    L.cellsAhead label c =
      (c.rest.take n).map (fun x => (x, label (some (k, c.rest.take n)))) ++
        L.cellsAhead label (c.advance n) := by
  rw [cellsAhead, scan_some L h, flush_index, List.nil_append, List.flatMap_cons, cellsAhead,
    Cursor.index_advance (L.le h)]
  rfl

/-- Where no token starts, the next element belongs to a gap. -/
theorem cellsAhead_none {c : Cursor α} (hne : c.rest ≠ []) (h : L.match? c = none) :
    L.cellsAhead label c =
      (c.rest.take 1).map (fun x => (x, label none)) ++ L.cellsAhead label (c.advance 1) := by
  have hlen : 1 ≤ c.rest.length := List.length_pos_iff.mpr hne
  have hidx := index_advance_one hne
  rw [cellsAhead, scan_none L hne h, flatMap_cells_scan L label (by omega),
    Cursor.since_advance le_rfl hlen, Cursor.since_index, List.nil_append]

/-! ## One text behind the other -/

variable {L}

/-- What precedes a text does not change its labels, if the first decision does not depend on
it. -/
theorem cellsAhead_preceded (hlocal : L.Local) {c : Cursor α} (w : List α)
    (hfirst : L.match? (c.preceded w) = L.match? c) :
    L.cellsAhead label (c.preceded w) = L.cellsAhead label c := by
  rw [cellsAhead, Cursor.index_preceded, scan_preceded hlocal c.index w hfirst, List.flatMap_map]
  rfl

/-- The labels of a text and of what is appended to it, if no token reaches the end of the text
and the lexer finds there what it finds in the longer text. -/
theorem cellsAhead_extend {s : List α} {lastEnd : ℕ} {c : Cursor α}
    (hstay : ∀ c', c'.text = c.text → c'.rest ≠ [] →
      (∀ k n, L.match? c' = some (k, n) → n < c'.rest.length) →
      L.match? (c'.extend s) = L.match? c')
    (hgap : ∀ seg ∈ L.scan lastEnd c, seg.stop = c.text.length → seg.kind = none) :
    L.cellsAhead label (c.extend s) =
      L.cellsAhead label c ++ L.cellsAhead label ⟨c.text.reverse, s⟩ := by
  induction lastEnd, c using L.scan_induction with
  | nil lastEnd c hnil =>
    have hend : c.extend s = ⟨c.text.reverse, s⟩ := by simp [Cursor.extend, Cursor.text, hnil]
    rw [cellsAhead_nil L label hnil, hend, List.nil_append]
  | token lastEnd c k n hm ih =>
    have hle := L.le hm
    have hne : c.rest ≠ [] := List.length_pos_iff.mp (by have := L.pos hm; omega)
    rw [scan_some L hm] at hgap
    -- the token does not reach the end of the text
    have hlt : n < c.rest.length := by
      refine lt_of_le_of_ne hle fun heq => ?_
      have hstop : (⟨some k, c.index, c.rest.take n⟩ : Segment κ α).stop = c.text.length := by
        rw [Segment.stop, List.length_take, Nat.min_eq_left hle, heq, Cursor.length_text]
      cases hgap _ (by simp) hstop
    have hm' : L.match? (c.extend s) = some (k, n) := by
      rw [hstay c rfl hne, hm]
      rintro k' n' hm'
      rw [hm] at hm'
      cases hm'
      exact hlt
    rw [cellsAhead_some L label hm, cellsAhead_some L label hm', Cursor.advance_extend hle,
      Cursor.rest_extend, List.take_append_of_le_length hle, List.append_assoc,
      ih (by simpa using hstay), Cursor.text_advance]
    intro seg hseg hstop
    exact hgap seg (by simp [hseg]) (by simpa using hstop)
  | skip lastEnd c hne hm ih =>
    have hlen : 1 ≤ c.rest.length := List.length_pos_iff.mpr hne
    have hm' : L.match? (c.extend s) = none := by
      rw [hstay c rfl hne, hm]
      rintro k n hsome
      rw [hm] at hsome
      cases hsome
    have hne' : (c.extend s).rest ≠ [] := by simp [hne]
    rw [scan_none L hne hm] at hgap
    rw [cellsAhead_none L label hne hm, cellsAhead_none L label hne' hm',
      Cursor.advance_extend hlen, Cursor.rest_extend, List.take_append_of_le_length hlen,
      List.append_assoc, ih (by simpa using hstay) (by simpa using hgap), Cursor.text_advance]

/-- The labels of one text behind the other are those of the first and then those of the second,
if no token reaches the end of the first text, the lexer finds there what it finds in the whole,
and its first decision in the second text does not depend on the first. -/
theorem cells_append (hlocal : L.Local) {p s : List α}
    (hstay : ∀ c, c.text = p → c.rest ≠ [] →
      (∀ k n, L.match? c = some (k, n) → n < c.rest.length) → L.match? (c.extend s) = L.match? c)
    (hgap : L.EndsInGap p) (hfirst : L.match? ⟨p.reverse, s⟩ = L.match? ⟨[], s⟩) :
    L.cells label (p ++ s) = L.cells label p ++ L.cells label s := by
  have hsecond : L.cellsAhead label ⟨p.reverse, s⟩ = L.cells label s :=
    cellsAhead_preceded label hlocal (c := ⟨[], s⟩) p hfirst
  have hgap' : ∀ seg ∈ L.scan 0 (Cursor.ofIndex p 0),
      seg.stop = (Cursor.ofIndex p 0).text.length → seg.kind = none := by
    rw [Cursor.text_ofIndex]
    exact hgap
  have hwhole := cellsAhead_extend label (s := s) (by simpa using hstay) hgap'
  rwa [Cursor.text_ofIndex, hsecond] at hwhole

end Lexer
