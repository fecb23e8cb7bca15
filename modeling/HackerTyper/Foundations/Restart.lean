import HackerTyper.Foundations.Segments

/-!
# Restarting a scan

A lexer that looks only at the element in front of a position and at what is ahead of it can be
restarted: the segments behind the start of a segment are those of the text behind it. What
such a lexer found in the beginning of a text can so be kept when the text changes behind it.

## Main definitions

* `Lexer.Local`: the lexer looks at one element in front of a position at most;
* `Segment.shift`: a segment in a longer text.

## Main results

* `scan_tail` and `scan_of_append`: a scan goes on where a segment stops;
* `scan_preceded`: scanning a text that something precedes;
* `segments_restart`: the rest of the segments of a text are the segments of the rest;
* `isPrefix_of_token`: the segments up to a token that stays when the text is continued.
-/

namespace Cursor

variable {α : Type*}

/-- The same position, with a text in front of the whole. -/
def preceded (c : Cursor α) (w : List α) : Cursor α := ⟨c.before ++ w.reverse, c.rest⟩

@[simp] theorem rest_preceded (c : Cursor α) (w : List α) : (c.preceded w).rest = c.rest := rfl

@[simp] theorem index_preceded (c : Cursor α) (w : List α) :
    (c.preceded w).index = c.index + w.length := by
  simp [index, preceded]

theorem advance_preceded (c : Cursor α) (w : List α) (n : ℕ) :
    (c.preceded w).advance n = (c.advance n).preceded w := by
  simp [advance, preceded]

theorem since_preceded (c : Cursor α) (w : List α) (i : ℕ) :
    (c.preceded w).since (i + w.length) = c.since i := by
  have hle : c.index - i ≤ c.before.length := Nat.sub_le _ _
  rw [since, index_preceded, Nat.add_sub_add_right, preceded,
    List.take_append_of_le_length hle]
  rfl

/-- A position inside a text is the front of its rest, with the beginning in front of it. -/
theorem ofIndex_eq_preceded (text : List α) (i : ℕ) :
    ofIndex text i = (ofIndex (text.drop i) 0).preceded (text.take i) := by
  simp [ofIndex, preceded]

end Cursor

/-- A segment in a text with `n` more elements in front. -/
def Segment.shift {κ α : Type*} (n : ℕ) (seg : Segment κ α) : Segment κ α :=
  { seg with start := seg.start + n }

namespace Lexer

variable {κ α : Type*} (L : Lexer κ α)

/-- The lexer looks at one element in front of a position at most. -/
def Local : Prop :=
  ∀ b b' rest : List α, b.head? = b'.head? → L.match? ⟨b, rest⟩ = L.match? ⟨b', rest⟩

/-! ## A scan goes on where a segment stops -/

/-- No gap has been read right behind a token. -/
theorem flush_index (c : Cursor α) : (flush c.index c : List (Segment κ α)) = [] :=
  if_neg (lt_irrefl _)

/-- Behind its first segment, a scan is the scan from where that segment stops. -/
theorem scan_tail {lastEnd : ℕ} {c : Cursor α} (h : lastEnd ≤ c.index) {seg : Segment κ α}
    {segs : List (Segment κ α)} (hscan : L.scan lastEnd c = seg :: segs) :
    segs = L.scan seg.stop (Cursor.ofIndex c.text seg.stop) := by
  induction lastEnd, c using L.scan_induction with
  | nil lastEnd c hnil =>
    -- the segment is the gap at the end of the text
    rw [scan_nil L hnil, flush] at hscan
    split at hscan
    next hlt =>
      cases hscan
      have hstop : (Segment.mk none lastEnd (c.since lastEnd) : Segment κ α).stop = c.index := by
        simp only [Segment.stop, Cursor.length_since h]
        omega
      rw [hstop, ← c.eq_ofIndex_index, scan_nil L hnil, flush_index]
    next => cases hscan
  | token lastEnd c k n hm ih =>
    rw [scan_some L hm, flush] at hscan
    split at hscan
    next hlt =>
      -- the segment is the gap in front of the token
      cases hscan
      have hstop : (Segment.mk none lastEnd (c.since lastEnd) : Segment κ α).stop = c.index := by
        simp only [Segment.stop, Cursor.length_since h]
        omega
      rw [hstop, ← c.eq_ofIndex_index, scan_some L hm, flush_index]
      rfl
    next =>
      cases hscan
      have hidx : (c.advance n).index = c.index + n := Cursor.index_advance (L.le hm)
      have hstop : (Segment.mk (some k) c.index (c.rest.take n) : Segment κ α).stop =
          c.index + n := by
        simp [Segment.stop, L.le hm]
      rw [hstop, ← hidx, ← Cursor.text_advance c n, ← Cursor.eq_ofIndex_index]
  | skip lastEnd c hne hm ih =>
    rw [scan_none L hne hm] at hscan
    rw [← Cursor.text_advance c 1]
    exact ih (by rw [index_advance_one hne]; omega) hscan

/-- Behind any of its segments, a scan is the scan from where they stop. -/
theorem scan_of_append {text : List α} {pre post : List (Segment κ α)} {i : ℕ}
    (hi : i ≤ text.length) (hscan : L.scan i (Cursor.ofIndex text i) = pre ++ post) :
    post = L.scan (i + (pre.flatMap Segment.text).length)
      (Cursor.ofIndex text (i + (pre.flatMap Segment.text).length)) := by
  induction pre generalizing i with
  | nil => exact hscan.symm
  | cons seg pre ih =>
    have hindex : i ≤ (Cursor.ofIndex text i).index := (Cursor.index_ofIndex hi).ge
    have htail := L.scan_tail hindex hscan
    have htiles := L.tiles_scan hindex
    have hconcat := L.flatMap_text_scan hindex
    rw [hscan] at htiles hconcat
    -- the segment starts at `i` and stops inside the text
    obtain ⟨hstart, -⟩ := htiles
    have hstop : seg.stop ≤ text.length := by
      have hlen := congrArg List.length hconcat
      rw [List.cons_append, List.flatMap_cons, List.length_append, List.length_append,
        Cursor.length_since hindex, Cursor.index_ofIndex hi, Cursor.rest_ofIndex,
        List.length_drop] at hlen
      rw [Segment.stop, hstart]
      omega
    rw [Cursor.text_ofIndex] at htail
    have hpost := ih hstop htail.symm
    rwa [Segment.stop, hstart, Nat.add_assoc, ← List.length_append, ← List.flatMap_cons] at hpost

/-! ## Scanning a text that something precedes -/

variable {L}

/-- A gap is moved by what precedes the text. -/
theorem map_shift_flush (lastEnd : ℕ) (c : Cursor α) (w : List α) :
    (flush lastEnd c : List (Segment κ α)).map (Segment.shift w.length) =
      flush (lastEnd + w.length) (c.preceded w) := by
  rw [flush, flush, Cursor.index_preceded, Cursor.since_preceded]
  by_cases hlt : lastEnd < c.index
  · rw [if_pos hlt, if_pos (by omega)]
    rfl
  · rw [if_neg hlt, if_neg (by omega)]
    rfl

/-- Behind the first element, a local lexer does not see what precedes the text. -/
theorem match?_preceded (hlocal : L.Local) {c : Cursor α} (hne : c.before ≠ []) (w : List α) :
    L.match? (c.preceded w) = L.match? c := by
  obtain ⟨x, b, hb⟩ := List.exists_cons_of_ne_nil hne
  refine hlocal _ _ _ ?_
  rw [hb]
  rfl

/-- What precedes a text does not change how it is scanned, if the first decision does not
depend on it. -/
theorem scan_preceded (hlocal : L.Local) (lastEnd : ℕ) {c : Cursor α} (w : List α)
    (hfirst : L.match? (c.preceded w) = L.match? c) :
    L.scan (lastEnd + w.length) (c.preceded w) =
      (L.scan lastEnd c).map (Segment.shift w.length) := by
  -- from the second position on, the lexer does not look at what precedes the text
  have hnext : ∀ c : Cursor α, ∀ n, 0 < n → n ≤ c.rest.length →
      L.match? ((c.advance n).preceded w) = L.match? (c.advance n) := by
    intro c n hpos hle
    refine match?_preceded hlocal ?_ w
    apply List.length_pos_iff.mp
    rw [Cursor.before_advance, List.length_append, List.length_reverse, List.length_take]
    omega
  induction lastEnd, c using L.scan_induction with
  | nil lastEnd c hnil =>
    rw [scan_nil L hnil, map_shift_flush, scan_nil L (by rwa [Cursor.rest_preceded])]
  | token lastEnd c k n hm ih =>
    have hn := L.le hm
    rw [scan_some L hm, scan_some L (hfirst.trans hm), List.map_append, map_shift_flush,
      List.map_cons, ← ih (hnext c n (L.pos hm) hn), Cursor.advance_preceded,
      Cursor.index_preceded, Nat.add_right_comm]
    rfl
  | skip lastEnd c hne hm ih =>
    have hlen : 1 ≤ c.rest.length := List.length_pos_iff.mpr hne
    rw [scan_none L hne hm, scan_none L (by rwa [Cursor.rest_preceded]) (hfirst.trans hm),
      Cursor.advance_preceded, ih (hnext c 1 Nat.one_pos hlen)]

/-- The segments of a text behind some of its first ones are the segments of the text behind
them, if the first decision there does not depend on what is in front. -/
theorem segments_restart (hlocal : L.Local) {text : List α} {pre post : List (Segment κ α)}
    (hsplit : L.segments text = pre ++ post)
    (hfirst : L.match? (Cursor.ofIndex text (pre.flatMap Segment.text).length) =
      L.match? (Cursor.ofIndex (post.flatMap Segment.text) 0)) :
    post = (L.segments (post.flatMap Segment.text)).map
      (Segment.shift (pre.flatMap Segment.text).length) := by
  have htext : text = pre.flatMap Segment.text ++ post.flatMap Segment.text := by
    rw [← List.flatMap_append, ← hsplit, flatMap_text_segments]
  have hpost := L.scan_of_append (Nat.zero_le _) hsplit
  have hdrop : text.drop (pre.flatMap Segment.text).length = post.flatMap Segment.text := by
    rw [htext, List.drop_left]
  have htake : text.take (pre.flatMap Segment.text).length = pre.flatMap Segment.text := by
    rw [htext, List.take_left]
  rw [Nat.zero_add, Cursor.ofIndex_eq_preceded, hdrop, htake] at hpost
  rw [Cursor.ofIndex_eq_preceded, hdrop, htake] at hfirst
  have hscan := scan_preceded hlocal 0 (pre.flatMap Segment.text) hfirst
  rw [Nat.zero_add] at hscan
  exact hpost.trans hscan

/-! ## The first segments of a text -/

/-- A beginning of segments that lie side by side. -/
theorem Tiles.left {i : ℕ} {segs segs' : List (Segment κ α)} (h : Tiles i (segs ++ segs')) :
    Tiles i segs := by
  induction segs generalizing i with
  | nil => trivial
  | cons seg segs ih => exact ⟨h.1, ih h.2⟩

/-- A segment starts where those in front of it stop. -/
theorem Tiles.start_eq {i : ℕ} {segs segs' : List (Segment κ α)} {seg : Segment κ α}
    (h : Tiles i (segs ++ seg :: segs')) :
    seg.start = i + (segs.flatMap Segment.text).length := by
  induction segs generalizing i with
  | nil => exact h.1
  | cons first segs ih =>
    have hstart := ih h.2
    rw [Segment.stop, h.1] at hstart
    rw [hstart, List.flatMap_cons, List.length_append, Nat.add_assoc]

/-- Segments one behind the other that are all among longer ones are the first of those. -/
theorem Tiles.isPrefix {i : ℕ} {segs segs' : List (Segment κ α)} (h : Tiles i segs)
    (h' : Tiles i segs') (hne : ∀ seg ∈ segs', seg.text ≠ []) (hsub : segs ⊆ segs') :
    segs <+: segs' := by
  induction segs generalizing i segs' with
  | nil => exact List.nil_prefix
  | cons seg segs ih =>
    obtain ⟨hstart, hsegs⟩ := h
    have hmem := hsub List.mem_cons_self
    cases segs' with
    | nil => cases hmem
    | cons seg' segs' =>
      obtain ⟨hstart', hsegs'⟩ := h'
      have hpos : seg.start < seg.stop :=
        Nat.lt_add_of_pos_right (List.length_pos_iff.mpr (hne seg hmem))
      -- both begin at the same offset, where only one segment starts
      obtain rfl : seg = seg' := by
        rcases List.mem_cons.mp hmem with heq | hlater
        · exact heq
        · have hlt := hsegs'.le_start seg hlater
          have hpos' : seg'.start < seg'.stop :=
            Nat.lt_add_of_pos_right (List.length_pos_iff.mpr (hne seg' List.mem_cons_self))
          omega
      refine List.cons_prefix_cons.mpr ⟨rfl, ih hsegs hsegs' (fun other hother =>
        hne other (List.mem_cons_of_mem _ hother)) fun other hother => ?_⟩
      rcases List.mem_cons.mp (hsub (List.mem_cons_of_mem _ hother)) with rfl | hlater
      · have hle := hsegs.le_start other hother
        omega
      · exact hlater

/-- The segments up to a token that stops well inside a text are the first segments of every
continuation. -/
theorem isPrefix_of_token {look : ℕ} {fragile : κ → Prop} {p s : List α}
    (hd : L.Decides look fragile p s) {pre post : List (Segment κ α)} {seg : Segment κ α}
    (hsplit : L.segments p = pre ++ seg :: post) (hkind : seg.kind ≠ none)
    (hstop : seg.stop + look ≤ p.length) : pre ++ [seg] <+: L.segments (p ++ s) := by
  have hlook := hd.look_pos
  have htiles := L.tiles_segments p
  have hpairwise := htiles.pairwise
  rw [hsplit, List.pairwise_append] at hpairwise
  have hseg : seg ∈ L.segments p := by simp [hsplit]
  have hpos : seg.start < seg.stop :=
    Nat.lt_add_of_pos_right (List.length_pos_iff.mpr (L.text_ne_nil_of_mem_segments p seg hseg))
  -- a gap in front of the token does not grow, as another token follows it
  have hstay : ∀ other ∈ pre ++ [seg], other ∈ L.segments (p ++ s) := by
    intro other hother
    have hmem : other ∈ L.segments p := by
      rw [hsplit]
      exact (List.mem_append.mp hother).elim (fun h => by simp [h]) fun h => by
        simp [List.mem_singleton.mp h]
    have hle : other = seg ∨ other.stop ≤ seg.start := by
      rcases List.mem_append.mp hother with hpre | hlast
      · exact Or.inr (hpairwise.2.2 other hpre seg List.mem_cons_self)
      · exact Or.inl (List.mem_singleton.mp hlast)
    have hin : other.stop + look ≤ p.length := by
      rcases hle with rfl | hle <;> omega
    rcases L.segments_stable hd hmem hin with hstays | ⟨hgap, ⟨next, hnext, -, hstart, hend⟩, -⟩
    · exact hstays
    · exfalso
      have hle : other.stop ≤ seg.start := hle.resolve_left fun heq => hkind (heq ▸ hgap)
      rcases L.eq_or_stop_le hnext hseg with rfl | hle' | hle' <;> omega
  have hleft : Tiles 0 (pre ++ [seg]) := by
    rw [hsplit, ← List.singleton_append, ← List.append_assoc] at htiles
    exact htiles.left
  exact hleft.isPrefix (L.tiles_segments _) (L.text_ne_nil_of_mem_segments _) hstay

end Lexer
