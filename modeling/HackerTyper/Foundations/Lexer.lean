import HackerTyper.Foundations.Regex

/-!
# First-match lexers

A `Lexer` says at every position of a text whether a token starts there, of which kind
and how long it is. Scanning a text left to right with it cuts the text into segments: the
tokens, and the gaps in which no token starts.

## Main definitions

* `Lexer`, with the proof that its tokens are never empty and never overrun the text;
* `Lexer.scan` and `Lexer.segments`: the segments of a text.

## Main results

* `flatMap_text_segments` and `text_ne_nil_of_mem_segments`: the segments are non-empty and
  concatenate to the text;
* `tiles_segments`: each segment starts where the one before it stops;
* `match?_of_mem_segments` and `match?_eq_none_of_mem_segments`: a token is what the lexer
  reports at its start, and no token starts inside a gap;
* `scan_of_search_none` and `scan_of_search_some`: searching for an expression that matches
  the tokens of a lexer yields its segments one by one;
* `segments_stable`: when the lexer decides with a bounded look-ahead, the segments of a text
  that stop before that distance from its end are segments of every continuation, except
  that the gap in front of a fragile last token may grow.
-/

namespace Cursor

variable {α : Type*}

/-- The text between offset `i` and the cursor. -/
def since (c : Cursor α) (i : ℕ) : List α := (c.before.take (c.index - i)).reverse

@[simp] theorem rest_extend (c : Cursor α) (s : List α) : (c.extend s).rest = c.rest ++ s := rfl

@[simp] theorem index_extend (c : Cursor α) (s : List α) : (c.extend s).index = c.index := rfl

@[simp] theorem since_index (c : Cursor α) : c.since c.index = [] := by simp [since]

/-- As much has been read since an index as the cursor is past it. -/
theorem length_since {c : Cursor α} {i : ℕ} (h : i ≤ c.index) :
    (c.since i).length = c.index - i := by
  simp only [since, List.length_reverse, List.length_take]
  simp only [index] at *
  omega

/-- Advancing appends what is passed to what has been read. -/
theorem since_advance {c : Cursor α} {i n : ℕ} (h : i ≤ c.index) (hn : n ≤ c.rest.length) :
    (c.advance n).since i = c.since i ++ c.rest.take n := by
  have hlen : (c.rest.take n).length = n := by simp [hn]
  -- the elements behind the new cursor: the `n` new ones and the old ones
  have hsplit : c.index + n - i = (c.rest.take n).reverse.length + (c.index - i) := by
    rw [List.length_reverse, hlen]
    omega
  rw [since, index_advance hn, before_advance, hsplit, List.take_length_add_append]
  simp [since]

/-- The text between two offsets, read off the whole text. -/
theorem since_eq_drop_take (c : Cursor α) (i : ℕ) :
    c.since i = (c.text.take c.index).drop i := by
  have htake : c.text.take c.index = c.before.reverse := by
    rw [text, index, ← List.length_reverse, List.take_left']
    rfl
  rw [htake, List.drop_reverse]
  rfl

end Cursor

/-- A lexer over the alphabet `α` with token kinds `κ`: at each cursor, the kind and the
length of the token that starts there, if there is one. -/
structure Lexer (κ α : Type*) where
  /-- The token that starts at a cursor. -/
  match? : Cursor α → Option (κ × ℕ)
  /-- A token is not empty. -/
  pos : ∀ {c k n}, match? c = some (k, n) → 0 < n
  /-- A token ends inside the text. -/
  le : ∀ {c k n}, match? c = some (k, n) → n ≤ c.rest.length

/-- A piece of a text: a token of some kind, or a gap. -/
structure Segment (κ α : Type*) where
  /-- The kind of the token, and nothing for a gap. -/
  kind : Option κ
  /-- The offset of the piece in the text. -/
  start : ℕ
  /-- The piece itself. -/
  text : List α
deriving DecidableEq, Repr

/-- The offset just after a segment. -/
def Segment.stop {κ α : Type*} (seg : Segment κ α) : ℕ := seg.start + seg.text.length

namespace Lexer

variable {κ α : Type*}

/-- The gap between offset `lastEnd` and the cursor, if it is not empty. -/
def flush (lastEnd : ℕ) (c : Cursor α) : List (Segment κ α) :=
  if lastEnd < c.index then [⟨none, lastEnd, c.since lastEnd⟩] else []

/-- The segments from offset `lastEnd` on, when no token starts between it and the
cursor. -/
def scan (L : Lexer κ α) (lastEnd : ℕ) (c : Cursor α) : List (Segment κ α) :=
  if c.rest = [] then flush lastEnd c
  else
    match h : L.match? c with
    | some (k, n) =>
      -- the gap that has been read, the token, and what follows it
      flush lastEnd c ++
        ⟨some k, c.index, c.rest.take n⟩ :: scan L (c.index + n) (c.advance n)
    | none => scan L lastEnd (c.advance 1)
termination_by c.rest.length
decreasing_by
  · have := L.pos h
    have := List.length_pos_iff.mpr ‹¬c.rest = []›
    simp only [Cursor.rest_advance, List.length_drop]
    omega
  · have := List.length_pos_iff.mpr ‹¬c.rest = []›
    simp only [Cursor.rest_advance, List.length_drop]
    omega

/-- The segments of a whole text. -/
def segments (L : Lexer κ α) (text : List α) : List (Segment κ α) :=
  L.scan 0 (Cursor.ofIndex text 0)

variable (L : Lexer κ α)

/-- At the end of the text, the gap that has been read is written. -/
theorem scan_nil {lastEnd : ℕ} {c : Cursor α} (h : c.rest = []) :
    L.scan lastEnd c = flush lastEnd c := by
  rw [scan, if_pos h]

/-- A token ends the gap in front of it, and the scan goes on behind it. -/
theorem scan_some {lastEnd : ℕ} {c : Cursor α} {k : κ} {n : ℕ}
    (h : L.match? c = some (k, n)) :
    L.scan lastEnd c = flush lastEnd c ++
      ⟨some k, c.index, c.rest.take n⟩ :: L.scan (c.index + n) (c.advance n) := by
  have hne : c.rest ≠ [] := by
    have hpos := L.pos h
    have hle := L.le h
    exact List.length_pos_iff.mp (by omega)
  rw [scan, if_neg hne]
  split
  next h' =>
    rw [h] at h'
    cases h'
    rfl
  next h' => rw [h] at h'; cases h'

/-- Where no token starts, the gap grows by an element. -/
theorem scan_none {lastEnd : ℕ} {c : Cursor α} (hne : c.rest ≠ []) (h : L.match? c = none) :
    L.scan lastEnd c = L.scan lastEnd (c.advance 1) := by
  rw [scan, if_neg hne]
  split
  next h' => rw [h] at h'; cases h'
  next => rfl

/-- Induction along a scan: at the end of the text, over a token, and over an element at
which no token starts. -/
theorem scan_induction {motive : ℕ → Cursor α → Prop}
    (nil : ∀ lastEnd c, c.rest = [] → motive lastEnd c)
    (token : ∀ lastEnd c k n, L.match? c = some (k, n) →
      motive (c.index + n) (c.advance n) → motive lastEnd c)
    (skip : ∀ lastEnd c, c.rest ≠ [] → L.match? c = none →
      motive lastEnd (c.advance 1) → motive lastEnd c)
    (lastEnd : ℕ) (c : Cursor α) : motive lastEnd c := by
  induction lastEnd, c using scan.induct L with
  | case1 lastEnd c h => exact nil lastEnd c h
  | case2 lastEnd c _ k n h ih => exact token lastEnd c k n h ih
  | case3 lastEnd c hne h ih => exact skip lastEnd c hne h ih

/-! ## The segments tile the text -/

theorem index_advance_one {c : Cursor α} (h : c.rest ≠ []) :
    (c.advance 1).index = c.index + 1 :=
  Cursor.index_advance (List.length_pos_iff.mpr h)

theorem flatMap_text_flush {lastEnd : ℕ} {c : Cursor α} (h : lastEnd ≤ c.index) :
    (flush lastEnd c : List (Segment κ α)).flatMap Segment.text = c.since lastEnd := by
  rw [flush]
  split
  · simp
  · have heq : lastEnd = c.index := by omega
    subst heq
    simp

/-- A scan loses nothing of the gap that has been read and of what is ahead. -/
theorem flatMap_text_scan {lastEnd : ℕ} {c : Cursor α} (h : lastEnd ≤ c.index) :
    (L.scan lastEnd c).flatMap Segment.text = c.since lastEnd ++ c.rest := by
  induction lastEnd, c using L.scan_induction with
  | nil lastEnd c hnil =>
    rw [scan_nil L hnil, flatMap_text_flush h, hnil, List.append_nil]
  | token lastEnd c k n hm ih =>
    have hn := L.le hm
    have hidx : (c.advance n).index = c.index + n := Cursor.index_advance hn
    -- gap, token and the rest of the text, in this order
    rw [scan_some L hm, List.flatMap_append, flatMap_text_flush h, List.flatMap_cons,
      ih (le_of_eq hidx.symm), ← hidx, Cursor.since_index]
    simp
  | skip lastEnd c hne hm ih =>
    have hlen : 1 ≤ c.rest.length := List.length_pos_iff.mpr hne
    -- the element joins the gap
    rw [scan_none L hne hm, ih (by rw [index_advance_one hne]; omega),
      Cursor.since_advance h hlen, List.append_assoc, Cursor.rest_advance,
      List.take_append_drop]

/-- The segments concatenate to the text. -/
theorem flatMap_text_segments (text : List α) :
    (L.segments text).flatMap Segment.text = text := by
  rw [segments, flatMap_text_scan L (Nat.zero_le _)]
  simp [Cursor.ofIndex, Cursor.since]

/-- A gap is written if it is not empty. -/
theorem mem_flush {lastEnd : ℕ} {c : Cursor α} {seg : Segment κ α} :
    seg ∈ flush lastEnd c ↔
      lastEnd < c.index ∧ seg = ⟨none, lastEnd, c.since lastEnd⟩ := by
  rw [flush]
  split
  next h => simp [h]
  next h => simp [h]

theorem text_ne_nil_of_mem_scan (lastEnd : ℕ) (c : Cursor α) :
    ∀ seg ∈ L.scan lastEnd c, seg.text ≠ [] := by
  have hflush : ∀ (lastEnd : ℕ) (c : Cursor α), ∀ seg ∈ (flush lastEnd c : List (Segment κ α)),
      seg.text ≠ [] := by
    intro lastEnd c seg hseg
    obtain ⟨hlt, rfl⟩ := mem_flush.mp hseg
    apply List.length_pos_iff.mp
    rw [Cursor.length_since hlt.le]
    omega
  induction lastEnd, c using L.scan_induction with
  | nil lastEnd c hnil =>
    intro seg hseg
    rw [scan_nil L hnil] at hseg
    exact hflush lastEnd c seg hseg
  | token lastEnd c k n hm ih =>
    intro seg hseg
    rw [scan_some L hm] at hseg
    -- the gap in front, the token, or a segment behind it
    rcases List.mem_append.mp hseg with hseg | hseg
    · exact hflush lastEnd c seg hseg
    · rcases List.mem_cons.mp hseg with rfl | hseg
      · have hpos := L.pos hm
        have hle := L.le hm
        apply List.length_pos_iff.mp
        simp only [List.length_take]
        omega
      · exact ih seg hseg
  | skip lastEnd c hne hm ih =>
    intro seg hseg
    rw [scan_none L hne hm] at hseg
    exact ih seg hseg

/-- No segment is empty. -/
theorem text_ne_nil_of_mem_segments (text : List α) :
    ∀ seg ∈ L.segments text, seg.text ≠ [] :=
  L.text_ne_nil_of_mem_scan 0 _

/-- Each of the segments starts where the one before it stops, the first one at `i`. -/
def Tiles : ℕ → List (Segment κ α) → Prop
  | _, [] => True
  | i, seg :: segs => seg.start = i ∧ Tiles seg.stop segs

/-- The segments of a scan lie side by side. -/
theorem tiles_scan {lastEnd : ℕ} {c : Cursor α} (h : lastEnd ≤ c.index) :
    Tiles lastEnd (L.scan lastEnd c) := by
  -- a gap closes the space between `lastEnd` and the cursor
  have hcons : ∀ (lastEnd : ℕ) (c : Cursor α) (segs : List (Segment κ α)),
      lastEnd ≤ c.index → Tiles c.index segs → Tiles lastEnd (flush lastEnd c ++ segs) := by
    intro lastEnd c segs h hsegs
    rw [flush]
    split
    · refine ⟨rfl, ?_⟩
      have hstop : (Segment.mk none lastEnd (c.since lastEnd) : Segment κ α).stop = c.index := by
        simp only [Segment.stop, Cursor.length_since h]
        omega
      rwa [hstop]
    · have heq : lastEnd = c.index := by omega
      rwa [heq]
  induction lastEnd, c using L.scan_induction with
  | nil lastEnd c hnil =>
    rw [scan_nil L hnil]
    simpa using hcons lastEnd c [] h trivial
  | token lastEnd c k n hm ih =>
    have hn := L.le hm
    have hidx : (c.advance n).index = c.index + n := Cursor.index_advance hn
    rw [scan_some L hm]
    apply hcons lastEnd c _ h
    refine ⟨rfl, ?_⟩
    have hstop : (Segment.mk (some k) c.index (c.rest.take n) : Segment κ α).stop =
        c.index + n := by
      simp [Segment.stop, hn]
    rw [hstop]
    exact ih (le_of_eq hidx.symm)
  | skip lastEnd c hne hm ih =>
    rw [scan_none L hne hm]
    exact ih (by rw [index_advance_one hne]; omega)

/-- Each segment starts where the one before it stops. -/
theorem tiles_segments (text : List α) : Tiles 0 (L.segments text) :=
  L.tiles_scan (Nat.zero_le _)

/-! ## Where tokens start -/

/-- A token is what the lexer reports at its start. -/
theorem match?_of_mem_scan {lastEnd : ℕ} {c : Cursor α} {k : κ} {i : ℕ} {w : List α}
    (hseg : (⟨some k, i, w⟩ : Segment κ α) ∈ L.scan lastEnd c) :
    L.match? (Cursor.ofIndex c.text i) = some (k, w.length) ∧
      w = (c.text.drop i).take w.length := by
  induction lastEnd, c using L.scan_induction with
  | nil lastEnd c hnil =>
    rw [scan_nil L hnil, mem_flush] at hseg
    cases hseg.2
  | token lastEnd c k' n hm ih =>
    rw [scan_some L hm] at hseg
    rcases List.mem_append.mp hseg with hseg | hseg
    · -- a gap has no kind
      cases (mem_flush.mp hseg).2
    · rcases List.mem_cons.mp hseg with heq | hseg
      · -- the token of this step starts at the cursor
        cases heq
        have hlen : (c.rest.take n).length = n := by simp [L.le hm]
        have hdrop : c.text.drop c.index = c.rest := by
          simp [Cursor.text, Cursor.index]
        rw [← c.eq_ofIndex_index, hlen, hdrop]
        exact ⟨hm, rfl⟩
      · simpa using ih hseg
  | skip lastEnd c hne hm ih =>
    rw [scan_none L hne hm] at hseg
    simpa using ih hseg

/-- No token starts inside a gap that was read since the last token. -/
def NoTokenSince (L : Lexer κ α) (lastEnd : ℕ) (c : Cursor α) : Prop :=
  ∀ i, lastEnd ≤ i → i < c.index → L.match? (Cursor.ofIndex c.text i) = none

/-- Where no token starts, the gap may grow. -/
theorem NoTokenSince.advance_one {L : Lexer κ α} {lastEnd : ℕ} {c : Cursor α}
    (h : NoTokenSince L lastEnd c) (hne : c.rest ≠ []) (hm : L.match? c = none) :
    NoTokenSince L lastEnd (c.advance 1) := by
  intro i hi hlt
  rw [index_advance_one hne] at hlt
  rw [Cursor.text_advance]
  -- an offset read earlier, or the one just read
  rcases Nat.lt_succ_iff_lt_or_eq.mp hlt with hlt | rfl
  · exact h i hi hlt
  · rwa [← c.eq_ofIndex_index]

/-- No token starts inside a gap. -/
theorem match?_eq_none_of_mem_scan {lastEnd : ℕ} {c : Cursor α}
    (hsince : NoTokenSince L lastEnd c) {seg : Segment κ α} (hseg : seg ∈ L.scan lastEnd c)
    (hgap : seg.kind = none) {i : ℕ} (hstart : seg.start ≤ i) (hstop : i < seg.stop) :
    L.match? (Cursor.ofIndex c.text i) = none := by
  have hflush : ∀ (lastEnd : ℕ) (c : Cursor α), NoTokenSince L lastEnd c →
      seg ∈ (flush lastEnd c : List (Segment κ α)) →
      L.match? (Cursor.ofIndex c.text i) = none := by
    intro lastEnd c hsince hseg
    obtain ⟨hlt, rfl⟩ := mem_flush.mp hseg
    simp only [Segment.stop, Cursor.length_since hlt.le] at hstart hstop
    exact hsince i hstart (by omega)
  induction lastEnd, c using L.scan_induction with
  | nil lastEnd c hnil =>
    rw [scan_nil L hnil] at hseg
    exact hflush lastEnd c hsince hseg
  | token lastEnd c k n hm ih =>
    rw [scan_some L hm] at hseg
    rcases List.mem_append.mp hseg with hseg | hseg
    · exact hflush lastEnd c hsince hseg
    · rcases List.mem_cons.mp hseg with rfl | hseg
      · cases hgap
      · have hidx : (c.advance n).index = c.index + n := Cursor.index_advance (L.le hm)
        rw [← Cursor.text_advance c n]
        -- behind the token nothing has been read yet
        exact ih (fun j hj hlt => by omega) hseg
  | skip lastEnd c hne hm ih =>
    rw [scan_none L hne hm] at hseg
    rw [← Cursor.text_advance c 1]
    exact ih (hsince.advance_one hne hm) hseg

/-- A token of a text is what the lexer reports at its start. -/
theorem match?_of_mem_segments {text : List α} {k : κ} {i : ℕ} {w : List α}
    (hseg : (⟨some k, i, w⟩ : Segment κ α) ∈ L.segments text) :
    L.match? (Cursor.ofIndex text i) = some (k, w.length) ∧
      w = (text.drop i).take w.length := by
  simpa using L.match?_of_mem_scan hseg

/-- No token starts inside a gap of a text. -/
theorem match?_eq_none_of_mem_segments {text : List α} {seg : Segment κ α}
    (hseg : seg ∈ L.segments text) (hgap : seg.kind = none) {i : ℕ} (hstart : seg.start ≤ i)
    (hstop : i < seg.stop) : L.match? (Cursor.ofIndex text i) = none := by
  have hsince : NoTokenSince L 0 (Cursor.ofIndex text 0) := by
    intro j _ hlt
    simp [Cursor.ofIndex, Cursor.index] at hlt
  simpa using L.match?_eq_none_of_mem_scan hsince hseg hgap hstart hstop

/-! ## Scanning by searching for a regular expression -/

/-- The expression matches at every cursor the token of the lexer, and nothing else. -/
def Realizes (r : Regex α) (L : Lexer κ α) : Prop :=
  ∀ c, r.first c = (L.match? c).map fun m => c.advance m.2

/-- When the search fails, the rest of the text is a gap. -/
theorem scan_of_search_none {r : Regex α} (hr : Realizes r L) {lastEnd : ℕ} {c : Cursor α}
    (h : r.search c = none) : L.scan lastEnd c = flush lastEnd (c.advance c.rest.length) := by
  induction lastEnd, c using L.scan_induction with
  | nil lastEnd c hnil =>
    rw [scan_nil L hnil, hnil]
    rfl
  | token lastEnd c k n hm ih =>
    -- a token would have been found
    rw [Regex.search_of_first_some (by rw [hr, hm, Option.map_some])] at h
    cases h
  | skip lastEnd c hne hm ih =>
    obtain ⟨b, rest⟩ := c
    cases rest with
    | nil => exact absurd rfl hne
    | cons x xs =>
      have hfirst : r.first ⟨b, x :: xs⟩ = none := by rw [hr, hm, Option.map_none]
      rw [Regex.search_of_first_none hfirst] at h
      rw [scan_none L hne hm, ih h]
      simp

/-- When the search succeeds, it skips to the next token. -/
theorem scan_of_search_some {r : Regex α} (hr : Realizes r L) (lastEnd : ℕ) {c s e : Cursor α}
    (h : r.search c = some (s, e)) :
    ∃ k n, L.match? s = some (k, n) ∧ e = s.advance n ∧
      L.scan lastEnd c = flush lastEnd s ++
        ⟨some k, s.index, s.rest.take n⟩ :: L.scan (s.index + n) (s.advance n) := by
  induction lastEnd, c using L.scan_induction with
  | nil lastEnd c hnil =>
    exfalso
    -- a token would not fit into what is left of the text
    have hnone : L.match? c = none := by
      cases hm : L.match? c with
      | none => rfl
      | some m =>
        have hpos := L.pos hm
        have hle := L.le hm
        rw [hnil, List.length_nil] at hle
        omega
    obtain ⟨hahead, hfirst⟩ := Regex.search_spec h
    obtain ⟨n, hn, rfl⟩ := hahead
    rw [hnil, List.length_nil, Nat.le_zero] at hn
    rw [hn, Cursor.advance_zero, hr, hnone] at hfirst
    cases hfirst
  | token lastEnd c k n hm ih =>
    -- the token at the cursor is the leftmost match
    rw [Regex.search_of_first_some (by rw [hr, hm, Option.map_some])] at h
    cases h
    exact ⟨k, n, hm, rfl, scan_some L hm⟩
  | skip lastEnd c hne hm ih =>
    obtain ⟨b, rest⟩ := c
    cases rest with
    | nil => exact absurd rfl hne
    | cons x xs =>
      have hfirst : r.first ⟨b, x :: xs⟩ = none := by rw [hr, hm, Option.map_none]
      -- the search and the scan both go to the next element
      rw [Regex.search_of_first_none hfirst] at h
      rw [scan_none L hne hm]
      exact ih h

/-! ## Scanning a text and its continuations -/

/-- A segment is the gap that was being read, or it starts at the cursor or behind it. -/
theorem le_start_of_mem_scan {lastEnd : ℕ} {c : Cursor α} (h : lastEnd ≤ c.index)
    {seg : Segment κ α} (hseg : seg ∈ L.scan lastEnd c) :
    seg.start = lastEnd ∧ c.index ≤ seg.stop ∨ c.index ≤ seg.start := by
  have hflush : ∀ (lastEnd : ℕ) (c : Cursor α), seg ∈ (flush lastEnd c : List (Segment κ α)) →
      seg.start = lastEnd ∧ c.index ≤ seg.stop := by
    intro lastEnd c hseg
    obtain ⟨hlt, rfl⟩ := mem_flush.mp hseg
    simp only [Segment.stop, Cursor.length_since hlt.le]
    exact ⟨trivial, by omega⟩
  induction lastEnd, c using L.scan_induction with
  | nil lastEnd c hnil =>
    rw [scan_nil L hnil] at hseg
    exact Or.inl (hflush lastEnd c hseg)
  | token lastEnd c k n hm ih =>
    rw [scan_some L hm] at hseg
    rcases List.mem_append.mp hseg with hseg | hseg
    · exact Or.inl (hflush lastEnd c hseg)
    · rcases List.mem_cons.mp hseg with rfl | hseg
      · exact Or.inr le_rfl
      · have hidx : (c.advance n).index = c.index + n := Cursor.index_advance (L.le hm)
        rcases ih (le_of_eq hidx.symm) hseg with ⟨hstart, -⟩ | hstart <;> right <;> omega
  | skip lastEnd c hne hm ih =>
    rw [scan_none L hne hm] at hseg
    have hidx := index_advance_one hne
    -- the gap in front may have grown by the element just skipped
    rcases ih (by omega) hseg with ⟨hstart, hstop⟩ | hstart
    · exact Or.inl ⟨hstart, by omega⟩
    · right
      omega

/-- The gap in front of the cursor is the beginning of a gap of the scan. -/
theorem exists_gap_of_lt {lastEnd : ℕ} {c : Cursor α} (h : lastEnd < c.index) :
    ∃ seg ∈ L.scan lastEnd c, seg.kind = none ∧ seg.start = lastEnd ∧
      c.since lastEnd <+: seg.text := by
  induction lastEnd, c using L.scan_induction with
  | nil lastEnd c hnil =>
    rw [scan_nil L hnil]
    exact ⟨_, mem_flush.mpr ⟨h, rfl⟩, rfl, rfl, List.prefix_refl _⟩
  | token lastEnd c k n hm ih =>
    rw [scan_some L hm]
    exact ⟨_, List.mem_append_left _ (mem_flush.mpr ⟨h, rfl⟩), rfl, rfl, List.prefix_refl _⟩
  | skip lastEnd c hne hm ih =>
    rw [scan_none L hne hm]
    have hidx := index_advance_one hne
    obtain ⟨seg, hseg, hkind, hstart, hpre⟩ := ih (by omega)
    have hlen : 1 ≤ c.rest.length := List.length_pos_iff.mpr hne
    -- the longer gap begins with the one read so far
    rw [Cursor.since_advance h.le hlen] at hpre
    exact ⟨seg, hseg, hkind, hstart, (List.prefix_append _ _).trans hpre⟩

/-- A lexer decides on the text `p` with look-ahead `look`, whatever text `s` follows: a
token that stops `look` elements before the end of `p` is a token of `p ++ s`, where none
starts `look` elements before the end of `p`, none starts in `p ++ s`, and one that starts in
`p` also starts in `p ++ s` unless it is fragile and reaches the end of `p`. -/
structure Decides (L : Lexer κ α) (look : ℕ) (fragile : κ → Prop) (p s : List α) : Prop where
  /-- The look-ahead is not empty. -/
  look_pos : 0 < look
  /-- Tokens well inside `p` stay. -/
  token : ∀ c, c.text = p → ∀ k n, L.match? c = some (k, n) → n + look ≤ c.rest.length →
    L.match? (c.extend s) = some (k, n)
  /-- Positions well inside `p` without a token stay without one. -/
  skip : ∀ c, c.text = p → look ≤ c.rest.length → L.match? c = none →
    L.match? (c.extend s) = none
  /-- Where a token starts in `p`, one starts in `p ++ s`. -/
  start : ∀ c, c.text = p → ∀ k n, L.match? c = some (k, n) → L.match? (c.extend s) = none →
    fragile k ∧ n = c.rest.length

/-- The gap `seg` of `p` may grow when `p` is continued: a fragile token that reaches the end
of `p` follows it, and the continuation has a gap that starts where it starts and begins with
its text. -/
def MayGrow (fragile : κ → Prop) (p : List α) (segs segs' : List (Segment κ α))
    (seg : Segment κ α) : Prop :=
  seg.kind = none ∧
    (∃ next ∈ segs, (∃ k, next.kind = some k ∧ fragile k) ∧ next.start = seg.stop ∧
      next.stop = p.length) ∧
    ∃ seg' ∈ segs', seg'.kind = none ∧ seg'.start = seg.start ∧ seg.text <+: seg'.text

/-- Well inside a text, scanning does not depend on what follows the text. -/
theorem scan_stable {look : ℕ} {fragile : κ → Prop} {p s : List α}
    (hd : L.Decides look fragile p s) {lastEnd : ℕ} {c : Cursor α} (htext : c.text = p)
    (h : lastEnd ≤ c.index) {seg : Segment κ α} (hseg : seg ∈ L.scan lastEnd c)
    (hstop : seg.stop + look ≤ p.length) :
    seg ∈ L.scan lastEnd (c.extend s) ∨
      MayGrow fragile p (L.scan lastEnd c) (L.scan lastEnd (c.extend s)) seg := by
  have hlook := hd.look_pos
  induction lastEnd, c using L.scan_induction with
  | nil lastEnd c hnil =>
    -- what is left of the text is a gap up to its end
    exfalso
    have hlen : p.length = c.index := by simp [← htext, Cursor.length_text, hnil]
    rw [scan_nil L hnil, mem_flush] at hseg
    obtain ⟨hlt, rfl⟩ := hseg
    simp only [Segment.stop, Cursor.length_since hlt.le] at hstop
    omega
  | token lastEnd c k n hm ih =>
    have hn := L.le hm
    have hidx : (c.advance n).index = c.index + n := Cursor.index_advance hn
    have hlen : p.length = c.index + c.rest.length := by rw [← htext, Cursor.length_text]
    by_cases hfar : n + look ≤ c.rest.length
    · -- the token stays, and with it the gap in front of it
      have hm' := hd.token c htext k n hm hfar
      have hscan : L.scan lastEnd (c.extend s) =
          flush lastEnd c ++ ⟨some k, c.index, c.rest.take n⟩ ::
            L.scan (c.index + n) ((c.advance n).extend s) := by
        rw [scan_some L hm', Cursor.advance_extend hn, Cursor.index_extend,
          Cursor.rest_extend, List.take_append_of_le_length hn]
        rfl
      rw [scan_some L hm] at hseg ⊢
      rw [hscan]
      rcases List.mem_append.mp hseg with hseg | hseg
      · exact Or.inl (List.mem_append_left _ hseg)
      · rcases List.mem_cons.mp hseg with rfl | hseg
        · exact Or.inl (by simp)
        · -- behind the token, by induction: the gap that grows is one of the rest
          rcases ih (by simpa using htext) (le_of_eq hidx.symm) hseg with hin | hgrow
          · exact Or.inl (by simp [hin])
          · obtain ⟨hkind, ⟨next, hnext, hnexts⟩, seg', hseg', hrest⟩ := hgrow
            exact Or.inr ⟨hkind, ⟨next, by simp [hnext], hnexts⟩, seg', by simp [hseg'], hrest⟩
    · -- only the gap in front of the token stops early enough
      rw [scan_some L hm] at hseg
      rcases List.mem_append.mp hseg with hseg | hseg
      · cases hm' : L.match? (c.extend s) with
        | some m =>
          rw [scan_some L hm']
          exact Or.inl (List.mem_append_left _ hseg)
        | none =>
          -- the token vanishes: it was fragile and reached the end of `p`
          right
          obtain ⟨hfragile, hend⟩ := hd.start c htext k n hm hm'
          obtain ⟨hlt, rfl⟩ := mem_flush.mp hseg
          have hgap := L.exists_gap_of_lt (c := c.extend s) hlt
          refine ⟨rfl, ⟨⟨some k, c.index, c.rest.take n⟩, ?_, ⟨k, rfl, hfragile⟩, ?_, ?_⟩, hgap⟩
          · simp [scan_some L hm]
          · simp only [Segment.stop, Cursor.length_since hlt.le]
            omega
          · simp only [Segment.stop, List.length_take]
            omega
      · -- the token and what follows it stop too late
        exfalso
        rcases List.mem_cons.mp hseg with rfl | hseg
        · simp only [Segment.stop, List.length_take] at hstop
          omega
        · rcases L.le_start_of_mem_scan (le_of_eq hidx.symm) hseg with ⟨hs, hle⟩ | hle
          · simp only [Segment.stop] at *
            omega
          · simp only [Segment.stop] at *
            omega
  | skip lastEnd c hne hm ih =>
    have hidx := index_advance_one hne
    have hlen : p.length = c.index + c.rest.length := by rw [← htext, Cursor.length_text]
    rw [scan_none L hne hm] at hseg ⊢
    by_cases hfar : look ≤ c.rest.length
    · -- no token starts here in the continuation either
      have hne' : (c.extend s).rest ≠ [] := by simp [Cursor.extend, hne]
      rw [scan_none L hne' (hd.skip c htext hfar hm),
        Cursor.advance_extend (List.length_pos_iff.mpr hne)]
      exact ih (by simpa using htext) (by omega) hseg
    · -- so near the end every segment behind the cursor stops too late
      exfalso
      rcases L.le_start_of_mem_scan (by omega) hseg with ⟨-, hle⟩ | hle
      · omega
      · simp only [Segment.stop] at hstop
        omega

/-- Well inside a text, the segments do not depend on what follows the text, except that
the gap in front of a fragile token at its end may grow. -/
theorem segments_stable {look : ℕ} {fragile : κ → Prop} {p s : List α}
    (hd : L.Decides look fragile p s) {seg : Segment κ α} (hseg : seg ∈ L.segments p)
    (hstop : seg.stop + look ≤ p.length) :
    seg ∈ L.segments (p ++ s) ∨
      MayGrow fragile p (L.segments p) (L.segments (p ++ s)) seg := by
  have hext : Cursor.ofIndex (p ++ s) 0 = (Cursor.ofIndex p 0).extend s := rfl
  rw [segments, segments, hext] at *
  exact L.scan_stable hd (Cursor.text_ofIndex p 0) (Nat.zero_le _) hseg hstop

end Lexer
