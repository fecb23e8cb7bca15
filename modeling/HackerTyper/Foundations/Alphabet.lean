import HackerTyper.Foundations.Lexer

/-!
# Maps of the alphabet

An expression is pulled back along a map of the alphabet: it then sees of every element only the
image. Matching the pulled back expression in a text is matching the expression in the image of
the text, so that an expression which is its own pullback, and every lexer made of such, finds
the same in both texts.

## Main definitions

* `Cursor.map`, `Segment.map`: positions and segments of the image of a text;
* `Regex.comap`: the expression pulled back;
* `Lexer.Blind`: a lexer that does not tell elements from their images.

## Main results

* `map_run_comap` and `map_first_comap`: what the expression pulled back matches;
* `segments_map`: a blind lexer cuts a text and its image alike.
-/

namespace Cursor

variable {α β : Type*}

/-- The same place in the image of the text. -/
def map (f : α → β) (c : Cursor α) : Cursor β := ⟨c.before.map f, c.rest.map f⟩

variable (f : α → β) (c : Cursor α)

@[simp] theorem before_map : (c.map f).before = c.before.map f := rfl

@[simp] theorem rest_map : (c.map f).rest = c.rest.map f := rfl

@[simp] theorem index_map : (c.map f).index = c.index := List.length_map f

theorem map_advance (n : ℕ) : (c.advance n).map f = (c.map f).advance n := by
  simp only [map, advance, List.map_append, List.map_reverse, List.map_take, List.map_drop]

theorem since_map (i : ℕ) : (c.map f).since i = (c.since i).map f := by
  simp only [since, index_map, before_map, List.map_reverse, List.map_take]

theorem map_map {γ : Type*} (g : β → γ) : (c.map f).map g = c.map fun x => g (f x) := by
  simp only [map, List.map_map, Function.comp_def]

end Cursor

namespace Regex

variable {α β : Type*} (f : α → β)

/-- The expression that sees of every element only its image. -/
def comap : Regex β → Regex α
  | fail => fail
  | eps => eps
  | set p => set fun x => p (f x)
  | look p => look fun x y => p (x.map f) (y.map f)
  | seq r s => seq (comap r) (comap s)
  | alt r s => alt (comap r) (comap s)
  | star greedy r => star greedy (comap r)
  | opt greedy r => opt greedy (comap r)

theorem comap_seqs (rs : List (Regex β)) : (seqs rs).comap f = seqs (rs.map (comap f)) := by
  induction rs with
  | nil => rfl
  | cons r rs ih => exact congrArg (seq (r.comap f)) ih

theorem comap_alts (rs : List (Regex β)) : (alts rs).comap f = alts (rs.map (comap f)) := by
  induction rs with
  | nil => rfl
  | cons r rs ih => exact congrArg (alt (r.comap f)) ih

/-! ## Matching in the image of a text -/

theorem map_arrange (greedy : Bool) (more : List (Cursor α)) (c : Cursor α) :
    (arrange greedy more c).map (Cursor.map f) =
      arrange greedy (more.map (Cursor.map f)) (c.map f) := by
  cases greedy <;> simp [arrange]

/-- The candidates that consumed something are the images of those that did. -/
theorem map_consuming {g : Cursor α → List (Cursor α)} {h : Cursor β → List (Cursor β)}
    (hgh : ∀ c, (g c).map (Cursor.map f) = h (c.map f)) (c : Cursor α) :
    (consuming g c).map (Cursor.map f) = consuming h (c.map f) := by
  simp only [consuming, ← hgh c, List.filter_map, Function.comp_def, Cursor.rest_map,
    List.length_map]

/-- The candidates of a repetition are the images of those of the body, in the same order. -/
theorem map_iterate {g : Cursor α → List (Cursor α)} {h : Cursor β → List (Cursor β)}
    (hgh : ∀ c, (g c).map (Cursor.map f) = h (c.map f)) (greedy : Bool) (n : ℕ) (c : Cursor α) :
    (iterate greedy g n c).map (Cursor.map f) = iterate greedy h n (c.map f) := by
  induction n generalizing c with
  | zero => rfl
  | succ n ih =>
    rw [iterate, iterate, map_arrange, List.map_flatMap, ← map_consuming f hgh, List.flatMap_map]
    simp only [ih]

/-- The candidates of the expression pulled back are those in the image of the text. -/
theorem map_run_comap (r : Regex β) (c : Cursor α) :
    ((r.comap f).run c).map (Cursor.map f) = r.run (c.map f) := by
  induction r generalizing c with
  | fail => rfl
  | eps => rfl
  | set p =>
    obtain ⟨b, rest⟩ := c
    cases rest with
    | nil => rfl
    | cons x xs =>
      have himage : Cursor.map f ⟨b, x :: xs⟩ = ⟨b.map f, f x :: xs.map f⟩ := rfl
      rw [comap, himage, run_set_cons, run_set_cons]
      split <;> rfl
  | look p =>
    simp only [comap, run, Cursor.before_map, Cursor.rest_map, List.head?_map]
    split <;> rfl
  | seq r s ihr ihs =>
    simp only [comap, run, List.map_flatMap, ihs, ← ihr, List.flatMap_map]
  | alt r s ihr ihs =>
    simp only [comap, run, List.map_append, ihr, ihs]
  | star greedy r ih =>
    simp only [comap, run, Cursor.rest_map, List.length_map]
    exact map_iterate f ih greedy _ c
  | opt greedy r ih =>
    simp only [comap, run, map_arrange, map_consuming f ih]

/-- The first match of the expression pulled back is the first match in the image of the text. -/
theorem map_first_comap (r : Regex β) (c : Cursor α) :
    ((r.comap f).first c).map (Cursor.map f) = r.first (c.map f) := by
  rw [first, first, ← map_run_comap, List.head?_map]

end Regex

/-- The same segment of the image of the text. -/
def Segment.map {κ α β : Type*} (f : α → β) (seg : Segment κ α) : Segment κ β :=
  ⟨seg.kind, seg.start, seg.text.map f⟩

namespace Lexer

variable {κ α : Type*}

/-- The lexer does not tell elements from their images. -/
def Blind (L : Lexer κ α) (f : α → α) : Prop := ∀ c, L.match? (c.map f) = L.match? c

/-- A lexer that does not see more than `g` shows is blind for what `g` hides. -/
theorem Blind.of_comp {L : Lexer κ α} {f g : α → α} (h : L.Blind g) (hfg : ∀ x, g (f x) = g x) :
    L.Blind f := by
  intro c
  rw [← h (c.map f), ← h c, Cursor.map_map]
  simp only [hfg]

theorem flush_map (f : α → α) (lastEnd : ℕ) (c : Cursor α) :
    (flush lastEnd (c.map f) : List (Segment κ α)) =
      (flush lastEnd c).map (Segment.map f) := by
  rw [flush, flush, Cursor.index_map, Cursor.since_map]
  split <;> rfl

/-- A blind lexer cuts the image of a text where it cuts the text. -/
theorem scan_map {L : Lexer κ α} {f : α → α} (h : L.Blind f) (lastEnd : ℕ) (c : Cursor α) :
    L.scan lastEnd (c.map f) = (L.scan lastEnd c).map (Segment.map f) := by
  induction lastEnd, c using L.scan_induction with
  | nil lastEnd c hnil =>
    have hnil' : (c.map f).rest = [] := by rw [Cursor.rest_map, hnil, List.map_nil]
    rw [scan_nil L hnil, scan_nil L hnil', flush_map]
  | token lastEnd c k n hm ih =>
    rw [scan_some L hm, scan_some L ((h c).trans hm), flush_map, Cursor.index_map,
      ← Cursor.map_advance, ih, List.map_append, List.map_cons, Cursor.rest_map, ← List.map_take]
    rfl
  | skip lastEnd c hne hm ih =>
    have hne' : (c.map f).rest ≠ [] := by rwa [Cursor.rest_map, ne_eq, List.map_eq_nil_iff]
    rw [scan_none L hne hm, scan_none L hne' ((h c).trans hm), ← Cursor.map_advance, ih]

/-- A lexer that does not tell elements from their images cuts a text and its image alike. -/
theorem segments_map {L : Lexer κ α} {f : α → α} (h : L.Blind f) (text : List α) :
    L.segments (text.map f) = (L.segments text).map (Segment.map f) :=
  scan_map h 0 (Cursor.ofIndex text 0)

end Lexer
