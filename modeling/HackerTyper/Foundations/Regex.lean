import Mathlib.Data.List.Basic
import Mathlib.Data.List.Infix
import Mathlib.Tactic.Common

/-!
# Backtracking regular expressions

Regular expressions over an arbitrary alphabet with the ordered semantics of a
backtracking matcher. `Regex.run r c` lists the positions at which a match of `r`
started at the cursor `c` may end, in the order in which backtracking tries them, so
that the matcher's answer is the head of the list. A repetition runs its body again only
after an iteration that consumed something.

## Main definitions

* `Cursor`: a position in a text, as the elements behind it and the elements ahead;
* `Regex` and `Regex.run`;
* `Regex.first`: where the match the matcher reports ends;
* `Regex.search`: the leftmost match at or after a cursor.

## Main results

* `run_star`: the unfolding equation of a repetition, free of its iteration bound;
* `flatMap_star_set_of_possessive`: a greedy repetition of a set is only left at the end of
  the run when what follows cannot match earlier;
* `head?_lazy_star`: a lazy repetition tries what follows before every iteration;
* `ahead_of_mem_run`: a match ends inside the text, at or after its start;
* `search_spec`: a search reports a match at or after its cursor.
-/

/-- A position in a text: the elements behind it, nearest first, and those ahead. -/
structure Cursor (α : Type*) where
  /-- The elements already passed, the nearest one first. -/
  before : List α
  /-- The elements still ahead. -/
  rest : List α
deriving DecidableEq, Repr

namespace Cursor

variable {α : Type*}

/-- The cursor at offset `i` of `text`, or at its end if `i` is past it. -/
def ofIndex (text : List α) (i : ℕ) : Cursor α := ⟨(text.take i).reverse, text.drop i⟩

/-- The text a cursor points into. -/
def text (c : Cursor α) : List α := c.before.reverse ++ c.rest

/-- The offset of a cursor in its text. -/
def index (c : Cursor α) : ℕ := c.before.length

/-- The cursor `n` elements further, or at the end of the text. -/
def advance (c : Cursor α) (n : ℕ) : Cursor α :=
  ⟨(c.rest.take n).reverse ++ c.before, c.rest.drop n⟩

/-- The same position in the text followed by `s`. -/
def extend (c : Cursor α) (s : List α) : Cursor α := ⟨c.before, c.rest ++ s⟩

@[simp] theorem advance_zero (c : Cursor α) : c.advance 0 = c := rfl

@[simp] theorem advance_cons (b : List α) (x : α) (xs : List α) (n : ℕ) :
    (Cursor.mk b (x :: xs)).advance (n + 1) = (Cursor.mk (x :: b) xs).advance n := by
  simp [advance]

@[simp] theorem rest_advance (c : Cursor α) (n : ℕ) : (c.advance n).rest = c.rest.drop n := rfl

@[simp] theorem before_advance (c : Cursor α) (n : ℕ) :
    (c.advance n).before = (c.rest.take n).reverse ++ c.before := rfl

theorem advance_advance (c : Cursor α) (m n : ℕ) :
    (c.advance m).advance n = c.advance (m + n) := by
  simp only [advance, List.drop_drop, List.take_add, List.reverse_append, List.append_assoc]

theorem advance_ofIndex (text : List α) (i n : ℕ) :
    (ofIndex text i).advance n = ofIndex text (i + n) := by
  simp only [advance, ofIndex, List.drop_drop, List.take_add, List.reverse_append]

theorem rest_ofIndex (text : List α) (i : ℕ) : (ofIndex text i).rest = text.drop i := rfl

@[simp] theorem text_advance (c : Cursor α) (n : ℕ) : (c.advance n).text = c.text := by
  simp [text, advance]

@[simp] theorem text_ofIndex (l : List α) (i : ℕ) : (ofIndex l i).text = l := by
  simp [text, ofIndex]

/-- The cursor at an index of the text has that index. -/
theorem index_ofIndex {l : List α} {i : ℕ} (h : i ≤ l.length) : (ofIndex l i).index = i := by
  simp [index, ofIndex, h]

/-- Advancing inside the text adds to the index. -/
theorem index_advance {c : Cursor α} {n : ℕ} (h : n ≤ c.rest.length) :
    (c.advance n).index = c.index + n := by
  simp [index, advance, List.length_take, Nat.min_eq_left h, Nat.add_comm]

/-- The text is what is before the cursor and what is after it. -/
theorem length_text (c : Cursor α) : c.text.length = c.index + c.rest.length := by
  simp [text, index]

theorem advance_extend {c : Cursor α} {n : ℕ} (h : n ≤ c.rest.length) (s : List α) :
    (c.extend s).advance n = (c.advance n).extend s := by
  simp [advance, extend, List.take_append_of_le_length h, List.drop_append_of_le_length h]

/-- A cursor is determined by its text and its offset. -/
theorem eq_ofIndex_index (c : Cursor α) : c = ofIndex c.text c.index := by
  obtain ⟨b, r⟩ := c
  simp [ofIndex, text, index]

end Cursor

/-- Regular expressions over an alphabet `α`. Sets are given by their membership test,
and zero-width assertions by a test of the two elements around the position. -/
inductive Regex (α : Type*)
  /-- Matches nothing. -/
  | fail
  /-- Matches the empty text. -/
  | eps
  /-- Matches one element of the set. -/
  | set (p : α → Bool)
  /-- Matches the empty text where the neighbours pass the test. -/
  | look (p : Option α → Option α → Bool)
  /-- One after the other. -/
  | seq (r s : Regex α)
  /-- The first, or failing that the second. -/
  | alt (r s : Regex α)
  /-- Any number of iterations, as many or as few as possible. -/
  | star (greedy : Bool) (r : Regex α)
  /-- At most one iteration, preferably one or preferably none. -/
  | opt (greedy : Bool) (r : Regex α)

namespace Regex

variable {α : Type*}

/-- The candidates of a choice between going on and stopping at `c`. -/
def arrange (greedy : Bool) (more : List (Cursor α)) (c : Cursor α) : List (Cursor α) :=
  if greedy then more ++ [c] else c :: more

/-- The candidates of `f` that consumed something. -/
def consuming (f : Cursor α → List (Cursor α)) (c : Cursor α) : List (Cursor α) :=
  (f c).filter fun c' => c'.rest.length < c.rest.length

/-- At most `n` iterations of `f`, each of which must consume something. -/
def iterate (greedy : Bool) (f : Cursor α → List (Cursor α)) : ℕ → Cursor α → List (Cursor α)
  | 0, c => [c]
  | n + 1, c => arrange greedy ((consuming f c).flatMap (iterate greedy f n)) c

/-- The ends of the matches of a regular expression that start at a cursor, in the order
in which backtracking tries them. -/
def run : Regex α → Cursor α → List (Cursor α)
  | fail, _ => []
  | eps, c => [c]
  | set p, c =>
    match c.rest with
    | [] => []
    | x :: _ => if p x then [c.advance 1] else []
  | look p, c => if p c.before.head? c.rest.head? then [c] else []
  -- every way to match `r` is continued with every way to match `s`
  | seq r s, c => (run r c).flatMap (run s)
  | alt r s, c => run r c ++ run s c
  -- no more iterations consume something than elements are ahead
  | star greedy r, c => iterate greedy (run r) c.rest.length c
  | opt greedy r, c => arrange greedy (consuming (run r) c) c

/-- The end of the match the matcher reports at a cursor. -/
def first (r : Regex α) (c : Cursor α) : Option (Cursor α) := (r.run c).head?

/-- The expressions one after the other. -/
def seqs (rs : List (Regex α)) : Regex α := rs.foldr seq eps

/-- The first of the expressions that matches. -/
def alts (rs : List (Regex α)) : Regex α := rs.foldr alt fail

/-- At least one iteration. -/
def plus (greedy : Bool) (r : Regex α) : Regex α := seq r (star greedy r)

/-- Exactly the elements of `s`, in order. -/
def lit [DecidableEq α] (s : List α) : List (Regex α) := s.map fun x => set fun y => y = x

/-- The leftmost match at or after the cursor: where it starts and where it ends. -/
def searchFrom (r : Regex α) (before : List α) : List α → Option (Cursor α × Cursor α)
  | [] => (r.first ⟨before, []⟩).map fun e => (⟨before, []⟩, e)
  | x :: xs =>
    match r.first ⟨before, x :: xs⟩ with
    | some e => some (⟨before, x :: xs⟩, e)
    | none => searchFrom r (x :: before) xs

/-- The leftmost match at or after the cursor: where it starts and where it ends. -/
def search (r : Regex α) (c : Cursor α) : Option (Cursor α × Cursor α) :=
  searchFrom r c.before c.rest

/-! ## Sequences and alternatives -/

@[simp] theorem run_seqs_nil (c : Cursor α) : (seqs []).run c = [c] := rfl

@[simp] theorem run_seqs_cons (r : Regex α) (rs : List (Regex α)) (c : Cursor α) :
    (seqs (r :: rs)).run c = (r.run c).flatMap (seqs rs).run := rfl

@[simp] theorem flatMap_run_seqs_nil (l : List (Cursor α)) : l.flatMap (seqs []).run = l :=
  List.flatMap_singleton' l

@[simp] theorem run_seqs_singleton (r : Regex α) (c : Cursor α) : (seqs [r]).run c = r.run c := by
  rw [run_seqs_cons, flatMap_run_seqs_nil]

@[simp] theorem run_alts_singleton (r : Regex α) (c : Cursor α) : (alts [r]).run c = r.run c :=
  List.append_nil _

/-- A sequence is run in two parts. -/
theorem run_seqs_append (rs ss : List (Regex α)) (c : Cursor α) :
    (seqs (rs ++ ss)).run c = ((seqs rs).run c).flatMap (seqs ss).run := by
  induction rs generalizing c with
  | nil => simp
  | cons r rs ih =>
    simp only [List.cons_append, run_seqs_cons, List.flatMap_assoc]
    -- both sides continue every candidate of `r`
    congr 1
    funext c'
    exact ih c'

@[simp] theorem run_alts_nil (c : Cursor α) : (alts []).run c = [] := rfl

@[simp] theorem run_alts_cons (r : Regex α) (rs : List (Regex α)) (c : Cursor α) :
    (alts (r :: rs)).run c = r.run c ++ (alts rs).run c := rfl

/-- Of several alternatives, the first that matches at all decides. -/
theorem first_alts (rs : List (Regex α)) (c : Cursor α) :
    (alts rs).first c = rs.findSome? fun r => r.first c := by
  induction rs with
  | nil => rfl
  | cons r rs ih =>
    rw [List.findSome?_cons, ← ih]
    -- a candidate of `r` comes before all those of the other alternatives
    cases h : r.run c <;> simp [first, h]

/-- A literal matches exactly where it occurs. -/
theorem run_lit [DecidableEq α] (s : List α) (c : Cursor α) :
    (seqs (lit s)).run c = if s <+: c.rest then [c.advance s.length] else [] := by
  induction s generalizing c with
  | nil => simp [lit]
  | cons x xs ih =>
    obtain ⟨b, rest⟩ := c
    rw [lit, List.map_cons, run_seqs_cons]
    cases rest with
    | nil => simp [run]
    | cons y ys =>
      -- the first element decides, and the others follow by induction
      by_cases h : y = x
      · subst h
        simpa [run, lit] using ih ⟨y :: b, ys⟩
      · simp [run, h, Ne.symm h]

/-! ## Repetition -/

/-- The iteration bound does not matter once it reaches what is left of the text. -/
theorem iterate_of_le (greedy : Bool) (f : Cursor α → List (Cursor α)) :
    ∀ (n : ℕ) (c : Cursor α), c.rest.length ≤ n →
      iterate greedy f n c = iterate greedy f c.rest.length c := by
  have key : ∀ (n m : ℕ) (c : Cursor α), c.rest.length ≤ n → c.rest.length ≤ m →
      iterate greedy f n c = iterate greedy f m c := by
    -- induction on one bound, for every other bound that is large enough
    intro n
    induction n with
    | zero =>
      intro m c hn _
      cases m with
      | zero => rfl
      | succ m =>
        -- at the end of the text nothing can be consumed, so the bound is not used
        have hnone : consuming f c = [] := by
          simp [consuming, List.length_eq_zero_iff.mp (Nat.le_zero.mp hn)]
        simp [iterate, hnone, arrange]
    | succ n ih =>
      intro m c hn hm
      cases m with
      | zero =>
        have hnone : consuming f c = [] := by
          simp [consuming, List.length_eq_zero_iff.mp (Nat.le_zero.mp hm)]
        simp [iterate, hnone, arrange]
      | succ m =>
        have hmore : (consuming f c).flatMap (iterate greedy f n) =
            (consuming f c).flatMap (iterate greedy f m) := by
          apply List.flatMap_congr
          intro c' hc'
          -- an iteration consumes something, which leaves the bounds large enough
          have hlt : c'.rest.length < c.rest.length := by
            simpa using (List.mem_filter.mp hc').2
          exact ih m c' (by omega) (by omega)
        simp only [iterate, hmore]
  intro n c h
  exact key n c.rest.length c h le_rfl

/-- One unfolding of a repetition. -/
theorem run_star (greedy : Bool) (r : Regex α) (c : Cursor α) :
    (star greedy r).run c =
      arrange greedy ((consuming r.run c).flatMap (star greedy r).run) c := by
  rw [run]
  cases hn : c.rest.length with
  | zero =>
    have hnone : consuming r.run c = [] := by simp [consuming, hn]
    simp [iterate, hnone, arrange]
  | succ n =>
    have hmore : (consuming r.run c).flatMap (iterate greedy r.run n) =
        (consuming r.run c).flatMap (star greedy r).run := by
      apply List.flatMap_congr
      intro c' hc'
      -- after an iteration less is ahead, and the bound it has left is enough
      have hlt : c'.rest.length < c.rest.length := by
        simpa using (List.mem_filter.mp hc').2
      exact iterate_of_le greedy r.run n c' (by omega)
    rw [iterate, hmore]

@[simp] theorem run_set_nil (p : α → Bool) (b : List α) : (set p).run ⟨b, []⟩ = [] := rfl

theorem run_set_cons (p : α → Bool) (b : List α) (x : α) (xs : List α) :
    (set p).run ⟨b, x :: xs⟩ = if p x then [⟨x :: b, xs⟩] else [] := rfl

/-- What a set matches is not empty. -/
theorem consuming_set (p : α → Bool) (c : Cursor α) :
    consuming (set p).run c = (set p).run c := by
  obtain ⟨b, rest⟩ := c
  cases rest with
  | nil => simp [consuming]
  | cons x xs => by_cases h : p x <;> simp [consuming, run_set_cons, h]

/-- A repetition of a set as its final part takes the whole run. -/
theorem first_star_set (p : α → Bool) (c : Cursor α) :
    (star true (set p)).first c = some (c.advance (c.rest.takeWhile p).length) := by
  obtain ⟨b, rest⟩ := c
  induction rest generalizing b with
  | nil => rfl
  | cons x xs ih =>
    rw [first, run_star, consuming_set, run_set_cons]
    by_cases h : p x
    · -- the run goes on: the candidates of the rest come first
      have hih := ih (x :: b)
      rw [first] at hih
      simp [h, arrange, List.head?_append, hih]
    · -- the run is over, and no iteration is possible
      simp [h, arrange]

/-- A greedy repetition of a set is possessive before a continuation that has no match
inside the run: the continuation is tried at the end of the run only. -/
theorem flatMap_star_set_of_possessive {β : Type*} (p : α → Bool) (K : Cursor α → List β)
    (hK : ∀ b x y xs, p x → p y → K ⟨x :: b, y :: xs⟩ = []) :
    ∀ (xs b : List α) (x : α), p x →
      ((star true (set p)).run ⟨x :: b, xs⟩).flatMap K =
        K ((Cursor.mk (x :: b) xs).advance (xs.takeWhile p).length) := by
  intro xs
  induction xs with
  | nil =>
    intro b x _
    rw [run_star, consuming_set]
    simp [arrange]
  | cons y ys ih =>
    intro b x hx
    rw [run_star, consuming_set, run_set_cons]
    by_cases hy : p y
    · -- the run goes on, and stopping here does not lead to a match
      have hlast : K ⟨x :: b, y :: ys⟩ = [] := hK b x y ys hx hy
      simp [hy, arrange, hlast, ih (x :: b) y hy]
    · simp [hy, arrange]

/-- At least one element of a set is possessive before a continuation that has no match
inside the run. -/
theorem flatMap_plus_set_of_possessive {β : Type*} (p : α → Bool) (K : Cursor α → List β)
    (hK : ∀ b x y xs, p x → p y → K ⟨x :: b, y :: xs⟩ = []) (c : Cursor α) :
    ((plus true (set p)).run c).flatMap K =
      if (c.rest.takeWhile p).length = 0 then []
      else K (c.advance (c.rest.takeWhile p).length) := by
  obtain ⟨b, rest⟩ := c
  cases rest with
  | nil => rfl
  | cons x xs =>
    rw [plus, run, run_set_cons]
    by_cases hx : p x
    · simp [hx, flatMap_star_set_of_possessive p K hK xs b x hx]
    · simp [hx]

/-- A lazy repetition tries its continuation before each further iteration. -/
theorem head?_lazy_star {β : Type*} (r : Regex α) (K : Cursor α → List β) (c : Cursor α) :
    (((star false r).run c).flatMap K).head? =
      (K c).head?.or (((consuming r.run c).flatMap fun c' =>
        ((star false r).run c').flatMap K).head?) := by
  rw [run_star]
  simp only [arrange, Bool.false_eq_true, ↓reduceIte, List.flatMap_cons, List.head?_append,
    List.flatMap_assoc]

/-! ## Matches stay inside the text -/

/-- `c'` is `c`, or a cursor further on in the same text. -/
def Ahead (c c' : Cursor α) : Prop := ∃ n ≤ c.rest.length, c' = c.advance n

theorem Ahead.refl (c : Cursor α) : Ahead c c := ⟨0, Nat.zero_le _, rfl⟩

theorem Ahead.trans {c c' c'' : Cursor α} (h : Ahead c c') (h' : Ahead c' c'') :
    Ahead c c'' := by
  obtain ⟨m, hm, rfl⟩ := h
  obtain ⟨n, hn, rfl⟩ := h'
  rw [Cursor.rest_advance, List.length_drop] at hn
  exact ⟨m + n, by omega, Cursor.advance_advance c m n⟩

/-- Greedy or not, a repetition does not go back. -/
theorem ahead_of_mem_arrange {greedy : Bool} {c c' : Cursor α} {more : List (Cursor α)}
    (hmore : ∀ c' ∈ more, Ahead c c') (h : c' ∈ arrange greedy more c) : Ahead c c' := by
  cases greedy with
  | true =>
    rcases List.mem_append.mp h with h | h
    · exact hmore c' h
    · rw [List.mem_singleton.mp h]
      exact Ahead.refl c
  | false =>
    rcases List.mem_cons.mp h with h | h
    · rw [h]
      exact Ahead.refl c
    · exact hmore c' h

/-- A repetition does not go back, if its body does not. -/
theorem ahead_of_mem_iterate {greedy : Bool} {f : Cursor α → List (Cursor α)}
    (hf : ∀ c, ∀ c' ∈ f c, Ahead c c') :
    ∀ (n : ℕ) (c : Cursor α), ∀ c' ∈ iterate greedy f n c, Ahead c c' := by
  intro n
  induction n with
  | zero =>
    intro c c' h
    rw [List.mem_singleton.mp h]
    exact Ahead.refl c
  | succ n ih =>
    intro c c' h
    apply ahead_of_mem_arrange _ h
    intro c'' hc''
    -- one iteration leads to `d`, the others from there to `c''`
    obtain ⟨d, hd, hc''⟩ := List.mem_flatMap.mp hc''
    exact (hf c d (List.mem_of_mem_filter hd)).trans (ih d c'' hc'')

/-- A match of any expression ends at or after its start, inside the text. -/
theorem ahead_of_mem_run (r : Regex α) (c c' : Cursor α) (h : c' ∈ r.run c) : Ahead c c' := by
  induction r generalizing c c' with
  | fail => simp [run] at h
  | eps =>
    rw [run, List.mem_singleton] at h
    rw [h]
    exact Ahead.refl c
  | set p =>
    obtain ⟨b, rest⟩ := c
    cases rest with
    | nil => simp at h
    | cons x xs =>
      rw [run_set_cons] at h
      split at h
      · rw [List.mem_singleton.mp h]
        -- one element is consumed
        exact ⟨1, by simp, rfl⟩
      · simp at h
  | look p =>
    rw [run] at h
    split at h
    · rw [List.mem_singleton.mp h]
      exact Ahead.refl c
    · simp at h
  | seq r s ihr ihs =>
    obtain ⟨d, hd, hc'⟩ := List.mem_flatMap.mp h
    exact (ihr c d hd).trans (ihs d c' hc')
  | alt r s ihr ihs =>
    rcases List.mem_append.mp h with h | h
    · exact ihr c c' h
    · exact ihs c c' h
  | star greedy r ih => exact ahead_of_mem_iterate ih _ c c' h
  | opt greedy r ih =>
    exact ahead_of_mem_arrange (fun c' h => ih c c' (List.mem_of_mem_filter h)) h

/-- A match does not go back. -/
theorem ahead_of_first {r : Regex α} {c c' : Cursor α} (h : r.first c = some c') :
    Ahead c c' :=
  ahead_of_mem_run r c c' (List.mem_of_mem_head? h)

/-- What starts with an element of a set consumes something. -/
theorem consuming_seq_set (p : α → Bool) (r : Regex α) (c : Cursor α) :
    consuming (seq (set p) r).run c = (seq (set p) r).run c := by
  rw [consuming, List.filter_eq_self]
  intro c' hc'
  -- the set consumes one element up to `d`, and what follows does not go back
  obtain ⟨d, hd, hc'⟩ := List.mem_flatMap.mp hc'
  obtain ⟨n, hn, rfl⟩ := ahead_of_mem_run r d c' hc'
  obtain ⟨b, rest⟩ := c
  cases rest with
  | nil => simp at hd
  | cons x xs =>
    rw [run_set_cons] at hd
    split at hd
    · rw [List.mem_singleton.mp hd]
      simp only [Cursor.rest_advance, List.length_drop, List.length_cons, decide_eq_true_eq]
      omega
    · simp at hd

/-- A literal in front decides where the rest starts. -/
theorem first_seqs_lit_append [DecidableEq α] (s : List α) (rs : List (Regex α))
    (c : Cursor α) :
    (seqs (lit s ++ rs)).first c =
      if s <+: c.rest then (seqs rs).first (c.advance s.length) else none := by
  rw [first, run_seqs_append, run_lit]
  split <;> simp [first]

/-! ## Searching -/

/-- The search goes to the next position when nothing matches at the cursor. -/
theorem search_of_first_none {r : Regex α} {b xs : List α} {x : α}
    (h : r.first ⟨b, x :: xs⟩ = none) : r.search ⟨b, x :: xs⟩ = r.search ⟨x :: b, xs⟩ := by
  rw [search, searchFrom, h]
  rfl

/-- A match at the cursor is the leftmost one. -/
theorem search_of_first_some {r : Regex α} {c e : Cursor α} (h : r.first c = some e) :
    r.search c = some (c, e) := by
  obtain ⟨b, rest⟩ := c
  cases rest with
  | nil => simp [search, searchFrom, h]
  | cons x xs => rw [search, searchFrom, h]

/-- What a search finds is a match at the place it reports, at or after the cursor. -/
theorem search_spec {r : Regex α} {c s e : Cursor α} (h : r.search c = some (s, e)) :
    Ahead c s ∧ r.first s = some e := by
  obtain ⟨b, rest⟩ := c
  induction rest generalizing b with
  | nil =>
    rw [search, searchFrom, Option.map_eq_some_iff] at h
    obtain ⟨e', he, heq⟩ := h
    cases heq
    exact ⟨Ahead.refl _, he⟩
  | cons x xs ih =>
    cases hf : r.first ⟨b, x :: xs⟩ with
    | none =>
      -- nothing matches here, so the match is one of the rest of the text
      rw [search_of_first_none hf] at h
      obtain ⟨hahead, hfirst⟩ := ih (x :: b) h
      exact ⟨Ahead.trans ⟨1, by simp, rfl⟩ hahead, hfirst⟩
    | some e' =>
      rw [search_of_first_some hf] at h
      cases h
      exact ⟨Ahead.refl _, hf⟩

end Regex
