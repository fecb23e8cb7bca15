import HackerTyper.Foundations.Regex

/-!
# What an expression matches

The matcher lists candidates in the order in which it tries them, with a bound on the number of
iterations and without iterations that consume nothing. What an expression means is said without
any of that: from which position to which position it matches. The candidates are exactly these
matches, so that the matcher misses none.

## Main definitions

* `Regex.Matches`: from one position to another, an expression matches.

## Main results

* `mem_run_iff`: the candidates of the matcher are the matches;
* `first_eq_none_iff` and `matches_of_first`: the matcher fails where there is no match, and
  reports a match otherwise.
-/

namespace Regex

variable {α : Type*}

/-- The expression matches from the first position to the second. -/
inductive Matches : Regex α → Cursor α → Cursor α → Prop
  /-- The empty text, anywhere. -/
  | eps (c : Cursor α) : Matches eps c c
  /-- One element of the set. -/
  | set {p : α → Bool} {x : α} (b xs : List α) : p x → Matches (set p) ⟨b, x :: xs⟩ ⟨x :: b, xs⟩
  /-- The empty text, between neighbours that pass the test. -/
  | look {p : Option α → Option α → Bool} {c : Cursor α} :
    p c.before.head? c.rest.head? → Matches (look p) c c
  /-- One after the other. -/
  | seq {r s : Regex α} {c d e : Cursor α} : Matches r c d → Matches s d e → Matches (seq r s) c e
  /-- The first alternative. -/
  | altLeft {r s : Regex α} {c d : Cursor α} : Matches r c d → Matches (alt r s) c d
  /-- The second alternative. -/
  | altRight {r s : Regex α} {c d : Cursor α} : Matches s c d → Matches (alt r s) c d
  /-- No iteration. -/
  | starNil {greedy : Bool} {r : Regex α} (c : Cursor α) : Matches (star greedy r) c c
  /-- One iteration and the others. -/
  | starCons {greedy : Bool} {r : Regex α} {c d e : Cursor α} :
    Matches r c d → Matches (star greedy r) d e → Matches (star greedy r) c e
  /-- Nothing. -/
  | optNone {greedy : Bool} {r : Regex α} (c : Cursor α) : Matches (opt greedy r) c c
  /-- One iteration. -/
  | optSome {greedy : Bool} {r : Regex α} {c d : Cursor α} :
    Matches r c d → Matches (opt greedy r) c d

/-! ## Candidates -/

/-- Greedy or not, a repetition stops here or goes on. -/
theorem mem_arrange {greedy : Bool} {more : List (Cursor α)} {c d : Cursor α} :
    d ∈ arrange greedy more c ↔ d = c ∨ d ∈ more := by
  cases greedy with
  | true => simp [arrange, or_comm]
  | false => simp [arrange]

/-- A candidate consumes something, or it is the position where the matcher started. -/
theorem eq_or_mem_consuming {r : Regex α} {c d : Cursor α} (h : d ∈ r.run c) :
    d = c ∨ d ∈ consuming r.run c := by
  obtain ⟨n, hn, rfl⟩ := ahead_of_mem_run r c d h
  by_cases hzero : n = 0
  · exact Or.inl (by rw [hzero, Cursor.advance_zero])
  · right
    refine List.mem_filter.mpr ⟨h, decide_eq_true ?_⟩
    rw [Cursor.rest_advance, List.length_drop]
    omega

/-- Every candidate of the matcher is a match. -/
theorem matches_of_mem_run {r : Regex α} {c d : Cursor α} (h : d ∈ r.run c) : Matches r c d := by
  induction r generalizing c d with
  | fail => cases h
  | eps =>
    rw [List.mem_singleton.mp h]
    exact .eps c
  | set p =>
    obtain ⟨b, rest⟩ := c
    cases rest with
    | nil => cases h
    | cons x xs =>
      rw [run_set_cons] at h
      split at h
      next hx =>
        rw [List.mem_singleton.mp h]
        exact .set b xs hx
      next => cases h
  | look p =>
    rw [run] at h
    split at h
    next hp =>
      rw [List.mem_singleton.mp h]
      exact .look hp
    next => cases h
  | seq r s ihr ihs =>
    obtain ⟨e, he, hd⟩ := List.mem_flatMap.mp h
    exact .seq (ihr he) (ihs hd)
  | alt r s ihr ihs =>
    rcases List.mem_append.mp h with h | h
    · exact .altLeft (ihr h)
    · exact .altRight (ihs h)
  | star greedy r ih =>
    -- by induction on what is left of the text, as every iteration consumes something
    induction hn : c.rest.length using Nat.strong_induction_on generalizing c with
    | _ n ihn =>
      rw [run_star, mem_arrange] at h
      rcases h with rfl | h
      · exact .starNil d
      · obtain ⟨e, he, hd⟩ := List.mem_flatMap.mp h
        obtain ⟨he, hlt⟩ := List.mem_filter.mp he
        exact .starCons (ih he) (ihn _ (hn ▸ of_decide_eq_true hlt) hd rfl)
  | opt greedy r ih =>
    rw [run, mem_arrange] at h
    rcases h with rfl | h
    · exact .optNone d
    · exact .optSome (ih (List.mem_of_mem_filter h))

/-- Every match is a candidate of the matcher. -/
theorem Matches.mem_run {r : Regex α} {c d : Cursor α} (h : Matches r c d) : d ∈ r.run c := by
  induction h with
  | eps c => exact List.mem_singleton_self c
  | set b xs hx =>
    rw [run_set_cons, if_pos hx]
    exact List.mem_singleton_self _
  | look hp =>
    rw [run, if_pos hp]
    exact List.mem_singleton_self _
  | seq _ _ ihr ihs => exact List.mem_flatMap.mpr ⟨_, ihr, ihs⟩
  | altLeft _ ih => exact List.mem_append_left _ ih
  | altRight _ ih => exact List.mem_append_right _ ih
  | starNil c =>
    rw [run_star, mem_arrange]
    exact Or.inl rfl
  | starCons _ _ ihr ihs =>
    -- an iteration that consumes nothing can be left out
    rcases eq_or_mem_consuming ihr with rfl | hmem
    · exact ihs
    · rw [run_star, mem_arrange]
      exact Or.inr (List.mem_flatMap.mpr ⟨_, hmem, ihs⟩)
  | optNone c =>
    rw [run, mem_arrange]
    exact Or.inl rfl
  | optSome _ ih =>
    rw [run, mem_arrange]
    exact eq_or_mem_consuming ih

/-- The candidates of the matcher are the matches. -/
theorem mem_run_iff {r : Regex α} {c d : Cursor α} : d ∈ r.run c ↔ Matches r c d :=
  ⟨matches_of_mem_run, Matches.mem_run⟩

/-- The matcher fails where there is no match. -/
theorem first_eq_none_iff {r : Regex α} {c : Cursor α} :
    r.first c = none ↔ ∀ d, ¬Matches r c d := by
  rw [first, List.head?_eq_none_iff, List.eq_nil_iff_forall_not_mem]
  exact forall_congr' fun d => not_congr mem_run_iff

/-- What the matcher reports is a match. -/
theorem matches_of_first {r : Regex α} {c d : Cursor α} (h : r.first c = some d) :
    Matches r c d :=
  matches_of_mem_run (List.mem_of_mem_head? h)

end Regex
