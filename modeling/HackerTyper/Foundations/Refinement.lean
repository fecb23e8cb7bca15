import HackerTyper.Foundations.Machine

/-!
# Refinement of state machines

A machine refines another one along a function of their states if every step of it is explained
by a sequence of steps of the other one: none, one or several. Its reachable states then are
reachable for the other machine, together with whatever history the other machine is observed
with, and refinements compose.

## Main definitions

* `Machine.Enables` and `Machine.run`: sequences of steps;
* `Machine.Refinement`: a refinement, and its composition `Refinement.comp`;
* `Refinement.record`: a history of the refined machine, kept by the refining one.

## Main results

* `Refinement.reachable`: reachable states are mapped to reachable states;
* `Refinement.reachable_observe`: with their histories;
* `Reachable.of_observe` and `Reachable.exists_observe`: every reachable state has a history.
-/

namespace Machine

variable {σ τ υ ε δ γ η : Type*}

/-! ## Sequences of steps -/

/-- The events may happen one after the other. -/
def Enables (M : Machine σ ε) : σ → List ε → Prop
  | _, [] => True
  | s, e :: es => M.enabled s e ∧ M.Enables (M.step s e) es

/-- What a sequence of events does. -/
def run (M : Machine σ ε) (s : σ) (es : List ε) : σ := es.foldl M.step s

theorem run_append (M : Machine σ ε) (s : σ) (es es' : List ε) :
    M.run s (es ++ es') = M.run (M.run s es) es' := List.foldl_append

/-- Two sequences may happen one after the other if the second one may where the first one ends. -/
theorem enables_append {M : Machine σ ε} {s : σ} {es es' : List ε} (h : M.Enables s es)
    (h' : M.Enables (M.run s es) es') : M.Enables s (es ++ es') := by
  induction es generalizing s with
  | nil => exact h'
  | cons e es ih => exact ⟨h.1, ih h.2 h'⟩

/-- A sequence of events leads from a reachable state to a reachable one. -/
theorem Reachable.run {M : Machine σ ε} {s : σ} (h : M.Reachable s) {es : List ε}
    (hes : M.Enables s es) : M.Reachable (M.run s es) := by
  induction es generalizing s with
  | nil => exact h
  | cons e es ih => exact ih (.step e h hes.1) hes.2

/-! ## Refinements -/

/-- Every step of `M` is a sequence of steps of `A`, seen through a function of the states. -/
structure Refinement (M : Machine σ ε) (A : Machine τ δ) where
  /-- The state of `A` that a state of `M` stands for. -/
  abs : σ → τ
  /-- The events of `A` that an event of `M` stands for. -/
  events : σ → ε → List δ
  /-- Both start alike. -/
  init : ∀ s, M.init s → A.init (abs s)
  /-- What `M` may do, `A` may do. -/
  enables : ∀ s e, M.enabled s e → A.Enables (abs s) (events s e)
  /-- `M` does what `A` does. -/
  step : ∀ s e, M.enabled s e → abs (M.step s e) = A.run (abs s) (events s e)

namespace Refinement

variable {M : Machine σ ε} {A : Machine τ δ} {B : Machine υ γ}

/-- What is reachable for the refining machine is reachable for the refined one. -/
theorem reachable (R : Refinement M A) {s : σ} (h : M.Reachable s) : A.Reachable (R.abs s) := by
  refine h.invariant (fun s => A.Reachable (R.abs s)) (fun s hs => .init (R.init s hs)) ?_
  intro s e _ ih henabled
  rw [R.step s e henabled]
  exact ih.run (R.enables s e henabled)

/-- The events of `B` that a sequence of events of `A` stands for. -/
def eventsOfList (R : Refinement A B) : τ → List δ → List γ
  | _, [] => []
  | t, e :: es => R.events t e ++ R.eventsOfList (A.step t e) es

/-- What `A` may do in a sequence of steps, `B` may do, and it ends in the state that stands for
it. -/
theorem enables_eventsOfList (R : Refinement A B) {t : τ} {es : List δ} (h : A.Enables t es) :
    B.Enables (R.abs t) (R.eventsOfList t es) ∧
      R.abs (A.run t es) = B.run (R.abs t) (R.eventsOfList t es) := by
  induction es generalizing t with
  | nil => exact ⟨trivial, rfl⟩
  | cons e es ih =>
    obtain ⟨henables, hrun⟩ := ih h.2
    rw [R.step t e h.1] at henables hrun
    refine ⟨enables_append (R.enables t e h.1) henables, ?_⟩
    rw [eventsOfList, run_append, ← hrun]
    rfl

/-- Refinements compose. -/
def comp (R : Refinement M A) (R' : Refinement A B) : Refinement M B where
  abs s := R'.abs (R.abs s)
  events s e := R'.eventsOfList (R.abs s) (R.events s e)
  init s hs := R'.init _ (R.init s hs)
  enables s e henabled := (R'.enables_eventsOfList (R.enables s e henabled)).1
  step s e henabled := by
    rw [R.step s e henabled]
    exact (R'.enables_eventsOfList (R.enables s e henabled)).2

/-! ## Histories -/

/-- The history of `A` after a sequence of events. -/
def recordList (A : Machine τ δ) (record : η → τ → δ → η) : η → τ → List δ → η
  | h, _, [] => h
  | h, t, e :: es => recordList A record (record h t e) (A.step t e) es

/-- Keeping a history does not change what a sequence of events does. -/
theorem run_observe (A : Machine τ δ) (start : η) (record : η → τ → δ → η) (t : τ) (h : η)
    (es : List δ) :
    (A.observe start record).run (t, h) es = (A.run t es, recordList A record h t es) := by
  induction es generalizing t h with
  | nil => rfl
  | cons e es ih => exact ih (A.step t e) (record h t e)

theorem enables_observe {A : Machine τ δ} (start : η) (record : η → τ → δ → η) {t : τ} (h : η)
    {es : List δ} (hes : A.Enables t es) : (A.observe start record).Enables (t, h) es := by
  induction es generalizing t h with
  | nil => trivial
  | cons e es ih => exact ⟨hes.1, ih (record h t e) hes.2⟩

/-- A history of the refined machine, kept by the refining one. -/
def record (R : Refinement M A) (record : η → τ → δ → η) (h : η) (s : σ) (e : ε) : η :=
  recordList A record h (R.abs s) (R.events s e)

/-- A refinement carries the histories of the refined machine along. -/
def observe (R : Refinement M A) (start : η) (record : η → τ → δ → η) :
    Refinement (M.observe start (R.record record)) (A.observe start record) where
  abs s := (R.abs s.1, s.2)
  events s e := R.events s.1 e
  init _ hs := ⟨R.init _ hs.1, hs.2⟩
  enables s e henabled := enables_observe start record s.2 (R.enables s.1 e henabled)
  step s e henabled := by
    rw [run_observe, ← R.step s.1 e henabled]
    rfl

/-- What is reachable with a history is reachable with that history for the refined machine. -/
theorem reachable_observe (R : Refinement M A) {start : η} {record : η → τ → δ → η} {s : σ}
    {h : η} (hreach : (M.observe start (R.record record)).Reachable (s, h)) :
    (A.observe start record).Reachable (R.abs s, h) :=
  (R.observe start record).reachable hreach

end Refinement

/-- Observing a machine does not change what it does. -/
theorem Reachable.of_observe {M : Machine σ ε} {start : η} {record : η → σ → ε → η} {s : σ × η}
    (h : (M.observe start record).Reachable s) : M.Reachable s.1 := by
  refine h.invariant (fun s => M.Reachable s.1) (fun s hs => .init hs.1) ?_
  exact fun s e _ ih henabled => .step e ih henabled

/-- Every reachable state has a history. -/
theorem Reachable.exists_observe {M : Machine σ ε} {s : σ} (hreach : M.Reachable s) (start : η)
    (record : η → σ → ε → η) : ∃ h, (M.observe start record).Reachable (s, h) := by
  refine hreach.invariant (fun s => ∃ h, (M.observe start record).Reachable (s, h)) ?_ ?_
  · exact fun s hs => ⟨start, .init ⟨hs, rfl⟩⟩
  · rintro s e - ⟨h, ih⟩ henabled
    exact ⟨_, .step e ih henabled⟩

end Machine
