import Mathlib.Tactic.Common

/-!
# State machines

A `Machine` takes steps that are labelled by events. Its reachable states carry every
invariant that holds at the start and that no step breaks. A machine can be observed, which
records a history without changing what it does, and restricted to some of its steps.

## Main definitions

* `Machine` and `Machine.Reachable`;
* `Machine.observe`: the machine together with a history;
* `Machine.restrict`: the machine without the steps that fail a condition.

## Main results

* `Reachable.invariant`: the invariant rule;
* `Reachable.of_restrict`: restricting a machine only removes behaviour.
-/

/-- A machine with states `σ` and events `ε`. -/
structure Machine (σ ε : Type*) where
  /-- Where it may start. -/
  init : σ → Prop
  /-- Which events may happen. -/
  enabled : σ → ε → Prop
  /-- What an event does. -/
  step : σ → ε → σ

namespace Machine

variable {σ ε η : Type*} {M : Machine σ ε}

/-- The states that runs lead to. -/
inductive Reachable (M : Machine σ ε) : σ → Prop
  /-- The start of a run. -/
  | init {s : σ} : M.init s → Reachable M s
  /-- One more step. -/
  | step {s : σ} (e : ε) : Reachable M s → M.enabled s e → Reachable M (M.step s e)

/-- What holds at the start and is preserved by every step from a reachable state holds of
every reachable state. -/
theorem Reachable.invariant (Inv : σ → Prop) {s : σ} (h : M.Reachable s)
    (hinit : ∀ s, M.init s → Inv s)
    (hstep : ∀ s e, M.Reachable s → Inv s → M.enabled s e → Inv (M.step s e)) : Inv s := by
  induction h with
  | init h => exact hinit _ h
  | step e hreach henabled ih => exact hstep _ e hreach ih henabled

/-- The machine together with a history that grows with every step. -/
def observe (M : Machine σ ε) (start : η) (record : η → σ → ε → η) : Machine (σ × η) ε where
  init s := M.init s.1 ∧ s.2 = start
  enabled s e := M.enabled s.1 e
  step s e := (M.step s.1 e, record s.2 s.1 e)

/-- The machine without the steps that fail a condition. -/
def restrict (M : Machine σ ε) (condition : σ → ε → Prop) : Machine σ ε where
  init := M.init
  enabled s e := M.enabled s e ∧ condition s e
  step := M.step

/-- Restricting a machine only removes behaviour. -/
theorem Reachable.of_restrict {condition : σ → ε → Prop} {s : σ}
    (h : (M.restrict condition).Reachable s) : M.Reachable s :=
  -- being reachable without the condition is an invariant
  h.invariant M.Reachable (fun _ hs => .init hs)
    fun s e _ ih (henabled : M.enabled s e ∧ condition s e) => Reachable.step e ih henabled.1

/-- A restriction may come before or after the observation. -/
theorem observe_restrict {condition : σ → ε → Prop} {start : η} {record : η → σ → ε → η} :
    (M.restrict condition).observe start record =
      (M.observe start record).restrict fun s e => condition s.1 e :=
  rfl

end Machine
