import HackerTyper.Foundations.Machine
import HackerTyper.Service

/-!
# Selecting and loading

Selections and the signals of the file view come in any order. The service is a state machine: a
selection clears text and error before it changes the identifier, and a signal is about the path
that is current when it is delivered.

## Main definitions

* `Event`, `machine`: selections and signals in any order;
* `record`: the signals delivered since the identifier last changed.

## Main results

* `selectedSource_eq`, `selectedSourcePath_eq`: the selected source and its path;
* `exists_source_of_reachable`: the selected identifier is that of an entry.
-/

namespace Service

open Js HackerTyperModel SourceCatalog

/-- What can happen to the service. -/
inductive Event
  /-- A call of `selectSource`, during which the file view may deliver signals. -/
  | select (sourceId : Json) (signals : List FileSignal)
  /-- A signal of the file view. -/
  | signal (signal : FileSignal)

/-- What an event does. -/
def step (st : State) : Event → State
  | .select sourceId signals => (selectSource sourceId signals st).2
  | .signal signal => deliver st signal

/-- The file view delivers signals only about the path it has at that moment. -/
def Enabled (env : Env) (st : State) : Event → Prop
  | .select sourceId signals =>
    ∀ signal ∈ signals, signal.path = selectedSourcePath env (selectSource sourceId [] st).2
  | .signal signal => signal.path = selectedSourcePath env st

/-- The service, where the directory of the sources is fixed. -/
def machine (env : Env) : Machine State Event where
  init st := st = initial
  enabled := Enabled env
  step := step

/-- The signals delivered since the selected identifier last changed. -/
def record (recent : List FileSignal) (st : State) (event : Event) : List FileSignal :=
  match event with
  | .signal signal => recent ++ [signal]
  | .select _ signals =>
    if (step st event).selectedSourceId = st.selectedSourceId then recent else signals

theorem sourceDir_ne_nil (env : Env) : sourceDir env ≠ [] := by
  rw [sourceDir]
  split
  next h => exact h
  next => exact List.append_ne_nil_of_right_ne_nil _ (by decide)

section Selected

variable {source : Source} (hsource : source ∈ sources) {st : State}
  (hid : st.selectedSourceId = source.id)

include hsource hid

theorem selectedSource_eq : selectedSource st = some source := by
  rw [selectedSource, hid, sourceById_of_mem_sources hsource]

/-- The current path is that of the selected source. -/
theorem selectedSourcePath_eq (env : Env) :
    selectedSourcePath env st = sourceDir env ++ js "/" ++ source.file := by
  rw [selectedSourcePath, selectedSource_eq hsource hid]
  exact if_pos (sourceDir_ne_nil env)

end Selected

/-- Every step keeps the selected identifier that of an entry. -/
theorem exists_source_step {st : State} (event : Event)
    (h : ∃ source ∈ sources, st.selectedSourceId = source.id) :
    ∃ source ∈ sources, (step st event).selectedSourceId = source.id := by
  cases event with
  | select sourceId signals =>
    rw [step]
    rcases selectSource_cases sourceId signals st with ⟨-, heq⟩ | ⟨_, -, -, -, heq⟩ |
      ⟨source, hsource, -, -, heq⟩
    · -- nothing changes
      rwa [heq]
    · rwa [heq]
    · rw [heq]
      exact ⟨source, hsource, foldl_deliver_selectedSourceId signals _⟩
  | signal signal =>
    rwa [step, deliver_selectedSourceId]

/-- The selected identifier of a reachable state is that of an entry. -/
theorem exists_source_of_reachable {env : Env} {st : State} (h : (machine env).Reachable st) :
    ∃ source ∈ sources, st.selectedSourceId = source.id := by
  refine h.invariant (fun st => ∃ source ∈ sources, st.selectedSourceId = source.id) ?_ ?_
  · rintro st rfl
    exact ⟨_, List.mem_cons_self, rfl⟩
  · rintro st event - ih -
    exact exists_source_step event ih

end Service
