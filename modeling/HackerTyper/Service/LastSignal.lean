import HackerTyper.Service.Loading

/-!
# The last signal

The service keeps nothing but the outcome of the last signal about the selected source: what an
earlier file view has delivered, or what the same one has delivered before, leaves no trace.

## Main definitions

* `stateAfter`: the service, from the selected source and the last signal about it;
* `IsLast`: the service is in that state.

## Main results

* `isLast_step`: what one step does to the last signal;
* `isLast_of_reachable`: every reachable state is determined in this way.
-/

namespace Service

open Js HackerTyperModel SourceCatalog

/-- The service while `source` is selected, after the last signal about it. -/
def stateAfter (source : Source) : Option FileSignal → State
  | none => ⟨source.id, [], []⟩
  | some (.loaded _ text) => ⟨source.id, prepareSource text, []⟩
  | some (.loadFailed _) => ⟨source.id, [], js "Could not load " ++ source.name⟩

theorem stateAfter_selectedSourceId (source : Source) (signal : Option FileSignal) :
    (stateAfter source signal).selectedSourceId = source.id := by
  rcases signal with _ | _ | _ <;> rfl

/-- The recent signals are about the selected source, and the last one decides. -/
def IsLast (env : Env) (st : State) (recent : List FileSignal) : Prop :=
  ∃ source ∈ sources, st = stateAfter source recent.getLast? ∧
    ∀ signal ∈ recent, signal.path = sourceDir env ++ js "/" ++ source.file

/-- A signal replaces what was there. -/
theorem deliver_eq_stateAfter {source : Source} (hsource : source ∈ sources) {st : State}
    (hid : st.selectedSourceId = source.id) (signal : FileSignal) :
    deliver st signal = stateAfter source (some signal) := by
  cases signal with
  | loaded path text => rw [deliver, onLoaded, hid, stateAfter]
  | loadFailed path => rw [deliver, onLoadFailed, selectedSource_eq hsource hid, hid, stateAfter]

/-- A signal does not change the path. -/
theorem selectedSourcePath_deliver (env : Env) (st : State) (signal : FileSignal) :
    selectedSourcePath env (deliver st signal) = selectedSourcePath env st := by
  rw [selectedSourcePath, selectedSource, deliver_selectedSourceId]
  rfl

theorem isLast_deliver {env : Env} {st : State} {recent : List FileSignal}
    (h : IsLast env st recent) {signal : FileSignal}
    (hpath : signal.path = selectedSourcePath env st) :
    IsLast env (deliver st signal) (recent ++ [signal]) := by
  obtain ⟨source, hsource, rfl, hrecent⟩ := h
  have hid := stateAfter_selectedSourceId source recent.getLast?
  refine ⟨source, hsource, ?_, fun other hother => ?_⟩
  · rw [deliver_eq_stateAfter hsource hid, List.getLast?_concat]
  · rcases List.mem_append.mp hother with hold | hnew
    · exact hrecent other hold
    · rw [List.mem_singleton.mp hnew, hpath, selectedSourcePath_eq hsource hid]

/-- Signals for the current path are the last ones. -/
theorem isLast_foldl_deliver {env : Env} {st : State} {recent : List FileSignal}
    (h : IsLast env st recent) {signals : List FileSignal}
    (hpath : ∀ signal ∈ signals, signal.path = selectedSourcePath env st) :
    IsLast env (signals.foldl deliver st) (recent ++ signals) := by
  induction signals generalizing st recent with
  | nil => rwa [List.append_nil]
  | cons signal signals ih =>
    have hstep := isLast_deliver h (hpath signal List.mem_cons_self)
    rw [List.foldl_cons, ← List.singleton_append, ← List.append_assoc]
    refine ih hstep fun other hother => ?_
    rw [selectedSourcePath_deliver, hpath other (List.mem_cons_of_mem _ hother)]

/-- Every step keeps the last signal in charge. -/
theorem isLast_step {env : Env} {st : State} {recent : List FileSignal}
    (h : IsLast env st recent) {event : Event} (henabled : Enabled env st event) :
    IsLast env (step st event) (record recent st event) := by
  cases event with
  | signal signal => exact isLast_deliver h henabled
  | select sourceId signals =>
    rcases selectSource_cases sourceId signals st with ⟨-, heq⟩ | ⟨_, _, _, _, heq⟩ |
      ⟨source, hsource, hlookup, hne, heq⟩
    · simpa [step, record, heq] using h
    · simpa [step, record, heq] using h
    · -- another source is selected, about which there was no signal yet
      have hnew : (selectSource sourceId [] st).2 = stateAfter source none := by
        rw [selectSource, hlookup]
        simp [hne, stateAfter]
      rw [Enabled, hnew] at henabled
      have hstart : IsLast env (stateAfter source none) [] :=
        ⟨source, hsource, rfl, fun signal hsignal => absurd hsignal List.not_mem_nil⟩
      have hlast := isLast_foldl_deliver hstart henabled
      have hid : ¬source.id = st.selectedSourceId := fun h => hne h.symm
      simpa [step, record, heq, foldl_deliver_selectedSourceId, hid, stateAfter] using hlast

/-- Every reachable state is that after the last signal since the selection. -/
theorem isLast_of_reachable {env : Env} {st : State} {recent : List FileSignal}
    (h : ((machine env).observe [] record).Reachable (st, recent)) : IsLast env st recent := by
  refine h.invariant (fun s => IsLast env s.1 s.2) ?_ ?_
  · rintro ⟨st, recent⟩ ⟨hst, hrecent⟩
    cases hst
    cases hrecent
    exact ⟨_, List.mem_cons_self, rfl, fun signal hsignal => absurd hsignal List.not_mem_nil⟩
  · rintro ⟨st, recent⟩ event - ih henabled
    exact isLast_step ih henabled

end Service
