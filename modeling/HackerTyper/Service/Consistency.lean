import HackerTyper.Service.LastSignal

/-!
# Text and error

The service never shows the text or the error of one source under the name of another: the last
signal about the selected source decides, and no earlier one leaves anything behind.

## Main definitions

* `Consistent`: text and error belong to the selected source.

## Main results

* `IsLast.consistent`: this is so where the last signal decides;
* `consistent_of_reachable`: every reachable state is consistent.
-/

namespace Service

open Js HackerTyperModel SourceCatalog

/-- The selected identifier is that of an entry, at most one of text and error is set, and
each was delivered for the file of that entry since it was selected. -/
def Consistent (env : Env) (st : State) (recent : List FileSignal) : Prop :=
  ∃ source ∈ sources, st.selectedSourceId = source.id ∧
    (st.sourceText = [] ∨ st.sourceError = []) ∧
    (st.sourceText ≠ [] → ∃ text,
      .loaded (sourceDir env ++ js "/" ++ source.file) text ∈ recent ∧
        st.sourceText = prepareSource text) ∧
    (st.sourceError ≠ [] →
      .loadFailed (sourceDir env ++ js "/" ++ source.file) ∈ recent ∧
        st.sourceError = js "Could not load " ++ source.name)

/-- Where the last signal decides, text and error are what it has brought. -/
theorem IsLast.consistent {env : Env} {st : State} {recent : List FileSignal}
    (h : IsLast env st recent) : Consistent env st recent := by
  obtain ⟨source, hsource, rfl, hrecent⟩ := h
  refine ⟨source, hsource, stateAfter_selectedSourceId source _, ?_⟩
  cases hlast : recent.getLast? with
  | none =>
    -- nothing is loaded yet
    exact ⟨Or.inl rfl, fun h => absurd rfl h, fun h => absurd rfl h⟩
  | some signal =>
    have hmem := List.mem_of_getLast? hlast
    have hpath := hrecent signal hmem
    cases signal with
    | loaded path text =>
      obtain rfl : path = _ := hpath
      exact ⟨Or.inr rfl, fun _ => ⟨text, hmem, rfl⟩, fun h => absurd rfl h⟩
    | loadFailed path =>
      obtain rfl : path = _ := hpath
      exact ⟨Or.inl rfl, fun h => absurd rfl h, fun _ => ⟨hmem, rfl⟩⟩

/-- In every reachable state, whatever the order of selections and signals, text and error
belong to the selected source. -/
theorem consistent_of_reachable {env : Env} {st : State} {recent : List FileSignal}
    (h : ((machine env).observe [] record).Reachable (st, recent)) :
    Consistent env st recent :=
  (isLast_of_reachable h).consistent

/-- A run in which the second source is selected and then loaded. -/
theorem consistent_of_reachable_loaded :
    ∃ st recent, st = ⟨js "telemetry-engine", js "int x;", []⟩ ∧
      Consistent ⟨none, some ⟨js "hackertyper", some (js "/p")⟩, []⟩ st recent := by
  let env : Env := ⟨none, some ⟨js "hackertyper", some (js "/p")⟩, []⟩
  let select : Event := .select (.str (js "telemetry-engine")) []
  let load : Event := .signal (.loaded (js "/p/sources/telemetry-engine.cpp") (js "int x;"))
  have hinit : ((machine env).observe [] record).Reachable (initial, []) := .init ⟨rfl, rfl⟩
  have hselect := Machine.Reachable.step select hinit fun _ h => absurd h (by simp)
  have hpath : Enabled env (step initial select) load := by
    change js "/p/sources/telemetry-engine.cpp" = selectedSourcePath env (step initial select)
    decide +kernel
  exact ⟨_, _, by decide +kernel, consistent_of_reachable (.step load hselect hpath)⟩

end Service
