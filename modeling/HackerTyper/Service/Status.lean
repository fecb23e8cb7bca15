import HackerTyper.Js.Stringify
import HackerTyper.Model.Preview
import HackerTyper.Service.LastSignal

/-!
# The status

The command `status` answers with an object as JSON. Whoever parses the answer learns which
source is selected and what the last signal about it has brought.

## Main definitions

* `statusObject`, `ipcStatus`, `sourcePreview`: the functions of the source;
* `statusAfter`: the status after the last signal about a source.

## Main results

* `lossless_statusObject`: the status survives being written;
* `parse_ipcStatus_of_reachable`: what the answer reads back as;
* `respectsLimits_sourcePreview`: the preview of the text stays within its limits.
-/

namespace Service

open Js HackerTyperModel SourceCatalog

/-- `statusObject()`. -/
def statusObject (st : State) : Json :=
  .obj [(js "selectedSourceId", .str st.selectedSourceId),
    (js "selectedSource", .str
      (match selectedSource st with
      | some source => source.name
      | none => [])),
    (js "loaded", .bool (0 < st.sourceText.length)),
    (js "preview", .str (st.sourceText.take 80)),
    (js "error", .str st.sourceError)]

/-- The command `status` of the IPC handler. -/
def ipcStatus (st : State) : JsString := (statusObject st).write

/-- The names of the members are distinct, and none of them is a number. -/
theorem lossless_statusObject (st : State) : (statusObject st).Lossless := by
  have hnames : [js "selectedSourceId", js "selectedSource", js "loaded", js "preview",
      js "error"].Nodup := by decide
  simpa [statusObject, Json.Lossless, Json.AllMembersLossless] using hnames

/-- The status of `source`, of which `text` is loaded, with an error. -/
def status (source : Source) (text error : JsString) : Json :=
  .obj [(js "selectedSourceId", .str source.id), (js "selectedSource", .str source.name),
    (js "loaded", .bool (text ≠ [])), (js "preview", .str (text.take 80)),
    (js "error", .str error)]

/-- The status after the last signal about a source. -/
def statusAfter (source : Source) : Option FileSignal → Json
  | none => status source [] []
  | some (.loaded _ text) => status source (prepareSource text) []
  | some (.loadFailed _) => status source [] (js "Could not load " ++ source.name)

theorem statusObject_stateAfter {source : Source} (hsource : source ∈ sources)
    (signal : Option FileSignal) :
    statusObject (stateAfter source signal) = statusAfter source signal := by
  have hselected := selectedSource_eq hsource (stateAfter_selectedSourceId source signal)
  rw [statusObject, hselected, stateAfter_selectedSourceId]
  rcases signal with _ | ⟨path, text⟩ | path
  · rfl
  · simp only [stateAfter, statusAfter, status, List.length_pos_iff]
  · rfl

/-- The answer to the command `status` while `source` is selected. -/
theorem parse_ipcStatus_stateAfter {source : Source} (hsource : source ∈ sources)
    (signal : Option FileSignal) :
    Json.parse (ipcStatus (stateAfter source signal)) = .ok (statusAfter source signal) := by
  rw [ipcStatus, Json.parse_write (lossless_statusObject _), statusObject_stateAfter hsource]

/-- In every run, the answer to the command `status` is JSON, and it reads back as the status of
an entry of the catalog after the last signal about the file of that entry. -/
theorem parse_ipcStatus_of_reachable {env : Env} {st : State} {recent : List FileSignal}
    (h : ((machine env).observe [] record).Reachable (st, recent)) :
    ∃ source ∈ sources,
      (∀ signal ∈ recent, signal.path = sourceDir env ++ js "/" ++ source.file) ∧
      Json.parse (ipcStatus st) = .ok (statusAfter source recent.getLast?) := by
  obtain ⟨source, hsource, hst, hrecent⟩ := isLast_of_reachable h
  refine ⟨source, hsource, hrecent, ?_⟩
  rw [hst, parse_ipcStatus_stateAfter hsource]

/-- The status after the file of the first source could not be read. -/
theorem parse_ipcStatus_of_reachable_failed : ∃ source ∈ sources,
    (∀ signal ∈ [FileSignal.loadFailed (js "/p/sources/kernel-like.c")],
      signal.path = js "/p" ++ js "/" ++ source.file) ∧
    Json.parse (ipcStatus (onLoadFailed initial)) =
      .ok (statusAfter source (some (.loadFailed (js "/p/sources/kernel-like.c")))) := by
  let env : Env := ⟨none, some ⟨js "hackertyper", some (js "/p")⟩, []⟩
  let failed : Event := .signal (.loadFailed (js "/p/sources/kernel-like.c"))
  have hinit : ((machine env).observe [] record).Reachable (initial, []) := .init ⟨rfl, rfl⟩
  have hfailed := Machine.Reachable.step failed hinit (by
    change js "/p/sources/kernel-like.c" = selectedSourcePath env initial
    decide +kernel)
  exact parse_ipcStatus_of_reachable hfailed

/-! ## The preview -/

/-- `sourcePreview()`. -/
def sourcePreview (st : State) : JsString := preview st.sourceText 5 360

/-- With 360 characters there is room for the ellipsis. -/
theorem respectsLimits_sourcePreview (st : State) :
    RespectsLimits st.sourceText 5 360 (sourcePreview st) := by
  rw [sourcePreview, preview_eq st.sourceText (by decide) (by decide)]
  split
  next hlong => exact respectsLimits_cut (by decide) (by decide) hlong
  next hfits =>
    exact ⟨by omega, length_split_firstLines_le st.sourceText (by decide),
      ⟨fun _ => by omega, fun _ => rfl⟩, fun h => absurd h hfits⟩

end Service
