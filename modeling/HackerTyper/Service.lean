import HackerTyper.SourceCatalog

/-!
# The service

The service of `Service.qml`: it knows which source is selected and holds its text once the
file has been read. Its functions are written on an explicit state, and what the file view
and the shell do is given from outside.

## Main definitions

* `Service.Env`: the shell, the manifest and the home directory;
* `Service.State`, `selectedSource`, `selectedSourcePath`;
* `onLoaded`, `onLoadFailed`, `selectSource`, `launch`, `ipcLaunch`, `ipcSelect`.

## Main results

* `selectSource_cases`: everything that a selection can do;
* `selectSource_spec`: a selection answers `true` or throws.
-/

namespace Service

open Js HackerTyperModel SourceCatalog

/-- The manifest of the plugin. -/
structure Manifest where
  /-- `manifest.id`. -/
  id : JsString
  /-- `manifest.__sourceDir`, if it is there. -/
  sourceDir : Option JsString
deriving DecidableEq, Repr

/-- What surrounds the service. -/
structure Env where
  /-- `shell.summon(id, payload) === true`, if there is a shell. -/
  summon : Option (JsString → JsString → Bool)
  /-- The manifest, if it is set. -/
  manifest : Option Manifest
  /-- `Quickshell.env("HOME")`. -/
  home : JsString

/-- The directory of the sources. -/
def sourceDir (env : Env) : JsString :=
  -- `manifest && manifest.__sourceDir`
  let dir := (env.manifest.bind Manifest.sourceDir).getD []
  if dir ≠ [] then dir
  else env.home ++ js "/.config/omarchy/plugins/codefriendly.hackertyper"

/-- The properties of the service that change. -/
structure State where
  /-- The identifier of the selected source. -/
  selectedSourceId : JsString
  /-- Its text, once it is loaded. -/
  sourceText : JsString
  /-- Why it could not be loaded. -/
  sourceError : JsString
deriving DecidableEq, Repr

/-- The service before anything happens. -/
def initial : State := ⟨js "kernel-like", [], []⟩

/-- The selected source. -/
def selectedSource (st : State) : Option Source :=
  match sourceById sources (.str st.selectedSourceId) with
  | .ok source => source
  | _ => none

/-- The path of the selected source, which the file view reads. -/
def selectedSourcePath (env : Env) (st : State) : JsString :=
  match selectedSource st with
  | some source => if sourceDir env ≠ [] then sourceDir env ++ js "/" ++ source.file else []
  | none => []

/-! ## The file view -/

/-- A signal of the file view, with the path it is about. -/
inductive FileSignal
  /-- The file was read. -/
  | loaded (path text : JsString)
  /-- The file could not be read. -/
  | loadFailed (path : JsString)
deriving DecidableEq, Repr

/-- The path a signal is about. -/
def FileSignal.path : FileSignal → JsString
  | loaded path _ => path
  | loadFailed path => path

/-- The handler of `loaded`. -/
def onLoaded (text : JsString) (st : State) : State :=
  { st with sourceText := prepareSource text, sourceError := [] }

/-- The handler of `loadFailed`. -/
def onLoadFailed (st : State) : State :=
  { st with
    sourceText := []
    sourceError := js "Could not load " ++
      match selectedSource st with
      | some source => source.name
      | none => js "source" }

/-- The handler of a signal. -/
def deliver (st : State) : FileSignal → State
  | .loaded _ text => onLoaded text st
  | .loadFailed _ => onLoadFailed st

/-! ## Functions -/

/-- `selectSource(sourceId)`. The last assignment changes the path of the file view, which may
deliver `signals` before it returns. -/
def selectSource (sourceId : Json) (signals : List FileSignal) (st : State) :
    Result Bool × State :=
  match sourceById sources sourceId with
  | .throw e => (.throw e, st)
  | .div => (.div, st)
  -- `if (!source) return false`
  | .ok none => (.ok false, st)
  | .ok (some source) =>
    if st.selectedSourceId = source.id then (.ok true, st)
    else
      -- the text and the error go before the path changes
      let st := { st with sourceText := [] }
      let st := { st with sourceError := [] }
      let st := { st with selectedSourceId := source.id }
      (.ok true, signals.foldl deliver st)

/-- The payload that `launch` hands over. -/
def launchPayload (screenName : JsString) (st : State) : JsString :=
  Json.stringify [(js "sourceId", st.selectedSourceId), (js "screenName", screenName)]

/-- `launch(screenName)`: its answer, and the call of `shell.summon` that it makes. -/
def launch (env : Env) (screenName : JsString) (st : State) :
    Bool × Option (JsString × JsString) :=
  match env.summon, env.manifest with
  | some summon, some manifest =>
    let payload := launchPayload screenName st
    (summon manifest.id payload, some (manifest.id, payload))
  -- `if (!shell || !manifest) return false`
  | _, _ => (false, none)

/-- The command `launch` of the IPC handler. -/
def ipcLaunch (env : Env) (sourceId screenName : JsString) (signals : List FileSignal)
    (st : State) : Result JsString × State :=
  let launched (st : State) : Result JsString × State :=
    (.ok (if (launch env screenName st).1 then js "ok" else js "unavailable"), st)
  -- `if (sourceId && !root.selectSource(sourceId)) return "unknown-source"`
  if sourceId ≠ [] then
    match selectSource (.str sourceId) signals st with
    | (.ok selected, st) => if !selected then (.ok (js "unknown-source"), st) else launched st
    | (.throw e, st) => (.throw e, st)
    | (.div, st) => (.div, st)
  else launched st

/-- The command `select` of the IPC handler. -/
def ipcSelect (sourceId : JsString) (signals : List FileSignal) (st : State) :
    Result JsString × State :=
  match selectSource (.str sourceId) signals st with
  | (.ok selected, st) => (.ok (if selected then js "ok" else js "unknown-source"), st)
  | (.throw e, st) => (.throw e, st)
  | (.div, st) => (.div, st)

/-! ## What a selection does -/

theorem deliver_selectedSourceId (st : State) (signal : FileSignal) :
    (deliver st signal).selectedSourceId = st.selectedSourceId := by
  cases signal <;> rfl

theorem foldl_deliver_selectedSourceId (signals : List FileSignal) (st : State) :
    (signals.foldl deliver st).selectedSourceId = st.selectedSourceId := by
  induction signals generalizing st with
  | nil => rfl
  | cons signal signals ih => rw [List.foldl_cons, ih, deliver_selectedSourceId]

/-- A selection throws and changes nothing, or finds the source that is already selected and
changes nothing, or selects another source, forgets the text and the error of the old one,
and then receives the signals. -/
theorem selectSource_cases (sourceId : Json) (signals : List FileSignal) (st : State) :
    (¬(sourceId.truthy → sourceId.Stringable) ∧
      selectSource sourceId signals st = (.throw .typeError, st)) ∨
    (∃ source ∈ sources, sourceById sources sourceId = .ok (some source) ∧
      st.selectedSourceId = source.id ∧ selectSource sourceId signals st = (.ok true, st)) ∨
    ∃ source ∈ sources, sourceById sources sourceId = .ok (some source) ∧
      st.selectedSourceId ≠ source.id ∧
      selectSource sourceId signals st =
        (.ok true, signals.foldl deliver ⟨source.id, [], []⟩) := by
  rcases sourceById_spec sources sourceId with ⟨-, found, hlookup⟩ | ⟨hid, hlookup⟩
  · -- the lookup has found an entry, selected already or not
    obtain ⟨source, hsource, rfl⟩ := sourceById_sources hlookup
    right
    by_cases heq : st.selectedSourceId = source.id
    · exact Or.inl ⟨source, hsource, hlookup, heq, by rw [selectSource, hlookup]; simp [heq]⟩
    · exact Or.inr ⟨source, hsource, hlookup, heq, by rw [selectSource, hlookup]; simp [heq]⟩
  · exact Or.inl ⟨hid, by rw [selectSource, hlookup]⟩

/-- A selection answers `true` for a value that is falsy or can be converted to a string, and
throws otherwise. -/
theorem selectSource_spec (sourceId : Json) (signals : List FileSignal) (st : State) :
    (sourceId.truthy → sourceId.Stringable) ∧ (selectSource sourceId signals st).1 = .ok true ∨
      ¬(sourceId.truthy → sourceId.Stringable) ∧
        selectSource sourceId signals st = (.throw .typeError, st) := by
  rcases sourceById_spec sources sourceId with ⟨hid, -⟩ | ⟨hid, hthrow⟩
  · left
    rcases selectSource_cases sourceId signals st with ⟨hnot, -⟩ | ⟨_, _, _, _, h⟩ |
      ⟨_, _, _, _, h⟩
    · exact absurd hid hnot
    · exact ⟨hid, by rw [h]⟩
    · exact ⟨hid, by rw [h]⟩
  · exact Or.inr ⟨hid, by rw [selectSource, hthrow]⟩

end Service
