import HackerTyper.Desktop.Launching
import HackerTyper.Service.Status
import HackerTyper.System.Screen

/-!
# What the plugin shows

The lists and the buttons of the panels, the tooltips in the bars, the answer to the command
`status`, the text on the screen and the hint in front of it are all drawn from the service and
the overlay. In every run they speak of one entry of the catalog, and of the last signal about
its file.

## Main definitions

* `Panel.buttonText`, `Panel.buttonEnabled`: the button of a panel;
* `BarWidget.tooltipText`: the tooltip in the bar;
* `delivered`: the signals about the selected source;
* `Shows`: everything that is shown, for a source and the last signal about it.

## Main results

* `requests_clicked_iff`: a click launches where the button is enabled;
* `shows_stateAfter`: the service and the panels determine what is shown;
* `shows_of_reachable`: what is shown in every run.
-/

/-! ## What the components draw -/

namespace Panel

open Js

/-- The text of the button. -/
def buttonText (hacker : Option Service.State) : JsString :=
  -- `root.hacker && root.hacker.sourceText`
  if (hacker.map Service.State.sourceText).getD [] ≠ [] then js "Launch" else js "Loading source…"

/-- `root.hacker && root.hacker.sourceText.length > 0`. -/
def buttonEnabled (hacker : Option Service.State) : Bool :=
  match hacker with
  | some hacker => 0 < hacker.sourceText.length
  | none => false

/-- A click launches exactly where the button is enabled. -/
theorem requests_clicked_iff (hacker : Option Service.State) (st : State) :
    Requests hacker st .clicked ↔ buttonEnabled hacker = true := by
  cases hacker with
  | none => simp [Requests, buttonEnabled]
  | some hacker => simp [Requests, buttonEnabled, List.length_pos_iff]

/-- The list has one entry for every source of the catalog. -/
theorem mem_languageOptions_iff {source : HackerTyperModel.Source}
    (hsource : source ∈ SourceCatalog.sources) (label : JsString) :
    (source.id, label) ∈ languageOptions ↔ label = source.language := by
  have hdistinct : ∀ source ∈ SourceCatalog.sources, ∀ other ∈ SourceCatalog.sources,
      other.id = source.id → other.language = source.language := by
    decide +kernel
  rw [languageOptions, List.mem_map]
  constructor
  · rintro ⟨other, hother, heq⟩
    obtain ⟨hid, rfl⟩ := Prod.mk.inj heq
    exact hdistinct source hsource other hother hid
  · rintro rfl
    exact ⟨source, hsource, rfl⟩

end Panel

namespace BarWidget

open Js

/-- The tooltip of the button in the bar. -/
def tooltipText (hacker : Option Service.State) : JsString :=
  match hacker.bind Service.selectedSource with
  | some source => js "Hacker Typer · " ++ source.name
  | none => js "Hacker Typer"

end BarWidget

namespace Desktop

open Js HackerTyperModel SourceCatalog SyntaxHighlight

variable {ι : Type} [DecidableEq ι]

/-! ## Everything that is shown -/

/-- Everything that is shown is about `source`, and about the last signal for its file. -/
structure Shows (env : Env ι) (s : State ι) (source : Source)
    (signal : Option Service.FileSignal) : Prop where
  /-- The value of every list stands for the language of the source alone. -/
  languageOptions : ∀ i label,
    ((s.panels i).value, label) ∈ Panel.languageOptions ↔ label = source.language
  /-- The tooltip names the source. -/
  tooltipText :
    BarWidget.tooltipText (some s.system.service) = js "Hacker Typer · " ++ source.name
  /-- The button says whether something can be typed. -/
  buttonText : Panel.buttonText (some s.system.service) =
    if (Service.stateAfter source signal).sourceText = [] then js "Loading source…"
    else js "Launch"
  /-- A click on the button of any panel starts a delay where there is something to type. -/
  clicked : ∀ i, ((step env s (.panel i .clicked)).panels i).launchDelay = true ↔
    (s.panels i).launchDelay = true ∨ (Service.stateAfter source signal).sourceText ≠ []
  /-- The answer to the command `status` reads back as the status of the source. -/
  ipcStatus : Json.parse (Service.ipcStatus s.system.service) =
    .ok (Service.statusAfter source signal)
  /-- The hint in front of the text. -/
  hint : Overlay.hint (some s.system.service) s.system.overlay =
    if s.system.overlay.progress = 0 ∧ Overlay.accessCard s.system.overlay = none then
      some (System.hintAfter source signal)
    else none
  /-- The markup of the text is returned, and an element that shows styled text as documented
  shows it in the colours of the language of the source, if it is legible. -/
  display {display : JsString → JsString → List (CodeUnit × JsString)}
    {color : TokenType → JsString} {cache₁ cache₂ : ScannerCache} :
    Overlay.ShowsStyledText display → (∀ type, Overlay.HexColor (color type)) →
    cache₁.Reachable → cache₂.Reachable →
    ∃ ts markup cache₁' cache₂',
      tokenize (Overlay.revealed (Service.stateAfter source signal).sourceText
        s.system.overlay) source.language cache₁ = .ok (ts, cache₁') ∧
      Overlay.renderedMarkup color (some s.system.service) s.system.overlay cache₂ =
        .ok (markup ++ [Overlay.cursor s.system.overlay], cache₂') ∧
      (Overlay.Legible (Overlay.revealed (Service.stateAfter source signal).sourceText
          s.system.overlay) →
        Overlay.ShownAs display color s.system.overlay ts markup)

/-- A click starts the delay of the panel where the button is enabled. -/
theorem launchDelay_clicked_iff (env : Env ι) (s : State ι) (i : ι) :
    ((step env s (.panel i .clicked)).panels i).launchDelay = true ↔
      (s.panels i).launchDelay = true ∨
        Panel.buttonEnabled (some s.system.service) = true := by
  have hstep : (step env s (.panel i .clicked)).panels i =
      Panel.handle (env.panel i) (some s.system.service) (s.panels i) .clicked :=
    Function.update_self ..
  obtain ⟨hdelay, -⟩ :=
    Panel.launchDelay_handle (env.panel i) (some s.system.service) (s.panels i) .clicked
  rw [hstep, hdelay, ← Panel.requests_clicked_iff _ (s.panels i)]
  by_cases hrequest : Panel.Requests (some s.system.service) (s.panels i) .clicked
  · simp [hrequest]
  · simp [hrequest]

/-- What is shown is determined by the selected source and the last signal about it. -/
theorem shows_stateAfter {env : Env ι} {s : State ι} {source : Source} (hsource : source ∈ sources)
    {signal : Option Service.FileSignal}
    (hservice : s.system.service = Service.stateAfter source signal)
    (hvalue : ∀ i, (s.panels i).value = s.system.service.selectedSourceId) :
    Shows env s source signal where
  languageOptions i label := by
    rw [hvalue, hservice, Service.stateAfter_selectedSourceId]
    exact Panel.mem_languageOptions_iff hsource label
  tooltipText := by
    have hselected := Service.selectedSource_eq hsource
      (Service.stateAfter_selectedSourceId source signal)
    rw [BarWidget.tooltipText, hservice, Option.bind_some, hselected]
  buttonText := by
    rw [Panel.buttonText, hservice, ite_not]
    rfl
  clicked i := by
    rw [launchDelay_clicked_iff, hservice]
    simp [Panel.buttonEnabled, List.length_pos_iff]
  ipcStatus := by rw [hservice, Service.parse_ipcStatus_stateAfter hsource]
  hint := by rw [hservice, System.hint_stateAfter]
  display hdisplay hcolor hcache₁ hcache₂ := by
    rw [hservice]
    exact System.renderedMarkup_stateAfter hdisplay hsource signal _ hcolor hcache₁ hcache₂

/-! ## Runs -/

/-- The signals delivered since the selected identifier last changed. -/
def delivered (env : Env ι) : List Service.FileSignal → State ι → Event ι →
    List Service.FileSignal :=
  ((toSystem env).comp (System.toService env.toEnv)).record Service.record

/-- In every run of the desktop there is one entry of the catalog that all panels, the tooltips,
the answer to `status`, the hint and the text on the screen are about, and all of them reflect
the last signal about the file of that entry. -/
theorem shows_of_reachable {env : Env ι} {s : State ι} {recent : List Service.FileSignal}
    (h : ((machine env).observe [] (delivered env)).Reachable (s, recent)) :
    ∃ source ∈ sources,
      (∀ signal ∈ recent, signal.path = Service.sourceDir env.service ++ js "/" ++ source.file) ∧
      Shows env s source recent.getLast? := by
  -- the desktop refines the service, with the history of the service
  obtain ⟨source, hsource, hservice, hrecent⟩ := Service.isLast_of_reachable
    (((toSystem env).comp (System.toService env.toEnv)).reachable_observe h)
  have hpanels := panelsConsistent_of_reachable h.of_observe
  exact ⟨source, hsource, hrecent, shows_stateAfter hsource hservice hpanels.value⟩

/-- The command `launch` selects a source, and its file is read then. -/
theorem shows_of_reachable_launched : ∃ s : State Bool, ∃ recent : List Service.FileSignal,
    s.system.service.sourceText = js "fn x" ∧ ∃ source ∈ sources,
      (∀ signal ∈ recent,
        signal.path = Service.sourceDir exampleEnv.service ++ js "/" ++ source.file) ∧
      Shows exampleEnv s source recent.getLast? := by
  let launch : Event Bool := .launch (js "packet-engine") (js "DP-1") [] []
  let load : Event Bool :=
    .system (.signal (.loaded (js "/p/sources/packet-engine.rs") (js "fn x")))
  have hinit : ((machine exampleEnv).observe [] (delivered exampleEnv)).Reachable
      (⟨⟨Service.initial, Overlay.initial⟩, fun _ => Panel.initial⟩, []) := .init ⟨rfl, rfl⟩
  have hlaunch := Machine.Reachable.step launch hinit
    ⟨fun _ _ h => absurd h List.not_mem_nil, enables_launchEvents _ _ _⟩
  have hload := Machine.Reachable.step load hlaunch (by
    change js "/p/sources/packet-engine.rs" = _
    decide +kernel)
  exact ⟨_, _, by decide +kernel, shows_of_reachable hload⟩

end Desktop
