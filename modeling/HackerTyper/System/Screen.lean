import HackerTyper.Model.Beginning
import HackerTyper.Overlay.Screen
import HackerTyper.System.Delivery

/-!
# What is on the screen

Keys, openings, selections, signals of the file view and ticks of the cursor come in any order.
In every state they lead to, the screen shows the beginning of the file that was read last for
the selected source, without the lines that are to be hidden, in the colours of its tokens, and
the hint tells how far the loading has come.

## Main definitions

* `hintAfter`: the hint after the last signal about a source.

## Main results

* `display_of_reachable`: the text on the screen;
* `not_markerLine_of_reachable`: the lines that are never on the screen;
* `hint_of_reachable`: the hint on the screen.
-/

namespace System

open Js HackerTyperModel SourceCatalog SyntaxHighlight

/-! ## The selected source -/

/-- Every language of the catalog has a configuration. -/
theorem exists_argsFor_of_mem_sources {source : Source} (h : source ∈ sources) :
    ∃ a, argsFor source.language = some a := by
  have hall : ∀ source ∈ sources, source.language ∉ objectPrototype := by decide +kernel
  exact exists_argsFor (hall source h)

/-- The text of a service after a signal is that of the file, or empty. -/
theorem sourceText_stateAfter (source : Source) (signal : Option Service.FileSignal) :
    (Service.stateAfter source signal).sourceText = [] ∨
      ∃ path text, signal = some (.loaded path text) ∧
        (Service.stateAfter source signal).sourceText = prepareSource text := by
  rcases signal with _ | ⟨path, text⟩ | _
  · exact Or.inl rfl
  · exact Or.inr ⟨path, text, rfl, rfl⟩
  · exact Or.inl rfl

/-! ## The text -/

/-- While `source` is selected, rendering returns, and what is shown is the beginning of what is
loaded, in the colours of the tokens in the language of the source, and the cursor behind it. -/
theorem renderedMarkup_stateAfter {display : JsString → JsString → List (CodeUnit × JsString)}
    (hdisplay : Overlay.ShowsStyledText display) {source : Source} (hsource : source ∈ sources)
    (signal : Option Service.FileSignal) (st : Overlay.State)
    {color : TokenType → JsString} (hcolor : ∀ type, Overlay.HexColor (color type))
    {cache₁ cache₂ : ScannerCache} (hcache₁ : cache₁.Reachable) (hcache₂ : cache₂.Reachable) :
    ∃ ts markup cache₁' cache₂',
      tokenize (Overlay.revealed (Service.stateAfter source signal).sourceText st)
        source.language cache₁ = .ok (ts, cache₁') ∧
      Overlay.renderedMarkup color (some (Service.stateAfter source signal)) st cache₂ =
        .ok (markup ++ [Overlay.cursor st], cache₂') ∧
      (Overlay.Legible (Overlay.revealed (Service.stateAfter source signal).sourceText st) →
        Overlay.ShownAs display color st ts markup) := by
  obtain ⟨a, ha⟩ := exists_argsFor_of_mem_sources hsource
  have hid := Service.stateAfter_selectedSourceId source signal
  have hlanguage : Overlay.sourceLanguage (some (Service.stateAfter source signal)) =
      source.language := by
    rw [Overlay.sourceLanguage, Option.bind_some, Service.selectedSource_eq hsource hid]
  obtain ⟨cache₁', -, hrun₁⟩ := tokenize_eq ha hcache₁
    (Overlay.revealed (Service.stateAfter source signal).sourceText st)
  obtain ⟨markup, cache₂', -, hrun₂, hshown⟩ := Overlay.display_renderedMarkup hdisplay
    (hlanguage ▸ ha) hcolor st hcache₂
  exact ⟨_, markup, cache₁', cache₂', hrun₁, hrun₂, hshown⟩

/-- In every run, rendering returns. What it returns is the markup of the beginning of the
prepared text of the file that was read last for the selected source, and the cursor. An element
that shows styled text as documented shows it, if it is legible, in the colours of its tokens in
the language of that source. -/
theorem display_of_reachable {display : JsString → JsString → List (CodeUnit × JsString)}
    (hdisplay : Overlay.ShowsStyledText display) {env : Env} {s : State}
    {recent : List Service.FileSignal}
    (h : ((machine env).observe [] (delivered env)).Reachable (s, recent))
    {color : TokenType → JsString} (hcolor : ∀ type, Overlay.HexColor (color type))
    {cache₁ cache₂ : ScannerCache} (hcache₁ : cache₁.Reachable) (hcache₂ : cache₂.Reachable) :
    ∃ source ∈ sources, ∃ ts markup cache₁' cache₂',
      s.service = Service.stateAfter source recent.getLast? ∧
      tokenize (Overlay.revealed s.service.sourceText s.overlay) source.language cache₁ =
        .ok (ts, cache₁') ∧
      Overlay.renderedMarkup color (some s.service) s.overlay cache₂ =
        .ok (markup ++ [Overlay.cursor s.overlay], cache₂') ∧
      (Overlay.Legible (Overlay.revealed s.service.sourceText s.overlay) →
        Overlay.ShownAs display color s.overlay ts markup) := by
  obtain ⟨source, hsource, hservice, -⟩ := isLast_of_reachable h
  obtain ⟨ts, markup, cache₁', cache₂', hrendered⟩ := renderedMarkup_stateAfter hdisplay hsource
    recent.getLast? s.overlay hcolor hcache₁ hcache₂
  rw [← hservice] at hrendered
  exact ⟨source, hsource, ts, markup, cache₁', cache₂', hservice, hrendered⟩

/-- After three typed characters, the first word of the loaded text is on the screen. -/
theorem display_of_reachable_typed : ∃ recent : List Service.FileSignal,
    ∃ source ∈ sources, ∃ ts markup cache₁' cache₂',
    typedState.service = Service.stateAfter source recent.getLast? ∧
    tokenize (js "int") source.language PlainObject.empty = .ok (ts, cache₁') ∧
    Overlay.renderedMarkup (Overlay.colorForTokenType ⟨js "#808080", js "#ffffff"⟩)
      (some typedState.service) typedState.overlay PlainObject.empty =
        .ok (markup ++ [Overlay.cursor typedState.overlay], cache₂') ∧
    Overlay.ShownAs Overlay.readStyledText
      (Overlay.colorForTokenType ⟨js "#808080", js "#ffffff"⟩) typedState.overlay ts markup := by
  obtain ⟨recent, hrecent⟩ :=
    reachable_typedState.of_observe.of_restrict.exists_observe [] (delivered exampleEnv)
  have hcolor : ∀ type, Overlay.HexColor
      (Overlay.colorForTokenType ⟨js "#808080", js "#ffffff"⟩ type) :=
    Overlay.hexColor_colorForTokenType (by decide) (by decide)
  obtain ⟨source, hsource, ts, markup, cache₁', cache₂', hservice, hrun₁, hrun₂, hshown⟩ :=
    display_of_reachable Overlay.showsStyledText_readStyledText hrecent hcolor .empty .empty
  have hlegible : Overlay.Legible (js "int") := by decide
  exact ⟨recent, source, hsource, ts, markup, cache₁', cache₂', hservice, hrun₁, hrun₂,
    hshown hlegible⟩

/-- In no run is a carriage return or a marker line of a file on the screen, however little of
the file is revealed. -/
theorem not_markerLine_of_reachable {env : Env} {s : State} (h : (machine env).Reachable s) :
    unit '\r' ∉ Overlay.revealed s.service.sourceText s.overlay ∧
      ∀ line ∈ split (unit '\n') (Overlay.revealed s.service.sourceText s.overlay),
        ¬MarkerLine line := by
  obtain ⟨recent, hrecent⟩ := h.exists_observe [] (delivered env)
  obtain ⟨source, -, hservice, -⟩ := isLast_of_reachable hrecent
  have hpre : Overlay.revealed s.service.sourceText s.overlay <+: s.service.sourceText :=
    List.take_prefix _ _
  rcases sourceText_stateAfter source recent.getLast? with hnil | ⟨-, text, -, htext⟩
  · -- nothing is loaded
    rw [← hservice] at hnil
    rw [hnil] at hpre ⊢
    rw [List.prefix_nil.mp hpre]
    exact ⟨List.not_mem_nil, by decide⟩
  · rw [← hservice] at htext
    rw [htext] at hpre ⊢
    exact prepareSource_beginning hpre

/-- Three typed characters of a loaded text. -/
theorem not_markerLine_of_reachable_typed :
    unit '\r' ∉ Overlay.revealed typedState.service.sourceText typedState.overlay ∧
      ∀ line ∈ split (unit '\n')
          (Overlay.revealed typedState.service.sourceText typedState.overlay), ¬MarkerLine line :=
  not_markerLine_of_reachable reachable_typedState.of_observe.of_restrict

/-! ## The hint -/

/-- The hint after the last signal about a source. -/
def hintAfter (source : Source) : Option Service.FileSignal → JsString
  | none => js "LOADING SOURCE…"
  | some (.loaded _ text) =>
    -- a file of which everything is hidden is not told from one that is not read yet
    if prepareSource text = [] then js "LOADING SOURCE…" else js "TYPE ANYTHING  ·  ESC TO EXIT"
  | some (.loadFailed _) => js "Could not load " ++ source.name

/-- While `source` is selected, the hint is visible where nothing is typed and there is no message
about the access. -/
theorem hint_stateAfter (source : Source) (signal : Option Service.FileSignal)
    (st : Overlay.State) :
    Overlay.hint (some (Service.stateAfter source signal)) st =
      if st.progress = 0 ∧ Overlay.accessCard st = none then some (hintAfter source signal)
      else none := by
  have hcard : Overlay.accessCard st = none ↔ st.accessState = .none := by
    rw [Overlay.accessCard]
    cases st.accessState <;> simp
  have hfailed : js "Could not load " ++ source.name ≠ [] :=
    List.append_ne_nil_of_left_ne_nil (by decide) _
  simp only [Overlay.hint, hcard]
  congr 2
  rcases signal with _ | ⟨path, text⟩ | path
  · rfl
  · by_cases hempty : prepareSource text = []
    · simp [Overlay.sourceText, Service.stateAfter, hintAfter, hempty]
    · simp [Overlay.sourceText, Service.stateAfter, hintAfter, hempty]
  · simp [Overlay.sourceText, Service.stateAfter, hintAfter, hfailed]

/-- In every run, the hint is visible where nothing is typed and there is no message about the
access, and it says what the last signal about the selected source has brought. -/
theorem hint_of_reachable {env : Env} {s : State} {recent : List Service.FileSignal}
    (h : ((machine env).observe [] (delivered env)).Reachable (s, recent)) :
    ∃ source ∈ sources, s.service.selectedSourceId = source.id ∧
      (∀ signal ∈ recent, signal.path = Service.sourceDir env.service ++ js "/" ++ source.file) ∧
      Overlay.hint (some s.service) s.overlay =
        if s.overlay.progress = 0 ∧ Overlay.accessCard s.overlay = none then
          some (hintAfter source recent.getLast?)
        else none := by
  obtain ⟨source, hsource, hservice, hrecent⟩ := isLast_of_reachable h
  refine ⟨source, hsource, hservice ▸ Service.stateAfter_selectedSourceId source _, hrecent, ?_⟩
  rw [hservice, hint_stateAfter]

/-- No hint is visible after three typed characters. -/
theorem hint_of_reachable_typed : ∃ recent : List Service.FileSignal, ∃ source ∈ sources,
    typedState.service.selectedSourceId = source.id ∧
      (∀ signal ∈ recent, signal.path =
        Service.sourceDir exampleEnv.service ++ js "/" ++ source.file) ∧
      Overlay.hint (some typedState.service) typedState.overlay =
        if typedState.overlay.progress = 0 ∧ Overlay.accessCard typedState.overlay = none then
          some (hintAfter source recent.getLast?)
        else none := by
  obtain ⟨recent, hrecent⟩ :=
    reachable_typedState.of_observe.of_restrict.exists_observe [] (delivered exampleEnv)
  exact ⟨recent, hint_of_reachable hrecent⟩

end System
