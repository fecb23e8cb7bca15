import HackerTyper.Model.Characters
import HackerTyper.Overlay.Characters
import HackerTyper.System.Screen

/-!
# Half characters on the screen

In every run the markup that is handed to the screen is well-formed if the file was, except for
one half of a character in front of the cursor, where the position is in the middle of one.

## Main results

* `wellFormed_sourceText`: the text that is typed;
* `wellFormed_of_reachable`: the markup on the screen.
-/

namespace System

open Js Json HackerTyperModel SourceCatalog SyntaxHighlight

/-- The text of a service is well-formed if the file was that it has read last. -/
theorem wellFormed_sourceText (source : Source) {signal : Option Service.FileSignal}
    (hfile : ∀ path text, signal = some (.loaded path text) → WellFormed text) :
    WellFormed (Service.stateAfter source signal).sourceText := by
  rcases sourceText_stateAfter source signal with hnil | ⟨path, text, hsignal, htext⟩
  · rw [hnil]
    exact wellFormed_nil
  · rw [htext]
    exact wellFormed_prepareSource (hfile path text hsignal)

/-- In every run, if the file that was read last for the selected source is well-formed, then so
is the markup, apart from the first half of a pair where the position is between its halves. -/
theorem wellFormed_of_reachable {env : Env} {s : State} {recent : List Service.FileSignal}
    (h : ((machine env).observe [] (delivered env)).Reachable (s, recent))
    (hfile : ∀ path text, recent.getLast? = some (.loaded path text) → WellFormed text)
    {color : TokenType → JsString} (hcolor : ∀ type, WellFormed (color type))
    {cache : ScannerCache} (hcache : cache.Reachable) :
    ∃ markup cache',
      Overlay.renderedMarkup color (some s.service) s.overlay cache = .ok (markup, cache') ∧
      (splitsPair s.service.sourceText s.overlay.progress.toNat = false ∧ WellFormed markup ∨
        splitsPair s.service.sourceText s.overlay.progress.toNat = true ∧ ∃ u half v,
          markup = u ++ half :: v ∧ isHighSurrogate half ∧ WellFormed u ∧ WellFormed v) := by
  obtain ⟨source, hsource, hservice, -⟩ := isLast_of_reachable h
  obtain ⟨a, ha⟩ := exists_argsFor_of_mem_sources hsource
  have hid : s.service.selectedSourceId = source.id :=
    hservice ▸ Service.stateAfter_selectedSourceId source _
  have hlanguage : Overlay.sourceLanguage (some s.service) = source.language := by
    rw [Overlay.sourceLanguage, Option.bind_some, Service.selectedSource_eq hsource hid]
  have htext : WellFormed (Overlay.sourceText (some s.service)) := by
    change WellFormed s.service.sourceText
    rw [hservice]
    exact wellFormed_sourceText source hfile
  obtain ⟨markup, cache', -, hrun, hmarkup⟩ :=
    Overlay.wellFormed_renderedMarkup (hlanguage ▸ ha) htext hcolor s.overlay hcache
  exact ⟨markup, cache', hrun, hmarkup⟩

/-- The state after one key in a session whose text has a pair behind two characters. -/
def halfState : State where
  service := ⟨js "kernel-like", js "ab😀", []⟩
  overlay := { Overlay.initial with opened := true, progress := 3 }

/-- A run that opens a session, loads the text and types a key. -/
theorem reachable_halfState :
    ((machine exampleEnv).observe [] (delivered exampleEnv)).Reachable
      (halfState, [.loaded (js "/p/sources/kernel-like.c") (js "ab😀")]) := by
  let opening : Event := .openSession (js "\x7b\x7d") []
  let load : Event := .signal (.loaded (js "/p/sources/kernel-like.c") (js "ab😀"))
  let key : Event := .key ⟨.other 65, false, 30⟩
  have hinit : ((machine exampleEnv).observe [] (delivered exampleEnv)).Reachable
      (⟨Service.initial, Overlay.initial⟩, []) := .init ⟨rfl, rfl⟩
  have hopen := Machine.Reachable.step opening hinit fun _ h => absurd h (by simp)
  have hload := Machine.Reachable.step load hopen (by
    change js "/p/sources/kernel-like.c" = _
    decide +kernel)
  have hkey := Machine.Reachable.step key hload trivial
  convert hkey using 1
  decide +kernel

/-- In that run, the markup has half of the pair. -/
theorem wellFormed_of_reachable_half : ∃ markup cache',
    Overlay.renderedMarkup (Overlay.colorForTokenType ⟨js "#808080", js "#ffffff"⟩)
      (some halfState.service) halfState.overlay PlainObject.empty = .ok (markup, cache') ∧
    (splitsPair (js "ab😀") 3 = false ∧ WellFormed markup ∨
      splitsPair (js "ab😀") 3 = true ∧ ∃ u half v,
        markup = u ++ half :: v ∧ isHighSurrogate half ∧ WellFormed u ∧ WellFormed v) := by
  have hfile : ∀ path text, [Service.FileSignal.loaded (js "/p/sources/kernel-like.c")
      (js "ab😀")].getLast? = some (.loaded path text) → WellFormed text := by
    rintro path text heq
    cases heq
    exact ⟨_, rfl⟩
  have hcolor : ∀ type, WellFormed
      (Overlay.colorForTokenType ⟨js "#808080", js "#ffffff"⟩ type) := by
    intro type
    cases type <;> exact ⟨_, rfl⟩
  exact wellFormed_of_reachable reachable_halfState hfile hcolor .empty

end System
