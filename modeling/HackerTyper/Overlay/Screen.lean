import HackerTyper.Overlay
import HackerTyper.Overlay.Display

/-!
# What the overlay shows

The revealed text in colours with the cursor behind it, a hint while nothing is revealed, and a
card with the message about the access, on the screen that was asked for.

## Main definitions

* `sourceText`, `sourceLanguage`, `renderedMarkup`: the properties of the overlay;
* `hint`, `accessCard`: the texts that are shown in front;
* `cursor`: the character of the cursor;
* `ShownAs`: what is to be seen of the markup with the cursor;
* `resolveScreen`: the screen for a name.

## Main results

* `resolveScreen_eq`: a screen is found under its name;
* `display_renderedMarkup`: what the markup with the cursor shows.
-/

namespace Overlay

open Js SyntaxHighlight

/-- `service ? service.sourceText : ""`. -/
def sourceText (service : Option Service.State) : JsString :=
  match service with
  | some service => service.sourceText
  | none => []

/-- `service && service.selectedSource ? service.selectedSource.language : ""`. -/
def sourceLanguage (service : Option Service.State) : JsString :=
  match service.bind Service.selectedSource with
  | some source => source.language
  | none => []

/-- The character of the cursor. -/
def cursor (st : State) : CodeUnit := if st.cursorVisible then unit '█' else unit ' '

/-- The markup of the revealed text and the cursor, and the cache of scanners afterwards. -/
def renderedMarkup (color : TokenType → JsString) (service : Option Service.State) (st : State)
    (cache : ScannerCache) : Result (JsString × ScannerCache) := do
  let (markup, cache) ←
    buildHighlightedMarkup color (revealed (sourceText service) st) (sourceLanguage service) cache
  .ok (markup ++ [cursor st], cache)

/-- The hint, where it is visible. -/
def hint (service : Option Service.State) (st : State) : Option JsString :=
  -- `visible: root.progress === 0 && !root.accessState`
  if st.progress = 0 ∧ st.accessState = .none then
    some <|
      if sourceText service ≠ [] then js "TYPE ANYTHING  ·  ESC TO EXIT"
      else
        let error := (service.map Service.State.sourceError).getD []
        if error ≠ [] then error else js "LOADING SOURCE…"
  else none

/-- The text of the access card, where it is visible. -/
def accessCard (st : State) : Option JsString :=
  match st.accessState with
  | .none => none
  | .granted => some (js "ACCESS GRANTED")
  | .denied => some (js "ACCESS DENIED")

/-- `resolveScreen(requestedName)`, for the name of the focused monitor, if there is one, and the
screens, some of which may be missing. -/
def resolveScreen {α : Type} (name : α → JsString) (focusedMonitor : Option JsString)
    (screens : List (Option α)) (requestedName : JsString) : Option α :=
  let wanted := if requestedName = [] then focusedMonitor.getD [] else requestedName
  match screens.find? fun screen => screen.any fun screen => name screen = wanted with
  | some screen => screen
  -- the fallback: the first screen, or none
  | none => screens.head?.join

/-- A screen that is there and the only one of its name is found under that name. -/
theorem resolveScreen_eq {α : Type} {name : α → JsString} {screens : List (Option α)} {screen : α}
    (hmem : some screen ∈ screens) (hname : name screen ≠ [])
    (honly : ∀ other, some other ∈ screens → name other = name screen → other = screen)
    (focusedMonitor : Option JsString) :
    resolveScreen name focusedMonitor screens (name screen) = some screen := by
  simp only [resolveScreen, if_neg hname]
  split
  next found hfind =>
    -- the first screen of that name is the only one
    have hfound := List.find?_some hfind
    rw [Option.any_eq_true] at hfound
    obtain ⟨other, rfl, hother⟩ := hfound
    rw [honly other (List.mem_of_find?_eq_some hfind) (of_decide_eq_true hother)]
  next hfind =>
    rw [List.find?_eq_none] at hfind
    exact absurd (by simp) (hfind _ hmem)

/-! ## The text with the cursor -/

/-- An element shows some markup as the characters of tokens in their colours, and the cursor
behind them while it is visible. What a blank in its place is shown as is left open. -/
structure ShownAs (display : JsString → JsString → List (CodeUnit × JsString))
    (color : TokenType → JsString) (st : State) (ts : List Token) (markup : JsString) : Prop where
  /-- The text in front of the cursor. -/
  text : display (color .plain) markup = paint color (characters ts)
  /-- The text and the cursor. -/
  cursor : st.cursorVisible = true → display (color .plain) (markup ++ [cursor st]) =
    paint color (characters ts) ++ [(unit '█', color .plain)]

/-- The markup with the cursor shows every revealed character in the colour of its token, and
the cursor behind them. -/
theorem display_renderedMarkup {display : JsString → JsString → List (CodeUnit × JsString)}
    (hdisplay : ShowsStyledText display) {service : Option Service.State} {a : LanguageArgs}
    (ha : argsFor (sourceLanguage service) = some a) {color : TokenType → JsString}
    (hcolor : ∀ type, HexColor (color type)) (st : State) {cache : ScannerCache}
    (hcache : cache.Reachable) :
    ∃ markup cache', cache'.Reachable ∧
      renderedMarkup color service st cache = .ok (markup ++ [cursor st], cache') ∧
      (Legible (revealed (sourceText service) st) →
        ShownAs display color st (tokens a.config (lexable_of_argsFor ha)
          (revealed (sourceText service) st)) markup) := by
  obtain ⟨cache', hcache', hrun⟩ :=
    buildHighlightedMarkup_eq ha color (revealed (sourceText service) st) hcache
  refine ⟨_, cache', hcache', by rw [renderedMarkup, hrun, Result.ok_bind], fun htext => ?_⟩
  constructor
  · have hshown := hdisplay.text hcolor (lexable_of_argsFor ha) htext .nil
    rwa [hdisplay.nil, List.append_nil, List.append_nil] at hshown
  · intro hvisible
    have hliteral : Literal (unit '█') := by decide
    rw [cursor, if_pos hvisible, hdisplay.text hcolor _ htext (.character hliteral .nil),
      hdisplay.character _ hliteral (.nil : Styled true []), hdisplay.nil]

end Overlay
