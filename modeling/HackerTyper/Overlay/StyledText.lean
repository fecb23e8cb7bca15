import HackerTyper.Overlay.Markup

/-!
# Styled text

The markup is handed to an element whose `textFormat` is `Text.StyledText`. What the element does
with it is not decided by the overlay, so the element stays unknown: it is any function from
markup to coloured characters that reads the few forms the overlay writes, as that format is
documented to. Nothing is assumed of control characters and of white space, which the format
does not keep, nor of any other tag or entity.

## Main definitions

* `Visible`, `HexColor`: the characters and the colours that are spoken of;
* `Styled`: markup in the forms that the overlay writes;
* `ShowsStyledText`: what is assumed of an element;
* `readStyledText`: an element of which that is true.

## Main results

* `styled_escapeMarkup`, `ShowsStyledText.escapeMarkup`: escaped text in front of other markup;
* `showsStyledText_readStyledText`: the assumptions can be met.
-/

namespace Overlay

open Js SyntaxHighlight

/-- Neither a control character nor white space, except for the no-break space. -/
def Visible (c : CodeUnit) : Prop :=
  c = nbsp ∨ 0x20 < c ∧ ¬(0x7F ≤ c ∧ c < 0xA0) ∧ isSpace c = false

instance (c : CodeUnit) : Decidable (Visible c) :=
  inferInstanceAs (Decidable (_ ∨ _))

/-- A character that begins neither a tag nor an entity. -/
def Literal (c : CodeUnit) : Prop := Visible c ∧ c ≠ unit '<' ∧ c ≠ unit '&'

instance (c : CodeUnit) : Decidable (Literal c) :=
  inferInstanceAs (Decidable (_ ∧ _))

/-- A text that contains no other white space than blanks, tabs and line ends, and no other
control characters. -/
def Legible (text : JsString) : Prop :=
  ∀ c ∈ text, Visible c ∨ c = unit ' ' ∨ c = unit '\t' ∨ c = unit '\n'

instance (text : JsString) : Decidable (Legible text) :=
  inferInstanceAs (Decidable (∀ c ∈ text, _))

/-- A colour as it is converted to a string: `#rrggbb`, or `#aarrggbb`. -/
def HexColor (color : JsString) : Prop :=
  color.head? = some (unit '#') ∧ (color.length = 7 ∨ color.length = 9) ∧
    ∀ c ∈ color.tail, isDigit c || between 'a' 'f' c || between 'A' 'F' c

instance (color : JsString) : Decidable (HexColor color) :=
  inferInstanceAs (Decidable (_ ∧ _))

/-- The line break and the entities, with the characters that they stand for. -/
def escapes : List (JsString × CodeUnit) :=
  [(js "<br>", unit '\n'), (js "&amp;", unit '&'), (js "&lt;", unit '<'), (js "&gt;", unit '>')]

/-- Markup in the forms that the overlay writes, with or without font elements. -/
inductive Styled : Bool → JsString → Prop
  /-- Nothing. -/
  | nil {fonts : Bool} : Styled fonts []
  /-- A character that stands for itself. -/
  | character {fonts : Bool} {c : CodeUnit} {s : JsString} :
    Literal c → Styled fonts s → Styled fonts (c :: s)
  /-- A line break or an entity. -/
  | escape {fonts : Bool} {w s : JsString} {c : CodeUnit} :
    (w, c) ∈ escapes → Styled fonts s → Styled fonts (w ++ s)
  /-- A font element, which contains no other. -/
  | font {color w s : JsString} :
    HexColor color → Styled false w → Styled true s →
      Styled true (openTag color ++ w ++ closeTag ++ s)

/-- What is assumed of an element that shows styled text: the first argument is its own colour,
the second one the markup. -/
structure ShowsStyledText (display : JsString → JsString → List (CodeUnit × JsString)) :
    Prop where
  /-- Of no markup nothing is shown. -/
  nil (base : JsString) : display base [] = []
  /-- A character is shown in the colour of the element. -/
  character {fonts : Bool} {c : CodeUnit} {s : JsString} (base : JsString) :
    Literal c → Styled fonts s → display base (c :: s) = (c, base) :: display base s
  /-- A line break and the entities are shown as the characters that they stand for. -/
  escape {fonts : Bool} {w s : JsString} {c : CodeUnit} (base : JsString) :
    (w, c) ∈ escapes → Styled fonts s → display base (w ++ s) = (c, base) :: display base s
  /-- A font element is shown in its colour. -/
  font {color w s : JsString} (base : JsString) :
    HexColor color → Styled false w → Styled true s →
      display base (openTag color ++ w ++ closeTag ++ s) = display color w ++ display base s

/-- A colour in digits cannot end the attribute it stands in. -/
theorem HexColor.clean {color : JsString} (h : HexColor color) : Clean color := by
  obtain ⟨hhead, -, hdigits⟩ := h
  obtain ⟨rest, rfl⟩ := List.head?_eq_some_iff.mp hhead
  intro c hc
  rcases List.mem_cons.mp hc with rfl | hc
  · decide
  · have hdigit := hdigits c hc
    refine ⟨?_, ?_, ?_⟩ <;>
    · rintro rfl
      exact absurd hdigit (by decide)

/-- The colours of a theme are in digits if the two that it defines are. -/
theorem hexColor_colorForTokenType {theme : Theme} (hmuted : HexColor theme.muted)
    (hforeground : HexColor theme.foreground) (type : TokenType) :
    HexColor (colorForTokenType theme type) := by
  cases type with
  | keyword => exact (by decide : HexColor (js "#c586c0"))
  | string => exact (by decide : HexColor (js "#ce9178"))
  | number => exact (by decide : HexColor (js "#b5cea8"))
  | comment => exact hmuted
  | plain => exact hforeground

/-! ## Escaped text -/

/-- An escaped character may stand in front of any markup. -/
theorem styled_escapeUnit {fonts : Bool} {c : CodeUnit} {s : JsString} (hc : Legible [c])
    (hs : Styled fonts s) : Styled fonts (escapeUnit c ++ s) := by
  have hnbsp : Literal nbsp := by decide
  induction c using escapeUnit_induction with
  | amp => exact .escape (c := unit '&') (by decide) hs
  | lt => exact .escape (c := unit '<') (by decide) hs
  | gt => exact .escape (c := unit '>') (by decide) hs
  | newline => exact .escape (c := unit '\n') (by decide) hs
  | tab => exact .character hnbsp (.character hnbsp (.character hnbsp (.character hnbsp hs)))
  | space => exact .character hnbsp hs
  | other c h₁ h₂ h₃ h₄ h₅ h₆ =>
    have hvisible : Visible c := by simpa [h₄, h₅, h₆] using hc c List.mem_cons_self
    rw [escapeUnit_of_ne h₁ h₂ h₃ h₄ h₅ h₆]
    exact .character ⟨hvisible, h₂, h₁⟩ hs

/-- Escaped text may stand in front of any markup. -/
theorem styled_escapeMarkup {fonts : Bool} {text s : JsString} (htext : Legible text)
    (hs : Styled fonts s) : Styled fonts (escapeMarkup text ++ s) := by
  rw [escapeMarkup_eq]
  induction text with
  | nil => exact hs
  | cons c text ih =>
    obtain ⟨hc, hrest⟩ := List.forall_mem_cons.mp htext
    rw [List.flatMap_cons, List.append_assoc]
    exact styled_escapeUnit (by simpa [Legible] using hc) (ih hrest)

section Shows

variable {display : JsString → JsString → List (CodeUnit × JsString)}
  (h : ShowsStyledText display) (base : JsString)

include h

/-- An escaped character is shown as it should be, whatever follows. -/
theorem ShowsStyledText.escapeUnit {fonts : Bool} {c : CodeUnit} {s : JsString}
    (hc : Legible [c]) (hs : Styled fonts s) :
    display base (escapeUnit c ++ s) =
      (shownUnit c).map (fun x => (x, base)) ++ display base s := by
  have hnbsp : Literal nbsp := by decide
  induction c using escapeUnit_induction with
  | amp => exact h.escape base (by decide) hs
  | lt => exact h.escape base (by decide) hs
  | gt => exact h.escape base (by decide) hs
  | newline => exact h.escape base (by decide) hs
  | tab =>
    -- four no-break spaces, one after the other
    have h₁ := h.character base hnbsp hs
    have h₂ := h.character base hnbsp (.character hnbsp hs)
    have h₃ := h.character base hnbsp (.character hnbsp (.character hnbsp hs))
    have h₄ := h.character base hnbsp (.character hnbsp (.character hnbsp (.character hnbsp hs)))
    rw [h₃, h₂, h₁] at h₄
    exact h₄
  | space => exact h.character base hnbsp hs
  | other c h₁ h₂ h₃ h₄ h₅ h₆ =>
    have hvisible : Visible c := by simpa [h₄, h₅, h₆] using hc c List.mem_cons_self
    have hshown : shownUnit c = [c] := by simp [shownUnit, h₅, h₆]
    rw [escapeUnit_of_ne h₁ h₂ h₃ h₄ h₅ h₆, hshown]
    exact h.character base ⟨hvisible, h₂, h₁⟩ hs

/-- Escaped text is shown as it should be, whatever follows. -/
theorem ShowsStyledText.escapeMarkup {fonts : Bool} {text s : JsString} (htext : Legible text)
    (hs : Styled fonts s) :
    display base (escapeMarkup text ++ s) =
      (shown text).map (fun x => (x, base)) ++ display base s := by
  have hstyled : ∀ {text}, Legible text → Styled fonts (text.flatMap Overlay.escapeUnit ++ s) := by
    intro text htext
    rw [← escapeMarkup_eq]
    exact styled_escapeMarkup htext hs
  rw [escapeMarkup_eq, shown]
  induction text with
  | nil => rfl
  | cons c text ih =>
    obtain ⟨hc, hrest⟩ := List.forall_mem_cons.mp htext
    rw [List.flatMap_cons, List.flatMap_cons, List.append_assoc,
      h.escapeUnit base (by simpa [Legible] using hc) (hstyled hrest), ih hrest, List.map_append,
      List.append_assoc]

end Shows

/-! ## An element -/

/-- A piece of markup. -/
inductive Piece
  /-- An opening font tag with its colour. -/
  | opening (color : JsString)
  /-- A closing font tag. -/
  | closing
  /-- A character. -/
  | character (c : CodeUnit)
deriving DecidableEq, Repr

/-- Cut markup into its pieces. -/
def pieces : Pass CodeUnit Piece where
  copy x := [.character x]
  rule s :=
    match fontTag? s with
    -- the colour runs to the next quotation mark
    | some (.opening, n) => some ([.opening ((s.drop 13).takeWhile (· ≠ unit '"'))], n)
    | some (.closing, n) => some ([.closing], n)
    | none => (decode.rule s).map fun (r, n) => (r.map .character, n)

/-- Give every character the colour of the last tag in front of it, which is that of the element
behind a closing tag. -/
def applyColors (base : JsString) : JsString → List Piece → List (CodeUnit × JsString)
  | _, [] => []
  | _, .opening color :: ps => applyColors base color ps
  | _, .closing :: ps => applyColors base base ps
  | current, .character c :: ps => (c, current) :: applyColors base current ps

/-- An element that keeps white space and control characters as they are. -/
def readStyledText (base markup : JsString) : List (CodeUnit × JsString) :=
  applyColors base base (pieces.run markup)

theorem yields_pieces_openTag {color : JsString} (hcolor : Clean color) :
    pieces.Yields (openTag color) [.opening color] := by
  refine Pass.yields_of_rule fun s => ?_
  change pieces.rule (openTag color ++ s) = some ([.opening color], (openTag color).length)
  simp only [pieces, fontTag?_openTag hcolor, takeWhile_openTag hcolor]

theorem yields_pieces_closeTag : pieces.Yields closeTag [.closing] :=
  Pass.yields_of_rule fun s => by
    change pieces.rule (closeTag ++ s) = some ([.closing], closeTag.length)
    simp only [pieces, fontTag?_closeTag]

/-- A character that begins neither a tag nor an entity is copied. -/
theorem yields_pieces_literal {c : CodeUnit} (hc : Literal c) :
    pieces.Yields [c] [.character c] := by
  refine Pass.yields_flatMap_copy (P := pieces) (w := [c]) fun v hv hne s => ?_
  obtain ⟨x, xs, rfl⟩ := List.exists_cons_of_ne_nil hne
  obtain rfl := List.mem_singleton.mp (hv.subset List.mem_cons_self)
  have htag : fontTag? (x :: (xs ++ s)) = none := fontTag?_of_ne hc.2.1 _
  have h₁ : ¬js "<br>" <+: x :: (xs ++ s) := not_prefix_of_ne hc.2.1.symm
  have h₂ : ¬js "&amp;" <+: x :: (xs ++ s) := not_prefix_of_ne hc.2.2.symm
  have h₃ : ¬js "&lt;" <+: x :: (xs ++ s) := not_prefix_of_ne hc.2.2.symm
  have h₄ : ¬js "&gt;" <+: x :: (xs ++ s) := not_prefix_of_ne hc.2.2.symm
  simp only [pieces, decode, List.cons_append, htag, h₁, h₂, h₃, h₄, if_false, Option.map_none]

/-- An escape is read as the character it stands for. -/
theorem yields_pieces_escape {w : JsString} {c : CodeUnit} (h : (w, c) ∈ escapes) :
    pieces.Yields w [.character c] := by
  simp only [escapes, List.mem_cons, List.not_mem_nil, or_false, Prod.mk.injEq] at h
  rcases h with ⟨rfl, rfl⟩ | ⟨rfl, rfl⟩ | ⟨rfl, rfl⟩ | ⟨rfl, rfl⟩
  · exact Pass.yields_of_rule fun s => rfl
  · exact Pass.yields_of_rule fun s => rfl
  · exact Pass.yields_of_rule fun s => rfl
  · exact Pass.yields_of_rule fun s => rfl

/-- Markup without font elements consists of characters alone. -/
theorem exists_yields_pieces {w : JsString} (hw : Styled false w) :
    ∃ cs : JsString, pieces.Yields w (cs.map .character) := by
  generalize hfonts : false = fonts at hw
  induction hw with
  | nil => exact ⟨[], Pass.yields_nil⟩
  | character hc _ ih =>
    obtain ⟨cs, hcs⟩ := ih hfonts
    exact ⟨_ :: cs, (yields_pieces_literal hc).append hcs⟩
  | escape hc _ ih =>
    obtain ⟨cs, hcs⟩ := ih hfonts
    exact ⟨_ :: cs, (yields_pieces_escape hc).append hcs⟩
  | font => cases hfonts

/-- Characters in a row have the current colour. -/
theorem applyColors_characters (base current : JsString) (cs : JsString) (ps : List Piece) :
    applyColors base current (cs.map .character ++ ps) =
      cs.map (fun c => (c, current)) ++ applyColors base current ps := by
  induction cs with
  | nil => rfl
  | cons c cs ih =>
    rw [List.map_cons, List.cons_append, applyColors, ih]
    rfl

/-- The assumptions about an element can be met. -/
theorem showsStyledText_readStyledText : ShowsStyledText readStyledText where
  nil base := rfl
  character base hc _ := by
    rw [readStyledText, ← List.singleton_append, yields_pieces_literal hc]
    rfl
  escape base hc _ := by
    rw [readStyledText, yields_pieces_escape hc]
    rfl
  font {color w s} base hcolor hw _ := by
    obtain ⟨cs, hcs⟩ := exists_yields_pieces hw
    -- the element without what follows it, and with it
    have hinside : readStyledText color w = cs.map fun c => (c, color) := by
      have hcolors := applyColors_characters color color cs []
      rw [List.append_nil] at hcolors
      rw [readStyledText, hcs.run_eq, hcolors, applyColors, List.append_nil]
    rw [readStyledText, ((yields_pieces_openTag hcolor.clean).append hcs).append
      yields_pieces_closeTag s, hinside, List.append_assoc, List.append_assoc,
      List.singleton_append, applyColors, applyColors_characters, List.singleton_append,
      applyColors, readStyledText]

end Overlay
