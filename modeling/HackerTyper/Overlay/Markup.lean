import HackerTyper.Foundations.Rewrite
import HackerTyper.SyntaxHighlight.Segmentation

/-!
# The rendered markup

The overlay shows the revealed text as styled text: `buildHighlightedMarkup` escapes each
token and wraps all but the plain ones in a font tag. This file shows that the markup reads
back as the text it was built from, whatever entities and tags the text itself contains.

## Main definitions

* `escapeMarkup`, `colorForTokenType`, `buildHighlightedMarkup`: the functions of the source;
* `deleteFontTags`, `fontTags`, `decode`: reading markup;
* `Paired`: every font tag is closed before the next one opens.

## Main results

* `escapeMarkup_eq`: the six replacements act on every character once;
* `buildHighlightedMarkup_spec`: the tags are the renderer's own and paired, and the markup
  decodes to the text with its blanks widened.
-/

namespace Overlay

open Js SyntaxHighlight

/-- The no-break space. -/
def nbsp : CodeUnit := 0x00A0

/-- Escape a text for display as styled text. -/
def escapeMarkup (text : JsString) : JsString :=
  -- the innermost replacement comes first
  replaceUnit (unit ' ') [nbsp]
    (replaceUnit (unit '\t') [nbsp, nbsp, nbsp, nbsp]
      (replaceUnit (unit '\n') (js "<br>")
        (replaceUnit (unit '>') (js "&gt;")
          (replaceUnit (unit '<') (js "&lt;")
            (replaceUnit (unit '&') (js "&amp;") text)))))

/-- The colours of the theme that the markup uses. -/
structure Theme where
  /-- `Color.muted`. -/
  muted : JsString
  /-- `Color.foreground`. -/
  foreground : JsString
deriving DecidableEq, Repr

/-- The colour of a type of token. -/
def colorForTokenType (theme : Theme) : TokenType → JsString
  | .keyword => js "#c586c0"
  | .string => js "#ce9178"
  | .number => js "#b5cea8"
  | .comment => theme.muted
  | .plain => theme.foreground

/-- The opening font tag of a colour. -/
def openTag (color : JsString) : JsString := js "<font color=\"" ++ color ++ js "\">"

/-- The closing font tag. -/
def closeTag : JsString := js "</font>"

/-- The markup of a token, if it is not empty. -/
def markupPart (color : TokenType → JsString) (token : Token) : Option JsString :=
  let escaped := escapeMarkup token.text
  -- `if (!escaped) continue`
  if escaped = [] then none
  else if token.type = .plain then some escaped
  else some (openTag (color token.type) ++ escaped ++ closeTag)

/-- The markup of a text in a language, and the cache of scanners afterwards. -/
def buildHighlightedMarkup (color : TokenType → JsString) (text language : JsString)
    (cache : ScannerCache) : Result (JsString × ScannerCache) :=
  if text = [] then .ok ([], cache)
  else do
    let (tokens, cache) ← tokenize text language cache
    .ok (join [] (tokens.filterMap (markupPart color)), cache)

/-! ## Reading markup -/

/-- A font tag. -/
inductive FontTag
  | opening
  | closing
deriving DecidableEq, Repr

/-- The font tag a text starts with, and its length. -/
def fontTag? (s : JsString) : Option (FontTag × ℕ) :=
  if closeTag <+: s then some (.closing, closeTag.length)
  else if js "<font color=\"" <+: s then
    -- the colour runs to the next quotation mark
    let color := (s.drop 13).takeWhile (· ≠ unit '"')
    if js "\">" <+: s.drop (13 + color.length) then some (.opening, 15 + color.length) else none
  else none

/-- Delete the font tags. -/
def deleteFontTags : Pass CodeUnit CodeUnit where
  copy x := [x]
  rule s := (fontTag? s).map fun (_, n) => ([], n)

/-- List the font tags. -/
def fontTags : Pass CodeUnit FontTag where
  copy _ := []
  rule s := (fontTag? s).map fun (tag, n) => ([tag], n)

/-- Read `<br>` as a newline, and decode the three entities. -/
def decode : Pass CodeUnit CodeUnit where
  copy x := [x]
  rule s :=
    if js "<br>" <+: s then some ([unit '\n'], 4)
    else if js "&amp;" <+: s then some ([unit '&'], 5)
    else if js "&lt;" <+: s then some ([unit '<'], 4)
    else if js "&gt;" <+: s then some ([unit '>'], 4)
    else none

/-- Every font tag is closed before the next one opens. -/
def Paired : List FontTag → Prop
  | [] => True
  | .opening :: .closing :: tags => Paired tags
  | _ => False

/-- How a character is shown: blanks do not break, and a tab is as wide as four of them. -/
def shownUnit (c : CodeUnit) : JsString :=
  if c = unit '\t' then [nbsp, nbsp, nbsp, nbsp] else if c = unit ' ' then [nbsp] else [c]

/-- The text as it is shown. -/
def shown (text : JsString) : JsString := text.flatMap shownUnit

/-- The tags of the renderer. -/
def ownTags (color : TokenType → JsString) : List JsString :=
  [js "<br>", closeTag, openTag (color .keyword), openTag (color .string),
   openTag (color .comment), openTag (color .number)]

/-- Every `<` begins one of the tags. -/
def OnlyTags (tags : List JsString) (s : JsString) : Prop :=
  ∀ v, unit '<' :: v <:+ s → ∃ tag ∈ tags, tag <+: unit '<' :: v

/-- A colour that cannot end the attribute or the tag it stands in. -/
def Clean (color : JsString) : Prop := ∀ c ∈ color, c ≠ unit '<' ∧ c ≠ unit '>' ∧ c ≠ unit '"'

instance (color : JsString) : Decidable (Clean color) :=
  inferInstanceAs (Decidable (∀ c ∈ color, c ≠ unit '<' ∧ c ≠ unit '>' ∧ c ≠ unit '"'))

/-! ## Escaping -/

/-- What a character is escaped as. -/
def escapeUnit (c : CodeUnit) : JsString :=
  if c = unit '&' then js "&amp;"
  else if c = unit '<' then js "&lt;"
  else if c = unit '>' then js "&gt;"
  else if c = unit '\n' then js "<br>"
  else if c = unit '\t' then [nbsp, nbsp, nbsp, nbsp]
  else if c = unit ' ' then [nbsp]
  else [c]

/-- A property of all characters is checked for the six that are escaped and for the others. -/
theorem escapeUnit_induction {motive : CodeUnit → Prop} (amp : motive (unit '&'))
    (lt : motive (unit '<')) (gt : motive (unit '>')) (newline : motive (unit '\n'))
    (tab : motive (unit '\t')) (space : motive (unit ' '))
    (other : ∀ c, c ≠ unit '&' → c ≠ unit '<' → c ≠ unit '>' → c ≠ unit '\n' → c ≠ unit '\t' →
      c ≠ unit ' ' → motive c) (c : CodeUnit) : motive c := by
  by_cases h₁ : c = unit '&'
  · rwa [h₁]
  by_cases h₂ : c = unit '<'
  · rwa [h₂]
  by_cases h₃ : c = unit '>'
  · rwa [h₃]
  by_cases h₄ : c = unit '\n'
  · rwa [h₄]
  by_cases h₅ : c = unit '\t'
  · rwa [h₅]
  by_cases h₆ : c = unit ' '
  · rwa [h₆]
  exact other c h₁ h₂ h₃ h₄ h₅ h₆

theorem escapeUnit_of_ne {c : CodeUnit} (h₁ : c ≠ unit '&') (h₂ : c ≠ unit '<')
    (h₃ : c ≠ unit '>') (h₄ : c ≠ unit '\n') (h₅ : c ≠ unit '\t') (h₆ : c ≠ unit ' ') :
    escapeUnit c = [c] := by
  simp [escapeUnit, h₁, h₂, h₃, h₄, h₅, h₆]

/-- No replacement touches the output of an earlier one. -/
theorem escapeMarkup_eq (text : JsString) : escapeMarkup text = text.flatMap escapeUnit := by
  simp only [escapeMarkup, replaceUnit, List.flatMap_assoc]
  congr 1
  funext c
  induction c using escapeUnit_induction with
  | other c h₁ h₂ h₃ h₄ h₅ h₆ =>
    -- every replacement leaves the character to the next one
    rw [escapeUnit_of_ne h₁ h₂ h₃ h₄ h₅ h₆]
    simp [h₁, h₂, h₃, h₄, h₅, h₆]
  | _ => decide

/-- The only tag among the escaped characters is the one for a newline. -/
theorem escapeUnit_cases (c : CodeUnit) :
    c = unit '\n' ∧ escapeUnit c = js "<br>" ∨ unit '<' ∉ escapeUnit c := by
  induction c using escapeUnit_induction with
  | other c h₁ h₂ h₃ h₄ h₅ h₆ =>
    right
    rw [escapeUnit_of_ne h₁ h₂ h₃ h₄ h₅ h₆]
    simpa using Ne.symm h₂
  | _ => decide

/-! ## Reading the pieces of the markup -/

theorem not_prefix_of_ne {x y : CodeUnit} {w s : JsString} (h : y ≠ x) : ¬y :: w <+: x :: s :=
  fun hpre => h (List.cons_prefix_cons.mp hpre).1

/-- A font tag starts with a `<`. -/
theorem fontTag?_of_ne {x : CodeUnit} (hx : x ≠ unit '<') (s : JsString) :
    fontTag? (x :: s) = none := by
  have hclose : ¬closeTag <+: x :: s := not_prefix_of_ne hx.symm
  have hopen : ¬js "<font color=\"" <+: x :: s := not_prefix_of_ne hx.symm
  rw [fontTag?, if_neg hclose, if_neg hopen]

theorem fontTag?_closeTag (s : JsString) :
    fontTag? (closeTag ++ s) = some (.closing, closeTag.length) := by
  rw [fontTag?, if_pos (List.prefix_append _ _)]

/-- Behind the first part of an opening tag stands its colour. -/
theorem drop_openTag (color s : JsString) :
    (openTag color ++ s).drop 13 = color ++ (js "\">" ++ s) := by
  simp only [openTag, List.append_assoc]
  rfl

/-- The colour of an opening tag runs to the next quotation mark. -/
theorem takeWhile_openTag {color : JsString} (hcolor : Clean color) (s : JsString) :
    ((openTag color ++ s).drop 13).takeWhile (· ≠ unit '"') = color := by
  -- a clean colour contains no quotation mark
  have hall : ∀ c ∈ color, decide (c ≠ unit '"') = true := fun c hc =>
    decide_eq_true (hcolor c hc).2.2
  have hquote : (js "\">" ++ s).takeWhile (· ≠ unit '"') = [] := rfl
  rw [drop_openTag, List.takeWhile_append_of_pos hall, hquote, List.append_nil]

/-- Where an opening tag with a clean colour stands, it is found. -/
theorem fontTag?_openTag {color : JsString} (hcolor : Clean color) (s : JsString) :
    fontTag? (openTag color ++ s) = some (.opening, (openTag color).length) := by
  -- the second character tells the tags apart
  have hclose : ¬closeTag <+: openTag color ++ s := by
    intro hpre
    exact absurd (List.cons_prefix_cons.mp (List.cons_prefix_cons.mp hpre).2).1 (by decide)
  have hend : (openTag color ++ s).drop (13 + color.length) = js "\">" ++ s := by
    rw [← List.drop_drop, drop_openTag, List.drop_left]
  have hopen : js "<font color=\"" <+: openTag color ++ s := by
    rw [openTag, List.append_assoc, List.append_assoc]
    exact List.prefix_append _ _
  have hlen : (openTag color).length = 15 + color.length := by
    simp only [openTag, List.length_append]
    rw [show (js "<font color=\"").length = 13 from rfl, show (js "\">").length = 2 from rfl]
    omega
  rw [fontTag?, if_neg hclose, if_pos hopen]
  simp only [takeWhile_openTag hcolor]
  rw [if_pos (hend ▸ List.prefix_append _ _), hlen]

/-- Outside the font tags, a pass over the font tags copies. -/
theorem yields_escapeMarkup {ι : Type} {P : Pass CodeUnit ι}
    (hrule : ∀ s, fontTag? s = none → P.rule s = none) (text : JsString) :
    P.Yields (escapeMarkup text) ((escapeMarkup text).flatMap P.copy) := by
  rw [escapeMarkup_eq, List.flatMap_assoc]
  apply Pass.yields_flatMap
  intro c _
  apply Pass.yields_flatMap_copy
  intro v hv hne s
  apply hrule
  obtain ⟨x, xs, rfl⟩ := List.exists_cons_of_ne_nil hne
  rcases escapeUnit_cases c with ⟨-, hbr⟩ | hmem
  · -- the tag is `<br>`, or what is left of it behind the `<`
    rw [hbr] at hv
    rcases List.suffix_cons_iff.mp hv with heq | htail
    · rw [heq]
      rfl
    · refine fontTag?_of_ne (fun hx => ?_) _
      rw [hx] at htail
      exact absurd (htail.subset List.mem_cons_self) (by decide)
  · -- without a `<` there is no tag
    refine fontTag?_of_ne (fun hx => hmem ?_) _
    rw [hx] at hv
    exact hv.subset List.mem_cons_self

/-- What a pass that looks for font tags makes of an opening tag. -/
theorem yields_openTag {ι : Type} {P : Pass CodeUnit ι} {r : FontTag → List ι}
    (hrule : ∀ s tag n, fontTag? s = some (tag, n) → P.rule s = some (r tag, n))
    {color : JsString} (hcolor : Clean color) : P.Yields (openTag color) (r .opening) :=
  Pass.yields_of_rule fun s => hrule _ _ _ (fontTag?_openTag hcolor s)

theorem yields_closeTag {ι : Type} {P : Pass CodeUnit ι} {r : FontTag → List ι}
    (hrule : ∀ s tag n, fontTag? s = some (tag, n) → P.rule s = some (r tag, n)) :
    P.Yields closeTag (r .closing) :=
  Pass.yields_of_rule fun s => hrule _ _ _ (fontTag?_closeTag s)

/-- Decoding copies what contains neither the start of a tag nor that of an entity. -/
theorem yields_decode_copy {w : JsString} (hlt : unit '<' ∉ w) (hamp : unit '&' ∉ w) :
    decode.Yields w w := by
  have hw : w.flatMap decode.copy = w := List.flatMap_singleton' w
  have hyields : decode.Yields w (w.flatMap decode.copy) := by
    apply Pass.yields_flatMap_copy
    intro v hv hne s
    obtain ⟨x, xs, rfl⟩ := List.exists_cons_of_ne_nil hne
    have hx : x ∈ w := hv.subset List.mem_cons_self
    have hx₁ : unit '<' ≠ x := fun h => hlt (h ▸ hx)
    have hx₂ : unit '&' ≠ x := fun h => hamp (h ▸ hx)
    -- none of the four texts that the rule looks for starts with `x`
    have h₁ : ¬js "<br>" <+: x :: (xs ++ s) := not_prefix_of_ne hx₁
    have h₂ : ¬js "&amp;" <+: x :: (xs ++ s) := not_prefix_of_ne hx₂
    have h₃ : ¬js "&lt;" <+: x :: (xs ++ s) := not_prefix_of_ne hx₂
    have h₄ : ¬js "&gt;" <+: x :: (xs ++ s) := not_prefix_of_ne hx₂
    simp only [decode, List.cons_append, h₁, h₂, h₃, h₄, if_false]
  rwa [hw] at hyields

/-- An escaped character is decoded to the character as it is shown. -/
theorem yields_decode_escapeUnit (c : CodeUnit) :
    decode.Yields (escapeUnit c) (shownUnit c) := by
  induction c using escapeUnit_induction with
  | amp => exact Pass.yields_of_rule fun s => rfl
  | lt => exact Pass.yields_of_rule fun s => rfl
  | gt => exact Pass.yields_of_rule fun s => rfl
  | newline => exact Pass.yields_of_rule fun s => rfl
  | tab => exact yields_decode_copy (by decide) (by decide)
  | space => exact yields_decode_copy (by decide) (by decide)
  | other c h₁ h₂ h₃ h₄ h₅ h₆ =>
    have hshown : shownUnit c = [c] := by simp [shownUnit, h₅, h₆]
    rw [escapeUnit_of_ne h₁ h₂ h₃ h₄ h₅ h₆, hshown]
    exact yields_decode_copy (by simpa using Ne.symm h₂) (by simpa using Ne.symm h₁)

/-- Decoding undoes escaping, up to the blanks. -/
theorem decode_escapeMarkup (text : JsString) : decode.run (escapeMarkup text) = shown text := by
  rw [escapeMarkup_eq]
  exact (Pass.yields_flatMap fun c _ => yields_decode_escapeUnit c).run_eq

/-! ## The tags of the markup -/

theorem onlyTags_nil (tags : List JsString) : OnlyTags tags [] := by
  intro v hv
  cases List.suffix_nil.mp hv

/-- In front of the tags, a text without a `<` changes nothing. -/
theorem OnlyTags.append {tags : List JsString} {w s : JsString} (h : OnlyTags tags s)
    (hw : unit '<' ∉ w) : OnlyTags tags (w ++ s) := by
  induction w with
  | nil => exact h
  | cons x xs ih =>
    obtain ⟨hx, hxs⟩ := not_or.mp (mt List.mem_cons.mpr hw)
    intro v hv
    -- the `<` is `x`, or further on
    rcases List.suffix_cons_iff.mp hv with heq | htail
    · exact absurd (List.cons.inj heq).1 hx
    · exact ih hxs v htail

/-- One more of the tags may stand in front. -/
theorem OnlyTags.cons_append {tags : List JsString} {w s : JsString} (h : OnlyTags tags s)
    (htag : unit '<' :: w ∈ tags) (hw : unit '<' ∉ w) :
    OnlyTags tags (unit '<' :: w ++ s) := by
  intro v hv
  rcases List.suffix_cons_iff.mp hv with heq | htail
  · -- the `<` that begins the tag
    rw [heq]
    exact ⟨_, htag, List.prefix_append _ _⟩
  · -- a `<` behind the tag
    exact h.append hw v htail

/-- An escaped text may stand in front, since its only tag is `<br>`. -/
theorem OnlyTags.escapeMarkup {tags : List JsString} {s : JsString} (h : OnlyTags tags s)
    (hbr : js "<br>" ∈ tags) (text : JsString) : OnlyTags tags (escapeMarkup text ++ s) := by
  rw [escapeMarkup_eq]
  induction text with
  | nil => exact h
  | cons c text ih =>
    rw [List.flatMap_cons, List.append_assoc]
    rcases escapeUnit_cases c with ⟨-, heq⟩ | hmem
    · -- a newline becomes the tag `<br>`
      rw [heq]
      exact ih.cons_append hbr (by decide)
    · exact ih.append hmem

/-- No colour contains a `<`, so an opening tag contains no other. -/
theorem not_mem_tail_openTag {color : JsString} (hcolor : Clean color) :
    unit '<' ∉ (openTag color).tail := by
  have htail : (openTag color).tail = js "font color=\"" ++ color ++ js "\">" := rfl
  rw [htail]
  simp only [List.mem_append, not_or]
  exact ⟨⟨by decide, fun h => (hcolor _ h).1 rfl⟩, by decide⟩

/-- Paired tags in a row are paired. -/
theorem Paired.append {l₁ l₂ : List FontTag} (h₁ : Paired l₁) (h₂ : Paired l₂) :
    Paired (l₁ ++ l₂) := by
  induction l₁ using Paired.induct with
  | case1 => exact h₂
  | case2 tags ih => exact ih h₁
  | case3 l hnil hpair =>
    -- no other list of tags is paired
    unfold Paired at h₁
    split at h₁ <;> simp_all

theorem paired_flatMap {ι : Type} {f : ι → List FontTag} {l : List ι}
    (h : ∀ i ∈ l, Paired (f i)) : Paired (l.flatMap f) := by
  induction l with
  | nil => trivial
  | cons i l ih =>
    rw [List.flatMap_cons]
    exact (h i (by simp)).append (ih fun j hj => h j (by simp [hj]))

/-! ## The markup of a text -/

/-- The markup of a token. -/
def tokenMarkup (color : TokenType → JsString) (token : Token) : JsString :=
  (markupPart color token).getD []

/-- The parts of the markup are the markups of the tokens. -/
theorem join_filterMap_markupPart (color : TokenType → JsString) (tokens : List Token) :
    join [] (tokens.filterMap (markupPart color)) = tokens.flatMap (tokenMarkup color) := by
  rw [join_nil]
  induction tokens with
  | nil => rfl
  | cons token tokens ih =>
    rw [List.filterMap_cons, List.flatMap_cons, tokenMarkup]
    cases markupPart color token with
    | none => simpa using ih
    | some part => simpa using ih

/-- The markup of a token is its escaped text, with or without a pair of font tags. -/
theorem tokenMarkup_cases (color : TokenType → JsString) (token : Token) :
    tokenMarkup color token = escapeMarkup token.text ∨
      token.type ≠ .plain ∧
        tokenMarkup color token =
          openTag (color token.type) ++ escapeMarkup token.text ++ closeTag := by
  rw [tokenMarkup, markupPart]
  by_cases hempty : escapeMarkup token.text = []
  · -- nothing is pushed for an empty token
    simp [hempty]
  · by_cases hplain : token.type = .plain
    · simp [hempty, hplain]
    · simp [hempty, hplain]

section Tokens

variable {color : TokenType → JsString} (hcolor : ∀ type, Clean (color type))

include hcolor

/-- Without its font tags, the markup of a token is its escaped text. -/
theorem yields_deleteFontTags (token : Token) :
    deleteFontTags.Yields (tokenMarkup color token) (escapeMarkup token.text) := by
  have hnone : ∀ s, fontTag? s = none → deleteFontTags.rule s = none := fun s h => by
    simp only [deleteFontTags, h, Option.map_none]
  have hsome : ∀ s tag n, fontTag? s = some (tag, n) → deleteFontTags.rule s = some ([], n) :=
    fun s tag n h => by simp only [deleteFontTags, h, Option.map_some]
  -- the escaped text contains no font tag, so it is copied
  have htext : deleteFontTags.Yields (escapeMarkup token.text) (escapeMarkup token.text) := by
    have h := yields_escapeMarkup hnone token.text
    rwa [show (escapeMarkup token.text).flatMap deleteFontTags.copy = escapeMarkup token.text
      from List.flatMap_singleton' _] at h
  rcases tokenMarkup_cases color token with h | ⟨-, h⟩
  · rwa [h]
  · rw [h]
    have hopen := yields_openTag (r := fun _ => []) hsome (hcolor token.type)
    have hclose := yields_closeTag (r := fun _ => []) hsome
    simpa using (hopen.append htext).append hclose

/-- The font tags of a token are paired. -/
theorem exists_yields_fontTags (token : Token) :
    ∃ tags, Paired tags ∧ fontTags.Yields (tokenMarkup color token) tags := by
  have hnone : ∀ s, fontTag? s = none → fontTags.rule s = none := fun s h => by
    simp only [fontTags, h, Option.map_none]
  have hsome : ∀ s tag n, fontTag? s = some (tag, n) → fontTags.rule s = some ([tag], n) :=
    fun s tag n h => by simp only [fontTags, h, Option.map_some]
  -- the escaped text contains no font tag, so none is listed
  have htext : fontTags.Yields (escapeMarkup token.text) [] := by
    have h := yields_escapeMarkup hnone token.text
    rwa [show (escapeMarkup token.text).flatMap fontTags.copy = []
      from List.flatMap_eq_nil_iff.mpr fun _ _ => rfl] at h
  rcases tokenMarkup_cases color token with h | ⟨-, h⟩
  · exact ⟨[], trivial, h ▸ htext⟩
  · rw [h]
    have hopen := yields_openTag (r := fun tag => [tag]) hsome (hcolor token.type)
    have hclose := yields_closeTag (r := fun tag => [tag]) hsome
    exact ⟨[.opening, .closing], trivial, (hopen.append htext).append hclose⟩

/-- The markup of tokens has no tags but the listed ones. -/
theorem onlyTags_flatMap_tokenMarkup (tokens : List Token) :
    OnlyTags (ownTags color) (tokens.flatMap (tokenMarkup color)) := by
  have hbr : js "<br>" ∈ ownTags color := List.mem_cons_self
  induction tokens with
  | nil => exact onlyTags_nil _
  | cons token tokens ih =>
    rw [List.flatMap_cons]
    rcases tokenMarkup_cases color token with h | ⟨hplain, h⟩
    · rw [h]
      exact ih.escapeMarkup hbr token.text
    · rw [h, List.append_assoc, List.append_assoc]
      -- from the back: closing tag, escaped text, opening tag
      have hclose : OnlyTags (ownTags color) (closeTag ++ tokens.flatMap (tokenMarkup color)) :=
        ih.cons_append (List.mem_cons_of_mem _ List.mem_cons_self) (by decide)
      have hopen : openTag (color token.type) ∈ ownTags color := by
        cases htype : token.type with
        -- a plain token has no font tag
        | plain => exact absurd htype hplain
        | keyword => simp [ownTags]
        | string => simp [ownTags]
        | comment => simp [ownTags]
        | number => simp [ownTags]
      exact (hclose.escapeMarkup hbr token.text).cons_append hopen
        (not_mem_tail_openTag (hcolor token.type))

end Tokens

/-- For every text, every language with a configuration and every assignment of clean
colours: the tags of the markup are the renderer's own, its font tags are paired and not
nested, and without them it decodes to the text as it is shown. -/
theorem buildHighlightedMarkup_spec {color : TokenType → JsString}
    (hcolor : ∀ type, Clean (color type)) (text : JsString) {language : JsString}
    (hlanguage : language ∉ objectPrototype) {cache : ScannerCache} (hcache : cache.Reachable) :
    ∃ markup cache',
      buildHighlightedMarkup color text language cache = .ok (markup, cache') ∧
        OnlyTags (ownTags color) markup ∧ Paired (fontTags.run markup) ∧
        decode.run (deleteFontTags.run markup) = shown text := by
  by_cases hempty : text = []
  · refine ⟨[], cache, by rw [buildHighlightedMarkup, if_pos hempty], onlyTags_nil _, trivial, ?_⟩
    rw [hempty]
    rfl
  obtain ⟨a, ha⟩ := exists_argsFor hlanguage
  obtain ⟨cache', -, htokenize⟩ := tokenize_eq ha hcache text
  generalize hts : tokens a.config (lexable_of_argsFor ha) text = ts at htokenize
  have htext : ts.flatMap Token.text = text := hts ▸ flatMap_text_tokens _ text
  refine ⟨ts.flatMap (tokenMarkup color), cache', ?_, onlyTags_flatMap_tokenMarkup hcolor ts,
    ?_, ?_⟩
  · rw [buildHighlightedMarkup, if_neg hempty, htokenize, Result.ok_bind]
    simp only [join_filterMap_markupPart]
  · -- the tags of the text are those of its tokens
    choose tags hpaired hyields using exists_yields_fontTags hcolor
    rw [(Pass.yields_flatMap fun t _ => hyields t).run_eq]
    exact paired_flatMap fun t _ => hpaired t
  · -- without font tags, what is left is the escaped text as a whole
    have hescaped : ts.flatMap (fun t => escapeMarkup t.text) = escapeMarkup text := by
      simp only [escapeMarkup_eq, ← htext, List.flatMap_assoc]
    rw [(Pass.yields_flatMap fun t _ => yields_deleteFontTags hcolor t).run_eq, hescaped,
      decode_escapeMarkup]

/-- A theme of clean colours gives every type of token a clean colour. -/
theorem clean_colorForTokenType {theme : Theme} (hmuted : Clean theme.muted)
    (hforeground : Clean theme.foreground) (type : TokenType) :
    Clean (colorForTokenType theme type) := by
  cases type with
  | keyword => exact (by decide : Clean (js "#c586c0"))
  | string => exact (by decide : Clean (js "#ce9178"))
  | number => exact (by decide : Clean (js "#b5cea8"))
  | comment => exact hmuted
  | plain => exact hforeground

/-- A C text that looks like markup. -/
theorem buildHighlightedMarkup_spec_entity : ∃ markup cache',
    buildHighlightedMarkup (colorForTokenType ⟨js "#808080", js "#ffffff"⟩)
        (js "if (a<b && c) // &lt;br>") (js "C") PlainObject.empty = .ok (markup, cache') ∧
      OnlyTags (ownTags (colorForTokenType ⟨js "#808080", js "#ffffff"⟩)) markup ∧
      Paired (fontTags.run markup) ∧
      decode.run (deleteFontTags.run markup) = shown (js "if (a<b && c) // &lt;br>") :=
  buildHighlightedMarkup_spec
    (clean_colorForTokenType (by decide) (by decide)) _ (by decide) .empty

end Overlay
