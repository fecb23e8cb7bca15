import HackerTyper.Foundations.Alphabet
import HackerTyper.SyntaxHighlight.Keywords

/-!
# Which letters and digits a text has

The scanner only sees that a character is an ASCII letter or a digit, not which one. Texts that
differ in nothing else are cut in the same places into tokens of the same kinds, so that it is
left to the keywords to tell them apart, and in a language that folds case even they do not look
at the case of the letters. Other letters, such as accented ones, are in no class of the scanner:
it tells them apart from ASCII letters, and texts in which they differ are not compared here.

## Main definitions

* `shapeUnit` and `lowerUnit`: a character, up to which ASCII letter or digit it is, and up to
  case;
* `typeOf`: the type of a segment, by the alternative that produced it.

## Main results

* `blind_lexer`: the scanner does not see which ASCII letters and digits a text has;
* `tokenize_shape`: the tokens of texts of the same shape;
* `tokenize_case`: the tokens of texts that differ in the case of ASCII letters.
-/

namespace SyntaxHighlight

open Js Js.Pattern

/-- A character, up to which ASCII letter or digit it is. -/
def shapeUnit (x : CodeUnit) : CodeUnit :=
  if isLetter x then unit 'a' else if isDigit x then unit '0' else x

/-- A character that is neither an ASCII letter nor a digit. -/
def isSymbol (x : CodeUnit) : Bool := !isLetter x && !isDigit x

theorem isSymbol_of_isPunctuation {x : CodeUnit} (h : isPunctuation x) : isSymbol x := by
  simp only [isPunctuation, Bool.and_assoc, Bool.and_eq_true] at h
  exact Bool.and_eq_true_iff.mpr h.2

/-! ## What a shape shows -/

theorem isDigit_eq_false_of_isLetter {x : CodeUnit} (h : isLetter x) : isDigit x = false := by
  rw [isLetter_iff] at h
  rw [← Bool.not_eq_true, isDigit_iff]
  omega

/-- What holds of the shape, from the three kinds of characters. -/
theorem shapeUnit_cases {motive : CodeUnit → CodeUnit → Prop} (x : CodeUnit)
    (letter : isLetter x → motive x (unit 'a')) (digit : isDigit x → motive x (unit '0'))
    (symbol : isSymbol x → motive x x) : motive x (shapeUnit x) := by
  rw [shapeUnit]
  split
  next h => exact letter h
  next h =>
    split
    next h' => exact digit h'
    next h' => exact symbol (by simp [isSymbol, h, h'])

@[simp] theorem isLetter_shapeUnit (x : CodeUnit) : isLetter (shapeUnit x) = isLetter x := by
  refine shapeUnit_cases (motive := fun x y => isLetter y = isLetter x) x ?_ ?_ fun _ => rfl
  · intro h
    rw [h]
    rfl
  · intro h
    cases hx : isLetter x with
    | false => rfl
    | true => rw [isDigit_eq_false_of_isLetter hx] at h; cases h

@[simp] theorem isDigit_shapeUnit (x : CodeUnit) : isDigit (shapeUnit x) = isDigit x := by
  refine shapeUnit_cases (motive := fun x y => isDigit y = isDigit x) x ?_ ?_ fun _ => rfl
  · intro h
    rw [isDigit_eq_false_of_isLetter h]
    rfl
  · intro h
    rw [h]
    rfl

/-- A symbol has its own shape, and no other character has. -/
theorem shapeUnit_eq_iff {x y : CodeUnit} (hy : isSymbol y) : shapeUnit x = y ↔ x = y := by
  refine shapeUnit_cases (motive := fun x z => z = y ↔ x = y) x ?_ ?_ fun _ => Iff.rfl
  · intro h
    constructor <;> rintro rfl
    · exact absurd hy (by decide)
    · simp [isSymbol, h] at hy
  · intro h
    constructor <;> rintro rfl
    · exact absurd hy (by decide)
    · simp [isSymbol, h] at hy

theorem decide_shapeUnit_eq {y : CodeUnit} (hy : isSymbol y) (x : CodeUnit) :
    decide (shapeUnit x = y) = decide (x = y) :=
  decide_eq_decide.mpr (shapeUnit_eq_iff hy)

@[simp] theorem isWord_shapeUnit (x : CodeUnit) : isWord (shapeUnit x) = isWord x := by
  rw [isWord, isWord, isLetter_shapeUnit, isDigit_shapeUnit, decide_shapeUnit_eq (by decide)]

@[simp] theorem isIdentifierStart_shapeUnit (x : CodeUnit) :
    isIdentifierStart (shapeUnit x) = isIdentifierStart x := by
  rw [isIdentifierStart, isIdentifierStart, isLetter_shapeUnit, decide_shapeUnit_eq (by decide)]

@[simp] theorem isLineTerminator_shapeUnit (x : CodeUnit) :
    isLineTerminator (shapeUnit x) = isLineTerminator x := by
  have heq : ∀ y, isSymbol y → (shapeUnit x == y) = (x == y) := fun y hy => by
    rw [beq_eq_decide, beq_eq_decide, decide_shapeUnit_eq hy]
  rw [isLineTerminator, isLineTerminator, heq _ (by decide), heq _ (by decide),
    heq _ (by decide), heq _ (by decide)]

/-! ## What the scanner sees -/

/-- A word of symbols matches the same texts up to their shapes. -/
theorem comap_lit {w : JsString} (hw : ∀ x ∈ w, isSymbol x) :
    (Regex.lit w).map (Regex.comap shapeUnit) = Regex.lit w := by
  rw [Regex.lit, List.map_map]
  refine List.map_congr_left fun x hx => ?_
  simp only [Function.comp_apply, Regex.comap, decide_shapeUnit_eq (hw x hx)]

theorem comap_endOfInput : endOfInput.comap shapeUnit = endOfInput := by
  simp [endOfInput, Regex.comap]

theorem comap_wordBoundary : wordBoundary.comap shapeUnit = wordBoundary := by
  simp only [wordBoundary, Regex.comap, Option.any_map, isWord_shapeUnit]

theorem comap_oneOf {y : CodeUnit} (hy : isSymbol y) :
    (Regex.set (oneOf y)).comap shapeUnit = .set (oneOf y) := by
  simp only [Regex.comap, oneOf, decide_shapeUnit_eq hy]
  rfl

theorem comap_fraction : Lexeme.fraction.comap shapeUnit = Lexeme.fraction := by
  have hpoint : isSymbol (unit '.') := by decide
  have hdigits : (Regex.plus true (.set isDigit)).comap shapeUnit = .plus true (.set isDigit) := by
    simp only [Regex.plus, Regex.comap, isDigit_shapeUnit]
  simp only [Lexeme.fraction, classSet_isDigit, Regex.comap_alts, Regex.comap_seqs,
    List.map_cons, List.map_nil, comap_oneOf hpoint, hdigits]

/-- The end of a comment or a string. -/
theorem comap_orEnd {w : JsString} (hw : ∀ x ∈ w, isSymbol x) :
    (Regex.alts [.seqs (Regex.lit w), .seqs [endOfInput]]).comap shapeUnit =
      .alts [.seqs (Regex.lit w), .seqs [endOfInput]] := by
  simp only [Regex.comap_alts, List.map_cons, List.map_nil, Regex.comap_seqs, comap_lit hw,
    comap_endOfInput]

theorem comap_stringElement : Lexeme.stringElement.comap shapeUnit = Lexeme.stringElement := by
  have hbackslash : isSymbol (unit '\\') := by decide
  simp only [Lexeme.stringElement, Regex.comap_alts, Regex.comap_seqs, List.map_cons,
    List.map_nil, comap_oneOf hbackslash]
  simp only [Regex.comap, classSet, dot, oneOf, List.any_cons, List.any_nil,
    decide_shapeUnit_eq hbackslash, isLineTerminator_shapeUnit]

/-- No alternative sees which ASCII letters and digits a text has. -/
theorem comap_regex {cfg : LangConfig} (hsym : cfg.DelimitedBy isSymbol) {k : Lexeme}
    (hk : k ∈ alternatives cfg) : k.regex.comap shapeUnit = k.regex := by
  rcases mem_alternatives.mp hk with ⟨b, hb, rfl⟩ | ⟨o, ho, rfl⟩ | ⟨d, hd, rfl⟩ | rfl | rfl
  · have hall : classSet false [isSpace, fun c => !isSpace c] = .set fun _ => true := by
      simp [classSet]
    simp only [Lexeme.regex, Regex.comap_seqs, List.map_append, List.map_cons, List.map_nil,
      comap_lit (hsym.opener b hb), comap_orEnd (hsym.closer b hb), Regex.comap, hall]
  · have hnewline : isSymbol (unit '\n') := by decide
    simp only [Lexeme.regex, Regex.comap_seqs, List.map_append, List.map_cons, List.map_nil,
      comap_lit (hsym.line o ho), Regex.comap, classSet, oneOf, List.any_cons, List.any_nil,
      decide_shapeUnit_eq hnewline]
  · simp only [Lexeme.regex, Regex.comap_seqs, List.map_append, List.map_cons, List.map_nil,
      comap_lit (hsym.string d hd), comap_orEnd (hsym.string d hd), Regex.comap,
      comap_stringElement]
  · simp only [Lexeme.regex, classSet_isDigit, Regex.plus, Regex.comap_seqs, List.map_cons,
      List.map_nil, comap_wordBoundary, Regex.comap, isDigit_shapeUnit, comap_fraction]
  · simp only [Lexeme.regex, classSet_identifierStart, classSet_identifierPart, Regex.comap_seqs,
      List.map_cons, List.map_nil, Regex.comap, isIdentifierStart_shapeUnit, isWord_shapeUnit]

/-- A match has the same length in every text of the same shape. -/
theorem length?_shape {cfg : LangConfig} (hcfg : cfg.Lexable) (hsym : cfg.DelimitedBy isSymbol)
    {k : Lexeme} (hk : k ∈ alternatives cfg) (c : Cursor CodeUnit) :
    k.length? (c.map shapeUnit) = k.length? c := by
  have hfirst := Regex.map_first_comap shapeUnit k.regex c
  rw [comap_regex hsym hk, Lexeme.first_regex, Lexeme.first_regex] at hfirst
  -- the length is the distance of the two ends of the match
  have hindex : ∀ {c : Cursor CodeUnit} {n : ℕ}, k.length? c = some n →
      (c.advance n).index = c.index + n :=
    fun h => Cursor.index_advance (Lexeme.length?_spec hcfg hk h).2
  cases hn : k.length? c with
  | none =>
    rw [hn, Option.map_none, Option.map_none] at hfirst
    exact Option.map_eq_none_iff.mp hfirst.symm
  | some n =>
    rw [hn, Option.map_some, Option.map_some, Cursor.map_advance] at hfirst
    obtain ⟨m, hm, hend⟩ := Option.map_eq_some_iff.mp hfirst.symm
    have hlen := congrArg Cursor.index hend
    rw [hindex hm, ← Cursor.map_advance, Cursor.index_map, Cursor.index_map, hindex hn] at hlen
    rw [hm, Nat.add_left_cancel hlen]

/-- The scanner does not see which ASCII letters and digits a text has. -/
theorem blind_lexer {cfg : LangConfig} (hcfg : cfg.Lexable) (hsym : cfg.DelimitedBy isSymbol) :
    (lexer cfg hcfg).Blind shapeUnit := by
  intro c
  simp only [lexer, ← List.head?_filterMap]
  congr 1
  refine List.filterMap_congr fun k hk => ?_
  rw [length?_shape hcfg hsym hk]

/-! ## The tokens of texts of the same shape -/

/-- The type of a segment: that of the alternative that produced it or, for an identifier, what
its text reads as in the set of keywords. -/
def typeOf (a : LanguageArgs) (kind : Option Lexeme) (w : JsString) : TokenType :=
  match kind with
  | none => .plain
  | some k => k.type?.getD (if truthy (a.config.keywords.get (a.fold w)) then .keyword else .plain)

/-- The tokens by the alternatives that produced them. -/
theorem tokens_eq_map_typeOf {a : LanguageArgs} (hcfg : a.config.Lexable) (text : JsString) :
    tokens a.config hcfg text = ((lexer a.config hcfg).segments text).map fun seg =>
      ⟨typeOf a seg.kind seg.text, seg.text⟩ := by
  refine List.map_congr_left fun seg hseg => ?_
  obtain ⟨kind, i, w⟩ := seg
  cases kind with
  | none => rfl
  | some k =>
    obtain ⟨hm, hw⟩ := (lexer a.config hcfg).match?_of_mem_segments hseg
    have hrest : w = (Cursor.ofIndex text i).rest.take w.length := hw
    have htype : classify a.config w = typeOf a (some k) w := by
      cases hk : k.type? with
      | some type =>
        simp only [typeOf, hk, Option.getD_some]
        rw [hrest]
        exact classify_of_match? hm hk
      | none =>
        -- only the alternative for identifiers leaves the type open
        obtain rfl : k = .identifier := by cases k <;> first | rfl | cases hk
        have hclass := classify_of_match?_identifier hm
        rw [← hrest] at hclass
        exact hclass
    rw [toToken]
    simp only [Option.isSome_some, if_true, htype]

/-- Types that only the set of keywords tells apart. -/
def TokenType.Similar (type type' : TokenType) : Prop :=
  type = type' ∨ (type = .keyword ∨ type = .plain) ∧ (type' = .keyword ∨ type' = .plain)

/-- Segments of one kind have types that only the keywords tell apart. -/
theorem similar_typeOf (a : LanguageArgs) (kind : Option Lexeme) (w w' : JsString) :
    (typeOf a kind w).Similar (typeOf a kind w') := by
  cases kind with
  | none => exact Or.inl rfl
  | some k =>
    cases hk : k.type? with
    | some type => exact Or.inl (by simp only [typeOf, hk, Option.getD_some])
    | none =>
      right
      simp only [typeOf, hk, Option.getD_none]
      constructor <;> split <;> simp

/-- The segments of texts that a blind scanner does not tell apart. -/
theorem forall₂_segments {a : LanguageArgs} {hcfg : a.config.Lexable} {f : CodeUnit → CodeUnit}
    (hblind : (lexer a.config hcfg).Blind f) {text text' : JsString}
    (h : text.map f = text'.map f) :
    List.Forall₂ (fun seg seg' : Segment Lexeme CodeUnit =>
        seg.kind = seg'.kind ∧ seg.text.map f = seg'.text.map f)
      ((lexer a.config hcfg).segments text) ((lexer a.config hcfg).segments text') := by
  have hmap := Lexer.segments_map hblind text
  rw [h, Lexer.segments_map hblind, ← List.forall₂_eq_eq_eq, List.forall₂_map_left_iff,
    List.forall₂_map_right_iff] at hmap
  refine hmap.flip.imp fun seg seg' hseg => ?_
  obtain ⟨hkind, -, htext⟩ := Segment.mk.inj hseg
  exact ⟨hkind.symm, htext.symm⟩

/-- For every language with a configuration, texts that differ only in which ASCII letters and
digits they have are cut in the same places, and their tokens have the same types except for
words, which may be keywords in one of them and plain in the other. -/
theorem tokenize_shape {language : JsString} {a : LanguageArgs}
    (ha : argsFor language = some a) {text text' : JsString}
    (h : text.map shapeUnit = text'.map shapeUnit) {cache₁ cache₂ : ScannerCache}
    (hcache₁ : cache₁.Reachable) (hcache₂ : cache₂.Reachable) :
    ∃ ts ts' cache₁' cache₂', tokenize text language cache₁ = .ok (ts, cache₁') ∧
      tokenize text' language cache₂ = .ok (ts', cache₂') ∧
      List.Forall₂ (fun t t' : Token =>
        t.text.map shapeUnit = t'.text.map shapeUnit ∧ t.type.Similar t'.type) ts ts' := by
  have hcfg := lexable_of_argsFor ha
  have hsym := (delimitedBy_of_argsFor ha).mono fun _ => isSymbol_of_isPunctuation
  obtain ⟨cache₁', -, hrun₁⟩ := tokenize_eq ha hcache₁ text
  obtain ⟨cache₂', -, hrun₂⟩ := tokenize_eq ha hcache₂ text'
  refine ⟨_, _, cache₁', cache₂', hrun₁, hrun₂, ?_⟩
  rw [tokens_eq_map_typeOf, tokens_eq_map_typeOf, List.forall₂_map_left_iff,
    List.forall₂_map_right_iff]
  refine (forall₂_segments (blind_lexer hcfg hsym) h).imp ?_
  rintro seg seg' ⟨hkind, hshape⟩
  rw [hkind]
  exact ⟨hshape, similar_typeOf a _ _ _⟩

/-- A keyword and a number that change. -/
theorem tokenize_shape_c : ∃ ts ts' cache₁' cache₂',
    tokenize (js "if (x1) /* a */") (js "C") PlainObject.empty = .ok (ts, cache₁') ∧
      tokenize (js "of (B7) /* z */") (js "C") PlainObject.empty = .ok (ts', cache₂') ∧
      List.Forall₂ (fun t t' : Token =>
        t.text.map shapeUnit = t'.text.map shapeUnit ∧ t.type.Similar t'.type) ts ts' :=
  tokenize_shape (a := Language.c) (by decide +kernel) (by decide +kernel) .empty .empty

/-! ## The case of ASCII letters -/

/-- A letter of ASCII in lower case. -/
def lowerUnit (x : CodeUnit) : CodeUnit := if between 'A' 'Z' x then x + 32 else x

/-- The case of a letter does not change its shape. -/
theorem shapeUnit_lowerUnit (x : CodeUnit) : shapeUnit (lowerUnit x) = shapeUnit x := by
  rw [lowerUnit]
  split
  next h =>
    rw [between_iff] at h
    have hbounds : (unit 'A').toNat = 65 ∧ (unit 'Z').toNat = 90 := by decide
    have hsum : (x + 32).toNat = x.toNat + 32 := by
      rw [UInt16.toNat_add]
      have h32 : (32 : UInt16).toNat = 32 := rfl
      omega
    have hx : isLetter x := isLetter_iff.mpr (by omega)
    have hx' : isLetter (x + 32) := isLetter_iff.mpr (by omega)
    rw [shapeUnit, shapeUnit, if_pos hx, if_pos hx']
  next => rfl

/-- For every language that folds case, texts that differ only in the case of ASCII letters are
cut in the same places into tokens of the same types. -/
theorem tokenize_case {language : JsString} {a : LanguageArgs}
    (ha : argsFor language = some a) (hcase : a.config.caseInsensitive = true)
    {text text' : JsString} (h : text.map lowerUnit = text'.map lowerUnit)
    {cache₁ cache₂ : ScannerCache} (hcache₁ : cache₁.Reachable) (hcache₂ : cache₂.Reachable) :
    ∃ ts ts' cache₁' cache₂', tokenize text language cache₁ = .ok (ts, cache₁') ∧
      tokenize text' language cache₂ = .ok (ts', cache₂') ∧
      List.Forall₂ (fun t t' : Token =>
        t.text.map lowerUnit = t'.text.map lowerUnit ∧ t.type = t'.type) ts ts' := by
  have hcfg := lexable_of_argsFor ha
  have hsym := (delimitedBy_of_argsFor ha).mono fun _ => isSymbol_of_isPunctuation
  have hblind := (blind_lexer hcfg hsym).of_comp shapeUnit_lowerUnit
  obtain ⟨cache₁', -, hrun₁⟩ := tokenize_eq ha hcache₁ text
  obtain ⟨cache₂', -, hrun₂⟩ := tokenize_eq ha hcache₂ text'
  refine ⟨_, _, cache₁', cache₂', hrun₁, hrun₂, ?_⟩
  rw [tokens_eq_map_typeOf, tokens_eq_map_typeOf, List.forall₂_map_left_iff,
    List.forall₂_map_right_iff]
  refine (forall₂_segments hblind h).imp ?_
  rintro seg seg' ⟨hkind, hlower⟩
  -- the same word is looked up in the set of keywords
  have hfold : ∀ w : JsString, a.fold w = w.map lowerUnit := fun w => if_pos hcase
  exact ⟨hlower, by simp only [typeOf, hkind, hfold, hlower]⟩

/-- A statement in SQL in capitals and in small letters. -/
theorem tokenize_case_sql : ∃ ts ts' cache₁' cache₂',
    tokenize (js "SELECT Id -- All") (js "SQL") PlainObject.empty = .ok (ts, cache₁') ∧
      tokenize (js "select iD -- aLL") (js "SQL") PlainObject.empty = .ok (ts', cache₂') ∧
      List.Forall₂ (fun t t' : Token =>
        t.text.map lowerUnit = t'.text.map lowerUnit ∧ t.type = t'.type) ts ts' :=
  tokenize_case (a := Language.sql) (by decide +kernel) (by decide +kernel) (by decide +kernel)
    .empty .empty

end SyntaxHighlight
