import HackerTyper.Js.Number
import HackerTyper.Js.Object

/-!
# JSON

`JSON.parse` and `JSON.stringify`, and what the values they produce are converted to.
Parsing is one pass over the text with a stack of the arrays and objects that are still open,
so that reading a concatenation is reading its parts one after the other.

## Main definitions

* `Js.Json`: the values of `JSON.parse`;
* `Js.Json.parse`;
* `Js.Json.truthy` and `Js.Json.toJsString`: the conversions of a value to a Boolean and to a
  string;
* `Js.Json.stringify`: `JSON.stringify` of an object of strings.

## Main results

* `toJsString_spec` and `stringOrEmpty_spec`: the conversion to a string returns unless it
  meets an object that hides `toString`, and then throws;
* `read_quoteUnits`: the characters of a string are read back.
-/

namespace Js

/-- The values of `JSON.parse`. -/
inductive Json
  | null
  | bool (b : Bool)
  | num (x : Number)
  | str (s : JsString)
  | arr (elements : List Json)
  | obj (members : List (JsString × Json))

namespace Json

/-! ## Conversions -/

/-- Whether a value counts as true. -/
def truthy : Json → Bool
  | null => false
  | bool b => b
  | num x => !x.isZero
  | str s => s ≠ []
  | arr _ => true
  | obj _ => true

/-- Whether a value is an object that has the member `toString`. -/
def hidesToString : Json → Bool
  | obj members => members.any fun (key, _) => key = js "toString"
  | _ => false

mutual

/-- `String(v)`. Objects that do not hide `toString` all read the same. No member of a parsed
object is callable, and what is left of the conversion then returns the object itself. An
array joins its elements, where `null` reads as the empty string. -/
def toJsString : Json → Result JsString
  | null => .ok (js "null")
  | bool b => .ok (if b then js "true" else js "false")
  | num x => .ok x.toJsString
  | str s => .ok s
  | obj members =>
    if (obj members).hidesToString then .throw .typeError else .ok (js "[object Object]")
  | arr elements => do .ok (join (js ",") (← elementStrings elements))

/-- The strings that an array joins. -/
def elementStrings : List Json → Result (List JsString)
  | [] => .ok []
  | null :: vs => do .ok ([] :: (← elementStrings vs))
  | v :: vs => do
    let s ← toJsString v
    .ok (s :: (← elementStrings vs))

end

/-- `String(v || "")`. -/
def stringOrEmpty (v : Json) : Result JsString := if v.truthy then v.toJsString else .ok []

/-- The read `v.key` of a name that no object inherits, with `undefined` written `none`. -/
def member? (key : JsString) : Json → Option Json
  | obj members => PlainObject.getOwn key members
  | _ => none

/-! ## Parsing -/

/-- White space between the tokens of a JSON text. -/
def isWhitespace (c : CodeUnit) : Bool := c == 0x09 || c == 0x0A || c == 0x0D || c == 0x20

/-- How much of a number has been read. -/
inductive NumberState
  /-- A minus sign. -/
  | minus
  /-- A leading zero. -/
  | zero
  /-- Digits of the integer part. -/
  | whole
  /-- The point. -/
  | point
  /-- Digits of the fraction. -/
  | fraction
  /-- The `e` of the exponent. -/
  | exponent
  /-- The sign of the exponent. -/
  | exponentSign
  /-- Digits of the exponent. -/
  | exponentDigits
deriving DecidableEq, Repr

/-- Read one more character of a number. -/
def NumberState.next (s : NumberState) (c : CodeUnit) : Option NumberState :=
  let digit := isDigit c
  let e := c = unit 'e' ∨ c = unit 'E'
  match s with
  | minus => if c = unit '0' then some zero else if digit then some whole else none
  | zero => if c = unit '.' then some point else if e then some exponent else none
  | whole =>
    if digit then some whole else if c = unit '.' then some point
    else if e then some exponent else none
  | point => if digit then some fraction else none
  | fraction => if digit then some fraction else if e then some exponent else none
  | exponent =>
    if c = unit '+' ∨ c = unit '-' then some exponentSign
    else if digit then some exponentDigits else none
  | exponentSign => if digit then some exponentDigits else none
  | exponentDigits => if digit then some exponentDigits else none

/-- Whether a number may end here. -/
def NumberState.isFinal : NumberState → Bool
  | zero | whole | fraction | exponentDigits => true
  | _ => false

/-- An array or an object that is still open. -/
inductive Frame
  /-- The elements so far, the last one first. -/
  | arr (elements : List Json)
  /-- The members so far, and the key of the next one. -/
  | obj (members : List (JsString × Json)) (key : JsString)

/-- What the parser expects or is reading. Texts that are being read are kept reversed. -/
inductive Mode
  /-- A value. -/
  | value
  /-- The first element of an array, or its end. -/
  | firstElement
  /-- The first member of an object, or its end. -/
  | firstMember
  /-- A further member of an object. -/
  | member
  /-- The colon after a key. -/
  | colon
  /-- A comma, or the end of the array or object. -/
  | next
  /-- The rest of a string, which may be a key. -/
  | string (isKey : Bool) (read : JsString)
  /-- The character after a backslash. -/
  | escape (isKey : Bool) (read : JsString)
  /-- The remaining digits of a `\u` escape. -/
  | hex (isKey : Bool) (read : JsString) (digits : ℕ) (value : ℕ)
  /-- The rest of a literal name. -/
  | name (rest : JsString) (value : Json)
  /-- The rest of a number. -/
  | number (state : NumberState) (read : JsString)
  /-- Nothing but white space. -/
  | done (value : Json)

/-- The state of the parser. -/
structure State where
  /-- The open arrays and objects, the innermost first. -/
  stack : List Frame
  /-- What comes next. -/
  mode : Mode

/-- The state after a complete value. -/
def State.complete (v : Json) : List Frame → State
  | [] => ⟨[], .done v⟩
  | .arr elements :: stack => ⟨.arr (v :: elements) :: stack, .next⟩
  | .obj members key :: stack => ⟨.obj (PlainObject.putOwn key v members) key :: stack, .next⟩

/-- The state after a complete string. -/
def State.endString (isKey : Bool) (s : JsString) (stack : List Frame) : Option State :=
  if isKey then
    match stack with
    | .obj members _ :: stack => some ⟨.obj members s :: stack, .colon⟩
    | _ => none
  else some (complete (str s) stack)

/-- Close the innermost array or object. -/
def State.close (c : CodeUnit) : List Frame → Option State
  | .arr elements :: stack =>
    if c = unit ']' then some (complete (arr elements.reverse) stack) else none
  | .obj members _ :: stack =>
    if c = unit '\x7d' then some (complete (obj members) stack) else none
  | [] => none

/-- The start of a value. -/
def State.start (c : CodeUnit) (stack : List Frame) : Option State :=
  if c = unit '"' then some ⟨stack, .string false []⟩
  else if c = unit '[' then some ⟨.arr [] :: stack, .firstElement⟩
  else if c = unit '\x7b' then some ⟨.obj [] [] :: stack, .firstMember⟩
  else if c = unit 'n' then some ⟨stack, .name (js "ull") null⟩
  else if c = unit 't' then some ⟨stack, .name (js "rue") (bool true)⟩
  else if c = unit 'f' then some ⟨stack, .name (js "alse") (bool false)⟩
  else if c = unit '-' then some ⟨stack, .number .minus [c]⟩
  else if c = unit '0' then some ⟨stack, .number .zero [c]⟩
  else if isDigit c then some ⟨stack, .number .whole [c]⟩
  else none

/-- A comma or the end of the innermost array or object. -/
def State.afterValue (c : CodeUnit) (stack : List Frame) : Option State :=
  if isWhitespace c then some ⟨stack, .next⟩
  else if c = unit ',' then
    match stack with
    | .arr _ :: _ => some ⟨stack, .value⟩
    | .obj _ _ :: _ => some ⟨stack, .member⟩
    | [] => none
  else close c stack

/-- What the character after a backslash stands for, except in a `\u` escape. -/
def unescape (c : CodeUnit) : Option CodeUnit :=
  if c = unit '"' ∨ c = unit '\\' ∨ c = unit '/' then some c
  else if c = unit 'b' then some 0x08
  else if c = unit 'f' then some 0x0C
  else if c = unit 'n' then some 0x0A
  else if c = unit 'r' then some 0x0D
  else if c = unit 't' then some 0x09
  else none

/-- The value of a hexadecimal digit. -/
def hexValue (c : CodeUnit) : Option ℕ :=
  if isDigit c then some (c.toNat - 48)
  else if between 'a' 'f' c then some (c.toNat - 87)
  else if between 'A' 'F' c then some (c.toNat - 55)
  else none

/-- Read one character. -/
def State.step (s : State) (c : CodeUnit) : Option State :=
  match s.mode with
  | .value => if isWhitespace c then some s else start c s.stack
  | .firstElement =>
    if isWhitespace c then some s
    else if c = unit ']' then close c s.stack
    else start c s.stack
  | .firstMember =>
    if isWhitespace c then some s
    else if c = unit '\x7d' then close c s.stack
    else if c = unit '"' then some ⟨s.stack, .string true []⟩
    else none
  | .member =>
    if isWhitespace c then some s
    else if c = unit '"' then some ⟨s.stack, .string true []⟩
    else none
  | .colon =>
    if isWhitespace c then some s
    else if c = unit ':' then some ⟨s.stack, .value⟩
    else none
  | .next => afterValue c s.stack
  | .string isKey read =>
    if c = unit '"' then endString isKey read.reverse s.stack
    else if c = unit '\\' then some ⟨s.stack, .escape isKey read⟩
    else if c.toNat < 0x20 then none
    else some ⟨s.stack, .string isKey (c :: read)⟩
  | .escape isKey read =>
    if c = unit 'u' then some ⟨s.stack, .hex isKey read 4 0⟩
    else (unescape c).map fun c => ⟨s.stack, .string isKey (c :: read)⟩
  | .hex isKey read digits value =>
    (hexValue c).map fun d =>
      let value := 16 * value + d
      if digits = 1 then ⟨s.stack, .string isKey (UInt16.ofNat value :: read)⟩
      else ⟨s.stack, .hex isKey read (digits - 1) value⟩
  | .name rest v =>
    match rest with
    | [] => none
    | [x] => if c = x then some (complete v s.stack) else none
    | x :: rest => if c = x then some ⟨s.stack, .name rest v⟩ else none
  | .number state read =>
    match state.next c with
    | some state => some ⟨s.stack, .number state (c :: read)⟩
    | none =>
      -- the number has ended, and the character belongs to what follows it
      if state.isFinal then
        match complete (num (.ofLiteral read.reverse)) s.stack with
        | ⟨stack, .done v⟩ => if isWhitespace c then some ⟨stack, .done v⟩ else none
        | ⟨stack, _⟩ => afterValue c stack
      else none
  | .done _ => if isWhitespace c then some s else none

/-- Read a text. -/
def State.read (s : State) : JsString → Option State
  | [] => some s
  | c :: cs => (s.step c).bind fun s => s.read cs

/-- The value of a text that has been read completely. -/
def State.result? (s : State) : Option Json :=
  match s.mode with
  | .done v => some v
  | .number state read =>
    if s.stack.isEmpty && state.isFinal then some (num (.ofLiteral read.reverse)) else none
  | _ => none

/-- `JSON.parse(text)`. -/
def parse (text : JsString) : Result Json :=
  match ((State.mk [] .value).read text).bind State.result? with
  | some v => .ok v
  | none => .throw .syntaxError

/-! ## Writing -/

/-- A code unit that starts a surrogate pair. -/
def isHighSurrogate (c : CodeUnit) : Bool := 0xD800 ≤ c && c ≤ 0xDBFF

/-- A code unit that ends a surrogate pair. -/
def isLowSurrogate (c : CodeUnit) : Bool := 0xDC00 ≤ c && c ≤ 0xDFFF

/-- A hexadecimal digit. -/
def hexDigit (d : ℕ) : CodeUnit := UInt16.ofNat (if d < 10 then 48 + d else 87 + d)

/-- A code unit as a `\u` escape. -/
def unicodeEscape (c : CodeUnit) : JsString :=
  js "\\u" ++ [hexDigit (c.toNat / 4096), hexDigit (c.toNat / 256 % 16),
    hexDigit (c.toNat / 16 % 16), hexDigit (c.toNat % 16)]

/-- A code unit in a string, unless it is part of a surrogate pair. -/
def quoteUnit (c : CodeUnit) : JsString :=
  if c = 0x08 then js "\\b"
  else if c = 0x09 then js "\\t"
  else if c = 0x0A then js "\\n"
  else if c = 0x0C then js "\\f"
  else if c = 0x0D then js "\\r"
  else if c = unit '"' then js "\\\""
  else if c = unit '\\' then js "\\\\"
  else if c.toNat < 0x20 ∨ isHighSurrogate c ∨ isLowSurrogate c then unicodeEscape c
  else [c]

/-- The characters of a string between its quotes. -/
def quoteUnits : JsString → JsString
  | [] => []
  | [x] => quoteUnit x
  | x :: y :: s =>
    if isHighSurrogate x ∧ isLowSurrogate y then x :: y :: quoteUnits s
    else quoteUnit x ++ quoteUnits (y :: s)

/-- A string with its quotes. -/
def quote (s : JsString) : JsString := js "\"" ++ quoteUnits s ++ js "\""

/-- `JSON.stringify(object)` for an object of strings. -/
def stringify (members : List (JsString × JsString)) : JsString :=
  js "\x7b" ++ join (js ",") (members.map fun (key, s) => quote key ++ js ":" ++ quote s) ++
    js "\x7d"

/-! ## Converting values to strings -/

mutual

/-- No object that is met on the way hides `toString`. -/
def Stringable : Json → Prop
  | obj members => ¬(obj members).hidesToString
  | arr elements => AllStringable elements
  | _ => True

/-- All elements can be converted. -/
def AllStringable : List Json → Prop
  | [] => True
  | v :: vs => Stringable v ∧ AllStringable vs

end

mutual

/-- `String(v)` returns unless an object that it meets hides `toString`, and throws then. -/
theorem toJsString_spec : ∀ v : Json,
    Stringable v ∧ (∃ s, v.toJsString = .ok s) ∨
      ¬Stringable v ∧ v.toJsString = .throw .typeError
  | null => by simp [toJsString, Stringable]
  | bool b => by simp [toJsString, Stringable]
  | num x => by simp [toJsString, Stringable]
  | str s => by simp [toJsString, Stringable]
  | obj members => by
    rw [toJsString, Stringable]
    -- an own `toString` of an object is what the conversion finds first
    by_cases h : (obj members).hidesToString = true <;> simp [h]
  | arr elements => by
    rw [toJsString, Stringable]
    rcases elementStrings_spec elements with ⟨hall, ss, hss⟩ | ⟨hnot, hthrow⟩
    · simp [hall, hss]
    · simp [hnot, hthrow]

/-- The elements of an array are joined unless one of them cannot be converted. -/
theorem elementStrings_spec : ∀ vs : List Json,
    AllStringable vs ∧ (∃ ss, elementStrings vs = .ok ss) ∨
      ¬AllStringable vs ∧ elementStrings vs = .throw .typeError
  | [] => by simp [elementStrings, AllStringable]
  | v :: vs => by
    rw [AllStringable]
    by_cases hnull : v = null
    · subst hnull
      simp only [elementStrings, Stringable, true_and]
      rcases elementStrings_spec vs with ⟨hall, ss, hss⟩ | ⟨hnot, hthrow⟩
      · simp [hall, hss]
      · simp [hnot, hthrow]
    · -- the first element that cannot be converted throws
      rw [elementStrings]
      · rcases toJsString_spec v with ⟨hv, s, hs⟩ | ⟨hv, hthrow⟩
        · rcases elementStrings_spec vs with ⟨hall, ss, hss⟩ | ⟨hnot, hthrow⟩
          · simp [hv, hs, hall, hss]
          · simp [hv, hs, hnot, hthrow]
        · simp [hv, hthrow]
      · exact hnull

end

/-- `String(v || "")` returns for a falsy value and for one that can be converted, and throws
otherwise. -/
theorem stringOrEmpty_spec (v : Json) :
    (v.truthy → Stringable v) ∧ (∃ s, v.stringOrEmpty = .ok s) ∨
      ¬(v.truthy → Stringable v) ∧ v.stringOrEmpty = .throw .typeError := by
  rw [stringOrEmpty]
  by_cases h : v.truthy = true
  · rcases toJsString_spec v with ⟨hv, s, hs⟩ | ⟨hv, hthrow⟩
    · simp [h, hv, hs]
    · simp [h, hv, hthrow]
  · simp [h]

theorem stringable_str (s : JsString) : Stringable (str s) := by simp [Stringable]

theorem stringOrEmpty_str (s : JsString) : (str s).stringOrEmpty = .ok s := by
  by_cases hs : s = []
  · simp [stringOrEmpty, truthy, hs]
  · simp [stringOrEmpty, truthy, hs, toJsString]

/-! ## Parsing undoes writing -/

/-- A text is read in two parts. -/
theorem read_append (s : State) (u v : JsString) :
    s.read (u ++ v) = (s.read u).bind fun s' => s'.read v := by
  induction u generalizing s with
  | nil => rfl
  | cons c cs ih =>
    rw [List.cons_append, State.read, State.read, Option.bind_assoc]
    congr 1
    funext s'
    exact ih s'

/-- Reading one part of a text after the other. -/
theorem read_append_of_eq_some {s s' : State} {u v : JsString} (h : s.read u = some s') :
    s.read (u ++ v) = s'.read v := by
  rw [read_append, h, Option.bind_some]

/-- A hexadecimal digit reads as its value. -/
theorem hexValue_hexDigit {d : ℕ} (h : d < 16) : hexValue (hexDigit d) = some d := by
  have hall : ∀ d < 16, hexValue (hexDigit d) = some d := by decide
  exact hall d h

/-- A written Unicode escape reads as the code unit that it stands for. -/
theorem read_unicodeEscape (stack : List Frame) (isKey : Bool) (acc : JsString) (c : CodeUnit) :
    (State.mk stack (.string isKey acc)).read (unicodeEscape c) =
      some ⟨stack, .string isKey (c :: acc)⟩ := by
  have hlt := c.toNat_lt
  have h₃ := hexValue_hexDigit (d := c.toNat / 4096) (by omega)
  have h₂ := hexValue_hexDigit (d := c.toNat / 256 % 16) (by omega)
  have h₁ := hexValue_hexDigit (d := c.toNat / 16 % 16) (by omega)
  have h₀ := hexValue_hexDigit (d := c.toNat % 16) (by omega)
  -- the four digits put together again
  have hvalue : 16 * (16 * (16 * (16 * 0 + c.toNat / 4096) + c.toNat / 256 % 16) +
      c.toNat / 16 % 16) + c.toNat % 16 = c.toNat := by omega
  have hescape : (State.mk stack (.string isKey acc)).read (js "\\u") =
      some ⟨stack, .hex isKey acc 4 0⟩ := rfl
  rw [unicodeEscape, read_append_of_eq_some hescape]
  simp only [State.read, State.step, h₃, h₂, h₁, h₀, Option.map_some, Option.bind_some,
    Nat.reduceEqDiff, Nat.reduceSub, if_false, if_true]
  rw [hvalue, UInt16.ofNat_toNat]

/-- A code unit between the quotes of a string is read as itself. -/
theorem read_quoteUnit (stack : List Frame) (isKey : Bool) (acc : JsString) (c : CodeUnit) :
    (State.mk stack (.string isKey acc)).read (quoteUnit c) =
      some ⟨stack, .string isKey (c :: acc)⟩ := by
  rw [quoteUnit]
  split
  next h => subst h; rfl
  split
  next h => subst h; rfl
  split
  next h => subst h; rfl
  split
  next h => subst h; rfl
  split
  next h => subst h; rfl
  split
  next h => subst h; rfl
  split
  next h => subst h; rfl
  split
  -- control characters and lone surrogates
  next => exact read_unicodeEscape stack isKey acc c
  next hquote hbackslash h =>
    -- the character stands for itself
    obtain ⟨hcontrol, -⟩ := not_or.mp h
    simp [State.read, State.step, hquote, hbackslash, hcontrol]

/-- Surrogates are read as they are. -/
theorem step_surrogate {c : CodeUnit} (h : 0xD800 ≤ c.toNat) (stack : List Frame)
    (isKey : Bool) (acc : JsString) :
    (State.mk stack (.string isKey acc)).step c = some ⟨stack, .string isKey (c :: acc)⟩ := by
  have hquote : c ≠ unit '"' := by
    rintro rfl
    exact absurd h (by decide)
  have hbackslash : c ≠ unit '\\' := by
    rintro rfl
    exact absurd h (by decide)
  have hcontrol : ¬c.toNat < 0x20 := by omega
  simp [State.step, hquote, hbackslash, hcontrol]

/-- The characters between the quotes of a string are read as the string. -/
theorem read_quoteUnits (stack : List Frame) (isKey : Bool) (acc s : JsString) :
    (State.mk stack (.string isKey acc)).read (quoteUnits s) =
      some ⟨stack, .string isKey (s.reverse ++ acc)⟩ := by
  induction s using quoteUnits.induct generalizing acc with
  | case1 => rfl
  | case2 x => exact read_quoteUnit stack isKey acc x
  | case3 x y s h ih =>
    -- a surrogate pair is written as it is
    have hx : 0xD800 ≤ x.toNat := by
      have hhigh := h.1
      simp only [isHighSurrogate, Bool.and_eq_true, decide_eq_true_eq,
        UInt16.le_iff_toNat_le] at hhigh
      exact hhigh.1
    have hy : 0xD800 ≤ y.toNat := by
      have hlow := h.2
      simp only [isLowSurrogate, Bool.and_eq_true, decide_eq_true_eq,
        UInt16.le_iff_toNat_le] at hlow
      exact (show 0xD800 ≤ 0xDC00 by decide).trans hlow.1
    rw [quoteUnits, if_pos h, State.read, step_surrogate hx, Option.bind_some, State.read,
      step_surrogate hy, Option.bind_some, ih]
    simp
  | case4 x y s h ih =>
    rw [quoteUnits, if_neg h, read_append_of_eq_some (read_quoteUnit stack isKey acc x), ih]
    simp

end Json

end Js
