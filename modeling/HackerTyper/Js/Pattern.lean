import HackerTyper.Foundations.Regex
import HackerTyper.Js.Object

/-!
# Regular expression patterns

The syntax of `new RegExp(pattern)` without the `u`, `i` and `m` flags, for the part of it
that has literals, escapes, classes, groups `(?:…)`, alternatives, the quantifiers `*`, `+`
and `?` with their lazy forms, `^`, `$` and `\b`. The pattern is read one code unit at a
time; what has been read is a stack of open groups.

## Main definitions

* `Js.Pattern.compile`: the regular expression a pattern denotes, if it is one;
* `Js.Pattern.Denotes`: a piece of a pattern that reads as one alternative.

## Main results

* `read_append`: a pattern is read piece by piece;
* `compile_join`: pieces that each denote an expression, joined with `|`, denote the choice
  between those expressions.
-/

namespace Js.Pattern

/-! ## Building blocks -/

/-- A class with the given members. -/
def classSet (negated : Bool) (members : List (CodeUnit → Bool)) : Regex CodeUnit :=
  .set fun c => (members.any fun m => m c) != negated

/-- `.`: anything but a line terminator. -/
def dot : Regex CodeUnit := .set fun c => !isLineTerminator c

/-- `\b`: exactly one of the neighbours is a word character. -/
def wordBoundary : Regex CodeUnit := .look fun a b => a.any isWord != b.any isWord

/-- `^`, without the `m` flag. -/
def startOfInput : Regex CodeUnit := .look fun a _ => a.isNone

/-- `$`, without the `m` flag. -/
def endOfInput : Regex CodeUnit := .look fun _ b => b.isNone

/-- One given code unit. -/
def oneOf (c : CodeUnit) : CodeUnit → Bool := fun x => x = c

/-- The code units from `lo` to `hi`. -/
def range (lo hi : CodeUnit) : CodeUnit → Bool := fun x => lo ≤ x && x ≤ hi

/-- The characters that do not stand for themselves in a pattern. -/
def syntaxCharacters : JsString := js ".*+?^$\x7b\x7d()|[]\\"

/-! ## Reading -/

/-- The alternatives of an open group: the finished ones and the terms of the current one,
both with the latest first. -/
structure Frame where
  /-- The finished alternatives. -/
  alternatives : List (Regex CodeUnit)
  /-- The terms of the current alternative. -/
  terms : List (Regex CodeUnit)

/-- The expression a group denotes when it is closed. -/
def Frame.close (f : Frame) : Regex CodeUnit :=
  .alts (f.alternatives.reverse ++ [.seqs f.terms.reverse])

/-- The open end of a class that is being read. -/
inductive Pending
  /-- Nothing that a `-` could extend. -/
  | none
  /-- A single member, which may start a range. -/
  | one (c : CodeUnit)
  /-- The start of a range and the `-`. -/
  | range (lo : CodeUnit)
  /-- A backslash. -/
  | escape

/-- What the next code unit may continue. -/
inductive Mode
  /-- Nothing that a quantifier could follow. -/
  | start
  /-- An atom, which a quantifier may follow. -/
  | atom
  /-- A quantifier, which a `?` would make lazy. -/
  | quantified
  /-- A backslash. -/
  | escape
  /-- A `(`. -/
  | groupOpen
  /-- A `(?`. -/
  | groupMark
  /-- A `[`. -/
  | classOpen
  /-- The members of a class, the latest first. -/
  | class (negated : Bool) (members : List (CodeUnit → Bool)) (pending : Pending)

/-- A pattern that has been read in part. -/
structure State where
  /-- The group being read. -/
  frame : Frame
  /-- The groups around it, the innermost first. -/
  outer : List Frame
  /-- What may come next. -/
  mode : Mode

/-- Append a term. -/
def State.push (s : State) (r : Regex CodeUnit) (mode : Mode) : State :=
  { s with frame := { s.frame with terms := r :: s.frame.terms }, mode := mode }

/-- Apply a quantifier to the last term. -/
def State.quantify (s : State) (q : Regex CodeUnit → Regex CodeUnit) (mode : Mode) :
    Option State :=
  match s.frame.terms with
  | [] => none
  | r :: rs => some { s with frame := { s.frame with terms := q r :: rs }, mode := mode }

/-- Make the quantifier just read lazy. -/
def makeLazy : Regex CodeUnit → Regex CodeUnit
  | .star _ r => .star false r
  | .opt _ r => .opt false r
  -- `+`, which is one iteration and then a `*`
  | .seq r (.star _ s) => .seq r (.star false s)
  | r => r

/-- The members of a class, with the open end closed. -/
def closeMembers (members : List (CodeUnit → Bool)) : Pending → Option (List (CodeUnit → Bool))
  | .none => some members
  | .one c => some (oneOf c :: members)
  -- a `-` in front of the `]` stands for itself
  | .range lo => some (oneOf (unit '-') :: oneOf lo :: members)
  | .escape => none

/-- The class escapes `\d`, `\s`, `\S` and `\w`. -/
def classEscape (c : CodeUnit) : Option (CodeUnit → Bool) :=
  if c = unit 'd' then some isDigit
  else if c = unit 's' then some isSpace
  else if c = unit 'S' then some fun x => !isSpace x
  else if c = unit 'w' then some isWord
  else none

/-- The character escapes `\n`, `\r`, `\t` and those of the syntax characters. -/
def characterEscape (c : CodeUnit) : Option CodeUnit :=
  if c = unit 'n' then some (unit '\n')
  else if c = unit 'r' then some (unit '\r')
  else if c = unit 't' then some (unit '\t')
  else if c ∈ syntaxCharacters then some c
  else none

/-- Read the code unit after a backslash. -/
def stepEscape (s : State) (c : CodeUnit) : Option State :=
  if c = unit 'b' then some (s.push wordBoundary .start)
  else
    match classEscape c with
    | some m => some (s.push (classSet false [m]) .atom)
    | none => (characterEscape c).map fun x => s.push (.set (oneOf x)) .atom

/-- Read a code unit inside a class. -/
def stepClass (s : State) (negated : Bool) (members : List (CodeUnit → Bool))
    (pending : Pending) (c : CodeUnit) : Option State :=
  match pending with
  | .escape =>
    match classEscape c with
    | some m => some { s with mode := .class negated (m :: members) .none }
    | none =>
      (characterEscape c).map fun x => { s with mode := .class negated members (.one x) }
  | .range lo =>
    if c = unit ']' then
      (closeMembers members (.range lo)).map fun ms => s.push (classSet negated ms.reverse) .atom
    else if c = unit '\\' then none
    else some { s with mode := .class negated (range lo c :: members) .none }
  | pending =>
    if c = unit ']' then
      (closeMembers members pending).map fun ms => s.push (classSet negated ms.reverse) .atom
    else if c = unit '\\' then
      (closeMembers members pending).map fun ms => { s with mode := .class negated ms .escape }
    else
      match pending with
      | .one lo =>
        if c = unit '-' then some { s with mode := .class negated members (.range lo) }
        else some { s with mode := .class negated (oneOf lo :: members) (.one c) }
      | _ => some { s with mode := .class negated members (.one c) }

/-- Read a code unit where a term may start. -/
def stepTerm (s : State) (c : CodeUnit) : Option State :=
  if c = unit '\\' then some { s with mode := .escape }
  else if c = unit '[' then some { s with mode := .classOpen }
  else if c = unit '(' then some { s with mode := .groupOpen }
  else if c = unit '.' then some (s.push dot .atom)
  else if c = unit '^' then some (s.push startOfInput .start)
  else if c = unit '$' then some (s.push endOfInput .start)
  -- the next alternative of the group starts
  else if c = unit '|' then
    some { s with
      frame := ⟨.seqs s.frame.terms.reverse :: s.frame.alternatives, []⟩, mode := .start }
  -- the group becomes a term of the group around it
  else if c = unit ')' then
    match s.outer with
    | [] => none
    | f :: outer => some ((State.mk f outer .atom).push s.frame.close .atom)
  -- a quantifier without an atom, or a bracket that nothing opened
  else if c ∈ syntaxCharacters then none
  else some (s.push (.set (oneOf c)) .atom)

/-- Read a code unit. -/
def step (s : State) (c : CodeUnit) : Option State :=
  match s.mode with
  | .escape => stepEscape s c
  | .groupOpen => if c = unit '?' then some { s with mode := .groupMark } else none
  | .groupMark =>
    -- only groups that capture nothing
    if c = unit ':' then some ⟨⟨[], []⟩, s.frame :: s.outer, .start⟩ else none
  | .classOpen =>
    if c = unit '^' then some { s with mode := .class true [] .none }
    else stepClass s false [] .none c
  | .class negated members pending => stepClass s negated members pending c
  | .start => stepTerm s c
  | .atom =>
    if c = unit '*' then s.quantify (.star true) .quantified
    else if c = unit '+' then s.quantify (.plus true) .quantified
    else if c = unit '?' then s.quantify (.opt true) .quantified
    else stepTerm s c
  | .quantified => if c = unit '?' then s.quantify makeLazy .start else stepTerm s c

/-- Read a piece of a pattern. -/
def read (s : State) : JsString → Option State
  | [] => some s
  | c :: cs => (step s c).bind fun s' => read s' cs

/-- The modes in which a term may start. -/
def Mode.isOpen : Mode → Bool
  | .start | .atom | .quantified => true
  | _ => false

/-- The expression a whole pattern denotes. -/
def finish (s : State) : Option (Regex CodeUnit) :=
  if s.outer.isEmpty && s.mode.isOpen then some s.frame.close else none

/-- The regular expression of a pattern, or nothing for a syntax error. -/
def compile (pattern : JsString) : Option (Regex CodeUnit) :=
  (read ⟨⟨[], []⟩, [], .start⟩ pattern).bind finish

/-! ## Reading piece by piece -/

@[simp] theorem read_nil (s : State) : read s [] = some s := rfl

theorem read_cons (s : State) (c : CodeUnit) (cs : JsString) :
    read s (c :: cs) = (step s c).bind fun s' => read s' cs := rfl

/-- A pattern is read in two parts. -/
theorem read_append (s : State) (p q : JsString) :
    read s (p ++ q) = (read s p).bind fun s' => read s' q := by
  induction p generalizing s with
  | nil => rfl
  | cons c cs ih =>
    rw [List.cons_append, read_cons, read_cons]
    cases step s c with
    | none => rfl
    | some s' => exact ih s'

/-- Where a term may start, a `|` ends the alternative. -/
theorem step_bar {s : State} (h : s.mode.isOpen) :
    step s (unit '|') = some { s with
      frame := ⟨.seqs s.frame.terms.reverse :: s.frame.alternatives, []⟩, mode := .start } := by
  obtain ⟨frame, outer, mode⟩ := s
  cases mode <;> first | rfl | cases h

/-- A character that is not special stands for itself. -/
theorem step_of_not_mem_syntaxCharacters {s : State} (h : s.mode.isOpen) {c : CodeUnit}
    (hc : c ∉ syntaxCharacters) : step s c = some (s.push (.set (oneOf c)) .atom) := by
  have hne : ∀ d ∈ syntaxCharacters, c ≠ d := fun d hd he => hc (he ▸ hd)
  -- where a term may start, none of the special cases applies
  have hterm : stepTerm s c = some (s.push (.set (oneOf c)) .atom) := by
    simp only [stepTerm, hne (unit '\\') (by decide), hne (unit '[') (by decide),
      hne (unit '(') (by decide), hne (unit '.') (by decide), hne (unit '^') (by decide),
      hne (unit '$') (by decide), hne (unit '|') (by decide), hne (unit ')') (by decide), hc,
      if_false]
  -- behind an atom or a quantifier, it is no quantifier either
  obtain ⟨frame, outer, mode⟩ := s
  cases mode with
  | start => exact hterm
  | atom =>
    simpa only [step, hne (unit '*') (by decide), hne (unit '+') (by decide),
      hne (unit '?') (by decide), if_false] using hterm
  | quantified => simpa only [step, hne (unit '?') (by decide), if_false] using hterm
  | _ => cases h

/-- A special character stands for itself after a backslash. -/
theorem read_escaped {s : State} (h : s.mode.isOpen) {c : CodeUnit}
    (hc : c ∈ syntaxCharacters) :
    read s [unit '\\', c] = some (s.push (.set (oneOf c)) .atom) := by
  have hslash : step s (unit '\\') = some { s with mode := .escape } := by
    obtain ⟨frame, outer, mode⟩ := s
    cases mode <;> first | rfl | cases h
  have hescape : ∀ c ∈ syntaxCharacters, c ≠ unit 'b' ∧ classEscape c = none ∧
      characterEscape c = some c := by
    intro c hc
    have hall : ∀ c ∈ syntaxCharacters, c ≠ unit 'b' ∧ (classEscape c).isNone ∧
        characterEscape c = some c := by decide
    simpa using hall c hc
  obtain ⟨hb, hclass, hchar⟩ := hescape c hc
  rw [read_cons, hslash, Option.bind_some, read_cons]
  simp only [step, stepEscape, hb, hclass, hchar, if_false]
  rfl

/-- A piece of a pattern reads, at the front of an alternative, as the terms of `r`. -/
def Denotes (piece : JsString) (r : Regex CodeUnit) : Prop :=
  ∀ alternatives outer, ∃ terms mode, mode.isOpen ∧ Regex.seqs terms.reverse = r ∧
    read ⟨⟨alternatives, []⟩, outer, .start⟩ piece = some ⟨⟨alternatives, terms⟩, outer, mode⟩

/-- Pieces joined with `|` denote the choice between what they denote. -/
theorem read_join {pieces : List JsString} {rs : List (Regex CodeUnit)}
    (h : List.Forall₂ Denotes pieces rs) (hne : pieces ≠ [])
    (alternatives : List (Regex CodeUnit)) :
    (read ⟨⟨alternatives, []⟩, [], .start⟩ (join (js "|") pieces)).bind finish =
      some (.alts (alternatives.reverse ++ rs)) := by
  induction h generalizing alternatives with
  | nil => exact absurd rfl hne
  | @cons piece r pieces rs hpiece hpieces ih =>
    obtain ⟨terms, mode, hmode, rfl, hread⟩ := hpiece alternatives []
    cases hpieces with
    | nil =>
      -- the last piece ends the pattern
      rw [join, List.intercalate_singleton, hread]
      simp [finish, hmode, Frame.close]
    | cons hpiece' hpieces' =>
      have hbar : js "|" = [unit '|'] := by decide
      -- the `|` behind the piece closes its alternative
      have hrest := ih (List.cons_ne_nil _ _) (.seqs terms.reverse :: alternatives)
      rw [join] at hrest
      rw [join, List.intercalate_cons_cons, List.append_assoc, read_append, hread,
        Option.bind_some, read_append, hbar, read_cons, step_bar hmode]
      simpa [hbar] using hrest

/-- A whole pattern of pieces joined with `|`. -/
theorem compile_join {pieces : List JsString} {rs : List (Regex CodeUnit)}
    (h : List.Forall₂ Denotes pieces rs) (hne : pieces ≠ []) :
    compile (join (js "|") pieces) = some (.alts rs) :=
  read_join h hne []

end Js.Pattern
