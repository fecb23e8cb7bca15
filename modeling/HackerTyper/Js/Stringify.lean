import HackerTyper.Js.Json

/-!
# Writing JSON

`JSON.stringify` of any value that `JSON.parse` can produce. What it writes reads back as the
value, if no two members of an object share their name and there are no numbers, which are
written rounded to their shortest form.

## Main definitions

* `Json.write`: `JSON.stringify` of a value;
* `Json.Lossless`: the values that writing preserves.

## Main results

* `stringify_eq_write`: writing an object of strings is a case of it;
* `read_write`: a value is read back wherever one is expected;
* `parse_write`: parsing undoes writing;
* `parse_stringify`: an object of strings is read back.
-/

namespace Js

namespace Json

mutual

/-- `JSON.stringify(v)`. -/
def write : Json → JsString
  | null => js "null"
  | bool b => if b then js "true" else js "false"
  | num (.finite negative mantissa exponent) =>
    Number.toJsString (.finite negative mantissa exponent)
  | num (.infinite _) => js "null"
  | str s => quote s
  | arr [] => js "[]"
  | arr (v :: vs) => js "[" ++ write v ++ writeElements vs ++ js "]"
  | obj [] => js "\x7b\x7d"
  | obj ((key, v) :: members) =>
    js "\x7b" ++ quote key ++ js ":" ++ write v ++ writeMembers members ++ js "\x7d"

/-- The elements behind the first one. -/
def writeElements : List Json → JsString
  | [] => []
  | v :: vs => js "," ++ write v ++ writeElements vs

/-- The members behind the first one. -/
def writeMembers : List (JsString × Json) → JsString
  | [] => []
  | (key, v) :: members => js "," ++ quote key ++ js ":" ++ write v ++ writeMembers members

end

mutual

/-- The value contains no number, and no two members of an object share their name. -/
def Lossless : Json → Prop
  | num _ => False
  | arr vs => AllLossless vs
  | obj members => (members.map Prod.fst).Nodup ∧ AllMembersLossless members
  | _ => True

/-- All elements are preserved. -/
def AllLossless : List Json → Prop
  | [] => True
  | v :: vs => Lossless v ∧ AllLossless vs

/-- All members are preserved. -/
def AllMembersLossless : List (JsString × Json) → Prop
  | [] => True
  | (_, v) :: members => Lossless v ∧ AllMembersLossless members

end

/-- Writing an object of strings. -/
theorem stringify_eq_write (members : List (JsString × JsString)) :
    stringify members = write (obj (members.map fun (key, s) => (key, str s))) := by
  have hmembers : ∀ (key s : JsString) (members : List (JsString × JsString)),
      join (js ",") (((key, s) :: members).map fun (key, s) => quote key ++ js ":" ++ quote s) =
        quote key ++ js ":" ++ quote s ++
          writeMembers (members.map fun (key, s) => (key, str s)) := by
    intro key s members
    induction members generalizing key s with
    | nil => simp [join, List.intercalate_singleton, writeMembers]
    | cons m members ih =>
      obtain ⟨key', s'⟩ := m
      have hrest := ih key' s'
      rw [join, List.map_cons] at hrest
      rw [join, List.map_cons, List.map_cons, List.intercalate_cons_cons, hrest, List.map_cons,
        writeMembers, write]
      simp only [List.append_assoc]
  cases members with
  | nil => rfl
  | cons m members =>
    obtain ⟨key, s⟩ := m
    rw [stringify, hmembers, List.map_cons, write, write]
    simp only [List.append_assoc]

/-! ## Reading what was written -/

/-- A string is read where a value is expected. -/
theorem read_quote {stack : List Frame} {mode : Mode}
    (hmode : mode = .value ∨ mode = .firstElement) (s : JsString) :
    (State.mk stack mode).read (quote s) = some (State.complete (str s) stack) := by
  have hopen : (State.mk stack mode).read (js "\"") = some ⟨stack, .string false []⟩ := by
    rcases hmode with rfl | rfl <;> rfl
  have hend : ∀ acc, (State.mk stack (.string false acc)).read (js "\"") =
      State.endString false acc.reverse stack := fun acc => Option.bind_fun_some _
  rw [quote, List.append_assoc, read_append_of_eq_some hopen,
    read_append_of_eq_some (read_quoteUnits _ false [] s), hend, List.append_nil,
    List.reverse_reverse]
  rfl

/-- The name of a member is read up to the value. -/
theorem read_name (own : List (JsString × Json)) (key₀ : JsString) (stack : List Frame)
    {mode : Mode} (hmode : mode = .firstMember ∨ mode = .member) (key : JsString) :
    (State.mk (.obj own key₀ :: stack) mode).read (quote key ++ js ":") =
      some ⟨.obj own key :: stack, .value⟩ := by
  have hopen : (State.mk (.obj own key₀ :: stack) mode).read (js "\"") =
      some ⟨.obj own key₀ :: stack, .string true []⟩ := by
    rcases hmode with rfl | rfl <;> rfl
  have hclose : ∀ acc, (State.mk (.obj own key₀ :: stack) (.string true acc)).read (js "\"") =
      some ⟨.obj own acc.reverse :: stack, .colon⟩ := fun acc => Option.bind_fun_some _
  rw [quote, List.append_assoc, List.append_assoc, read_append_of_eq_some hopen,
    read_append_of_eq_some (read_quoteUnits _ true [] key),
    read_append_of_eq_some (hclose _), List.append_nil, List.reverse_reverse]
  rfl

/-- A member whose name is new comes last. -/
theorem putOwn_of_not_mem {key : JsString} {own : List (JsString × Json)}
    (h : key ∉ own.map Prod.fst) (v : Json) :
    PlainObject.putOwn key v own = own ++ [(key, v)] := by
  induction own with
  | nil => rfl
  | cons m own ih =>
    obtain ⟨key', w⟩ := m
    rw [List.map_cons, List.mem_cons, not_or] at h
    rw [PlainObject.putOwn, if_neg (Ne.symm h.1), ih h.2, List.cons_append]

mutual

/-- A value that was written is read back where a value is expected. -/
theorem read_write : ∀ v : Json, Lossless v → ∀ (stack : List Frame) (mode : Mode),
    mode = .value ∨ mode = .firstElement →
    (State.mk stack mode).read (write v) = some (State.complete v stack)
  | null, _, stack, mode, hmode => by rcases hmode with rfl | rfl <;> rfl
  | bool b, _, stack, mode, hmode => by
    cases b <;> rcases hmode with rfl | rfl <;> rfl
  | num x, h, _, _, _ => absurd h (by simp [Lossless])
  | str s, _, stack, mode, hmode => by
    rw [write]
    exact read_quote hmode s
  | arr [], _, stack, mode, hmode => by rcases hmode with rfl | rfl <;> rfl
  | arr (v :: vs), h, stack, mode, hmode => by
    rw [Lossless, AllLossless] at h
    have hopen : (State.mk stack mode).read (js "[") = some ⟨.arr [] :: stack, .firstElement⟩ := by
      rcases hmode with rfl | rfl <;> rfl
    have hclose : ∀ elements, (State.mk (.arr elements :: stack) .next).read (js "]") =
        some (State.complete (arr elements.reverse) stack) := fun _ => Option.bind_fun_some _
    have hfirst := read_write v h.1 (.arr [] :: stack) .firstElement (Or.inr rfl)
    have hrest := read_writeElements vs h.2 [v] stack
    rw [write, List.append_assoc, List.append_assoc, read_append_of_eq_some hopen,
      read_append_of_eq_some hfirst, State.complete, read_append_of_eq_some hrest, hclose,
      List.reverse_append, List.reverse_reverse, List.reverse_singleton, List.singleton_append]
  | obj [], _, stack, mode, hmode => by rcases hmode with rfl | rfl <;> rfl
  | obj ((key, v) :: members), h, stack, mode, hmode => by
    rw [Lossless, AllMembersLossless] at h
    obtain ⟨hnames, hv, hmembers⟩ := h
    have hopen : (State.mk stack mode).read (js "\x7b") =
        some ⟨.obj [] [] :: stack, .firstMember⟩ := by
      rcases hmode with rfl | rfl <;> rfl
    have hclose : ∀ own key, (State.mk (.obj own key :: stack) .next).read (js "\x7d") =
        some (State.complete (obj own) stack) := fun _ _ => Option.bind_fun_some _
    have hname := read_name [] [] stack (Or.inl rfl) key
    have hfirst := read_write v hv (.obj [] key :: stack) .value (Or.inl rfl)
    obtain ⟨key', hrest⟩ := read_writeMembers members hmembers [(key, v)] key stack hnames
    have hwrite : write (obj ((key, v) :: members)) =
        js "\x7b" ++
          ((quote key ++ js ":") ++ (write v ++ (writeMembers members ++ js "\x7d"))) := by
      simp only [write, List.append_assoc]
    rw [hwrite, read_append_of_eq_some hopen, read_append_of_eq_some hname,
      read_append_of_eq_some hfirst, State.complete, PlainObject.putOwn,
      read_append_of_eq_some hrest, hclose, List.singleton_append]

/-- The elements behind the first one are read back. -/
theorem read_writeElements : ∀ vs : List Json, AllLossless vs →
    ∀ (acc : List Json) (stack : List Frame),
    (State.mk (.arr acc :: stack) .next).read (writeElements vs) =
      some ⟨.arr (vs.reverse ++ acc) :: stack, .next⟩
  | [], _, acc, stack => by simp [writeElements, State.read]
  | v :: vs, h, acc, stack => by
    rw [AllLossless] at h
    have hcomma : (State.mk (.arr acc :: stack) .next).read (js ",") =
      some ⟨.arr acc :: stack, .value⟩ := rfl
    have hfirst := read_write v h.1 (.arr acc :: stack) .value (Or.inl rfl)
    rw [writeElements, List.append_assoc, read_append_of_eq_some hcomma,
      read_append_of_eq_some hfirst, State.complete, read_writeElements vs h.2 (v :: acc) stack]
    simp

/-- The members behind the first one are read back. -/
theorem read_writeMembers : ∀ members : List (JsString × Json), AllMembersLossless members →
    ∀ (own : List (JsString × Json)) (key₀ : JsString) (stack : List Frame),
    ((own ++ members).map Prod.fst).Nodup →
    ∃ key, (State.mk (.obj own key₀ :: stack) .next).read (writeMembers members) =
      some ⟨.obj (own ++ members) key :: stack, .next⟩
  | [], _, own, key₀, stack, _ => ⟨key₀, by simp [writeMembers, State.read]⟩
  | (key, v) :: members, h, own, key₀, stack, hnames => by
    rw [AllMembersLossless] at h
    have hcomma : (State.mk (.obj own key₀ :: stack) .next).read (js ",") =
      some ⟨.obj own key₀ :: stack, .member⟩ := rfl
    have hname := read_name own key₀ stack (Or.inr rfl) key
    have hfirst := read_write v h.1 (.obj own key :: stack) .value (Or.inl rfl)
    have hnew : key ∉ own.map Prod.fst := by
      intro hmem
      rw [List.map_append, List.nodup_append] at hnames
      exact hnames.2.2 key hmem key (by simp) rfl
    rw [List.append_cons] at hnames ⊢
    obtain ⟨key', hrest⟩ := read_writeMembers members h.2 (own ++ [(key, v)]) key stack hnames
    have hwrite : writeMembers ((key, v) :: members) =
        js "," ++ ((quote key ++ js ":") ++ (write v ++ writeMembers members)) := by
      simp only [writeMembers, List.append_assoc]
    refine ⟨key', ?_⟩
    rw [hwrite, read_append_of_eq_some hcomma, read_append_of_eq_some hname,
      read_append_of_eq_some hfirst, State.complete, putOwn_of_not_mem hnew, hrest]

end

/-- Parsing what was written gives the value. -/
theorem parse_write {v : Json} (h : Lossless v) : parse (write v) = .ok v := by
  rw [parse, read_write v h [] .value (Or.inl rfl)]
  rfl

/-- Members that are strings are written without loss. -/
theorem allMembersLossless_str (members : List (JsString × JsString)) :
    AllMembersLossless (members.map fun (key, s) => (key, str s)) := by
  induction members with
  | nil => trivial
  | cons m members ih => exact ⟨trivial, ih⟩

/-- Parsing an object of strings that was written gives its members, if their names differ. -/
theorem parse_stringify {members : List (JsString × JsString)}
    (h : (members.map Prod.fst).Nodup) :
    parse (stringify members) = .ok (obj (members.map fun (key, s) => (key, str s))) := by
  rw [stringify_eq_write]
  refine parse_write ⟨?_, allMembersLossless_str members⟩
  rwa [List.map_map]

end Json

end Js
