import HackerTyper.Js.Text

/-!
# Completions and plain objects

The outcome of running JavaScript code, and property reads and writes on plain objects.
Every object literal inherits from `Object.prototype`, so a read of a name that the object
does not have itself can still find a property.

## Main definitions

* `Js.Result`: a computation returns a value, throws, or does not return;
* `Js.PlainObject`: the own properties of an object literal;
* `Js.objectPrototype`: the property names every object literal inherits;
* `Js.PlainObject.get` and `Js.PlainObject.put`.

## Main results

* `bind_eq_ok`: a sequence returns exactly when both of its parts do;
* `get_put` and `get_foldl_put`: what a read finds after one write and after writing the
  same value under several names.
-/

namespace Js

/-- The errors the engine raises here. -/
inductive Error
  | typeError
  | syntaxError
deriving DecidableEq, Repr

/-- The outcome of a computation. -/
inductive Result (α : Type)
  /-- It returns a value. -/
  | ok (a : α)
  /-- It throws. -/
  | throw (e : Error)
  /-- It does not return. -/
  | div
deriving DecidableEq, Repr

namespace Result

/-- Continue with the value, and not at all after an error. -/
def bind {α β : Type} (x : Result α) (f : α → Result β) : Result β :=
  match x with
  | ok a => f a
  | throw e => throw e
  | div => div

instance : Monad Result where
  pure := ok
  bind := bind

@[simp] theorem ok_bind {α β : Type} (a : α) (f : α → Result β) : (ok a >>= f) = f a := rfl

@[simp] theorem throw_bind {α β : Type} (e : Error) (f : α → Result β) :
    ((throw e : Result α) >>= f) = throw e := rfl

@[simp] theorem map_ok {α β : Type} (f : α → β) (a : α) : f <$> ok a = ok (f a) := rfl

@[simp] theorem map_throw {α β : Type} (f : α → β) (e : Error) :
    f <$> (throw e : Result α) = throw e := rfl

/-- A sequence returns exactly when both of its parts do. -/
theorem bind_eq_ok {α β : Type} {x : Result α} {f : α → Result β} {b : β} :
    (x >>= f) = ok b ↔ ∃ a, x = ok a ∧ f a = ok b := by
  cases x with
  | ok a => simp
  | throw e => simp
  | div =>
    refine ⟨fun h => ?_, fun ⟨a, h, _⟩ => ?_⟩
    · cases h
    · cases h

/-- A mapped result is returned where the result is. -/
theorem map_eq_ok {α β : Type} {f : α → β} {x : Result α} {b : β} :
    f <$> x = ok b ↔ ∃ a, x = ok a ∧ f a = b := by
  have hmap : f <$> x = x >>= fun a => ok (f a) := rfl
  rw [hmap, bind_eq_ok]
  simp

end Result

/-! ## Plain objects -/

/-- The own properties of an object literal, in the order of creation. -/
structure PlainObject (V : Type) where
  /-- Names and values. -/
  own : List (JsString × V)
deriving DecidableEq, Repr

/-- What a property read finds. -/
inductive Property (V : Type)
  /-- A property of the object itself. -/
  | own (v : V)
  /-- A function or object inherited from `Object.prototype`. -/
  | inherited
  /-- Nothing, so the read gives `undefined`. -/
  | missing
deriving DecidableEq, Repr

/-- The property names of `Object.prototype`. -/
def objectPrototype : List JsString :=
  [js "constructor", js "hasOwnProperty", js "isPrototypeOf", js "propertyIsEnumerable",
   js "toLocaleString", js "toString", js "valueOf", js "__proto__", js "__defineGetter__",
   js "__defineSetter__", js "__lookupGetter__", js "__lookupSetter__"]

namespace PlainObject

variable {V : Type}

/-- The literal `{}`. -/
def empty : PlainObject V := ⟨[]⟩

/-- The own property of a name. -/
def getOwn (key : JsString) : List (JsString × V) → Option V
  | [] => none
  | (k, v) :: props => if k = key then some v else getOwn key props

/-- The read `o[key]`. -/
def get (o : PlainObject V) (key : JsString) : Property V :=
  match getOwn key o.own with
  | some v => .own v
  | none => if key ∈ objectPrototype then .inherited else .missing

/-- The own properties after writing `v` under `key`. -/
def putOwn (key : JsString) (v : V) : List (JsString × V) → List (JsString × V)
  | [] => [(key, v)]
  | (k, w) :: props => if k = key then (k, v) :: props else (k, w) :: putOwn key v props

/-- The write `o[key] = v`. Writing `__proto__` runs the inherited setter, which creates no
property. -/
def put (o : PlainObject V) (key : JsString) (v : V) : PlainObject V :=
  if key = js "__proto__" then o else ⟨putOwn key v o.own⟩

/-- A write is read back, and changes no other property. -/
theorem getOwn_putOwn (props : List (JsString × V)) (key k : JsString) (v : V) :
    getOwn k (putOwn key v props) = if key = k then some v else getOwn k props := by
  induction props with
  | nil => rfl
  | cons p props ih =>
    obtain ⟨k', w⟩ := p
    rw [putOwn]
    -- the property that is there is overwritten, or the write goes on behind it
    by_cases hk : k' = key
    · subst hk
      by_cases h : k' = k <;> simp [getOwn, h]
    · rw [if_neg hk, getOwn, ih, getOwn]
      by_cases h : k' = k
      · have hne : key ≠ k := fun he => hk (h.trans he.symm)
        simp [h, hne]
      · simp [h]

/-- A write is read back, and changes no other property, except for the name that sets the
prototype. -/
theorem get_put {o : PlainObject V} {key k : JsString} {v : V} (hkey : key ≠ js "__proto__") :
    (o.put key v).get k = if key = k then .own v else o.get k := by
  rw [put, if_neg hkey, get, getOwn_putOwn]
  by_cases h : key = k
  · simp [h]
  · simp [h, get]

/-- After writing the same value under several names, a read finds it under those names. -/
theorem get_foldl_put {words : List JsString} (hwords : js "__proto__" ∉ words) (v : V)
    (o : PlainObject V) (key : JsString) :
    (words.foldl (fun set word => set.put word v) o).get key =
      if key ∈ words then .own v else o.get key := by
  induction words generalizing o with
  | nil => simp
  | cons word words ih =>
    have hword : word ≠ js "__proto__" := fun he => hwords (by simp [he])
    have hrest : js "__proto__" ∉ words := fun he => hwords (by simp [he])
    -- a later word writes the same value again
    rw [List.foldl_cons, ih hrest, get_put hword]
    by_cases hkey : word = key
    · simp [hkey]
    · simp [hkey, Ne.symm hkey]

end PlainObject

end Js
