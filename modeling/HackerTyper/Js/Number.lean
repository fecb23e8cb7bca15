import HackerTyper.Js.Text
import Mathlib.Algebra.Group.Nat.Defs
import Mathlib.Data.Int.Notation
import Mathlib.Order.Lattice

/-!
# JavaScript numbers

A number that a JSON text can denote is a finite double or an infinity. `ofLiteral` rounds a
decimal literal to the nearest double, and `Number.toJsString` writes a double with the
fewest digits that read back as the same double.

## Main definitions

* `Js.Number` and `Js.Number.ofLiteral`;
* `Js.Number.toJsString`: `String(x)`.
-/

namespace Js

/-- A double other than `NaN`. Its mantissa has 53 bits, or fewer at the least exponent, so
that a double other than zero is given in one way only. -/
inductive Number
  /-- The number `mantissa * 2 ^ exponent`, or its negation. -/
  | finite (negative : Bool) (mantissa : ℕ) (exponent : ℤ)
  /-- An infinity. -/
  | infinite (negative : Bool)
deriving DecidableEq, Repr

namespace Number

/-- `n / d`, rounded to the nearest natural number, ties to the even one. -/
def roundDiv (n d : ℕ) : ℕ :=
  if 2 * (n % d) < d ∨ 2 * (n % d) = d ∧ n / d % 2 = 0 then n / d else n / d + 1

/-- The double nearest to `n / d`. -/
def ofRatio (negative : Bool) (n d : ℕ) : Number :=
  if n = 0 then .finite negative 0 0
  else
    let scaled (e : ℤ) : ℕ × ℕ := (n * 2 ^ (-e).toNat, d * 2 ^ e.toNat)
    -- the quotient has 53 or 54 bits at this exponent
    let least : ℤ := n.log2 - d.log2 - 53
    let fits := (scaled least).1 / (scaled least).2 < 2 ^ 53
    let exponent := max (-1074) (if fits then least else least + 1)
    let rounded := roundDiv (scaled exponent).1 (scaled exponent).2
    -- rounding up may carry into a 54th bit
    let (mantissa, exponent) :=
      if rounded = 2 ^ 53 then (2 ^ 52, exponent + 1) else (rounded, exponent)
    -- beyond the largest double
    if 971 < exponent then .infinite negative else .finite negative mantissa exponent

/-- The double nearest to `digits * 10 ^ exponent`. -/
def ofDecimal (negative : Bool) (digits : ℕ) (exponent : ℤ) : Number :=
  ofRatio negative (digits * 10 ^ exponent.toNat) (10 ^ (-exponent).toNat)

/-- The value of a run of decimal digits. -/
def digitsValue (s : JsString) : ℕ :=
  s.foldl (fun value c => 10 * value + (c.toNat - (unit '0').toNat)) 0

/-- The number a JSON literal denotes. -/
def ofLiteral (s : JsString) : Number :=
  let negative := s.head? = some (unit '-')
  let s := if negative then s.tail else s
  let whole := s.takeWhile isDigit
  let s := s.drop whole.length
  let fraction := if s.head? = some (unit '.') then s.tail.takeWhile isDigit else []
  let s := if s.head? = some (unit '.') then s.drop (fraction.length + 1) else s
  -- what is left is the exponent part, which starts with `e` or `E`
  let s := s.tail
  let sign : ℤ := if s.head? = some (unit '-') then -1 else 1
  let exponent := sign * digitsValue (s.filter isDigit)
  ofDecimal negative (digitsValue (whole ++ fraction)) (exponent - fraction.length)

/-- Whether a number is `0` or `-0`, the numbers that are falsy. -/
def isZero : Number → Bool
  | finite _ mantissa _ => mantissa == 0
  | infinite _ => false

/-- The digits and the position of the decimal point of a positive finite number: the
shortest digits that are nearest to it and read back as it. -/
def shortest (mantissa : ℕ) (exponent : ℤ) : Option (ℕ × ℤ) :=
  let num := mantissa * 2 ^ exponent.toNat
  let den := 2 ^ (-exponent).toNat
  -- the number lies between `10 ^ (point - 1)` and `10 ^ point`
  let point : ℤ :=
    if den ≤ num then (((List.range 310).find? fun n : ℕ => num < 10 ^ n * den).getD 0 : ℕ)
    else 1 - (((List.range 325).find? fun n : ℕ => den ≤ 10 ^ n * num).getD 0 : ℕ)
  -- digit counts from one on: the first that reads back is the shortest
  (List.range 17).findSome? fun i : ℕ =>
    let shift : ℤ := (i : ℤ) + 1 - point
    let n := num * 10 ^ shift.toNat
    let d := den * 10 ^ (-shift).toNat
    let nearest := roundDiv n d
    let other := if nearest = n / d then n / d + 1 else n / d
    ([nearest, other].find? fun digits =>
        ofDecimal false digits (-shift) = .finite false mantissa exponent).map fun digits =>
      if digits = 10 ^ (i + 1) then (10 ^ i, point + 1) else (digits, point)

/-- The digits of a natural number. -/
def natDigits (n : ℕ) : JsString := js (toString n)

/-- Digits with a decimal point, or in scientific notation. -/
def layout (digits : JsString) (point : ℤ) : JsString :=
  let k := digits.length
  -- an integer, with zeros up to the point
  if k ≤ point ∧ point ≤ 21 then digits ++ List.replicate (point - k).toNat (unit '0')
  -- the point inside the digits
  else if 0 < point ∧ point ≤ 21 then
    digits.take point.toNat ++ js "." ++ digits.drop point.toNat
  -- zeros between the point and the digits
  else if -6 < point ∧ point ≤ 0 then
    js "0." ++ List.replicate (-point).toNat (unit '0') ++ digits
  else
    let exponent := point - 1
    let sign := if exponent < 0 then js "-" else js "+"
    let fraction := if k = 1 then [] else js "." ++ digits.drop 1
    digits.take 1 ++ fraction ++ js "e" ++ sign ++ natDigits exponent.natAbs

/-- `String(x)` for a number. -/
def toJsString : Number → JsString
  | infinite negative => (if negative then js "-" else []) ++ js "Infinity"
  | finite negative mantissa exponent =>
    if mantissa = 0 then js "0"
    else
      match shortest mantissa exponent with
      | some (digits, point) =>
        (if negative then js "-" else []) ++ layout (natDigits digits) point
      | none => []

end Number

example : (Number.ofLiteral (js "-1.50E+1")).toJsString = js "-15" := by decide +kernel

example : (Number.ofLiteral (js "1e23")).toJsString = js "1e+23" := by decide +kernel

end Js
