import InkCache.Js
import InkCache.Lib.Double

/-!
# `Number(s)`

What a string is as a number: white space around it is passed over, nothing is zero, and what is no
numeric literal is `NaN`. The value of a literal is exact before it is rounded to a double.
-/

namespace InkCache

open Lib

namespace JsString

def isDigit (u : UInt16) : Bool := 48 ≤ u && u ≤ 57

/-- A digit or a letter, in either case, as the digits of the radix 36. -/
def digitValue (u : UInt16) : Option ℕ :=
  if isDigit u then some (u.toNat - 48)
  else if 97 ≤ u && u ≤ 122 then some (u.toNat - 87)
  else if 65 ≤ u && u ≤ 90 then some (u.toNat - 55)
  else none

/-- The number that digits stand for, behind those that stand for `n`. -/
def readDigits (radix : ℕ) : ℕ → JsString → Option ℕ
  | n, [] => some n
  | n, u :: s =>
    match digitValue u with
    | some d => if d < radix then readDigits radix (radix * n + d) s else none
    | none => none

/-- One digit or more. -/
def readInteger (radix : ℕ) (s : JsString) : Option ℕ :=
  if s.isEmpty then none else readDigits radix 0 s

/-- What follows the digits: nothing, or a power of ten. -/
def readExponent : JsString → Option ℤ
  | [] => some 0
  | e :: s =>
    if e = 101 ∨ e = 69 then
      match s with
      | 43 :: t => (readInteger 10 t).map fun n => (n : ℤ)
      | 45 :: t => (readInteger 10 t).map fun n => -(n : ℤ)
      | t => (readInteger 10 t).map fun n => (n : ℤ)
    else none

/-- The digits behind a point, and the rest. -/
def fraction : JsString → JsString × JsString
  | 46 :: s => (s.takeWhile isDigit, s.dropWhile isDigit)
  | s => ([], s)

/-- Digits with a point among them or none, and an exponent. -/
def readDecimal (s : JsString) : Option ℚ :=
  let whole := s.takeWhile isDigit
  let (frac, rest) := fraction (s.dropWhile isDigit)
  match readInteger 10 (whole ++ frac), readExponent rest with
  | some n, some e => some (n * 10 ^ (e - frac.length))
  | _, _ => none

/-- A literal without a sign. -/
def unsignedNumber (s : JsString) : Double :=
  if s = js "Infinity" then .infinity false
  else
    match readDecimal s with
    | some q => .ofRat q
    | none => .nan

/-- The radix that the letter behind a zero stands for. -/
def radixOf (u : UInt16) : Option ℕ :=
  if u = 120 ∨ u = 88 then some 16
  else if u = 111 ∨ u = 79 then some 8
  else if u = 98 ∨ u = 66 then some 2
  else none

/-- A literal: one with a radix has no sign. -/
def literalNumber (s : JsString) : Double :=
  match s with
  | [] => .finite 0
  | 43 :: t => unsignedNumber t
  | 45 :: t => (unsignedNumber t).neg
  | 48 :: u :: t =>
    match radixOf u with
    | some radix =>
      match readInteger radix t with
      | some n => .ofRat n
      | none => .nan
    | none => unsignedNumber s
  | s => unsignedNumber s

/-- `Number(s)` -/
def number (s : JsString) : Double := literalNumber s.trim

end JsString

end InkCache
