import Mathlib

/-!
# Strings, numbers and JSON values of the program

A string is its UTF-16 code units, so that `length`, `startsWith` and `trim` are JavaScript's. The
numbers are any linear order with the operations the program uses on them; `NaN` is no number
here, and where one can arise it is `none`. A JSON value is what `JSON.parse` can return.
-/

namespace InkCache

/-! ## Strings -/

abbrev JsString := List UInt16

instance lawfulBEq_jsString : LawfulBEq JsString := inferInstance

/-- The code units of one character. -/
def codeUnits (c : Char) : JsString :=
  if c.toNat < 0x10000 then [c.toNat.toUInt16]
  else [(0xD800 + (c.toNat - 0x10000) / 0x400).toUInt16,
    (0xDC00 + (c.toNat - 0x10000) % 0x400).toUInt16]

/-- The string a literal stands for. -/
def js (s : String) : JsString := s.toList.flatMap codeUnits

namespace JsString

def startsWith (s p : JsString) : Bool := p.isPrefixOf s

/-- The white space and line terminators that `trim` removes. -/
def isWhiteSpace (u : UInt16) : Bool :=
  u ∈ [9, 10, 11, 12, 13, 32, 0xA0, 0x1680, 0x2028, 0x2029, 0x202F, 0x205F, 0x3000, 0xFEFF] ||
    (0x2000 ≤ u && u ≤ 0x200A)

def trim (s : JsString) : JsString :=
  ((s.dropWhile isWhiteSpace).reverse.dropWhile isWhiteSpace).reverse

/-- The decimal digits of an array index. -/
def ofNat (n : ℕ) : JsString := (Nat.toDigits 10 n).flatMap codeUnits

end JsString

/-! ## Numbers -/

class JsNumber (ν : Type) extends LinearOrder ν, Zero ν, Add ν, Sub ν, Mul ν, Div ν, NatCast ν where
  /-- `Number.isFinite` -/
  isFinite : ν → Bool

/-- `Number.MAX_VALUE` -/
def maxValue : ℚ := (2 ^ 53 - 1) * 2 ^ 971

/-- Exact arithmetic, with the range of the doubles. -/
instance : JsNumber ℚ where
  isFinite x := decide (|x| ≤ maxValue)

/-- How numbers are read from text and written as text: `Number(s)`, which is `none` for `NaN`,
and `String(x)`. -/
structure NumberText (ν : Type) where
  ofString : JsString → Option ν
  toString : ν → JsString

/-! ## JSON values -/

inductive Json (ν : Type) where
  | null
  | bool (b : Bool)
  | num (x : ν)
  | str (s : JsString)
  | arr (elems : List (Json ν))
  | obj (fields : List (JsString × Json ν))

/-- What reading a property gives; an array has methods, such as `keys`, that are no JSON value. -/
inductive PropertyValue (ν : Type) where
  | undefined
  | method
  | value (j : Json ν)

/-- The `TypeError` of a property access on `null`, or of an object with no primitive value, and the
`RangeError` of a conversion that exhausts the stack. -/
inductive JsError where
  | typeError
  | rangeError
  deriving DecidableEq

namespace Json

variable {ν : Type}

/-- The own field of a parsed object; a repeated name stands for its last value. -/
def field (fields : List (JsString × Json ν)) (name : JsString) : PropertyValue ν :=
  match fields.reverse.lookup name with
  | none => .undefined
  | some j => .value j

/-- Reads `j.name`, for the names the program reads. -/
def property (j : Json ν) (name : JsString) : Except JsError (PropertyValue ν) :=
  match j with
  | null => .error .typeError
  | obj fields => .ok (field fields name)
  | arr _ => .ok (if name = js "keys" then .method else .undefined)
  | _ => .ok .undefined

/-- Whether the parsed object has an own `toString`, which is never a function. -/
def shadowsToString (fields : List (JsString × Json ν)) : Bool :=
  fields.any fun f => f.1 = js "toString"

mutual

/-- `String(j)`; an object whose `toString` is shadowed has no primitive value. -/
def toJsString (T : NumberText ν) : Json ν → Except JsError JsString
  | null => .ok (js "null")
  | bool b => .ok (if b then js "true" else js "false")
  | num x => .ok (T.toString x)
  | str s => .ok s
  | arr elems => join T elems
  | obj fields => if shadowsToString fields then .error .typeError else .ok (js "[object Object]")

/-- `elems.join(",")`, where `null` is written as the empty string. -/
def join (T : NumberText ν) : List (Json ν) → Except JsError JsString
  | [] => .ok []
  | e :: es => do
    let head ← match e with
      | null => .ok []
      | e => toJsString T e
    let tail ← join T es
    return if es.isEmpty then head else head ++ js "," ++ tail

end

/-- `Number(j)`, with `none` for `NaN`. An array is written as text first, which ends in a
`RangeError` where `exhausts`: arrays nested some thousands deep take more stack than there is. -/
def toNumber [Zero ν] [NatCast ν] (T : NumberText ν) (exhausts : List (Json ν) → Bool) :
    Json ν → Except JsError (Option ν)
  | null => .ok (some 0)
  | bool b => .ok (some (if b then ((1 : ℕ) : ν) else 0))
  | num x => .ok (some x)
  | str s => .ok (T.ofString s)
  | arr elems =>
    if exhausts elems then .error .rangeError
    else do
      let s ← join T elems
      return T.ofString s
  | obj fields => do
    let s ← toJsString T (obj fields)
    return T.ofString s

end Json

/-- `raw.name`, where `raw` is not `null`. -/
def readField {ν : Type} (raw : Json ν) (name : JsString) : PropertyValue ν :=
  match raw.property name with
  | .ok v => v
  | .error _ => .undefined

/-- The string that `raw` has as its `name`. -/
def stringField {ν : Type} (raw : Json ν) (name : JsString) : Option JsString :=
  match readField raw name with
  | .value (.str s) => some s
  | _ => none

end InkCache
