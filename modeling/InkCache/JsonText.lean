import InkCache.Lib.Delimited
import InkCache.Text

/-!
# JSON as text

`JSON.stringify` of a JSON value, and `JSON.parse`, which throws where it is `none`. A lone
surrogate is written as an escape. What a number token stands for and how a number is written is
left to `NumberText`; which tokens there are is not.
-/

namespace InkCache

open Lib

variable {ν : Type}

/-! ## Writing strings -/

namespace JsString

/-- The letter behind the backslash, for the units that have an escape of one letter. -/
def escapeLetter (u : UInt16) : Option UInt16 :=
  if u = 8 then some 98
  else if u = 9 then some 116
  else if u = 10 then some 110
  else if u = 12 then some 102
  else if u = 13 then some 114
  else if u = 34 ∨ u = 92 then some u
  else none

/-- The lower-case digit. -/
def hexUnit (n : ℕ) : UInt16 := (if n < 10 then 48 + n else 87 + n).toUInt16

def unicodeEscape (u : UInt16) : JsString :=
  [92, 117, hexUnit (u.toNat / 0x1000), hexUnit (u.toNat / 0x100 % 16),
    hexUnit (u.toNat / 0x10 % 16), hexUnit (u.toNat % 16)]

def isSurrogate (u : UInt16) : Bool := isHighSurrogate u || isLowSurrogate u

/-- One unit of a string that is not part of a pair of surrogates. -/
def quoteUnit (u : UInt16) : JsString :=
  match escapeLetter u with
  | some c => [92, c]
  | none => if u < 32 ∨ isSurrogate u then unicodeEscape u else [u]

def quoteUnits : JsString → JsString
  | [] => []
  | [u] => quoteUnit u
  | u :: v :: s =>
    if isHighSurrogate u && isLowSurrogate v then u :: v :: quoteUnits s
    else quoteUnit u ++ quoteUnits (v :: s)

/-- `JSON.stringify(s)` -/
def quote (s : JsString) : JsString := 34 :: (quoteUnits s ++ [34])

/-! ## Reading strings -/

/-- What the letter behind a backslash stands for. -/
def unescapeLetter (c : UInt16) : Option UInt16 :=
  if c = 98 then some 8
  else if c = 116 then some 9
  else if c = 110 then some 10
  else if c = 102 then some 12
  else if c = 114 then some 13
  else if c = 34 ∨ c = 92 ∨ c = 47 then some c
  else none

def hexValue (c : UInt16) : Option ℕ :=
  if 48 ≤ c ∧ c ≤ 57 then some (c.toNat - 48)
  else if 97 ≤ c ∧ c ≤ 102 then some (c.toNat - 87)
  else if 65 ≤ c ∧ c ≤ 70 then some (c.toNat - 55)
  else none

def hexUnits (a b c d : UInt16) : Option UInt16 :=
  match hexValue a, hexValue b, hexValue c, hexValue d with
  | some a, some b, some c, some d => some (a * 0x1000 + b * 0x100 + c * 0x10 + d).toUInt16
  | _, _, _, _ => none

/-- Reads the units up to the closing quote. -/
def readUnits : Reader UInt16 JsString
  | [] => none
  | u :: s =>
    if u = 34 then some ([], s)
    else if u = 92 then
      match s with
      | [] => none
      | c :: s =>
        if c = 117 then
          match s with
          | a :: b :: c :: d :: s =>
            match hexUnits a b c d with
            | none => none
            | some u => (readUnits s).map fun r => (u :: r.1, r.2)
          | _ => none
        else
          match unescapeLetter c with
          | none => none
          | some u => (readUnits s).map fun r => (u :: r.1, r.2)
    else if u < 32 then none
    else (readUnits s).map fun r => (u :: r.1, r.2)

end JsString

/-! ## Numbers -/

namespace NumberToken

def isDigit (u : UInt16) : Bool := 48 ≤ u && u ≤ 57

/-- The units that number tokens are made of: digits, signs, the point and the letter `e`. -/
def isUnit (u : UInt16) : Bool := isDigit u || u ∈ [43, 45, 46, 69, 101]

/-- What follows some digits, of which there must be one. -/
def digits : JsString → Option JsString
  | [] => none
  | u :: s => if isDigit u then some (s.dropWhile isDigit) else none

/-- A zero is followed by no other digit. -/
def integer (s : JsString) : Option JsString :=
  let s := if s.head? = some 45 then s.tail else s
  if s.head? = some 48 then some s.tail else digits s

def fraction (s : JsString) : Option JsString :=
  if s.head? = some 46 then digits s.tail else some s

def exponent (s : JsString) : Option JsString :=
  if s.head? = some 69 ∨ s.head? = some 101 then
    let s := s.tail
    digits (if s.head? = some 43 ∨ s.head? = some 45 then s.tail else s)
  else some s

def isToken (s : JsString) : Bool := ((integer s).bind fraction).bind exponent = some []

end NumberToken

/-- The number is written as a token that is read as the number. -/
structure NumberText.Prints (T : NumberText ν) (x : ν) : Prop where
  isToken : NumberToken.isToken (T.toString x) = true
  ofString : T.ofString (T.toString x) = some x

/-! ## Values -/

namespace Json

mutual

/-- `JSON.stringify(j)` -/
def stringify [JsNumber ν] (T : NumberText ν) : Json ν → JsString
  | null => js "null"
  | bool b => if b then js "true" else js "false"
  | num x => if JsNumber.isFinite x then T.toString x else js "null"
  | str s => s.quote
  | arr elems => 91 :: ((js ",").intercalate (stringifyElems T elems) ++ [93])
  | obj fields => 123 :: ((js ",").intercalate (stringifyFields T fields) ++ [125])

def stringifyElems [JsNumber ν] (T : NumberText ν) : List (Json ν) → List JsString
  | [] => []
  | e :: es => stringify T e :: stringifyElems T es

def stringifyFields [JsNumber ν] (T : NumberText ν) : List (JsString × Json ν) → List JsString
  | [] => []
  | (name, j) :: fields => (name.quote ++ 58 :: stringify T j) :: stringifyFields T fields

end

/-- White space between tokens. -/
def isBlank (u : UInt16) : Bool := u ∈ [9, 10, 13, 32]

def readNumber (T : NumberText ν) : Reader UInt16 (Json ν) := fun s =>
  if NumberToken.isToken (s.takeWhile NumberToken.isUnit) then
    (T.ofString (s.takeWhile NumberToken.isUnit)).map fun x =>
      (num x, s.dropWhile NumberToken.isUnit)
  else none

/-- A name, a colon and a value. -/
def readMember (read : Reader UInt16 (Json ν)) : Reader UInt16 (JsString × Json ν) := fun s =>
  match s.dropWhile isBlank with
  | [] => none
  | u :: s =>
    if u = 34 then
      match JsString.readUnits s with
      | none => none
      | some (name, s) =>
        match s.dropWhile isBlank with
        | [] => none
        | u :: s => if u = 58 then (read s).map fun r => ((name, r.1), r.2) else none
    else none

/-- Reads a value in which arrays and objects are nested `depth` deep at most. -/
def readValue (T : NumberText ν) : ℕ → Reader UInt16 (Json ν)
  | 0, _ => none
  | depth + 1, s =>
    let s := s.dropWhile isBlank
    if s.head? = some 34 then (JsString.readUnits s.tail).map fun r => (str r.1, r.2)
    else if s.head? = some 91 then
      (readList isBlank 44 93 (readValue T depth) s.tail).map fun r => (arr r.1, r.2)
    else if s.head? = some 123 then
      (readList isBlank 44 125 (readMember (readValue T depth)) s.tail).map fun r => (obj r.1, r.2)
    else if JsString.startsWith s (js "null") then some (null, s.drop 4)
    else if JsString.startsWith s (js "true") then some (bool true, s.drop 4)
    else if JsString.startsWith s (js "false") then some (bool false, s.drop 5)
    else readNumber T s

/-- `JSON.parse(text)`; no value is nested deeper than its text is long. -/
def parse (T : NumberText ν) (text : JsString) : Option (Json ν) :=
  match readValue T text.length text with
  | none => none
  | some (j, rest) => if rest.dropWhile isBlank = [] then some j else none

end Json

end InkCache
