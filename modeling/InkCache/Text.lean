import InkCache.Js

/-!
# Strings as bytes

What is sent is encoded as UTF-8. Two surrogates that make a pair are one code point; a lone one has
no encoding, and is replaced by U+FFFD where text is encoded.
-/

namespace InkCache

namespace JsString

def isHighSurrogate (u : UInt16) : Bool := 0xD800 ≤ u && u ≤ 0xDBFF

def isLowSurrogate (u : UInt16) : Bool := 0xDC00 ≤ u && u ≤ 0xDFFF

/-- The code point of a pair of surrogates. -/
def pairPoint (u v : UInt16) : ℕ :=
  0x10000 + (u.toNat - 0xD800) * 0x400 + (v.toNat - 0xDC00)

/-- The code points of a string; a lone surrogate stands for itself. -/
def codePoints : JsString → List ℕ
  | [] => []
  | [u] => [u.toNat]
  | u :: v :: s =>
    if isHighSurrogate u && isLowSurrogate v then pairPoint u v :: codePoints s
    else u.toNat :: codePoints (v :: s)

def isSurrogatePoint (c : ℕ) : Bool := 0xD800 ≤ c && c ≤ 0xDFFF

/-- The bytes of one code point. -/
def utf8Point (c : ℕ) : List ℕ :=
  if c < 0x80 then [c]
  else if c < 0x800 then [0xC0 + c / 0x40, 0x80 + c % 0x40]
  else if isSurrogatePoint c then [0xEF, 0xBF, 0xBD]
  else if c < 0x10000 then [0xE0 + c / 0x1000, 0x80 + c / 0x40 % 0x40, 0x80 + c % 0x40]
  else [0xF0 + c / 0x40000, 0x80 + c / 0x1000 % 0x40, 0x80 + c / 0x40 % 0x40, 0x80 + c % 0x40]

/-- `Buffer.from(s)` -/
def utf8 (s : JsString) : List ℕ := (codePoints s).flatMap utf8Point

/-- `Buffer.byteLength(s)` -/
def byteLength (s : JsString) : ℕ := (utf8 s).length

/-- The code points that `encodeURIComponent` leaves as they are. -/
def isUnreserved (c : ℕ) : Bool :=
  (48 ≤ c && c ≤ 57) || (65 ≤ c && c ≤ 90) || (97 ≤ c && c ≤ 122) ||
    c ∈ [33, 39, 40, 41, 42, 45, 46, 95, 126]

/-- The upper-case digit. -/
def hexDigit (n : ℕ) : UInt16 := (if n < 10 then 48 + n else 55 + n).toUInt16

def percentEncode (byte : ℕ) : JsString := [37, hexDigit (byte / 16), hexDigit (byte % 16)]

/-- Throws, which is `none`, where there is a lone surrogate. -/
def encodeURIComponent (s : JsString) : Option JsString :=
  if (codePoints s).any isSurrogatePoint then none
  else some ((codePoints s).flatMap fun c =>
    if isUnreserved c then [c.toUInt16] else (utf8Point c).flatMap percentEncode)

end JsString

/-- A slash, an e with an acute accent and a pair of surrogates. -/
example : JsString.encodeURIComponent (js "a/é😀") = some (js "a%2F%C3%A9%F0%9F%98%80") := by
  decide +kernel

end InkCache
