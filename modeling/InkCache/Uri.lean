import InkCache.JsonText

/-!
# Strings from their bytes

`decodeURIComponent` reads the escapes of a string as bytes and those as UTF-8; what is not escaped
it leaves as it is. It throws, which is `none`, where an escape is malformed or the bytes encode no
code point, or encode one in more bytes than it takes.
-/

namespace InkCache

namespace JsString

/-- No surrogate is without its other half. -/
def WellFormed (s : JsString) : Prop := ∀ c ∈ codePoints s, isSurrogatePoint c = false

instance : DecidablePred WellFormed := fun s =>
  inferInstanceAs (Decidable (∀ c ∈ codePoints s, isSurrogatePoint c = false))

/-- The code units of one code point. -/
def pointUnits (c : ℕ) : JsString :=
  if c < 0x10000 then [c.toUInt16]
  else [(0xD800 + (c - 0x10000) / 0x400).toUInt16, (0xDC00 + (c - 0x10000) % 0x400).toUInt16]

/-- The units that are not escaped and the bytes that are. -/
def unescape : JsString → Option (List (UInt16 ⊕ ℕ))
  | [] => some []
  | u :: s =>
    if u = 37 then
      match s with
      | a :: b :: s =>
        match hexValue a, hexValue b with
        | some a, some b => (unescape s).map (.inr (a * 16 + b) :: ·)
        | _, _ => none
      | _ => none
    else (unescape s).map (.inl u :: ·)

/-- The second, third or fourth byte of a code point. -/
def isTail (b : ℕ) : Bool := 0x80 ≤ b && b ≤ 0xBF

/-- Reads the bytes as UTF-8. -/
def decodeBytes : List (UInt16 ⊕ ℕ) → Option JsString
  | [] => some []
  | .inl u :: l => (decodeBytes l).map (u :: ·)
  | .inr a :: l =>
    if a < 0x80 then (decodeBytes l).map (pointUnits a ++ ·)
    else
      match l with
      | .inr b :: l =>
        if 0xC2 ≤ a && a ≤ 0xDF && isTail b then
          (decodeBytes l).map (pointUnits ((a - 0xC0) * 0x40 + (b - 0x80)) ++ ·)
        else
          match l with
          | .inr c :: l =>
            let point := (a - 0xE0) * 0x1000 + (b - 0x80) * 0x40 + (c - 0x80)
            if 0xE0 ≤ a && a ≤ 0xEF && isTail b && isTail c && 0x800 ≤ point &&
                !isSurrogatePoint point then
              (decodeBytes l).map (pointUnits point ++ ·)
            else
              match l with
              | .inr d :: l =>
                let point :=
                  (a - 0xF0) * 0x40000 + (b - 0x80) * 0x1000 + (c - 0x80) * 0x40 + (d - 0x80)
                if 0xF0 ≤ a && a ≤ 0xF7 && isTail b && isTail c && isTail d &&
                    0x10000 ≤ point && point ≤ 0x10FFFF then
                  (decodeBytes l).map (pointUnits point ++ ·)
                else none
              | _ => none
          | _ => none
      | _ => none

def decodeURIComponent (s : JsString) : Option JsString := (unescape s).bind decodeBytes

end JsString

end InkCache
