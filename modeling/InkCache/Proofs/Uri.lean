import InkCache.Uri

/-!
# A well-formed string is read back from its bytes

The bytes of a code point are read as that code point, whichever of the four lengths they have
(`decodeBytes_utf8Point`), and code points make up the string they were taken from
(`flatMap_pointUnits`). So the UTF-8 bytes of a well-formed string determine it (`utf8_injOn`), and
`decodeURIComponent` undoes `encodeURIComponent`.
-/

namespace InkCache

namespace JsString

variable {u v : UInt16} {c : ℕ} {s t : JsString}

theorem pointUnits_toNat (u : UInt16) : pointUnits u.toNat = [u] := by
  rw [pointUnits, if_pos u.toNat_lt, Nat.toUInt16_eq, UInt16.ofNat_toNat]

/-- The offset that a pair of surrogates encodes is made of ten bits from each. -/
theorem pairPoint_eq (h : (isHighSurrogate u && isLowSurrogate v) = true) :
    ∃ hi < 0x400, ∃ lo < 0x400, u.toNat = 0xD800 + hi ∧ v.toNat = 0xDC00 + lo ∧
      pairPoint u v = 0x10000 + hi * 0x400 + lo := by
  simp only [isHighSurrogate, isLowSurrogate, Bool.and_eq_true, decide_eq_true_eq,
    UInt16.le_iff_toNat_le] at h
  obtain ⟨⟨hu, hu'⟩, hv, hv'⟩ := h
  refine ⟨u.toNat - 0xD800, ?_, v.toNat - 0xDC00, ?_, ?_, ?_, rfl⟩
  · exact Nat.sub_lt_left_of_lt_add hu (Nat.lt_succ_of_le hu')
  · exact Nat.sub_lt_left_of_lt_add hv (Nat.lt_succ_of_le hv')
  · exact (Nat.add_sub_cancel' hu).symm
  · exact (Nat.add_sub_cancel' hv).symm

theorem pointUnits_pairPoint (h : (isHighSurrogate u && isLowSurrogate v) = true) :
    pointUnits (pairPoint u v) = [u, v] := by
  obtain ⟨hi, hhi, lo, hlo, hu, hv, hp⟩ := pairPoint_eq h
  have hdiv : 0xD800 + (pairPoint u v - 0x10000) / 0x400 = u.toNat := by omega
  have hmod : 0xDC00 + (pairPoint u v - 0x10000) % 0x400 = v.toNat := by omega
  rw [pointUnits, if_neg (by omega), hdiv, hmod, Nat.toUInt16_eq, Nat.toUInt16_eq,
    UInt16.ofNat_toNat, UInt16.ofNat_toNat]

theorem flatMap_pointUnits : ∀ s : JsString, (codePoints s).flatMap pointUnits = s
  | [] => rfl
  | [u] => by rw [codePoints, List.flatMap_singleton, pointUnits_toNat]
  | u :: v :: s => by
    rw [codePoints]
    split_ifs with h
    · rw [List.flatMap_cons, pointUnits_pairPoint h, flatMap_pointUnits s]
      rfl
    · rw [List.flatMap_cons, pointUnits_toNat, flatMap_pointUnits (v :: s)]
      rfl

theorem codePoints_le : ∀ {s : JsString}, ∀ c ∈ codePoints s, c ≤ 0x10FFFF
  | [], _, h => by cases h
  | [u], c, h => by
    have := u.toNat_lt
    rw [codePoints, List.mem_singleton] at h
    omega
  | u :: v :: s, c, h => by
    rw [codePoints] at h
    split_ifs at h with hp
    · rcases List.mem_cons.1 h with hc | h
      · obtain ⟨hi, hhi, lo, hlo, -, -, hp⟩ := pairPoint_eq hp
        omega
      · exact codePoints_le c h
    · rcases List.mem_cons.1 h with rfl | h
      · have := u.toNat_lt
        omega
      · exact codePoints_le c h

/-! ## Reading bytes -/

section Bytes

variable {a b b₂ b₃ : ℕ} {l : List (UInt16 ⊕ ℕ)}

theorem decodeBytes_one (ha : a < 0x80) :
    decodeBytes (.inr a :: l) = (decodeBytes l).map (pointUnits a ++ ·) := by
  rw [decodeBytes.eq_def]
  simp only [if_pos ha]

theorem decodeBytes_two (ha : 0xC2 ≤ a) (ha' : a ≤ 0xDF) (hb : isTail b = true)
    (hc : (a - 0xC0) * 0x40 + (b - 0x80) = c) :
    decodeBytes (.inr a :: .inr b :: l) = (decodeBytes l).map (pointUnits c ++ ·) := by
  have h1 : ¬a < 0x80 := by omega
  rw [decodeBytes.eq_def]
  simp [h1, ha, ha', hb, hc]

theorem decodeBytes_three (ha : 0xE0 ≤ a) (ha' : a ≤ 0xEF) (hb : isTail b = true)
    (hb₂ : isTail b₂ = true)
    (hc : (a - 0xE0) * 0x1000 + (b - 0x80) * 0x40 + (b₂ - 0x80) = c) (hle : 0x800 ≤ c)
    (hs : isSurrogatePoint c = false) :
    decodeBytes (.inr a :: .inr b :: .inr b₂ :: l) = (decodeBytes l).map (pointUnits c ++ ·) := by
  have h1 : ¬a < 0x80 := by omega
  have h2 : ¬a ≤ 0xDF := by omega
  rw [decodeBytes.eq_def]
  simp [h1, h2, ha, ha', hb, hb₂, hc, hle, hs]

theorem decodeBytes_four (ha : 0xF0 ≤ a) (ha' : a ≤ 0xF7) (hb : isTail b = true)
    (hb₂ : isTail b₂ = true) (hb₃ : isTail b₃ = true)
    (hc : (a - 0xF0) * 0x40000 + (b - 0x80) * 0x1000 + (b₂ - 0x80) * 0x40 + (b₃ - 0x80) = c)
    (hle : 0x10000 ≤ c) (hle' : c ≤ 0x10FFFF) :
    decodeBytes (.inr a :: .inr b :: .inr b₂ :: .inr b₃ :: l) =
      (decodeBytes l).map (pointUnits c ++ ·) := by
  have h1 : ¬a < 0x80 := by omega
  have h2 : ¬a ≤ 0xDF := by omega
  have h3 : ¬a ≤ 0xEF := by omega
  rw [decodeBytes.eq_def]
  simp [h1, h2, h3, ha, ha', hb, hb₂, hb₃, hc, hle, hle']

/-- The low six bits of a number, as a byte. -/
theorem isTail_mod (n : ℕ) : isTail (0x80 + n % 0x40) = true := by
  simp only [isTail, Bool.and_eq_true, decide_eq_true_eq]
  omega

/-- The four ranges of code points have one, two, three and four bytes. -/
theorem decodeBytes_utf8Point (hc : c ≤ 0x10FFFF) (hs : isSurrogatePoint c = false) :
    decodeBytes ((utf8Point c).map .inr ++ l) = (decodeBytes l).map (pointUnits c ++ ·) := by
  unfold utf8Point
  split_ifs with h1 h2 h3 h4
  · exact decodeBytes_one h1
  · exact decodeBytes_two (by omega) (by omega) (isTail_mod c) (by omega)
  · rw [h3] at hs
    cases hs
  · have hval : c / 0x1000 * 0x1000 + c / 0x40 % 0x40 * 0x40 + c % 0x40 = c := by omega
    exact decodeBytes_three (by omega) (by omega) (isTail_mod _) (isTail_mod c)
      (by simpa only [Nat.add_sub_cancel_left] using hval) (by omega) hs
  · have hval : c / 0x40000 * 0x40000 + c / 0x1000 % 0x40 * 0x1000 + c / 0x40 % 0x40 * 0x40 +
        c % 0x40 = c := by
      omega
    exact decodeBytes_four (by omega) (by omega) (isTail_mod _) (isTail_mod _) (isTail_mod c)
      (by simpa only [Nat.add_sub_cancel_left] using hval) (by omega) hc

end Bytes

/-- Pieces that stand for code points, one after the other. -/
theorem decodeBytes_flatMap {f : ℕ → List (UInt16 ⊕ ℕ)} : ∀ {points : List ℕ},
    (∀ c ∈ points, ∀ l, decodeBytes (f c ++ l) = (decodeBytes l).map (pointUnits c ++ ·)) →
      decodeBytes (points.flatMap f) = some (points.flatMap pointUnits)
  | [], _ => rfl
  | c :: points, h => by
    have ih := decodeBytes_flatMap fun c' hc' => h c' (List.mem_cons_of_mem c hc')
    rw [List.flatMap_cons, List.flatMap_cons, h c List.mem_cons_self, ih, Option.map_some]

theorem decodeBytes_utf8 (hs : s.WellFormed) : decodeBytes ((utf8 s).map .inr) = some s := by
  rw [utf8, List.map_flatMap, decodeBytes_flatMap, flatMap_pointUnits]
  exact fun c hc l => decodeBytes_utf8Point (codePoints_le c hc) (hs c hc)

theorem utf8_injOn (hs : s.WellFormed) (ht : t.WellFormed) : utf8 s = utf8 t ↔ s = t := by
  constructor
  · intro h
    have hdec := decodeBytes_utf8 hs
    rw [h, decodeBytes_utf8 ht] at hdec
    exact (Option.some.inj hdec).symm
  · rintro rfl
    rfl

/-- Without surrogates every unit is a code point. -/
theorem codePoints_of_lt : ∀ {s : JsString}, (∀ u ∈ s, u < 0xD800) →
    codePoints s = s.map UInt16.toNat
  | [], _ => rfl
  | [_], _ => rfl
  | u :: v :: s, h => by
    have ih := codePoints_of_lt fun w hw => h w (List.mem_cons_of_mem u hw)
    have hhigh : isHighSurrogate u = false := by
      simp only [isHighSurrogate, Bool.and_eq_false_iff, decide_eq_false_iff_not]
      exact .inl (UInt16.not_le.2 (h u List.mem_cons_self))
    rw [codePoints, hhigh, Bool.false_and, if_neg Bool.false_ne_true, ih]
    rfl

theorem wellFormed_of_lt (h : ∀ u ∈ s, u < 0xD800) : s.WellFormed := by
  intro c hc
  rw [codePoints_of_lt h] at hc
  obtain ⟨u, hu, rfl⟩ := List.mem_map.1 hc
  simp only [isSurrogatePoint, Bool.and_eq_false_iff, decide_eq_false_iff_not]
  exact .inl (Nat.not_le.2 (UInt16.lt_iff_toNat_lt.1 (h u hu)))

/-! ## Reading escapes -/

/-- What `encodeURIComponent` makes of a code point. -/
def escaped (c : ℕ) : JsString :=
  if isUnreserved c then [c.toUInt16] else (utf8Point c).flatMap percentEncode

/-- What `unescape` makes of that. -/
def pieces (c : ℕ) : List (UInt16 ⊕ ℕ) :=
  if isUnreserved c then [.inl c.toUInt16] else (utf8Point c).map .inr

theorem encodeURIComponent_eq (hs : s.WellFormed) :
    s.encodeURIComponent = some ((codePoints s).flatMap escaped) := by
  have hany : ¬(codePoints s).any isSurrogatePoint = true := by
    intro h
    obtain ⟨c, hc, hsur⟩ := List.any_eq_true.1 h
    rw [hs c hc] at hsur
    cases hsur
  rw [encodeURIComponent, if_neg hany]
  rfl

theorem isUnreserved_lt (h : isUnreserved c = true) : c < 0x80 ∧ c ≠ 37 := by
  simp [isUnreserved] at h
  omega

theorem utf8Point_lt (hc : c ≤ 0x10FFFF) : ∀ b ∈ utf8Point c, b < 0x100 := by
  unfold utf8Point
  split_ifs <;> simp <;> omega

theorem hexValue_hexDigit : ∀ n < 16, hexValue (hexDigit n) = some n := by
  decide

theorem unescape_percentEncode {b : ℕ} (hb : b < 0x100) (s : JsString) :
    unescape (percentEncode b ++ s) = (unescape s).map (.inr b :: ·) := by
  have hhi := hexValue_hexDigit (b / 16) (by omega)
  have hlo := hexValue_hexDigit (b % 16) (by omega)
  have hval : b / 16 * 16 + b % 16 = b := by omega
  rw [percentEncode, List.cons_append, unescape.eq_def]
  simp only [if_true, List.cons_append, hhi, hlo, hval, List.nil_append]

theorem unescape_bytes : ∀ {l : List ℕ}, (∀ b ∈ l, b < 0x100) → ∀ s : JsString,
    unescape (l.flatMap percentEncode ++ s) = (unescape s).map (l.map .inr ++ ·)
  | [], _, s => by simp
  | b :: l, h, s => by
    have ih := unescape_bytes (fun b' hb' => h b' (List.mem_cons_of_mem b hb')) s
    rw [List.flatMap_cons, List.append_assoc, unescape_percentEncode (h b List.mem_cons_self), ih,
      Option.map_map]
    rfl

theorem unescape_unit (hu : u ≠ 37) (s : JsString) :
    unescape (u :: s) = (unescape s).map (.inl u :: ·) := by
  rw [unescape.eq_def]
  simp only [if_neg hu]

theorem unescape_escaped (hc : c ≤ 0x10FFFF) (s : JsString) :
    unescape (escaped c ++ s) = (unescape s).map (pieces c ++ ·) := by
  unfold escaped pieces
  split_ifs with h
  · obtain ⟨hlt, hne⟩ := isUnreserved_lt h
    have hu : c.toUInt16 ≠ 37 := by
      intro h37
      have := congrArg UInt16.toNat h37
      simp at this
      omega
    exact unescape_unit hu s
  · exact unescape_bytes (utf8Point_lt hc) s

theorem unescape_flatMap : ∀ {points : List ℕ}, (∀ c ∈ points, c ≤ 0x10FFFF) →
    unescape (points.flatMap escaped) = some (points.flatMap pieces)
  | [], _ => rfl
  | c :: points, h => by
    have ih := unescape_flatMap fun c' hc' => h c' (List.mem_cons_of_mem c hc')
    rw [List.flatMap_cons, unescape_escaped (h c List.mem_cons_self), ih, Option.map_some]
    rfl

theorem decodeBytes_pieces (hc : c ≤ 0x10FFFF) (hs : isSurrogatePoint c = false)
    (l : List (UInt16 ⊕ ℕ)) :
    decodeBytes (pieces c ++ l) = (decodeBytes l).map (pointUnits c ++ ·) := by
  unfold pieces
  split_ifs with h
  · have hlt := (isUnreserved_lt h).1
    rw [List.singleton_append, decodeBytes, pointUnits, if_pos (by omega)]
    rfl
  · exact decodeBytes_utf8Point hc hs

theorem decodeURIComponent_encodeURIComponent (hs : s.WellFormed) :
    s.encodeURIComponent.bind decodeURIComponent = some s := by
  have hle := codePoints_le (s := s)
  rw [encodeURIComponent_eq hs, Option.bind_some, decodeURIComponent, unescape_flatMap hle,
    Option.bind_some, decodeBytes_flatMap, flatMap_pointUnits]
  exact fun c hc l => decodeBytes_pieces (hle c hc) (hs c hc) l

end JsString

end InkCache
