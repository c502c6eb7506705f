import InkCache.JsonText

/-!
# What is written is read back

`parse_stringify`: `JSON.parse` undoes `JSON.stringify` wherever the numbers of the value are
written as tokens that are read back. Every reader takes something off its text
(`consumes_readValue`), so that the bound on the depth never stops the parser (`readValue_depth`).
-/

namespace InkCache

open Lib

variable {ν : Type}

/-! ## Strings -/

namespace JsString

variable {u c : UInt16} {s rest : JsString}

theorem readUnits_quote (s : JsString) : readUnits (34 :: s) = some ([], s) := by
  rw [readUnits.eq_def]
  exact if_pos rfl

theorem readUnits_literal (h34 : u ≠ 34) (h92 : u ≠ 92) (h32 : ¬ u < 32) :
    readUnits (u :: s) = (readUnits s).map fun r => (u :: r.1, r.2) := by
  rw [readUnits.eq_def]
  simp only [if_neg h34, if_neg h92, if_neg h32]

/-- A surrogate may stand in a text as it is. -/
theorem readUnits_surrogate (h : isSurrogate u = true) :
    readUnits (u :: s) = (readUnits s).map fun r => (u :: r.1, r.2) := by
  have hu : 0xD800 ≤ u := by
    simp only [isSurrogate, isHighSurrogate, isLowSurrogate, Bool.or_eq_true, Bool.and_eq_true,
      decide_eq_true_eq] at h
    rcases h with h | h
    · exact h.1
    · exact UInt16.le_trans (by decide) h.1
  refine readUnits_literal ?_ ?_ (UInt16.not_lt.2 (UInt16.le_trans (by decide) hu))
  · rintro rfl
    exact absurd hu (by decide)
  · rintro rfl
    exact absurd hu (by decide)

theorem unescapeLetter_escapeLetter (h : escapeLetter u = some c) :
    unescapeLetter c = some u ∧ c ≠ 117 := by
  unfold escapeLetter at h
  split_ifs at h with h8 h9 h10 h12 h13 hself
  all_goals simp only [Option.some.injEq] at h; subst h
  · subst h8; decide
  · subst h9; decide
  · subst h10; decide
  · subst h12; decide
  · subst h13; decide
  · rcases hself with rfl | rfl <;> decide

theorem hexValue_hexUnit : ∀ n < 16, hexValue (hexUnit n) = some n := by decide

theorem hexUnits_unicodeEscape (u : UInt16) :
    hexUnits (hexUnit (u.toNat / 0x1000)) (hexUnit (u.toNat / 0x100 % 16))
      (hexUnit (u.toNat / 0x10 % 16)) (hexUnit (u.toNat % 16)) = some u := by
  have hu := u.toNat_lt
  unfold hexUnits
  rw [hexValue_hexUnit _ (by omega), hexValue_hexUnit _ (by omega), hexValue_hexUnit _ (by omega),
    hexValue_hexUnit _ (by omega)]
  have hsum : u.toNat / 0x1000 * 0x1000 + u.toNat / 0x100 % 16 * 0x100 +
      u.toNat / 0x10 % 16 * 0x10 + u.toNat % 16 = u.toNat := by omega
  simp only [hsum, Option.some.injEq]
  exact UInt16.ofNat_toNat

/-- One unit is read back, whatever follows. -/
theorem readUnits_quoteUnit (u : UInt16) (s : JsString) :
    readUnits (quoteUnit u ++ s) = (readUnits s).map fun r => (u :: r.1, r.2) := by
  unfold quoteUnit
  rcases hc : escapeLetter u with _ | c
  · simp only
    split_ifs with hesc
    · rw [readUnits.eq_def]
      simp only [unicodeEscape, List.cons_append, List.nil_append,
        if_neg (show ¬ (92 : UInt16) = 34 by decide), if_true, hexUnits_unicodeEscape]
    · rw [not_or] at hesc
      refine readUnits_literal ?_ ?_ hesc.1
      · rintro rfl
        simp [escapeLetter] at hc
      · rintro rfl
        simp [escapeLetter] at hc
  · obtain ⟨hun, hne⟩ := unescapeLetter_escapeLetter hc
    rw [List.cons_append, List.cons_append, List.nil_append, readUnits.eq_def]
    simp only [if_neg (show ¬ (92 : UInt16) = 34 by decide), if_true, if_neg hne, hun]

theorem readUnits_quoteUnits (s rest : JsString) :
    readUnits (quoteUnits s ++ 34 :: rest) = some (s, rest) := by
  induction s using quoteUnits.induct with
  | case1 => exact readUnits_quote rest
  | case2 u =>
    rw [quoteUnits, readUnits_quoteUnit, readUnits_quote]
    rfl
  | case3 u v s hpair ih =>
    have hu : isSurrogate u = true := by simp [isSurrogate, (Bool.and_eq_true _ _ ▸ hpair).1]
    have hv : isSurrogate v = true := by simp [isSurrogate, (Bool.and_eq_true _ _ ▸ hpair).2]
    rw [quoteUnits, if_pos hpair, List.cons_append, List.cons_append, readUnits_surrogate hu,
      readUnits_surrogate hv, ih]
    rfl
  | case4 u v s hpair ih =>
    rw [quoteUnits, if_neg hpair, List.append_assoc, readUnits_quoteUnit, ih]
    rfl

theorem quote_append (s rest : JsString) :
    quote s ++ rest = 34 :: (quoteUnits s ++ 34 :: rest) := by
  simp [quote]

end JsString

/-! ## Numbers -/

namespace NumberToken

variable {s r : JsString}

/-- `r` is left of `s` after some units of number tokens. -/
def Spends (s r : JsString) : Prop := ∃ t, s = t ++ r ∧ ∀ u ∈ t, isUnit u = true

theorem Spends.refl (s : JsString) : Spends s s := ⟨[], rfl, by simp⟩

theorem Spends.trans {s₁ s₂ s₃ : JsString} (h₁ : Spends s₁ s₂) (h₂ : Spends s₂ s₃) :
    Spends s₁ s₃ := by
  obtain ⟨t₁, rfl, hu₁⟩ := h₁
  obtain ⟨t₂, rfl, hu₂⟩ := h₂
  refine ⟨t₁ ++ t₂, (List.append_assoc ..).symm, fun u hu => ?_⟩
  rcases List.mem_append.1 hu with hu | hu
  · exact hu₁ u hu
  · exact hu₂ u hu

theorem Spends.of_head {u : UInt16} (h : s.head? = some u) (hu : isUnit u = true) :
    Spends s s.tail := by
  obtain ⟨t, rfl⟩ := List.head?_eq_some_iff.1 h
  exact ⟨[u], rfl, by simpa using hu⟩

theorem spends_digits (h : digits s = some r) : Spends s r := by
  rcases s with _ | ⟨u, s⟩ <;> simp only [digits] at h
  · simp at h
  split_ifs at h with hu
  rw [Option.some.injEq] at h
  subst h
  have hunit : ∀ v, isDigit v = true → isUnit v = true := fun v hv => by simp [isUnit, hv]
  refine ⟨u :: s.takeWhile isDigit, by simp, fun v hv => ?_⟩
  rcases List.mem_cons.1 hv with rfl | hv
  · exact hunit _ hu
  · exact hunit v (List.mem_takeWhile_imp hv)

theorem spends_integer (h : integer s = some r) : Spends s r := by
  have hsign : Spends s (if s.head? = some 45 then s.tail else s) := by
    split_ifs with hminus
    · exact .of_head hminus (by decide)
    · exact .refl s
  refine hsign.trans ?_
  simp only [integer] at h
  generalize (if s.head? = some 45 then s.tail else s) = unsigned at h ⊢
  split_ifs at h with hzero
  · exact Option.some.inj h ▸ .of_head hzero (by decide)
  · exact spends_digits h

theorem spends_fraction (h : fraction s = some r) : Spends s r := by
  unfold fraction at h
  split_ifs at h with hpoint
  · exact (Spends.of_head hpoint (by decide)).trans (spends_digits h)
  · exact Option.some.inj h ▸ .refl s

theorem spends_exponent (h : exponent s = some r) : Spends s r := by
  simp only [exponent] at h
  split_ifs at h with hletter hsign
  · have hs : Spends s s.tail := by
      rcases hletter with hletter | hletter <;> exact .of_head hletter (by decide)
    have hs' : Spends s.tail s.tail.tail := by
      rcases hsign with hsign | hsign <;> exact .of_head hsign (by decide)
    exact (hs.trans hs').trans (spends_digits h)
  · have hs : Spends s s.tail := by
      rcases hletter with hletter | hletter <;> exact .of_head hletter (by decide)
    exact hs.trans (spends_digits h)
  · exact Option.some.inj h ▸ .refl s

theorem isUnit_of_isToken (h : isToken s = true) : ∀ u ∈ s, isUnit u = true := by
  rw [isToken, decide_eq_true_eq, Option.bind_eq_some_iff] at h
  obtain ⟨s₂, h₂, hexp⟩ := h
  obtain ⟨s₁, hint, hfrac⟩ := Option.bind_eq_some_iff.1 h₂
  obtain ⟨t, ht, hu⟩ :=
    ((spends_integer hint).trans (spends_fraction hfrac)).trans (spends_exponent hexp)
  rw [List.append_nil] at ht
  exact ht ▸ hu

theorem ne_of_isUnit {u c : UInt16} (h : isUnit u = true) (hc : isUnit c = false) : u ≠ c := by
  rintro rfl
  rw [h] at hc
  simp at hc

theorem ne_nil_of_isToken (h : isToken s = true) : s ≠ [] := by
  rintro rfl
  exact absurd h (by decide)

end NumberToken

/-! ## Values -/

namespace Json

/-- All numbers of the value are written as tokens that are read back. -/
inductive Printable [JsNumber ν] (T : NumberText ν) : Json ν → Prop
  | null : Printable T null
  | bool (b : Bool) : Printable T (bool b)
  | num {x : ν} (finite : JsNumber.isFinite x = true) (prints : T.Prints x) : Printable T (num x)
  | str (s : JsString) : Printable T (str s)
  | arr {elems : List (Json ν)} (h : ∀ e ∈ elems, Printable T e) : Printable T (arr elems)
  | obj {fields : List (JsString × Json ν)} (h : ∀ f ∈ fields, Printable T f.2) :
    Printable T (obj fields)

/-- What may follow a number. -/
def EndsToken (rest : JsString) : Prop := ∀ u ∈ rest.head?, NumberToken.isUnit u = false

variable [JsNumber ν] {T : NumberText ν} {j : Json ν} {rest : JsString}

def stringifyMember (T : NumberText ν) (f : JsString × Json ν) : JsString :=
  f.1.quote ++ 58 :: stringify T f.2

theorem stringifyElems_eq (T : NumberText ν) (elems : List (Json ν)) :
    stringifyElems T elems = elems.map (stringify T) := by
  induction elems with
  | nil => simp [stringifyElems]
  | cons e es ih => simp [stringifyElems, ih]

theorem stringifyFields_eq (T : NumberText ν) : ∀ fields : List (JsString × Json ν),
    stringifyFields T fields = fields.map (stringifyMember T)
  | [] => by simp [stringifyFields]
  | (name, j) :: fields => by
    simp [stringifyFields, stringifyMember, stringifyFields_eq T fields]

theorem stringify_arr (T : NumberText ν) (elems : List (Json ν)) : stringify T (arr elems) =
    91 :: ([44].intercalate (elems.map (stringify T)) ++ [93]) := by
  rw [stringify, stringifyElems_eq]
  rfl

theorem stringify_obj (T : NumberText ν) (fields : List (JsString × Json ν)) :
    stringify T (obj fields) =
      123 :: ([44].intercalate (fields.map (stringifyMember T)) ++ [125]) := by
  rw [stringify, stringifyFields_eq]
  rfl

theorem stringify_num {x : ν} (hfin : JsNumber.isFinite x = true) :
    stringify T (num x) = T.toString x := by
  rw [stringify, if_pos hfin]

theorem isBlank_of_isUnit {u : UInt16} (h : NumberToken.isUnit u = true) : isBlank u = false := by
  simp only [isBlank, List.mem_cons, List.not_mem_nil, or_false, decide_eq_false_iff_not, not_or]
  exact ⟨NumberToken.ne_of_isUnit h (by decide), NumberToken.ne_of_isUnit h (by decide),
    NumberToken.ne_of_isUnit h (by decide), NumberToken.ne_of_isUnit h (by decide)⟩

omit [JsNumber ν] in
/-- A printed number starts with a unit of tokens. -/
theorem head_of_prints {x : ν} (h : T.Prints x) :
    ∃ u t, T.toString x = u :: t ∧ NumberToken.isUnit u = true := by
  obtain ⟨u, t, ht⟩ := List.exists_cons_of_ne_nil (NumberToken.ne_nil_of_isToken h.isToken)
  exact ⟨u, t, ht, NumberToken.isUnit_of_isToken h.isToken u (by simp [ht])⟩

/-- The units that values start with, apart from those of numbers. -/
def openers : List UInt16 := [34, 91, 102, 110, 116, 123]

theorem forall_openers {p : UInt16 → Prop} :
    (∀ u ∈ openers, p u) ↔ p 34 ∧ p 91 ∧ p 102 ∧ p 110 ∧ p 116 ∧ p 123 := by
  simp [openers]

theorem head_stringify (h : Printable T j) :
    ∃ u t, stringify T j = u :: t ∧ (u ∈ openers ∨ NumberToken.isUnit u = true) := by
  cases h with
  | null => exact ⟨110, js "ull", by rw [stringify]; rfl, .inl (by decide)⟩
  | bool b =>
    cases b
    · exact ⟨102, js "alse", by rw [stringify]; rfl, .inl (by decide)⟩
    · exact ⟨116, js "rue", by rw [stringify]; rfl, .inl (by decide)⟩
  | num hfin hprints =>
    obtain ⟨u, t, ht, hu⟩ := head_of_prints hprints
    exact ⟨u, t, by rw [stringify_num hfin, ht], .inr hu⟩
  | str s => exact ⟨34, _, by rw [stringify]; rfl, .inl (by decide)⟩
  | arr _ => exact ⟨91, _, by rw [stringify_arr], .inl (by decide)⟩
  | obj _ => exact ⟨123, _, by rw [stringify_obj], .inl (by decide)⟩

/-- No value starts with a blank or with a closing mark. -/
theorem opens_stringify {close : UInt16} (hclose : close = 93 ∨ close = 125)
    (h : Printable T j) : Opens isBlank close (stringify T j) := by
  obtain ⟨u, t, ht, hu⟩ := head_stringify h
  have hopener : ∀ u ∈ openers, isBlank u = false ∧ u ≠ 93 ∧ u ≠ 125 :=
    forall_openers.2 (by decide)
  have hplain : isBlank u = false ∧ u ≠ 93 ∧ u ≠ 125 := by
    rcases hu with hu | hu
    · exact hopener u hu
    · exact ⟨isBlank_of_isUnit hu, NumberToken.ne_of_isUnit hu (by decide),
        NumberToken.ne_of_isUnit hu (by decide)⟩
  rcases hclose with rfl | rfl
  · exact ⟨u, t, ht, hplain.1, hplain.2.1⟩
  · exact ⟨u, t, ht, hplain.1, hplain.2.2⟩

omit [JsNumber ν] in
theorem readNumber_prints {x : ν} (h : T.Prints x) (hrest : EndsToken rest) :
    readNumber T (T.toString x ++ rest) = some (num x, rest) := by
  have hunits := NumberToken.isUnit_of_isToken h.isToken
  have hstop : rest.takeWhile NumberToken.isUnit = [] ∧
      rest.dropWhile NumberToken.isUnit = rest := by
    rcases rest with _ | ⟨u, rest⟩
    · exact ⟨rfl, rfl⟩
    · have hu : NumberToken.isUnit u = false := hrest u rfl
      exact ⟨List.takeWhile_cons_of_neg (by simp [hu]), List.dropWhile_cons_of_neg (by simp [hu])⟩
  have htake : (T.toString x ++ rest).takeWhile NumberToken.isUnit = T.toString x := by
    rw [List.takeWhile_append_of_pos hunits, hstop.1, List.append_nil]
  have hdrop : (T.toString x ++ rest).dropWhile NumberToken.isUnit = rest := by
    rw [List.dropWhile_append_of_pos hunits, hstop.2]
  rw [readNumber, htake, hdrop, if_pos h.isToken, h.ofString]
  rfl

/-- A member is read back if its value is. -/
theorem readMember_stringify {read : Reader UInt16 (Json ν)} {f : JsString × Json ν}
    (h : read (stringify T f.2 ++ rest) = some (f.2, rest)) :
    readMember read (stringifyMember T f ++ rest) = some (f, rest) := by
  have hquote : stringifyMember T f ++ rest =
      34 :: (JsString.quoteUnits f.1 ++ 34 :: 58 :: (stringify T f.2 ++ rest)) := by
    rw [stringifyMember, List.append_assoc, JsString.quote_append]
    rfl
  rw [hquote, readMember, List.dropWhile_cons_of_neg (by decide)]
  simp only [if_true, JsString.readUnits_quoteUnits]
  rw [List.dropWhile_cons_of_neg (by decide)]
  simp only [if_true, h, Option.map_some]

theorem opens_stringifyMember (f : JsString × Json ν) :
    Opens isBlank 125 (stringifyMember T f) :=
  ⟨34, _, rfl, by decide, by decide⟩

/-! The value that is read depends on the first unit. -/

section FirstUnit

variable {depth : ℕ} {s : JsString} {u : UInt16}

omit [JsNumber ν]

theorem readValue_quote : readValue T (depth + 1) (34 :: s) =
    (JsString.readUnits s).map fun r => (str r.1, r.2) := by
  rw [readValue, List.dropWhile_cons_of_neg (by decide)]
  rfl

theorem readValue_bracket : readValue T (depth + 1) (91 :: s) =
    (readList isBlank 44 93 (readValue T depth) s).map fun r => (arr r.1, r.2) := by
  rw [readValue, List.dropWhile_cons_of_neg (by decide)]
  rfl

theorem readValue_brace : readValue T (depth + 1) (123 :: s) =
    (readList isBlank 44 125 (readMember (readValue T depth)) s).map fun r => (obj r.1, r.2) := by
  rw [readValue, List.dropWhile_cons_of_neg (by decide)]
  rfl

theorem readValue_null : readValue T (depth + 1) (js "null" ++ s) = some (null, s) := by
  show readValue T (depth + 1) (110 :: (js "ull" ++ s)) = _
  rw [readValue, List.dropWhile_cons_of_neg (by decide)]
  rfl

theorem readValue_true : readValue T (depth + 1) (js "true" ++ s) = some (bool true, s) := by
  show readValue T (depth + 1) (116 :: (js "rue" ++ s)) = _
  rw [readValue, List.dropWhile_cons_of_neg (by decide)]
  rfl

theorem readValue_false : readValue T (depth + 1) (js "false" ++ s) = some (bool false, s) := by
  show readValue T (depth + 1) (102 :: (js "alse" ++ s)) = _
  rw [readValue, List.dropWhile_cons_of_neg (by decide)]
  rfl

theorem readValue_unit (hu : NumberToken.isUnit u = true) :
    readValue T (depth + 1) (u :: s) = readNumber T (u :: s) := by
  have hne : ∀ c, NumberToken.isUnit c = false → (u :: s).head? ≠ some c := fun c hc => by
    simpa using NumberToken.ne_of_isUnit hu hc
  have hword : ∀ (c : UInt16) (w : JsString), NumberToken.isUnit c = false →
      ¬ JsString.startsWith (u :: s) (c :: w) = true := fun c w hc => by
    simp [JsString.startsWith, List.isPrefixOf, (NumberToken.ne_of_isUnit hu hc).symm]
  have hnull : ¬ JsString.startsWith (u :: s) (js "null") = true :=
    hword 110 (js "ull") (by decide)
  have htrue : ¬ JsString.startsWith (u :: s) (js "true") = true :=
    hword 116 (js "rue") (by decide)
  have hfalse : ¬ JsString.startsWith (u :: s) (js "false") = true :=
    hword 102 (js "alse") (by decide)
  rw [readValue, List.dropWhile_cons_of_neg (by simp [isBlank_of_isUnit hu])]
  simp only [if_neg (hne 34 (by decide)), if_neg (hne 91 (by decide)),
    if_neg (hne 123 (by decide)), if_neg hnull, if_neg htrue, if_neg hfalse]

end FirstUnit

/-- A mark ends a number. -/
theorem endsToken_mark {u : UInt16} (h : u = 44 ∨ u = 93 ∨ u = 125) (s : JsString) :
    EndsToken (u :: s) := by
  rintro v hv
  rw [List.head?_cons, Option.mem_some_iff] at hv
  subst hv
  rcases h with rfl | rfl | rfl <;> decide

/-- A value is read back where a mark, a blank or nothing follows, if the depth allows for the
length of its text. -/
theorem readValue_stringify (T : NumberText ν) : ∀ (depth : ℕ) (j : Json ν), Printable T j →
    (stringify T j).length ≤ depth → ∀ {rest : JsString}, EndsToken rest →
      readValue T depth (stringify T j ++ rest) = some (j, rest)
  | 0, j, hj, hlen, rest, _ => by
    obtain ⟨u, t, ht, -⟩ := opens_stringify (.inl rfl) hj
    simp [ht] at hlen
  | depth + 1, .null, _, _, rest, _ => by
    rw [stringify]
    exact readValue_null
  | depth + 1, .bool true, _, _, rest, _ => by
    rw [stringify]
    exact readValue_true
  | depth + 1, .bool false, _, _, rest, _ => by
    rw [stringify]
    exact readValue_false
  | depth + 1, .num x, .num hfin hprints, _, rest, hrest => by
    obtain ⟨u, t, ht, hu⟩ := head_of_prints hprints
    rw [stringify_num hfin, ← readNumber_prints hprints hrest, ht]
    exact readValue_unit hu
  | depth + 1, .str s, _, _, rest, _ => by
    rw [stringify, JsString.quote_append, readValue_quote, JsString.readUnits_quoteUnits]
    rfl
  | depth + 1, .arr elems, .arr h, hlen, rest, _ => by
    rw [stringify_arr, List.length_cons, List.length_append, List.length_singleton] at hlen
    have hback : ∀ e ∈ elems, ReadsBack 44 93 (readValue T depth) (stringify T) e := by
      intro e he u s hu
      have hle : (stringify T e).length ≤ ([44].intercalate (elems.map (stringify T))).length :=
        length_le_intercalate_of_mem he
      exact readValue_stringify T depth e (h e he) (by omega)
        (endsToken_mark (hu.imp_right .inl) s)
    have hlist : readList isBlank 44 93 (readValue T depth)
        ([44].intercalate (elems.map (stringify T)) ++ 93 :: rest) = some (elems, rest) :=
      readList_intercalate (by decide) (by decide) (by decide) hback
        (fun e he => opens_stringify (.inl rfl) (h e he)) rest
    rw [stringify_arr, List.cons_append, List.append_assoc, List.singleton_append,
      readValue_bracket, hlist]
    rfl
  | depth + 1, .obj fields, .obj h, hlen, rest, _ => by
    rw [stringify_obj, List.length_cons, List.length_append, List.length_singleton] at hlen
    have hback : ∀ f ∈ fields,
        ReadsBack 44 125 (readMember (readValue T depth)) (stringifyMember T) f := by
      intro f hf u s hu
      have hle : (stringifyMember T f).length
          ≤ ([44].intercalate (fields.map (stringifyMember T))).length :=
        length_le_intercalate_of_mem hf
      rw [stringifyMember, List.length_append, List.length_cons] at hle
      exact readMember_stringify (readValue_stringify T depth f.2 (h f hf) (by omega)
        (endsToken_mark (hu.imp_right .inr) s))
    have hlist : readList isBlank 44 125 (readMember (readValue T depth))
        ([44].intercalate (fields.map (stringifyMember T)) ++ 125 :: rest) = some (fields, rest) :=
      readList_intercalate (by decide) (by decide) (by decide) hback
        (fun f _ => opens_stringifyMember f) rest
    rw [stringify_obj, List.cons_append, List.append_assoc, List.singleton_append,
      readValue_brace, hlist]
    rfl

/-- `JSON.parse` undoes `JSON.stringify`. -/
theorem parse_stringify (h : Printable T j) : parse T (stringify T j) = some j := by
  have hread : readValue T (stringify T j).length (stringify T j ++ []) = some (j, []) :=
    readValue_stringify T _ j h le_rfl (by simp [EndsToken])
  rw [List.append_nil] at hread
  rw [parse, hread]
  rfl

/-! ## The bound on the depth -/

section Depth

omit [JsNumber ν]

theorem consumes_readUnits : Consumes JsString.readUnits := by
  intro s
  fun_induction JsString.readUnits s with
  | case1 | case3 | case4 | case6 | case7 | case9 => simp
  | case2 s =>
    intro a rest h
    simp only [Option.some.injEq, Prod.mk.injEq] at h
    simp [h.2]
  | case5 a b c d s u _ _ ih =>
    intro r rest h
    obtain ⟨r', hr⟩ := exists_of_map_fst h
    have := ih r' rest hr
    simp only [List.length_cons]
    omega
  | case8 c s _ u _ _ ih =>
    intro r rest h
    obtain ⟨r', hr⟩ := exists_of_map_fst h
    have := ih r' rest hr
    simp only [List.length_cons]
    omega
  | case10 c s _ _ _ ih =>
    intro r rest h
    obtain ⟨r', hr⟩ := exists_of_map_fst h
    have := ih r' rest hr
    simp only [List.length_cons]
    omega

theorem consumes_readNumber : Consumes (readNumber T) := by
  intro s j rest h
  unfold readNumber at h
  split_ifs at h with htoken
  obtain ⟨x, -, he⟩ := Option.map_eq_some_iff.1 h
  simp only [Prod.mk.injEq] at he
  have hpos := List.length_pos_iff.2 (NumberToken.ne_nil_of_isToken htoken)
  have hlen := congrArg List.length (s.takeWhile_append_dropWhile (p := NumberToken.isUnit))
  rw [List.length_append] at hlen
  rw [← he.2]
  omega

theorem length_dropWhile_le {τ : Type*} (p : τ → Bool) (s : List τ) :
    (s.dropWhile p).length ≤ s.length :=
  (List.dropWhile_sublist p).length_le

theorem consumes_readMember {read : Reader UInt16 (Json ν)} (h : Consumes read) :
    Consumes (readMember read) := by
  intro s f rest hs
  unfold readMember at hs
  have hle := length_dropWhile_le isBlank s
  rcases hd : s.dropWhile isBlank with _ | ⟨u, s₁⟩ <;> simp only [hd] at hs
  · simp at hs
  rw [hd, List.length_cons] at hle
  split_ifs at hs with hu
  rcases hr : JsString.readUnits s₁ with _ | ⟨name, s₂⟩ <;> simp only [hr] at hs
  · simp at hs
  have hlt := consumes_readUnits s₁ name s₂ hr
  have hle' := length_dropWhile_le isBlank s₂
  rcases hd' : s₂.dropWhile isBlank with _ | ⟨v, s₃⟩ <;> simp only [hd'] at hs
  · simp at hs
  rw [hd', List.length_cons] at hle'
  split_ifs at hs with hv
  obtain ⟨j, hj⟩ := exists_of_map_fst hs
  have := h s₃ j rest hj
  omega

theorem consumes_readValue : ∀ depth, Consumes (readValue T depth)
  | 0, s, j, rest, h => by simp [readValue] at h
  | depth + 1, s, j, rest, h => by
    have hle := length_dropWhile_le isBlank s
    have ih := consumes_readValue depth
    rw [readValue] at h
    generalize s.dropWhile isBlank = s₁ at h hle
    have htail : ∀ {u : UInt16}, s₁.head? = some u → s₁.tail.length < s₁.length := by
      intro u hu
      obtain ⟨t, rfl⟩ := List.head?_eq_some_iff.1 hu
      simp
    have hdrop : ∀ {w : JsString} {n : ℕ}, JsString.startsWith s₁ w = true → w.length = n →
        0 < n → (s₁.drop n).length < s₁.length := by
      intro w n hw hn hpos
      have := (List.isPrefixOf_iff_prefix.1 hw).length_le
      rw [List.length_drop]
      omega
    split_ifs at h with hquote hbracket hbrace hnull htrue hfalse
    · obtain ⟨a, ha⟩ := exists_of_map_fst h
      have := consumes_readUnits _ a rest ha
      have := htail hquote
      omega
    · obtain ⟨a, ha⟩ := exists_of_map_fst h
      have := readList_consumes ih _ a rest ha
      have := htail hbracket
      omega
    · obtain ⟨a, ha⟩ := exists_of_map_fst h
      have := readList_consumes (consumes_readMember ih) _ a rest ha
      have := htail hbrace
      omega
    · simp only [Option.some.injEq, Prod.mk.injEq] at h
      have := hdrop hnull rfl (by decide)
      rw [← h.2]
      exact this.trans_le hle
    · simp only [Option.some.injEq, Prod.mk.injEq] at h
      have := hdrop htrue rfl (by decide)
      rw [← h.2]
      exact this.trans_le hle
    · simp only [Option.some.injEq, Prod.mk.injEq] at h
      have := hdrop hfalse rfl (by decide)
      rw [← h.2]
      exact this.trans_le hle
    · have := consumes_readNumber _ j rest h
      omega

theorem readMember_congr {read read' : Reader UInt16 (Json ν)} {s : JsString}
    (h : ∀ t : JsString, t.length ≤ s.length → read t = read' t) :
    readMember read s = readMember read' s := by
  unfold readMember
  have hle := length_dropWhile_le isBlank s
  generalize s.dropWhile isBlank = s' at hle
  rcases s' with _ | ⟨u, s₁⟩
  · rfl
  rw [List.length_cons] at hle
  simp only
  split_ifs
  · rcases hr : JsString.readUnits s₁ with _ | ⟨name, s₂⟩
    · rfl
    have hlt := consumes_readUnits s₁ name s₂ hr
    have hle' := length_dropWhile_le isBlank s₂
    simp only
    generalize s₂.dropWhile isBlank = s₂' at hle'
    rcases s₂' with _ | ⟨v, s₃⟩
    · rfl
    rw [List.length_cons] at hle'
    simp only
    rw [h s₃ (by omega)]
  · rfl

/-- A depth that the length of the text is within does not stop the parser. -/
theorem readValue_depth (T : NumberText ν) : ∀ (depth depth' : ℕ) (s : JsString),
    s.length ≤ depth → s.length ≤ depth' → readValue T depth s = readValue T depth' s
  | 0, 0, _, _, _ => rfl
  | 0, depth' + 1, s, h, _ => by
    obtain rfl := List.length_eq_zero_iff.1 (Nat.le_zero.1 h)
    rfl
  | depth + 1, 0, s, _, h => by
    obtain rfl := List.length_eq_zero_iff.1 (Nat.le_zero.1 h)
    rfl
  | depth + 1, depth' + 1, s, h, h' => by
    have hle := length_dropWhile_le isBlank s
    have ih := readValue_depth T depth depth'
    rw [readValue, readValue]
    generalize s.dropWhile isBlank = s₁ at hle
    rcases s₁ with _ | ⟨u, s₁⟩
    · rfl
    rw [List.length_cons] at hle
    have hread : ∀ t : JsString, t.length ≤ s₁.length →
        readValue T depth t = readValue T depth' t := fun t ht => ih t (by omega) (by omega)
    have harr : readList isBlank 44 93 (readValue T depth) s₁ =
        readList isBlank 44 93 (readValue T depth') s₁ :=
      readList_congr (consumes_readValue depth) hread
    have hobj : readList isBlank 44 125 (readMember (readValue T depth)) s₁ =
        readList isBlank 44 125 (readMember (readValue T depth')) s₁ :=
      readList_congr (consumes_readMember (consumes_readValue depth)) fun t ht =>
        readMember_congr fun t' ht' => hread t' (ht'.trans ht)
    simp only [List.tail_cons, harr, hobj]

end Depth

end Json

end InkCache
