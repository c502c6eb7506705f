import InkCache.JsonText

/-!
# How many bytes a text has

Two texts have the bytes of both, unless a pair of surrogates is made where they meet
(`byteLength_append`).
-/

namespace InkCache

namespace JsString

variable {u : UInt16} {s t : JsString}

/-- The text does not start with the second half of a pair. -/
def StartsWhole (s : JsString) : Prop := ∀ u ∈ s.head?, isLowSurrogate u = false

theorem codePoints_append (ht : StartsWhole t) :
    ∀ s : JsString, codePoints (s ++ t) = codePoints s ++ codePoints t
  | [] => rfl
  | [u] => by
    rcases t with _ | ⟨v, t⟩
    · rfl
    · have hv : isLowSurrogate v = false := ht v rfl
      simp [codePoints, hv]
  | u :: v :: s => by
    have ih := codePoints_append ht s
    have ih' := codePoints_append ht (v :: s)
    rw [List.cons_append, List.cons_append, codePoints, codePoints]
    split_ifs
    · rw [ih, List.cons_append]
    · rw [← List.cons_append, ih', List.cons_append]

theorem byteLength_append (ht : StartsWhole t) :
    byteLength (s ++ t) = byteLength s + byteLength t := by
  simp only [byteLength, utf8, codePoints_append ht, List.flatMap_append, List.length_append]

theorem startsWhole_cons (hu : u < 0x80) : StartsWhole (u :: s) := by
  rintro v hv
  rw [List.head?_cons, Option.mem_some_iff] at hv
  subst hv
  simp only [isLowSurrogate, Bool.and_eq_false_iff, decide_eq_false_iff_not]
  exact .inl (UInt16.not_le.2 (UInt16.lt_trans hu (by decide)))

/-- A unit of one byte in front. -/
theorem byteLength_cons (hu : u < 0x80) (hs : StartsWhole s) :
    byteLength (u :: s) = 1 + byteLength s := by
  have hone : byteLength [u] = 1 := by
    have hlt : u.toNat < 0x80 := UInt16.lt_iff_toNat_lt.1 hu
    simp [byteLength, utf8, codePoints, utf8Point, hlt]
  rw [← List.singleton_append, byteLength_append hs, hone]

/-- Texts of units of one byte have as many bytes as units. -/
theorem byteLength_ascii : ∀ {s : JsString}, (∀ u ∈ s, u < 0x80) → byteLength s = s.length
  | [], _ => rfl
  | [u], h => byteLength_cons (h u (by simp)) (by simp [StartsWhole])
  | u :: v :: s, h => by
    have hv : v < 0x80 := h v (by simp)
    rw [byteLength_cons (h u (by simp)) (startsWhole_cons hv),
      byteLength_ascii fun w hw => h w (List.mem_cons_of_mem u hw)]
    simp only [List.length_cons]
    omega

theorem StartsWhole.append (hs : StartsWhole s) (ht : StartsWhole t) : StartsWhole (s ++ t) := by
  rcases s with _ | ⟨u, s⟩
  · exact ht
  · exact hs

theorem startsWhole_intercalate {l : List JsString} (h : ∀ s ∈ l, StartsWhole s)
    (ht : StartsWhole t) : StartsWhole ([44].intercalate l ++ t) := by
  rcases l with _ | ⟨s, _ | ⟨s', l⟩⟩
  · exact ht
  · rw [List.intercalate_singleton]
    exact (h s (by simp)).append ht
  · rw [List.intercalate_cons_cons, List.append_assoc, List.append_assoc]
    exact (h s (by simp)).append (startsWhole_cons (by decide))

/-- Texts with commas between them. -/
theorem byteLength_intercalate : ∀ {l : List JsString}, (∀ s ∈ l, StartsWhole s) →
    StartsWhole t → byteLength ([44].intercalate l ++ t) =
      (l.map byteLength).sum + (l.length - 1) + byteLength t
  | [], _, _ => by simp
  | [s], _, ht => by
    rw [List.intercalate_singleton, byteLength_append ht]
    simp
  | s :: s' :: l, h, ht => by
    have htail : ∀ x ∈ s' :: l, StartsWhole x := fun x hx => h x (List.mem_cons_of_mem s hx)
    rw [List.intercalate_cons_cons, List.append_assoc, List.append_assoc, List.singleton_append,
      byteLength_append (startsWhole_cons (by decide)),
      byteLength_cons (by decide) (startsWhole_intercalate htail ht),
      byteLength_intercalate htail ht]
    simp only [List.map_cons, List.sum_cons, List.length_cons]
    omega

theorem startsWhole_quote (s : JsString) : StartsWhole (quote s) := startsWhole_cons (by decide)

end JsString

end InkCache
