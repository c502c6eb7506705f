import InkCache.Persistence

/-!
# Loading a file

`loadSnapshot` throws in two places: where it reads `keys` of `null`, and where `set` compares a
`ttl` with zero, which throws exactly for a value that cannot be written as text
(`toJsString_isOk`) or is an array too deep for the stack. Away from these the loop sets the
well-formed rows in order.
-/

namespace InkCache

variable {ν : Type}

/-! ## Writing a value as text -/

theorem isOk_map {ε α β : Type*} (f : α → β) (x : Except ε α) : (x.map f).isOk = x.isOk := by
  cases x <;> rfl

theorem isOk_iff {ε α : Type*} {x : Except ε α} : x.isOk = true ↔ ∃ a, x = .ok a := by
  cases x <;> simp [Except.isOk, Except.toBool]

/-- `head` is the text of an element before the comma. -/
theorem bind_tail_isOk (head : Except JsError JsString) (tail : Except JsError JsString)
    (f : JsString → JsString → JsString) :
    (do let h ← head; let t ← tail; return f h t : Except JsError JsString).isOk
      = (head.isOk && tail.isOk) := by
  rcases head with _ | h
  · rfl
  · rcases tail <;> rfl

theorem join_cons (T : NumberText ν) (e : Json ν) (es : List (Json ν)) :
    (Json.join T (e :: es)).isOk = ((e.toJsString T).isOk && (Json.join T es).isOk) := by
  cases e <;> exact bind_tail_isOk _ _ _

mutual

theorem toJsString_isOk (T : NumberText ν) : ∀ j : Json ν, (j.toJsString T).isOk = !j.unprintable
  | .null | .bool _ | .num _ | .str _ => rfl
  | .arr elems => by
    rw [Json.toJsString, Json.unprintable]
    exact join_isOk T elems
  | .obj fields => by
    rw [Json.toJsString, Json.unprintable]
    split_ifs with h <;> simp [h, Except.isOk, Except.toBool]

theorem join_isOk (T : NumberText ν) : ∀ elems : List (Json ν),
    (Json.join T elems).isOk = !Json.anyUnprintable elems
  | [] => rfl
  | e :: es => by
    rw [join_cons, toJsString_isOk T e, join_isOk T es, Json.anyUnprintable, Bool.not_or]

end

theorem toNumber_isOk [Zero ν] [NatCast ν] (T : NumberText ν) (exhausts : List (Json ν) → Bool)
    (j : Json ν) : (j.toNumber T exhausts).isOk = true ↔
      j.unprintable = false ∧ ∀ elems, j = .arr elems → exhausts elems = false := by
  cases j with
  | null | bool | num | str => simp [Json.toNumber, Json.unprintable, Except.isOk, Except.toBool]
  | arr elems =>
    have hjoin : (do let s ← Json.join T elems; return T.ofString s : Except JsError _).isOk
        = !Json.anyUnprintable elems :=
      (isOk_map T.ofString (Json.join T elems)).trans (join_isOk T elems)
    rw [Json.toNumber]
    by_cases hx : exhausts elems = true
    · simp [hx, Except.isOk, Except.toBool]
    · rw [if_neg hx, hjoin]
      simp [Json.unprintable, hx]
  | obj fields =>
    have hobj : ((Json.obj fields).toNumber T exhausts).isOk = !(Json.obj fields).unprintable :=
      (isOk_map T.ofString _).trans (toJsString_isOk T _)
    simp [hobj]

/-! ## The rows -/

variable [JsNumber ν] {T : NumberText ν} {exhausts : List (Json ν) → Bool} {now : ν}
  {s : CacheStore ν}

theorem ttlNumber_value {j : Json ν} (h : j ≠ .null) :
    ttlNumber T exhausts (.value j) = j.toNumber T exhausts := by
  cases j with
  | null => exact absurd rfl h
  | bool | num | str | arr | obj => rfl

theorem ttlNumber_isOk {given : PropertyValue ν} :
    (ttlNumber T exhausts given).isOk = true ↔ Comparable exhausts given := by
  unfold Comparable
  match given with
  | .undefined | .method => simp [ttlNumber, Except.isOk, Except.toBool]
  | .value j =>
    by_cases hj : j = .null
    · subst hj
      simp [ttlNumber, Json.unprintable, Except.isOk, Except.toBool]
    · rw [ttlNumber_value hj, toNumber_isOk]
      simp

theorem ttlNumber_honours {given : PropertyValue ν} {ttl : Option ν}
    (h : ttlNumber T exhausts given = .ok ttl) : Honours given ttl := by
  refine ⟨?_, ?_⟩
  · rintro (rfl | rfl) <;> exact (Except.ok.inj h).symm
  · rintro t rfl
    exact (Except.ok.inj h).symm

theorem loadEntries_ok (T : NumberText ν) (exhausts : List (Json ν) → Bool) (now : ν) :
    ∀ (keys : List (Json ν)) (loaded : ℕ) (s : CacheStore ν),
      (∀ e ∈ keys.filterMap persistedEntry, Comparable exhausts e.ttl) →
        ∃ rows, List.Forall₂ LoadedAs (keys.filterMap persistedEntry) rows ∧
          loadEntries T exhausts now keys loaded s =
            (loadRows now s rows, .ok (loaded + rows.length))
  | [], loaded, s, _ => ⟨[], .nil, rfl⟩
  | j :: keys, loaded, s, h => by
    rw [loadEntries]
    rcases hj : persistedEntry j with _ | e
    · rw [List.filterMap_cons_none hj] at h ⊢
      exact loadEntries_ok T exhausts now keys loaded s h
    · rw [List.filterMap_cons_some hj, List.forall_mem_cons] at h
      rw [List.filterMap_cons_some hj]
      obtain ⟨ttl, ht⟩ := isOk_iff.1 ((ttlNumber_isOk (T := T)).2 h.1)
      obtain ⟨rows, hrows, hload⟩ :=
        loadEntries_ok T exhausts now keys (loaded + 1) (s.set now e.key e.value ttl) h.2
      refine ⟨⟨e.key, e.value, ttl⟩ :: rows, .cons ⟨rfl, rfl, ttlNumber_honours ht⟩ hrows, ?_⟩
      simp only [ht, hload, loadRows, List.foldl_cons, List.length_cons, add_assoc, add_comm 1]

theorem loadEntries_error (T : NumberText ν) (now : ν) :
    ∀ (keys : List (Json ν)) (loaded : ℕ) (s : CacheStore ν) {e : PersistedEntry ν},
      e ∈ keys.filterMap persistedEntry → ¬ Comparable exhausts e.ttl →
        (loadEntries T exhausts now keys loaded s).2.isOk = false
  | [], _, _, _, he, _ => by simp at he
  | j :: keys, loaded, s, e, he, hc => by
    rw [loadEntries]
    rcases hj : persistedEntry j with _ | e'
    · rw [List.filterMap_cons_none hj] at he
      exact loadEntries_error T now keys loaded s he hc
    · rw [List.filterMap_cons_some hj, List.mem_cons] at he
      rcases ht : ttlNumber T exhausts e'.ttl with err | ttl <;> simp only [ht]
      · rfl
      · rcases he with rfl | he
        · exact absurd (ttlNumber_isOk.1 (isOk_iff.2 ⟨ttl, ht⟩)) hc
        · exact loadEntries_error T now keys (loaded + 1) _ he hc

/-! ## The file -/

variable {parse : JsString → Option (Json ν)}

theorem loadSnapshot_null {raw : JsString} (h : parse raw = some .null) :
    loadSnapshot parse T exhausts now (.text raw) s = (s, .error .typeError) := by
  simp [loadSnapshot, h, Json.property]

theorem loadSnapshot_keys {raw : JsString} {parsed : Json ν} (h : parse raw = some parsed)
    (hn : parsed ≠ .null) : loadSnapshot parse T exhausts now (.text raw) s =
      match keysArray parsed with
      | none => (s, .ok none)
      | some keys => ((loadEntries T exhausts now keys 0 s).1,
          (loadEntries T exhausts now keys 0 s).2.map some) := by
  cases parsed with
  | null => exact absurd rfl hn
  | bool | num | str | arr => simp [loadSnapshot, h, Json.property, keysArray]
  | obj fields =>
    simp only [loadSnapshot, h, Json.property, keysArray]
    rcases Json.field fields (js "keys") with _ | _ | j
    · rfl
    · rfl
    · cases j <;> rfl

/-- Loading salvages what it can, and does not throw, exactly where the file is loadable. -/
theorem load_salvages_iff (parse : JsString → Option (Json ν)) (T : NumberText ν)
    (exhausts : List (Json ν) → Bool) (now : ν) (file : FileContent) (s : CacheStore ν) :
    Salvages parse now file s (loadSnapshot parse T exhausts now file s) ↔
      Loadable parse exhausts file := by
  match file with
  | .absent | .unreadable => exact ⟨fun _ => trivial, fun _ => rfl⟩
  | .text raw =>
    rcases hp : parse raw with _ | parsed
    · simp [Salvages, Loadable, loadSnapshot, hp]
    simp only [Salvages, Loadable, hp, Option.bind_some, Option.some.injEq, forall_eq']
    by_cases hn : parsed = .null
    · subst hn
      simp [loadSnapshot_null hp, keysArray]
    rw [loadSnapshot_keys hp hn]
    rcases hk : keysArray parsed with _ | keys
    · simp [hn]
    simp only [Option.some.injEq, forall_eq']
    constructor
    · rintro ⟨rows, -, hr⟩
      refine ⟨hn, fun e he => ?_⟩
      by_contra hc
      have hbad := loadEntries_error T now keys 0 s he hc
      rw [← isOk_map some, (Prod.mk.inj hr).2] at hbad
      exact absurd hbad (by simp [Except.isOk, Except.toBool])
    · rintro ⟨-, hc⟩
      obtain ⟨rows, hrows, hr⟩ := loadEntries_ok T exhausts now keys 0 s hc
      exact ⟨rows, hrows, by rw [hr, zero_add]; rfl⟩

/-- `JSON.parse` on the text `null`. -/
def parseNull (raw : JsString) : Option (Json ℚ) := if raw = js "null" then some .null else none

/-- Reads no number from text. -/
def noNumbers : NumberText ℚ where
  ofString _ := none
  toString _ := []

theorem load_throws_on_null :
    ¬ Salvages parseNull 0 (.text (js "null")) (CacheStore.new {})
      (loadSnapshot parseNull noNumbers (fun _ => false) 0 (.text (js "null"))
        (CacheStore.new {})) := by
  have hp : parseNull (js "null") = some .null := if_pos rfl
  rw [loadSnapshot_null hp]
  simp [Salvages, hp, keysArray]

end InkCache
