import Mathlib

/-!
# Insertion-ordered maps

A finite map that remembers the order its keys were inserted in. Writing a held key changes its
entry where it stands; deleting a key and writing it again moves it to the back. `drain` is the
loop that visits every entry in order and may delete the entry it is visiting.
-/

namespace Lib

variable {κ α β : Type*}

/-- The entries, oldest first; no key is held twice. -/
structure OrderedMap (κ α : Type*) where
  entries : List (κ × α)
  nodup : (entries.map Prod.fst).Nodup

namespace OrderedMap

@[ext]
theorem ext {m m' : OrderedMap κ α} (h : m.entries = m'.entries) : m = m' := by
  cases m; cases m'; cases h; rfl

def empty : OrderedMap κ α := ⟨[], List.nodup_nil⟩

def keys (m : OrderedMap κ α) : List κ := m.entries.map Prod.fst

def size (m : OrderedMap κ α) : ℕ := m.entries.length

/-- The entries satisfying `p`, in the same order. -/
def filter (p : κ × α → Bool) (m : OrderedMap κ α) : OrderedMap κ α :=
  ⟨m.entries.filter p, m.nodup.sublist (List.filter_sublist.map _)⟩

variable {m : OrderedMap κ α} {k k' : κ} {a : α}

theorem mem_keys_of_mem (h : (k, a) ∈ m.entries) : k ∈ m.keys :=
  List.mem_map.2 ⟨(k, a), h, rfl⟩

theorem mem_keys : k ∈ m.keys ↔ ∃ a, (k, a) ∈ m.entries := by
  simp [keys]

theorem keys_nodup (m : OrderedMap κ α) : m.keys.Nodup := m.nodup

theorem size_eq_length_keys (m : OrderedMap κ α) : m.size = m.keys.length := by
  simp [size, keys]

@[simp] theorem entries_filter (p : κ × α → Bool) : (m.filter p).entries = m.entries.filter p := rfl

theorem mem_filter {p : κ × α → Bool} {e : κ × α} :
    e ∈ (m.filter p).entries ↔ e ∈ m.entries ∧ p e := by simp

theorem filter_eq_self {p : κ × α → Bool} (h : ∀ e ∈ m.entries, p e) : m.filter p = m :=
  OrderedMap.ext (List.filter_eq_self.2 h)

theorem nodup_append_new (h : k ∉ m.keys) (a : α) :
    ((m.entries ++ [(k, a)]).map Prod.fst).Nodup := by
  rw [List.map_append, List.nodup_append]
  refine ⟨m.nodup, by simp, fun x hx y hy => ?_⟩
  simp only [List.map_cons, List.map_nil, List.mem_singleton] at hy
  rintro rfl
  exact h (hy ▸ hx)

variable [DecidableEq κ]

def get? (m : OrderedMap κ α) (k : κ) : Option α :=
  (m.entries.find? fun e => e.1 = k).map Prod.snd

def delete (m : OrderedMap κ α) (k : κ) : OrderedMap κ α :=
  m.filter fun e => e.1 ≠ k

theorem map_fst_update (l : List (κ × α)) (k : κ) (a : α) :
    (l.map fun e => if e.1 = k then (k, a) else e).map Prod.fst = l.map Prod.fst := by
  rw [List.map_map]
  refine List.map_congr_left fun e _ => ?_
  by_cases h : e.1 = k <;> simp [h]

/-- A held key keeps its place; a new one goes to the back. -/
def set (m : OrderedMap κ α) (k : κ) (a : α) : OrderedMap κ α :=
  if h : k ∈ m.keys then
    ⟨m.entries.map fun e => if e.1 = k then (k, a) else e, by
      rw [map_fst_update]; exact m.nodup⟩
  else ⟨m.entries ++ [(k, a)], nodup_append_new h a⟩

/-- Without the entry that was inserted first. -/
def deleteOldest (m : OrderedMap κ α) : OrderedMap κ α :=
  match m.keys.head? with
  | none => m
  | some oldest => m.delete oldest

/-- Writes a new key; if there are as many as there may be, the oldest makes room for it. -/
def insertBounded (max : ℕ) (k : κ) (a : α) (m : OrderedMap κ α) : OrderedMap κ α :=
  (if max ≤ m.size then m.deleteOldest else m).set k a

/-- Visits the entries in order, deleting the visited one where `p` holds of it and folding `f`
over all of them. -/
def drain (p : κ × α → Bool) (f : β → κ × α → β) (m : OrderedMap κ α) (b : β) :
    OrderedMap κ α × β :=
  m.entries.foldl (fun st e => (if p e then st.1.delete e.1 else st.1, f st.2 e)) (m, b)

/-! ## Reading -/

theorem get?_eq_some : m.get? k = some a ↔ (k, a) ∈ m.entries := by
  simp only [get?, Option.map_eq_some_iff]
  constructor
  · rintro ⟨⟨k', a'⟩, hf, rfl⟩
    have hk : k' = k := by simpa using List.find?_some hf
    exact hk ▸ List.mem_of_find?_eq_some hf
  · intro hm
    rcases hf : m.entries.find? fun e => e.1 = k with _ | ⟨k', a'⟩
    · exact absurd (List.find?_eq_none.1 hf _ hm) (by simp)
    · have hk : k' = k := by simpa using List.find?_some hf
      subst hk
      have := List.inj_on_of_nodup_map m.nodup (List.mem_of_find?_eq_some hf) hm rfl
      exact ⟨(k', a'), hf, congrArg Prod.snd this⟩

theorem get?_eq_none : m.get? k = none ↔ k ∉ m.keys := by
  simp only [get?, Option.map_eq_none_iff, List.find?_eq_none, decide_eq_true_eq, keys,
    List.mem_map, Prod.exists, exists_and_right, exists_eq_right, not_exists]
  exact ⟨fun h a ha => h _ ha rfl, fun h e he hk => h e.2 (by rw [← hk]; exact he)⟩

@[simp] theorem get?_empty : (empty : OrderedMap κ α).get? k = none := rfl

theorem get?_filter (p : κ × α → Bool) :
    (m.filter p).get? k = (m.get? k).filter fun a => p (k, a) := by
  refine Option.ext fun a => ?_
  rw [get?_eq_some, mem_filter, Option.filter_eq_some_iff, get?_eq_some]

/-! ## Writing -/

theorem mem_delete {e : κ × α} : e ∈ (m.delete k).entries ↔ e ∈ m.entries ∧ e.1 ≠ k := by
  simp [delete]

theorem get?_delete : (m.delete k).get? k' = if k' = k then none else m.get? k' := by
  rw [delete, get?_filter]
  split_ifs with h
  · simp [h]
  · simp only [ne_eq, h, not_false_eq_true, decide_true]
    cases m.get? k' <;> rfl

theorem keys_delete : (m.delete k).keys = m.keys.filter fun k' => k' ≠ k := by
  simp only [keys, delete, entries_filter, List.filter_map]
  rfl

theorem not_mem_keys_delete : k ∉ (m.delete k).keys := by
  rw [← get?_eq_none, get?_delete, if_pos rfl]

theorem delete_of_not_mem (h : k ∉ m.keys) : m.delete k = m := by
  refine OrderedMap.ext (List.filter_eq_self.2 fun e he => ?_)
  simp only [ne_eq, decide_not, Bool.not_eq_true', decide_eq_false_iff_not]
  rintro rfl
  exact h (mem_keys_of_mem he)

theorem entries_delete_head {e : κ × α} {l : List (κ × α)} (h : m.entries = e :: l) :
    (m.delete e.1).entries = l := by
  have hnd := m.nodup
  rw [h, List.map_cons, List.nodup_cons, List.mem_map] at hnd
  rw [delete, entries_filter, h, List.filter_cons_of_neg (by simp)]
  refine List.filter_eq_self.2 fun x hx => ?_
  simp only [ne_eq, decide_not, Bool.not_eq_true', decide_eq_false_iff_not]
  exact fun hk => hnd.1 ⟨x, hx, hk⟩

theorem size_delete_lt (h : k ∈ m.keys) : (m.delete k).size < m.size := by
  refine List.length_filter_lt_length_iff_exists.2 ?_
  obtain ⟨a, ha⟩ := mem_keys.1 h
  exact ⟨(k, a), ha, by simp⟩

theorem deleteOldest_cons {e : κ × α} {l : List (κ × α)} (h : m.entries = e :: l) :
    m.deleteOldest.entries = l := by
  have hkeys : m.keys.head? = some e.1 := by rw [keys, h]; rfl
  rw [deleteOldest, hkeys, entries_delete_head h]

theorem size_deleteOldest (h : 0 < m.size) : m.deleteOldest.size + 1 = m.size := by
  obtain ⟨e, l, hentries⟩ := List.exists_cons_of_length_pos h
  rw [size, deleteOldest_cons hentries, size, hentries, List.length_cons]

/-- Without its oldest entry a map has the same as before, or nothing. -/
theorem get?_deleteOldest (m : OrderedMap κ α) (k : κ) :
    m.deleteOldest.get? k = m.get? k ∨ m.deleteOldest.get? k = none := by
  unfold deleteOldest
  rcases m.keys.head? with _ | oldest
  · exact .inl rfl
  · dsimp only
    rw [get?_delete]
    split_ifs
    · exact .inr rfl
    · exact .inl rfl

theorem mem_keys_of_deleteOldest (h : k ∈ m.deleteOldest.keys) : k ∈ m.keys := by
  by_contra hk
  rcases get?_deleteOldest m k with heq | hnone
  · exact get?_eq_none.1 (heq.trans (get?_eq_none.2 hk)) h
  · exact get?_eq_none.1 hnone h

theorem entries_set_new (h : k ∉ m.keys) : (m.set k a).entries = m.entries ++ [(k, a)] := by
  simp [set, h]

theorem keys_set_new (h : k ∉ m.keys) : (m.set k a).keys = m.keys ++ [k] := by
  simp [keys, entries_set_new h]

theorem get?_set_new (h : k ∉ m.keys) :
    (m.set k a).get? k' = if k' = k then some a else m.get? k' := by
  refine Option.ext fun a' => ?_
  rw [get?_eq_some, entries_set_new h, List.mem_append, List.mem_singleton, Prod.mk.injEq]
  split_ifs with hk
  · subst hk
    constructor
    · rintro (hm | ⟨-, rfl⟩)
      · exact absurd (mem_keys_of_mem hm) h
      · rfl
    · intro ha
      exact .inr ⟨rfl, (Option.some.inj ha).symm⟩
  · simp [hk, get?_eq_some]

theorem mem_set_of_mem (h : k ∈ m.keys) {e : κ × α} :
    e ∈ (m.set k a).entries ↔ e = (k, a) ∨ e ∈ m.entries ∧ e.1 ≠ k := by
  obtain ⟨a₀, ha₀⟩ := mem_keys.1 h
  simp only [set, dif_pos h, List.mem_map]
  constructor
  · rintro ⟨e', he', rfl⟩
    split_ifs with hk
    · exact .inl rfl
    · exact .inr ⟨he', hk⟩
  · rintro (rfl | ⟨he, hk⟩)
    · exact ⟨(k, a₀), ha₀, if_pos rfl⟩
    · exact ⟨e, he, if_neg hk⟩

theorem get?_set : (m.set k a).get? k' = if k' = k then some a else m.get? k' := by
  by_cases h : k ∈ m.keys
  swap
  · exact get?_set_new h
  refine Option.ext fun a' => ?_
  rw [get?_eq_some, mem_set_of_mem h, Prod.mk.injEq]
  split_ifs with hk
  · simp [hk, eq_comm]
  · simp [hk, get?_eq_some]

theorem keys_set_of_mem (h : k ∈ m.keys) : (m.set k a).keys = m.keys := by
  rw [keys, set, dif_pos h]
  exact map_fst_update _ _ _

theorem size_set_of_mem (h : k ∈ m.keys) : (m.set k a).size = m.size := by
  rw [size_eq_length_keys, keys_set_of_mem h, size_eq_length_keys]

theorem size_set_new (h : k ∉ m.keys) : (m.set k a).size = m.size + 1 := by
  simp [size, entries_set_new h]

theorem mem_keys_set : k' ∈ (m.set k a).keys ↔ k' = k ∨ k' ∈ m.keys := by
  by_cases h : k ∈ m.keys
  · rw [keys_set_of_mem h]
    exact ⟨.inr, fun hk => hk.elim (fun hk => hk ▸ h) id⟩
  · rw [keys_set_new h, List.mem_append, List.mem_singleton, or_comm]

theorem perm_cons_delete (h : (k, a) ∈ m.entries) :
    m.entries.Perm ((k, a) :: (m.delete k).entries) := by
  have hnew : (k, a) ∉ (m.delete k).entries := fun hd => (mem_delete.1 hd).2 rfl
  refine (List.perm_ext_iff_of_nodup m.nodup.of_map
    (List.nodup_cons.2 ⟨hnew, (m.delete k).nodup.of_map⟩)).2 fun e => ?_
  rw [List.mem_cons, mem_delete]
  constructor
  · intro he
    by_cases hk : e.1 = k
    · refine .inl (Prod.ext hk ?_)
      have hget : m.get? e.1 = some e.2 := get?_eq_some.2 he
      rw [hk, get?_eq_some.2 h] at hget
      exact (Option.some.inj hget).symm
    · exact .inr ⟨he, hk⟩
  · rintro (rfl | ⟨he, -⟩)
    · exact h
    · exact he

/-- Without its entry, a key that was written leaves the entries it found. -/
theorem delete_set_perm (m : OrderedMap κ α) (k : κ) (a : α) :
    ((m.set k a).delete k).entries.Perm (m.delete k).entries := by
  refine (List.perm_ext_iff_of_nodup ((m.set k a).delete k).nodup.of_map
    (m.delete k).nodup.of_map).2 fun e => ?_
  by_cases hk : e.1 = k
  · simp [mem_delete, hk]
  · have hget : (m.set k a).get? e.1 = m.get? e.1 := by rw [get?_set, if_neg hk]
    have hmem : e ∈ (m.set k a).entries ↔ e ∈ m.entries := by
      rw [← get?_eq_some (a := e.2), ← get?_eq_some (a := e.2), hget]
    rw [mem_delete, mem_delete, hmem]

/-- The other keys have what they had, unless there was no room. -/
theorem get?_insertBounded {max : ℕ} (hk : k' ≠ k) :
    (m.insertBounded max k a).get? k' = m.get? k' ∨
      max ≤ m.size ∧ (m.insertBounded max k a).get? k' = none := by
  rw [insertBounded, get?_set, if_neg hk]
  split_ifs with hfull
  · exact (get?_deleteOldest m k').imp_right fun h => ⟨hfull, h⟩
  · exact .inl rfl

theorem mem_keys_insertBounded {max : ℕ} (h : k' ∈ (m.insertBounded max k a).keys) :
    k' = k ∨ k' ∈ m.keys := by
  rw [insertBounded, mem_keys_set] at h
  refine h.imp_right fun h => ?_
  split_ifs at h
  · exact mem_keys_of_deleteOldest h
  · exact h

theorem size_insertBounded {max : ℕ} (hmax : 1 ≤ max) (hsize : m.size ≤ max) (h : k ∉ m.keys) :
    (m.insertBounded max k a).size ≤ max := by
  unfold insertBounded
  split_ifs with hfull
  · rw [size_set_new fun hk => h (mem_keys_of_deleteOldest hk), size_deleteOldest (by omega)]
    exact hsize
  · rw [size_set_new h]
    omega

/-- With one key that is not held, the keys of a set leave room in it. -/
theorem size_lt_card {S : Finset κ} (h : k ∉ m.keys) (hk : k ∈ S) (hS : ∀ k' ∈ m.keys, k' ∈ S) :
    m.size < S.card := by
  have hsub : insert k m.keys.toFinset ⊆ S := by
    rw [Finset.insert_subset_iff]
    exact ⟨hk, fun k' hk' => hS k' (List.mem_toFinset.1 hk')⟩
  have hcard := Finset.card_le_card hsub
  rw [Finset.card_insert_of_notMem (by simpa using h), List.toFinset_card_of_nodup m.keys_nodup,
    ← size_eq_length_keys] at hcard
  exact hcard

/-! ## Draining -/

theorem drain_fold (p : κ × α → Bool) (f : β → κ × α → β) :
    ∀ (l : List (κ × α)) (m : OrderedMap κ α) (b : β),
      l.foldl (fun st e => (if p e then st.1.delete e.1 else st.1, f st.2 e)) (m, b)
        = (m.filter fun e => !((l.filter p).map Prod.fst).contains e.1, l.foldl f b)
  | [], m, b => by
    rw [List.foldl_nil, filter_eq_self (by simp)]
    rfl
  | e :: l, m, b => by
    simp only [List.foldl_cons]
    rw [drain_fold p f l]
    refine Prod.ext (OrderedMap.ext ?_) rfl
    by_cases hp : p e
    · simp only [hp, if_true, delete, entries_filter, List.filter_filter]
      refine List.filter_congr fun e' _ => ?_
      by_cases he : e'.1 = e.1 <;> simp [hp, he]
    · simp [hp]

/-- The loop keeps exactly the entries it does not delete. -/
theorem drain_fst (p : κ × α → Bool) (f : β → κ × α → β) (b : β) :
    (m.drain p f b).1 = m.filter fun e => !p e := by
  rw [drain, drain_fold]
  refine OrderedMap.ext (List.filter_congr fun e he => ?_)
  rw [Bool.eq_iff_iff]
  simp only [Bool.not_eq_true', Bool.eq_false_iff, ne_eq, List.contains_iff_mem, List.mem_map,
    List.mem_filter]
  refine not_congr ⟨?_, fun h => ⟨e, ⟨he, h⟩, rfl⟩⟩
  rintro ⟨e', ⟨hm, hp⟩, hk⟩
  rwa [List.inj_on_of_nodup_map m.nodup hm he hk] at hp

theorem drain_snd (p : κ × α → Bool) (f : β → κ × α → β) (b : β) :
    (m.drain p f b).2 = m.entries.foldl f b := by
  rw [drain, drain_fold]

end OrderedMap

end Lib
