import Mathlib

/-!
# Lists between marks

Items with a separator between them and a closing mark behind the last are read by a loop over a
reader of items, which passes over blanks before a mark. What is written by putting the separator
between the texts of the items is read back (`readList_intercalate`).
-/

namespace Lib

variable {τ α β : Type*} [DecidableEq τ]

/-- Takes a value off the front of a text, and answers it with the rest. -/
abbrev Reader (τ α : Type*) := List τ → Option (α × List τ)

/-- Reads items up to the closing mark, `n` at most. -/
def readItems (blank : τ → Bool) (sep close : τ) (read : Reader τ α) : ℕ → Reader τ (List α)
  | 0, _ => none
  | n + 1, s =>
    match read s with
    | none => none
    | some (a, s) =>
      match s.dropWhile blank with
      | [] => none
      | u :: s =>
        if u = sep then (readItems blank sep close read n s).map fun r => (a :: r.1, r.2)
        else if u = close then some ([a], s)
        else none

/-- Reads a list up to the closing mark; there are no more items than the text is long. -/
def readList (blank : τ → Bool) (sep close : τ) (read : Reader τ α) : Reader τ (List α) := fun s =>
  match s.dropWhile blank with
  | [] => none
  | u :: rest =>
    if u = close then some ([], rest) else readItems blank sep close read s.length s

variable {blank : τ → Bool} {sep close : τ} {read : Reader τ α} {write : α → List τ}

/-- `read` reads what `write` writes of `a` if a mark comes next. -/
def ReadsBack (sep close : τ) (read : Reader τ α) (write : α → List τ) (a : α) : Prop :=
  ∀ u rest, u = sep ∨ u = close → read (write a ++ u :: rest) = some (a, u :: rest)

theorem readItems_intercalate (hsep : blank sep = false) (hclose : blank close = false)
    (hne : close ≠ sep) : ∀ {l : List α} {n : ℕ} (rest : List τ), l ≠ [] →
      (∀ a ∈ l, ReadsBack sep close read write a) → l.length ≤ n →
      readItems blank sep close read n ([sep].intercalate (l.map write) ++ close :: rest)
        = some (l, rest)
  | [], _, _, h, _, _ => absurd rfl h
  | _ :: _, 0, _, _, _, hn => by simp at hn
  | [a], n + 1, rest, _, hback, _ => by
    have ha : read (write a ++ close :: rest) = some (a, close :: rest) :=
      hback a (by simp) close rest (.inr rfl)
    rw [List.map_singleton, List.intercalate_singleton]
    simp only [readItems, ha, List.dropWhile_cons_of_neg (by simpa using hclose), if_neg hne,
      if_true]
  | a :: b :: l, n + 1, rest, _, hback, hn => by
    have ih := readItems_intercalate hsep hclose hne (l := b :: l) (n := n) rest (by simp)
      (fun x hx => hback x (List.mem_cons_of_mem a hx)) (by simpa using hn)
    have ha := hback a (by simp) sep ([sep].intercalate ((b :: l).map write) ++ close :: rest)
      (.inl rfl)
    rw [List.map_cons, List.map_cons, List.intercalate_cons_cons, ← List.map_cons,
      List.append_assoc, List.append_assoc, List.singleton_append]
    simp only [readItems, ha, List.dropWhile_cons_of_neg (by simpa using hsep), if_true, ih,
      Option.map_some]

/-- The text does not start with a blank, nor with the closing mark. -/
def Opens (blank : τ → Bool) (close : τ) (s : List τ) : Prop :=
  ∃ u rest, s = u :: rest ∧ blank u = false ∧ u ≠ close

omit [DecidableEq τ] in
theorem length_le_intercalate : ∀ {l : List α}, (∀ a ∈ l, Opens blank close (write a)) →
    l.length ≤ ([sep].intercalate (l.map write)).length
  | [], _ => Nat.zero_le _
  | [a], h => by
    obtain ⟨u, rest, ha, -⟩ := h a (by simp)
    rw [List.map_singleton, List.intercalate_singleton, ha]
    simp
  | a :: b :: l, h => by
    have ih := length_le_intercalate (l := b :: l) fun x hx =>
      h x (List.mem_cons_of_mem a hx)
    rw [List.map_cons, List.map_cons, List.intercalate_cons_cons, ← List.map_cons,
      List.length_append, List.length_append, List.length_cons, List.length_singleton]
    omega

omit [DecidableEq τ] in
theorem length_le_intercalate_of_mem : ∀ {l : List α} {a : α}, a ∈ l →
    (write a).length ≤ ([sep].intercalate (l.map write)).length
  | [b], a, h => by
    rw [List.mem_singleton.1 h, List.map_singleton, List.intercalate_singleton]
  | b :: c :: l, a, h => by
    rw [List.map_cons, List.map_cons, List.intercalate_cons_cons, ← List.map_cons,
      List.length_append, List.length_append]
    rcases List.mem_cons.1 h with rfl | h
    · omega
    · have := length_le_intercalate_of_mem h
      omega

theorem readList_intercalate {l : List α} (hsep : blank sep = false) (hclose : blank close = false)
    (hne : close ≠ sep) (hback : ∀ a ∈ l, ReadsBack sep close read write a)
    (hopen : ∀ a ∈ l, Opens blank close (write a)) (rest : List τ) :
    readList blank sep close read ([sep].intercalate (l.map write) ++ close :: rest)
      = some (l, rest) := by
  rcases l with _ | ⟨a, l⟩
  · rw [List.map_nil, List.intercalate_nil, List.nil_append]
    simp only [readList, List.dropWhile_cons_of_neg (by simpa using hclose), if_true]
  have hlen : (a :: l).length
      ≤ ([sep].intercalate ((a :: l).map write) ++ close :: rest).length := by
    rw [List.length_append]
    exact (length_le_intercalate hopen).trans (Nat.le_add_right _ _)
  have hitems := readItems_intercalate hsep hclose hne rest (List.cons_ne_nil a l) hback hlen
  obtain ⟨u, t, ha, hu, hclose'⟩ := hopen a (by simp)
  have hhead : ∃ t', [sep].intercalate ((a :: l).map write) ++ close :: rest = u :: t' := by
    rw [List.map_cons, ha, List.intercalate_cons_cons_left]
    exact ⟨_, rfl⟩
  obtain ⟨t', ht⟩ := hhead
  rw [ht] at hitems ⊢
  simp only [readList, List.dropWhile_cons_of_neg (by simpa using hu), if_neg hclose', hitems]

/-! ## Bounds -/

/-- A reader takes something off every text it reads. -/
def Consumes (read : Reader τ α) : Prop :=
  ∀ s a rest, read s = some (a, rest) → rest.length < s.length

omit [DecidableEq τ] in
/-- What is made of a value that was read does not change the rest. -/
theorem exists_of_map_fst {x : Option (α × List τ)} {f : α → β} {b : β} {rest : List τ}
    (h : x.map (fun r => (f r.1, r.2)) = some (b, rest)) : ∃ a, x = some (a, rest) := by
  obtain ⟨r, hr, he⟩ := Option.map_eq_some_iff.1 h
  simp only [Prod.mk.injEq] at he
  exact ⟨r.1, by rw [hr, ← he.2]⟩

theorem readItems_consumes (h : Consumes read) :
    ∀ n, Consumes (readItems blank sep close read n)
  | 0, s, l, rest, hs => by simp [readItems] at hs
  | n + 1, s, l, rest, hs => by
    simp only [readItems] at hs
    rcases hr : read s with _ | ⟨a, s₁⟩ <;> rw [hr] at hs
    · simp at hs
    have hlt := h s a s₁ hr
    have hle := (List.dropWhile_sublist (l := s₁) blank).length_le
    rcases hd : s₁.dropWhile blank with _ | ⟨u, s₂⟩ <;> simp only [hd] at hs
    · simp at hs
    rw [hd, List.length_cons] at hle
    split_ifs at hs with hsep hclose
    · obtain ⟨l', hr'⟩ := exists_of_map_fst hs
      have := readItems_consumes h n s₂ l' rest hr'
      omega
    · simp only [Option.some.injEq, Prod.mk.injEq] at hs
      rw [← hs.2]
      omega

omit [DecidableEq τ] in
theorem Consumes.nil (h : Consumes read) : read [] = none := by
  rcases hr : read [] with _ | ⟨a, rest⟩
  · rfl
  · have := h [] a rest hr
    simp at this

/-- All bounds from the length of the text on come to the same, and the items are read off texts
that are no longer. -/
theorem readItems_congr {read' : Reader τ α} (h : Consumes read) :
    ∀ {n m : ℕ} (s : List τ), s.length ≤ n → s.length ≤ m →
      (∀ t : List τ, t.length ≤ s.length → read t = read' t) →
      readItems blank sep close read n s = readItems blank sep close read' m s
  | 0, m, s, hn, _, hread => by
    obtain rfl := List.length_eq_zero_iff.1 (Nat.le_zero.1 hn)
    rcases m with _ | m
    · rfl
    · simp only [readItems, ← hread [] le_rfl, h.nil]
  | n + 1, 0, s, _, hm, hread => by
    obtain rfl := List.length_eq_zero_iff.1 (Nat.le_zero.1 hm)
    simp only [readItems, h.nil]
  | n + 1, m + 1, s, hn, hm, hread => by
    simp only [readItems, ← hread s le_rfl]
    rcases hr : read s with _ | ⟨a, s₁⟩
    · rfl
    have hlt := h s a s₁ hr
    have hle := (List.dropWhile_sublist (l := s₁) blank).length_le
    rcases hd : s₁.dropWhile blank with _ | ⟨u, s₂⟩
    · simp only [hd]
    rw [hd, List.length_cons] at hle
    simp only [hd]
    split_ifs
    · rw [readItems_congr (m := m) h s₂ (by omega) (by omega) fun t ht => hread t (by omega)]
    · rfl
    · rfl

theorem readList_consumes (h : Consumes read) : Consumes (readList blank sep close read) := by
  intro s l rest hs
  have hle := (List.dropWhile_sublist (l := s) blank).length_le
  simp only [readList] at hs
  rcases hd : s.dropWhile blank with _ | ⟨u, s₁⟩ <;> simp only [hd] at hs
  · simp at hs
  rw [hd, List.length_cons] at hle
  split_ifs at hs with hclose
  · simp only [Option.some.injEq, Prod.mk.injEq] at hs
    rw [← hs.2]
    omega
  · exact readItems_consumes h _ s l rest hs

theorem readList_congr {read' : Reader τ α} (h : Consumes read) {s : List τ}
    (hread : ∀ t : List τ, t.length ≤ s.length → read t = read' t) :
    readList blank sep close read s = readList blank sep close read' s := by
  simp only [readList]
  rcases s.dropWhile blank with _ | ⟨u, s₁⟩
  · rfl
  simp only
  split_ifs
  · rfl
  · exact readItems_congr h s le_rfl le_rfl hread

/-! ## Splitting at a mark -/

theorem splitOn_cases (a : τ) (s : List τ) : (a ∉ s ∧ s.splitOn a = [s]) ∨
    ∃ t rest, a ∉ t ∧ s = t ++ a :: rest ∧ s.splitOn a = t :: rest.splitOn a := by
  by_cases h : a ∈ s
  · obtain ⟨t, rest, hs, ht⟩ := List.eq_append_cons_of_mem h
    exact .inr ⟨t, rest, ht, hs, by rw [hs, List.splitOn_append_cons_self_of_not_mem ht]⟩
  · exact .inl ⟨h, List.splitOn_eq_singleton h⟩

/-- The first piece ends at the first mark. -/
theorem splitOn_eq_cons {a : τ} {s t : List τ} : (∃ l, s.splitOn a = t :: l) ↔
    a ∉ t ∧ (s = t ∨ ∃ rest, s = t ++ a :: rest) := by
  constructor
  · rintro ⟨l, hl⟩
    rcases splitOn_cases a s with ⟨h, hs⟩ | ⟨t', rest, h, rfl, hs⟩ <;>
      rw [hs, List.cons.injEq] at hl
    · exact ⟨hl.1 ▸ h, .inl hl.1⟩
    · exact ⟨hl.1 ▸ h, .inr ⟨rest, by rw [hl.1]⟩⟩
  · rintro ⟨h, rfl | ⟨rest, rfl⟩⟩
    · exact ⟨[], List.splitOn_eq_singleton h⟩
    · exact ⟨_, List.splitOn_append_cons_self_of_not_mem h rest⟩

/-- The first two pieces are between the first two marks. -/
theorem splitOn_eq_cons_cons {a : τ} {s t u : List τ} : (∃ l, s.splitOn a = t :: u :: l) ↔
    a ∉ t ∧ a ∉ u ∧ (s = t ++ a :: u ∨ ∃ rest, s = t ++ a :: (u ++ a :: rest)) := by
  constructor
  · rintro ⟨l, hl⟩
    rcases splitOn_cases a s with ⟨-, hs⟩ | ⟨t', rest, ht, rfl, hs⟩ <;>
      rw [hs, List.cons.injEq] at hl
    · cases hl.2
    · obtain ⟨rfl, hl⟩ := hl
      obtain ⟨hu, hrest⟩ := splitOn_eq_cons.1 ⟨l, hl⟩
      refine ⟨ht, hu, ?_⟩
      rcases hrest with rfl | ⟨rest', rfl⟩
      · exact .inl rfl
      · exact .inr ⟨rest', rfl⟩
  · rintro ⟨ht, hu, hs⟩
    have hrest : ∃ rest, s = t ++ a :: rest ∧ (rest = u ∨ ∃ rest', rest = u ++ a :: rest') := by
      rcases hs with rfl | ⟨rest, rfl⟩
      · exact ⟨u, rfl, .inl rfl⟩
      · exact ⟨u ++ a :: rest, rfl, .inr ⟨rest, rfl⟩⟩
    obtain ⟨rest, rfl, hrest⟩ := hrest
    obtain ⟨l, hl⟩ := splitOn_eq_cons.2 ⟨hu, hrest⟩
    exact ⟨l, by rw [List.splitOn_append_cons_self_of_not_mem ht, hl]⟩

end Lib
