import Mathlib

/-!
# Ring buffers and ranks

A buffer that has its capacity writes over its oldest member, whose index moves round the array
(`ringPush`). Read from that index on, it is the end of all that was pushed (`HoldsLast`).
`IsNearestRank` says which member of a list has a rank; in a sorted list it stands in its place.
-/

namespace Lib

variable {α : Type*}

/-- The array and the index of the oldest member once it is full. -/
def ringPush (cap : ℕ) (x : α) (r : List α × ℕ) : List α × ℕ :=
  if r.1.length < cap then (r.1 ++ [x], r.2) else (r.1.set r.2 x, (r.2 + 1) % cap)

variable {cap i : ℕ} {x : α} {l history : List α} {r : List α × ℕ}

theorem rotate_set (hi : i < l.length) (x : α) :
    (l.set i x).rotate (i + 1) = (l.rotate i).tail ++ [x] := by
  have hset : i + 1 ≤ (l.set i x).length := by rwa [List.length_set]
  have htake : (l.set i x).take (i + 1) = l.take i ++ [x] := by
    rw [List.take_set, List.take_succ_eq_append_getElem hi,
      List.set_append_right _ _ (by simp [hi.le])]
    simp [hi.le]
  rw [List.rotate_eq_drop_append_take hset, List.rotate_eq_drop_append_take hi.le, htake,
    List.drop_set_of_lt (Nat.lt_succ_self i), List.drop_eq_getElem_cons hi, List.cons_append,
    List.tail_cons, List.append_assoc]

theorem length_rtake (cap : ℕ) (l : List α) : (l.rtake cap).length = min l.length cap := by
  rw [List.rtake, List.length_drop]
  omega

theorem map_rtake {β : Type*} (f : α → β) (cap : ℕ) (l : List α) :
    (l.rtake cap).map f = (l.map f).rtake cap := by
  rw [List.rtake, List.rtake, List.map_drop, List.length_map]

/-- One more member: the oldest of those that were kept goes, if they are as many as may be. -/
theorem rtake_concat (l : List α) (x : α) : (l ++ [x]).rtake cap =
    if (l.rtake cap).length < cap then l.rtake cap ++ [x] else (l.rtake cap ++ [x]).tail := by
  have hlen := length_rtake cap l
  by_cases h : (l.rtake cap).length < cap
  · rw [if_pos h, List.rtake, List.rtake, List.length_append, List.length_singleton,
      show l.length + 1 - cap = 0 by omega, show l.length - cap = 0 by omega, List.drop_zero,
      List.drop_zero]
  · rw [if_neg h, List.rtake, List.rtake, List.length_append, List.length_singleton,
      show l.length + 1 - cap = l.length - cap + 1 by omega, ← List.drop_one,
      ← List.drop_append_of_le_length (Nat.sub_le _ _), List.drop_drop]

/-- From the index on, the array has the last members of the history, as many as it may hold. -/
structure HoldsLast (cap : ℕ) (history : List α) (r : List α × ℕ) : Prop where
  contents : r.1.rotate r.2 = history.rtake cap
  index_lt : r.2 < cap
  filling : r.1.length < cap → r.2 = 0

namespace HoldsLast

theorem empty (hcap : 0 < cap) : HoldsLast cap ([] : List α) ([], 0) :=
  ⟨by simp [List.rtake], hcap, fun _ => rfl⟩

theorem length_eq (h : HoldsLast cap history r) : r.1.length = min history.length cap := by
  rw [← length_rtake cap history, ← h.contents, List.length_rotate]

theorem perm (h : HoldsLast cap history r) : r.1.Perm (history.rtake cap) := by
  rw [← h.contents]
  exact (List.rotate_perm _ _).symm

theorem push (h : HoldsLast cap history r) (x : α) :
    HoldsLast cap (history ++ [x]) (ringPush cap x r) := by
  have hlen := h.length_eq
  have hcontents := h.contents
  unfold ringPush
  split_ifs with hlt
  · have hzero : r.2 = 0 := h.filling hlt
    rw [hzero, List.rotate_zero] at hcontents
    refine ⟨?_, h.index_lt, fun _ => hzero⟩
    rw [hzero, List.rotate_zero, rtake_concat, ← hcontents, if_pos hlt]
  · have hfull : r.1.length = cap := by omega
    have hi : r.2 < r.1.length := hfull ▸ h.index_lt
    have hmod : (r.1.set r.2 x).rotate ((r.2 + 1) % cap) = (r.1.set r.2 x).rotate (r.2 + 1) := by
      rw [← List.rotate_mod _ (r.2 + 1), List.length_set, hfull]
    refine ⟨?_, Nat.mod_lt _ (Nat.zero_lt_of_lt h.index_lt), ?_⟩
    · have hne : r.1.rotate r.2 ≠ [] := by
        rw [ne_eq, List.rotate_eq_nil_iff]
        rintro hnil
        simp [hnil] at hi
      rw [hmod, rotate_set hi, rtake_concat, ← hcontents, List.length_rotate, if_neg hlt,
        List.tail_append_of_ne_nil hne]
    · simp only [List.length_set]
      exact fun hlt' => absurd hlt' hlt

end HoldsLast

/-! ## Ranks -/

variable [LinearOrder α]

/-- The least member that at least as many members are at most as the rank says. -/
def IsNearestRank (rank : ℕ) (l : List α) (v : α) : Prop :=
  IsLeast {v | v ∈ l ∧ rank ≤ l.countP (· ≤ v)} v

/-- In a sorted list the member of a rank is the one before which there are one fewer. -/
theorem isNearestRank_of_sorted (hl : l.Pairwise (· ≤ ·)) (hi : l[i]? = some x) :
    IsNearestRank (i + 1) l x := by
  obtain ⟨hlt, rfl⟩ := List.getElem?_eq_some_iff.1 hi
  have hsplit : l = l.take i ++ l.drop i := (List.take_append_drop i l).symm
  have hcross := (List.pairwise_append.1 (hsplit ▸ hl)).2.2
  have hdrop : ∀ y ∈ l.drop i, l[i] ≤ y := by
    have hpair := (List.pairwise_append.1 (hsplit ▸ hl)).2.1
    rw [List.drop_eq_getElem_cons hlt] at hpair ⊢
    rw [List.forall_mem_cons]
    exact ⟨le_rfl, (List.pairwise_cons.1 hpair).1⟩
  have hfirst : l[i] ∈ l.drop i := by
    rw [List.drop_eq_getElem_cons hlt]
    exact List.mem_cons_self
  refine ⟨⟨List.getElem_mem hlt, ?_⟩, ?_⟩
  · have htake : (l.take (i + 1)).countP (· ≤ l[i]) = i + 1 := by
      rw [List.countP_eq_length.2, List.length_take, min_eq_left hlt]
      intro y hy
      rw [List.take_succ_eq_append_getElem hlt, List.mem_append, List.mem_singleton] at hy
      rcases hy with hy | rfl
      · simpa using hcross y hy _ hfirst
      · simp
    rw [← htake]
    exact (List.take_sublist _ _).countP_le
  · rintro v ⟨-, hcount⟩
    by_contra hv
    have hnone : (l.drop i).countP (· ≤ v) = 0 := by
      rw [List.countP_eq_zero]
      intro y hy
      simpa using (not_le.1 hv).trans_le (hdrop y hy)
    have hle : (l.take i).countP (· ≤ v) ≤ i :=
      List.countP_le_length.trans (List.length_take_le _ _)
    rw [hsplit, List.countP_append, hnone] at hcount
    omega

end Lib
