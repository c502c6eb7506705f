import Mathlib

/-!
# Search by halving

Of a list whose members below a bound come first, `lowerBound` finds how many they are
(`lowerBound_eq_countP`), reading the list at the middle of what is left of it.
-/

namespace Lib

variable {α : Type*} {below : α → Bool} {l : List α} {a : α} {i : ℕ}

/-- Halves `lo ≤ i < hi`. -/
def lowerBound (below : α → Bool) (l : List α) (lo hi : ℕ) : ℕ :=
  if lo < hi then
    let mid := (lo + hi) / 2
    match l[mid]? with
    | none => lo -- not reached: `mid` is an index
    | some a => if below a then lowerBound below l (mid + 1) hi else lowerBound below l lo mid
  else lo
termination_by hi - lo

/-- No member that is below comes after one that is not. -/
def BelowFirst (below : α → Bool) (l : List α) : Prop :=
  l.Pairwise fun a b => below b = true → below a = true

theorem take_drop_of_getElem? (h : l[i]? = some a) :
    l.take (i + 1) = l.take i ++ [a] ∧ l.drop i = a :: l.drop (i + 1) := by
  obtain ⟨hlt, rfl⟩ := List.getElem?_eq_some_iff.1 h
  exact ⟨(List.take_append_getElem hlt).symm, List.drop_eq_getElem_cons hlt⟩

/-- What one probe tells. -/
theorem BelowFirst.probe (hl : BelowFirst below l) (h : l[i]? = some a) :
    (below a = true → ∀ b ∈ l.take (i + 1), below b = true) ∧
      (below a = false → ∀ b ∈ l.drop i, below b = false) := by
  obtain ⟨htake, hdrop⟩ := take_drop_of_getElem? h
  unfold BelowFirst at hl
  rw [← List.take_append_drop i l, hdrop] at hl
  obtain ⟨-, htail, hcross⟩ := List.pairwise_append.1 hl
  rw [htake, hdrop]
  refine ⟨fun ha b hb => ?_, fun ha b hb => ?_⟩
  · rcases List.mem_append.1 hb with hb | hb
    · exact hcross b hb a List.mem_cons_self ha
    · rw [List.mem_singleton.1 hb]
      exact ha
  · rcases List.mem_cons.1 hb with rfl | hb
    · exact ha
    · by_contra hb'
      rw [(List.pairwise_cons.1 htail).1 b hb (by simpa using hb')] at ha
      exact Bool.noConfusion ha

/-- The loop ends where all members before are below and none from there on is. -/
theorem lowerBound_spec (hl : BelowFirst below l) (lo hi : ℕ) (hhi : hi ≤ l.length) (hlo : lo ≤ hi)
    (hbefore : ∀ a ∈ l.take lo, below a = true) (hafter : ∀ a ∈ l.drop hi, below a = false) :
    lowerBound below l lo hi ≤ l.length ∧
      (∀ a ∈ l.take (lowerBound below l lo hi), below a = true) ∧
      ∀ a ∈ l.drop (lowerBound below l lo hi), below a = false := by
  fun_induction lowerBound below l lo hi with
  | case1 lo hi hlt mid hnone =>
    rw [List.getElem?_eq_none_iff] at hnone
    omega
  | case2 lo hi hlt mid a ha hbelow ih => exact ih hhi (by omega) ((hl.probe ha).1 hbelow) hafter
  | case3 lo hi hlt mid a ha hbelow ih =>
    exact ih (by omega) (by omega) hbefore ((hl.probe ha).2 (by simpa using hbelow))
  | case4 lo hi hge =>
    obtain rfl : lo = hi := by omega
    exact ⟨hhi, hbefore, hafter⟩

/-- A place with all members before it below and none from there on is the number that are. -/
theorem eq_countP (hi : i ≤ l.length) (hbefore : ∀ a ∈ l.take i, below a = true)
    (hafter : ∀ a ∈ l.drop i, below a = false) : i = l.countP below := by
  have hall : (l.take i).countP below = i := by
    rw [List.countP_eq_length.2 hbefore, List.length_take, min_eq_left hi]
  have hnone : (l.drop i).countP below = 0 := by
    rw [List.countP_eq_zero]
    intro a ha
    simp [hafter a ha]
  rw [← List.take_append_drop i l, List.countP_append, hall, hnone, add_zero]

/-- Started at a place before which all members are below, the search counts those that are. -/
theorem lowerBound_eq_countP (hl : BelowFirst below l) {lo : ℕ} (hlo : lo ≤ l.length)
    (hbefore : ∀ a ∈ l.take lo, below a = true) :
    lowerBound below l lo l.length = l.countP below := by
  obtain ⟨hle, htake, hdrop⟩ := lowerBound_spec hl lo l.length le_rfl hlo hbefore (by simp)
  exact eq_countP hle htake hdrop

end Lib
