import Mathlib

/-!
# Adjacent pairs and tallies

`adjacent` lists each member of a list with the one after it. `tally` says of each member how often
it occurs, in the order of the first occurrences.
-/

namespace Lib

variable {κ : Type*} {l : List κ} {k x : κ}

def adjacent (l : List κ) : List (κ × κ) := l.zip l.tail

theorem adjacent_concat (x : κ) : ∀ (l : List κ),
    adjacent (l ++ [x]) = adjacent l ++ (l.getLast?.map (·, x)).toList
  | [] => rfl
  | [_] => rfl
  | a :: b :: l => by
    have ih := adjacent_concat x (b :: l)
    rw [List.getLast?_cons_cons]
    exact congrArg ((a, b) :: ·) ih

theorem adjacent_prefix_append (l t : List κ) : adjacent l <+: adjacent (l ++ t) := by
  induction t using List.reverseRecOn with
  | nil => rw [List.append_nil]
  | append_singleton t x ih =>
    rw [← List.append_assoc, adjacent_concat]
    exact ih.trans (List.prefix_append _ _)

variable [BEq κ]

def tally (l : List κ) : List (κ × ℕ) := l.eraseDups.map fun k => (k, l.count k)

theorem map_fst_tally (l : List κ) : (tally l).map Prod.fst = l.eraseDups := by
  rw [tally, List.map_map]
  exact List.map_id _

variable [LawfulBEq κ]

theorem eraseDups_concat [DecidableEq κ] (l : List κ) (x : κ) :
    (l ++ [x]).eraseDups = if x ∈ l then l.eraseDups else l.eraseDups ++ [x] := by
  rw [List.eraseDups_append]
  split_ifs with h
  · simp [List.removeAll, h]
  · simp [List.removeAll, h, List.eraseDups_cons]

theorem nodup_eraseDups (l : List κ) : l.eraseDups.Nodup := by
  classical
  induction l using List.reverseRecOn with
  | nil => simp
  | append_singleton l x ih =>
    rw [eraseDups_concat]
    split_ifs with h
    · exact ih
    · rw [List.nodup_append]
      refine ⟨ih, by simp, fun a ha b hb => ?_⟩
      rw [List.mem_singleton.1 hb]
      rintro rfl
      exact h (List.mem_eraseDups.1 ha)

theorem length_tally [DecidableEq κ] (l : List κ) : (tally l).length = l.toFinset.card := by
  rw [tally, List.length_map, ← List.toFinset_card_of_nodup (nodup_eraseDups l)]
  congr 1
  ext k
  simp

theorem mem_tally {e : κ × ℕ} : e ∈ tally l ↔ e.1 ∈ l ∧ e.2 = l.count e.1 := by
  rw [tally, List.mem_map]
  constructor
  · rintro ⟨k, hk, rfl⟩
    exact ⟨List.mem_eraseDups.1 hk, rfl⟩
  · rintro ⟨hk, hcount⟩
    exact ⟨e.1, List.mem_eraseDups.2 hk, by rw [← hcount]⟩

/-- A member that has occurred is counted once more, where it stands. -/
theorem tally_concat_of_mem [DecidableEq κ] (h : x ∈ l) : tally (l ++ [x]) =
    (tally l).map fun e => if e.1 = x then (x, l.count x + 1) else e := by
  rw [tally, eraseDups_concat, if_pos h, tally, List.map_map]
  refine List.map_congr_left fun k _ => ?_
  by_cases hk : k = x
  · subst hk
    simp
  · have hx : x ≠ k := Ne.symm hk
    simp [hk, hx]

/-- A member that has not goes to the end. -/
theorem tally_concat_of_not_mem (h : x ∉ l) : tally (l ++ [x]) = tally l ++ [(x, 1)] := by
  classical
  rw [tally, eraseDups_concat, if_neg h, List.map_append, tally]
  congr 1
  · refine List.map_congr_left fun k hk => ?_
    have hx : x ≠ k := fun hx => h (hx ▸ List.mem_eraseDups.1 hk)
    simp [hx]
  · simp [List.count_eq_zero.2 h]

theorem sum_tally (l : List κ) : ((tally l).map Prod.snd).sum = l.length := by
  classical
  have hfinset : l.eraseDups.toFinset = l.toFinset := by
    ext k
    simp
  have hbeq : ‹BEq κ› = instBEqOfDecidableEq := lawful_beq_subsingleton _ _
  subst hbeq
  rw [tally, List.map_map, ← List.sum_toFinset _ (nodup_eraseDups l), hfinset]
  exact List.sum_toFinset_count_eq_length l

end Lib
