import Mathlib

/-!
# A list within another

`Within d l l'` says that `l` is what is left of `l'` after at most `d` of its members are dropped.
Two queues that are given the same members and drop their oldest ones when full stay so, if the
second has room for `d` more.
-/

namespace Lib

variable {α : Type*} {d m m' : ℕ} {l l' : List α}

def Within (d : ℕ) (l l' : List α) : Prop := l.Sublist l' ∧ l'.length ≤ l.length + d

/-- A queue of capacity `m` makes room for one member. -/
def makeRoom (m : ℕ) (l : List α) : List α := if m ≤ l.length then l.tail else l

namespace Within

theorem nil : Within d ([] : List α) [] := ⟨List.nil_sublist _, Nat.zero_le _⟩

theorem filter (h : Within d l l') (p : α → Bool) : Within d (l.filter p) (l'.filter p) := by
  refine ⟨h.1.filter p, ?_⟩
  have hdropped : l.countP (fun a => !p a) ≤ l'.countP fun a => !p a := h.1.countP_le
  have hl := List.length_eq_countP_add_countP p (l := l)
  have hl' := List.length_eq_countP_add_countP p (l := l')
  simp only [Bool.not_eq_true, Bool.decide_eq_false] at hl hl'
  rw [← List.countP_eq_length_filter, ← List.countP_eq_length_filter]
  have hlen := h.2
  omega

theorem append (h : Within d l l') (t : List α) : Within d (l ++ t) (l' ++ t) := by
  refine ⟨h.1.append (List.Sublist.refl t), ?_⟩
  have hlen := h.2
  simp only [List.length_append]
  omega

/-- A member of the longer list alone is replaced by another, at the back. -/
theorem replace (h : Within d l l') {p : α → Bool} (hl : ∀ a ∈ l, p a = true) {a : α}
    (ha : a ∈ l') (hp : p a = false) (b : α) : Within d l (l'.filter p ++ [b]) := by
  have hself : l.filter p = l := List.filter_eq_self.2 hl
  have hlt : (l'.filter p).length < l'.length :=
    List.length_filter_lt_length_iff_exists.2 ⟨a, ha, by simp [hp]⟩
  have hsub : l.Sublist (l'.filter p) := hself ▸ h.1.filter p
  refine ⟨hsub.trans (List.sublist_append_left _ _), ?_⟩
  have hlen := h.2
  rw [List.length_append, List.length_singleton]
  omega

/-- Both make room, each only if it is full. -/
theorem makeRoom (h : Within (m' - m) l l') (hm : 1 ≤ m) (hle : m ≤ m') (hl : l.length ≤ m)
    (hl' : l'.length ≤ m') : Within (m' - m) (Lib.makeRoom m l) (Lib.makeRoom m' l') := by
  have hlen := h.2
  unfold Lib.makeRoom
  split_ifs with hfull hfull' hfull'
  · refine ⟨h.1.tail, ?_⟩
    rw [List.length_tail, List.length_tail]
    omega
  · refine ⟨(List.tail_sublist l).trans h.1, ?_⟩
    rw [List.length_tail]
    omega
  · omega
  · exact h

end Within

end Lib
