import Mathlib

/-!
# One vote a term

A ballot is a term and the vote cast in it, if any. It moves on to a later term, or casts the vote
of its term; it never changes a vote that was cast. So what a voter once cast in a term stays its
only vote there, and two majorities of one electorate agree.
-/

namespace Lib

variable {τ κ V : Type*} [LinearOrder τ]

@[ext]
structure Ballot (τ κ : Type*) where
  term : τ
  vote : Option κ

namespace Ballot

/-- `b'` is reached from `b` without changing a vote. -/
def Advances (b b' : Ballot τ κ) : Prop :=
  b.term < b'.term ∨ b.term = b'.term ∧ (b.vote = none ∨ b'.vote = b.vote)

/-- A ballot that `c` was once cast on in term `t`. -/
def Holds (b : Ballot τ κ) (t : τ) (c : κ) : Prop := t ≤ b.term ∧ (t = b.term → b.vote = some c)

variable {b b' : Ballot τ κ} {t : τ} {c c' : κ}

theorem Advances.refl (b : Ballot τ κ) : b.Advances b := .inr ⟨rfl, .inr rfl⟩

theorem Advances.term_le (h : b.Advances b') : b.term ≤ b'.term := by
  rcases h with h | ⟨h, -⟩
  · exact h.le
  · exact h.le

theorem Holds.advances (hh : b.Holds t c) (h : b.Advances b') : b'.Holds t c := by
  refine ⟨hh.1.trans h.term_le, fun ht => ?_⟩
  rcases h with h | ⟨he, h⟩
  · exact absurd (ht ▸ hh.1) h.not_ge
  · have hv := hh.2 (ht.trans he.symm)
    rcases h with h | h
    · rw [hv] at h
      simp at h
    · exact h.trans hv

theorem holds_self (h : b.vote = some c) : b.Holds b.term c := ⟨le_rfl, fun _ => h⟩

theorem Holds.unique (h : b.Holds b.term c) (h' : b.Holds b.term c') : c = c' := by
  have hc := h.2 rfl
  rw [h'.2 rfl] at hc
  exact (Option.some.inj hc).symm

/-- The votes that have been cast on a ballot, one a term. -/
structure Cast (votes : List (τ × κ)) (b : Ballot τ κ) : Prop where
  holds : ∀ v ∈ votes, b.Holds v.1 v.2
  unique : ∀ v ∈ votes, ∀ v' ∈ votes, v.1 = v'.1 → v.2 = v'.2

variable {votes : List (τ × κ)}

theorem Cast.advances (hc : Cast votes b) (h : b.Advances b') : Cast votes b' :=
  ⟨fun v hv => (hc.holds v hv).advances h, hc.unique⟩

theorem Cast.vote (hc : Cast votes b) (h : b.vote = some c) :
    Cast (votes ++ [(b.term, c)]) b := by
  have hold : ∀ v ∈ votes, v.1 = b.term → v.2 = c := by
    intro v hv hterm
    have hheld := hc.holds v hv
    rw [hterm] at hheld
    exact hheld.unique (holds_self h)
  refine ⟨?_, ?_⟩
  · rw [List.forall_mem_append, List.forall_mem_singleton]
    exact ⟨hc.holds, holds_self h⟩
  · intro v hv v' hv' hterm
    rcases List.mem_append.1 hv with hv | hv <;> rcases List.mem_append.1 hv' with hv' | hv'
    · exact hc.unique v hv v' hv' hterm
    · rw [List.mem_singleton.1 hv'] at hterm ⊢
      exact hold v hv hterm
    · rw [List.mem_singleton.1 hv] at hterm ⊢
      exact (hold v' hv' hterm.symm).symm
    · rw [List.mem_singleton.1 hv, List.mem_singleton.1 hv']

end Ballot

/-! ## Majorities -/

def Majority [Fintype V] (Q : Finset V) : Prop := Fintype.card V < 2 * Q.card

/-- Where every voter has one vote in a term, two majorities of the term vote for the same. -/
theorem majority_unique [Fintype V] {voted : V → κ → Prop}
    (hone : ∀ v c c', voted v c → voted v c' → c = c') {Q Q' : Finset V} {c c' : κ}
    (hQ : Majority Q) (hQ' : Majority Q') (hc : ∀ v ∈ Q, voted v c) (hc' : ∀ v ∈ Q', voted v c') :
    c = c' := by
  classical
  have hinter : (Q ∩ Q').Nonempty := by
    refine Finset.inter_nonempty_of_card_lt_card_add_card (Finset.subset_univ Q)
      (Finset.subset_univ Q') ?_
    unfold Majority at hQ hQ'
    rw [Finset.card_univ]
    omega
  obtain ⟨v, hv⟩ := hinter
  rw [Finset.mem_inter] at hv
  exact hone v c c' (hc v hv.1) (hc' v hv.2)

end Lib
