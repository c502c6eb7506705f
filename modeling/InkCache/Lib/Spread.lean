import Mathlib

/-!
# How knowledge spreads in rounds

In a round everybody keeps what they know and tells it to their neighbours. What is known somewhere
reaches everybody along the shortest path, so in a connected graph it takes no more rounds than
there are others to tell (`Spreads.everywhere`).
-/

namespace Lib

variable {V U : Type*} {net : SimpleGraph V} {know : ℕ → V → Set U} {n : ℕ}

/-- In each of the first `n` rounds, what somebody knows at the start they know at the end, and so
do their neighbours. -/
structure Spreads (net : SimpleGraph V) (know : ℕ → V → Set U) (n : ℕ) : Prop where
  keeps : ∀ k < n, ∀ v, know k v ⊆ know (k + 1) v
  tells : ∀ k < n, ∀ v w, net.Adj v w → know k v ⊆ know (k + 1) w

namespace Spreads

theorem mono (h : Spreads net know n) {v : V} {k m : ℕ} (hkm : k ≤ m) (hm : m ≤ n) :
    know k v ⊆ know m v := by
  induction m, hkm using Nat.le_induction with
  | base => exact subset_rfl
  | succ m hkm ih => exact (ih (by omega)).trans (h.keeps m (by omega) v)

/-- After as many rounds as a walk is long, its end knows what its start knew. -/
theorem along (h : Spreads net know n) {v w : V} (p : net.Walk v w) :
    ∀ {k : ℕ}, k + p.length ≤ n → know k v ⊆ know (k + p.length) w := by
  induction p with
  | nil => exact fun _ => subset_rfl
  | @cons v u w hadj p ih =>
    intro k hk
    rw [SimpleGraph.Walk.length_cons] at hk ⊢
    have hnext : know k v ⊆ know (k + 1) u := h.tells k (by omega) v u hadj
    have hrest : know (k + 1) u ⊆ know (k + 1 + p.length) w := ih (by omega)
    rw [show k + (p.length + 1) = k + 1 + p.length by omega]
    exact hnext.trans hrest

/-- In a connected graph, what anybody knew at the start everybody knows in the end. -/
theorem everywhere [Fintype V] (h : Spreads net know n) (hnet : net.Connected)
    (hn : Fintype.card V ≤ n + 1) (v w : V) : know 0 v ⊆ know n w := by
  obtain ⟨p, hp⟩ := hnet.exists_isPath v w
  have hlen : p.length < Fintype.card V := hp.length_lt
  have harrives : know 0 v ⊆ know (0 + p.length) w := h.along p (by omega)
  exact harrives.trans (h.mono (by omega) le_rfl)

end Spreads

end Lib
