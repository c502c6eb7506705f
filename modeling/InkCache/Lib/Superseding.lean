import Mathlib

/-!
# Messages that supersede one another

Of two messages the one of the greater rank leaves what it would have left alone, whichever of them
comes first (`Superseding`). Then all that matters of many is the greatest: neither their order nor
how often each comes (`foldl_eq`, `foldl_congr`).
-/

namespace Lib

variable {σ μ τ : Type*} [LinearOrder τ] {act : σ → μ → σ} {rank : μ → τ} {M : Set μ} {s : σ}
  {a b : μ} {l l' : List μ}

/-- Among the messages of `M`. -/
def Superseding (act : σ → μ → σ) (rank : μ → τ) (M : Set μ) : Prop :=
  ∀ a ∈ M, ∀ b ∈ M, rank b ≤ rank a → ∀ s, act (act s b) a = act s a ∧ act (act s a) b = act s a

namespace Superseding

/-- Messages of one rank do the same. -/
theorem eq_of_rank (h : Superseding act rank M) (ha : a ∈ M) (hb : b ∈ M)
    (hab : rank a = rank b) : act s a = act s b :=
  ((h a ha b hb hab.ge s).1).symm.trans (h b hb a ha hab.le s).2

/-- Some greatest message leaves what all of them leave. -/
theorem exists_greatest (h : Superseding act rank M) (l : List μ) (s : σ) (hM : ∀ a ∈ l, a ∈ M) :
    l = [] ∨ ∃ a ∈ l, (∀ b ∈ l, rank b ≤ rank a) ∧ l.foldl act s = act s a := by
  induction l using List.reverseRecOn with
  | nil => exact .inl rfl
  | append_singleton l b ih =>
    rw [List.forall_mem_append, List.forall_mem_singleton] at hM
    simp only [List.foldl_append, List.foldl_cons, List.foldl_nil, List.forall_mem_append,
      List.forall_mem_singleton]
    refine .inr ?_
    rcases ih hM.1 with rfl | ⟨a, ha, hle, heq⟩
    · exact ⟨b, by simp, ⟨by simp, le_rfl⟩, rfl⟩
    · rw [heq]
      rcases le_total (rank a) (rank b) with hab | hba
      · exact ⟨b, by simp, ⟨fun c hc => (hle c hc).trans hab, le_rfl⟩,
          (h b hM.2 a (hM.1 a ha) hab s).1⟩
      · exact ⟨a, by simp [ha], ⟨hle, hba⟩, (h a (hM.1 a ha) b hM.2 hba s).2⟩

/-- A greatest message leaves what all of them leave. -/
theorem foldl_eq (h : Superseding act rank M) (hM : ∀ a ∈ l, a ∈ M) (ha : a ∈ l)
    (hle : ∀ b ∈ l, rank b ≤ rank a) (s : σ) : l.foldl act s = act s a := by
  rcases h.exists_greatest l s hM with rfl | ⟨b, hb, hgreatest, heq⟩
  · exact absurd ha List.not_mem_nil
  · rw [heq]
    exact h.eq_of_rank (hM b hb) (hM a ha) (le_antisymm (hle b hb) (hgreatest a ha))

/-- The order of the messages, and how often each comes, do not matter. -/
theorem foldl_congr (h : Superseding act rank M) (hM : ∀ a ∈ l, a ∈ M)
    (hl : ∀ a, a ∈ l' ↔ a ∈ l) (s : σ) : l'.foldl act s = l.foldl act s := by
  rcases h.exists_greatest l s hM with rfl | ⟨a, ha, hle, heq⟩
  · rw [List.eq_nil_iff_forall_not_mem.2 fun a ha => List.not_mem_nil ((hl a).1 ha)]
  · rw [heq]
    exact h.foldl_eq (fun b hb => hM b ((hl b).1 hb)) ((hl a).2 ha)
      (fun b hb => hle b ((hl b).1 hb)) s

end Superseding

end Lib
