import Mathlib

/-!
# Connected sets of cells

Cells of the integer plane are neighbours when they have a side in common, and a set is connected
when any two of its cells are joined by a path of neighbours in it. A stretch of a column is
connected, so is the staircase that fills each column from the height of the column before to its
own, and connected sets with a common cell, or with cells that are neighbours, make a connected set.
-/

namespace Lib

abbrev Cell := ℤ × ℤ

/-- The cells have a side in common. -/
def Adjacent (a b : Cell) : Prop := |a.1 - b.1| + |a.2 - b.2| = 1

theorem Adjacent.symm {a b : Cell} (h : Adjacent a b) : Adjacent b a := by
  rw [Adjacent, abs_sub_comm b.1, abs_sub_comm b.2]
  exact h

/-- A path of neighbours in `S`. -/
def PathIn (S : Set Cell) : Cell → Cell → Prop :=
  Relation.ReflTransGen fun a b => a ∈ S ∧ b ∈ S ∧ Adjacent a b

/-- Any two cells of `S` are joined in it. -/
def FourConnected (S : Set Cell) : Prop := ∀ a ∈ S, ∀ b ∈ S, PathIn S a b

variable {S T : Set Cell} {a b c : Cell}

theorem PathIn.refl (a : Cell) : PathIn S a a := Relation.ReflTransGen.refl

theorem PathIn.mono (h : PathIn S a b) (hST : S ⊆ T) : PathIn T a b :=
  Relation.ReflTransGen.mono (fun _ _ hab => ⟨hST hab.1, hST hab.2.1, hab.2.2⟩) a b h

theorem PathIn.symm (h : PathIn S a b) : PathIn S b a :=
  Relation.ReflTransGen.mono (fun _ _ hab => ⟨hab.2.1, hab.1, hab.2.2.symm⟩) b a
    (Relation.ReflTransGen.swap b a h)

theorem PathIn.of_adjacent (ha : a ∈ S) (hb : b ∈ S) (h : Adjacent a b) : PathIn S a b :=
  Relation.ReflTransGen.single ⟨ha, hb, h⟩

/-- All cells are joined to one of them. -/
theorem fourConnected_of_path (h : ∀ a ∈ S, PathIn S a c) : FourConnected S :=
  fun a ha b hb => (h a ha).trans (h b hb).symm

theorem fourConnected_singleton : FourConnected {c} := by
  rintro a rfl b rfl
  exact .refl _

/-- Connected sets are connected together when a cell of one is joined to a cell of the other. -/
theorem FourConnected.union (hS : FourConnected S) (hT : FourConnected T) (ha : a ∈ S) (hb : b ∈ T)
    (h : PathIn (S ∪ T) a b) : FourConnected (S ∪ T) := by
  refine fourConnected_of_path (c := b) ?_
  rintro c (hc | hc)
  · exact ((hS c hc a ha).mono Set.subset_union_left).trans h
  · exact (hT c hc b hb).mono Set.subset_union_right

theorem FourConnected.union_of_mem (hS : FourConnected S) (hT : FourConnected T) (hcS : c ∈ S)
    (hcT : c ∈ T) : FourConnected (S ∪ T) :=
  hS.union hT hcS hcT (.refl c)

theorem FourConnected.union_of_adjacent (hS : FourConnected S) (hT : FourConnected T) (ha : a ∈ S)
    (hb : b ∈ T) (h : Adjacent a b) : FourConnected (S ∪ T) :=
  hS.union hT ha hb (.of_adjacent (.inl ha) (.inr hb) h)

/-! ## Columns and staircases -/

/-- The cells of column `x` between the two heights. -/
def columnCells (x y₁ y₂ : ℤ) : Set Cell := {c | c.1 = x ∧ c.2 ∈ Set.uIcc y₁ y₂}

theorem mem_columnCells_left (x y₁ y₂ : ℤ) : (x, y₁) ∈ columnCells x y₁ y₂ :=
  ⟨rfl, Set.left_mem_uIcc⟩

theorem mem_columnCells_right (x y₁ y₂ : ℤ) : (x, y₂) ∈ columnCells x y₁ y₂ :=
  ⟨rfl, Set.right_mem_uIcc⟩

/-- Each cell is joined to the lowest one, going down a cell at a time. -/
theorem fourConnected_columnCells (x y₁ y₂ : ℤ) : FourConnected (columnCells x y₁ y₂) := by
  have hdown : ∀ n : ℕ, min y₁ y₂ + n ≤ max y₁ y₂ →
      PathIn (columnCells x y₁ y₂) (x, min y₁ y₂ + n) (x, min y₁ y₂) := by
    intro n
    induction n with
    | zero => intro _; simpa using PathIn.refl (x, min y₁ y₂)
    | succ n ih =>
      intro h
      push_cast at h ⊢
      have hcell : ∀ m : ℕ, m ≤ n + 1 → (x, min y₁ y₂ + (m : ℤ)) ∈ columnCells x y₁ y₂ :=
        fun m hm => ⟨rfl, Int.le_add_of_nonneg_right (Int.natCast_nonneg m),
          le_trans (by omega) h⟩
      have hstep : Adjacent (x, min y₁ y₂ + ((n : ℤ) + 1)) (x, min y₁ y₂ + n) := by
        simp [Adjacent]
      exact (PathIn.of_adjacent (by simpa using hcell (n + 1) le_rfl) (hcell n (by omega))
        hstep).trans (ih (by omega))
  refine fourConnected_of_path (c := (x, min y₁ y₂)) ?_
  rintro ⟨x', y⟩ ⟨rfl, hy⟩
  obtain ⟨n, rfl⟩ := Int.le.dest hy.1
  exact hdown n hy.2

/-- Each column from `a` to `b` is filled from the height of the one before to its own. -/
def stairCells (row : ℤ → ℤ) (a b : ℤ) : Set Cell :=
  {c | a ≤ c.1 ∧ c.1 ≤ b ∧ c.2 ∈ Set.uIcc (row (max a (c.1 - 1))) (row c.1)}

theorem stairCells_self (row : ℤ → ℤ) (a : ℤ) : stairCells row a a = {(a, row a)} := by
  ext ⟨x, y⟩
  simp only [stairCells, Set.mem_ofPred_eq, Set.mem_singleton_iff, Prod.mk.injEq]
  constructor
  · rintro ⟨h₁, h₂, hy⟩
    obtain rfl : x = a := le_antisymm h₂ h₁
    rw [max_eq_left (by omega), Set.uIcc_self, Set.mem_singleton_iff] at hy
    exact ⟨rfl, hy⟩
  · rintro ⟨rfl, rfl⟩
    simp

theorem stairCells_succ (row : ℤ → ℤ) {a b : ℤ} (h : a ≤ b) :
    stairCells row a (b + 1) = stairCells row a b ∪ columnCells (b + 1) (row b) (row (b + 1)) := by
  ext ⟨x, y⟩
  simp only [stairCells, columnCells, Set.mem_union, Set.mem_ofPred_eq]
  constructor
  · rintro ⟨h₁, h₂, hy⟩
    by_cases hx : x ≤ b
    · exact .inl ⟨h₁, hx, hy⟩
    · obtain rfl : x = b + 1 := by omega
      rw [add_sub_cancel_right, max_eq_right h] at hy
      exact .inr ⟨rfl, hy⟩
  · rintro (⟨h₁, h₂, hy⟩ | ⟨rfl, hy⟩)
    · exact ⟨h₁, by omega, hy⟩
    · rw [add_sub_cancel_right, max_eq_right h]
      exact ⟨by omega, le_rfl, hy⟩

theorem mem_stairCells_left (row : ℤ → ℤ) {a b : ℤ} (h : a ≤ b) :
    (a, row a) ∈ stairCells row a b :=
  ⟨le_rfl, h, Set.right_mem_uIcc⟩

theorem mem_stairCells_right (row : ℤ → ℤ) {a b : ℤ} (h : a ≤ b) :
    (b, row b) ∈ stairCells row a b :=
  ⟨h, le_rfl, Set.right_mem_uIcc⟩

/-- A column starts beside the end of the one before. -/
theorem fourConnected_stairCells (row : ℤ → ℤ) {a b : ℤ} (h : a ≤ b) :
    FourConnected (stairCells row a b) := by
  induction b, h using Int.leInduction with
  | base =>
    rw [stairCells_self]
    exact fourConnected_singleton
  | succ b hab ih =>
    rw [stairCells_succ row hab]
    exact ih.union_of_adjacent (fourConnected_columnCells _ _ _) (mem_stairCells_right row hab)
      (mem_columnCells_left _ _ _) (by simp [Adjacent])

/-- The staircase stays between two heights if its rows do. -/
theorem stairCells_subset {row : ℤ → ℤ} {a b lo hi : ℤ}
    (hrow : ∀ x, a ≤ x → x ≤ b → row x ∈ Set.uIcc lo hi) {c : Cell} (hc : c ∈ stairCells row a b) :
    c.2 ∈ Set.uIcc lo hi := by
  obtain ⟨h₁, h₂, hy⟩ := hc
  exact Set.uIcc_subset_uIcc (hrow _ (le_max_left _ _) (max_le (h₁.trans h₂) (by omega)))
    (hrow _ h₁ h₂) hy

end Lib
