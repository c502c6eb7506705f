import Mathlib

/-!
# A file system of names and inodes

A name stands for an inode, and an inode has contents. Opening a name for writing empties its inode,
or gives it a new one; a write goes to an inode at an offset, wherever the name has gone meanwhile;
a rename gives one name the inode of another. No inode has two names.
-/

namespace Lib

variable {P β : Type*}

/-- Every name stands for an inode below `next`, and no two for the same. -/
structure Linked (names : P → Option ℕ) (next : ℕ) : Prop where
  used : ∀ p i, names p = some i → i < next
  single : ∀ p q i, names p = some i → names q = some i → p = q

namespace Linked

variable {names : P → Option ℕ} {next : ℕ} {p : P} {i : ℕ}

theorem mono (h : Linked names next) : Linked names (next + 1) where
  used p i hp := (h.used p i hp).trans (Nat.lt_succ_self _)
  single := h.single

variable [DecidableEq P]

theorem unlink (h : Linked names next) (p : P) : Linked (Function.update names p none) next := by
  have hold : ∀ q i, Function.update names p none q = some i → names q = some i := by
    intro q i hq
    by_cases hqp : q = p
    · subst hqp
      simp at hq
    · rwa [Function.update_of_ne hqp] at hq
  exact ⟨fun q i hq => h.used q i (hold q i hq),
    fun q r i hq hr => h.single q r i (hold q i hq) (hold r i hr)⟩

/-- A name is pointed to an inode that no other name stands for. -/
theorem point (h : Linked names next) (hi : i < next) (hfree : ∀ q, names q = some i → q = p) :
    Linked (Function.update names p (some i)) next := by
  refine ⟨fun q j hq => ?_, fun q r j hq hr => ?_⟩
  · by_cases hqp : q = p
    · subst hqp
      rw [Function.update_self, Option.some.injEq] at hq
      exact hq ▸ hi
    · rw [Function.update_of_ne hqp] at hq
      exact h.used q j hq
  · by_cases hqp : q = p <;> by_cases hrp : r = p
    · rw [hqp, hrp]
    · subst hqp
      rw [Function.update_self, Option.some.injEq] at hq
      rw [Function.update_of_ne hrp] at hr
      exact (hrp (hfree r (hq ▸ hr))).elim
    · subst hrp
      rw [Function.update_self, Option.some.injEq] at hr
      rw [Function.update_of_ne hqp] at hq
      exact (hqp (hfree q (hr ▸ hq))).elim
    · rw [Function.update_of_ne hqp] at hq
      rw [Function.update_of_ne hrp] at hr
      exact h.single q r j hq hr

end Linked

structure FileSystem (P β : Type*) where
  names : P → Option ℕ
  inodes : ℕ → List β
  /-- No inode from here on has been used. -/
  next : ℕ
  linked : Linked names next

namespace FileSystem

def empty : FileSystem P β where
  names _ := none
  inodes _ := []
  next := 0
  linked := ⟨by simp, by simp⟩

/-- The contents of the file a name stands for. -/
def read (p : P) (fs : FileSystem P β) : Option (List β) := (fs.names p).map fs.inodes

variable {fs fs' : FileSystem P β} {p q : P} {i j : ℕ} {c : List β}

theorem read_eq_none : fs.read p = none ↔ fs.names p = none := Option.map_eq_none_iff

def setContents (i : ℕ) (c : List β) (fs : FileSystem P β) : FileSystem P β :=
  { fs with inodes := Function.update fs.inodes i c }

@[simp] theorem names_setContents : (fs.setContents i c).names = fs.names := rfl

@[simp] theorem inodes_setContents : (fs.setContents i c).inodes i = c := Function.update_self ..

theorem read_setContents_of_ne (h : fs.names p ≠ some i) :
    (fs.setContents i c).read p = fs.read p := by
  unfold read
  rcases hp : fs.names p with _ | j
  · rw [names_setContents, hp]
    rfl
  · have hji : j ≠ i := fun he => h (he ▸ hp)
    rw [names_setContents, hp]
    simp [setContents, Function.update_of_ne hji]

/-- `write(2)` at an offset: what lies between the end of the file and the offset is zero. -/
def writeAt [Zero β] (i offset : ℕ) (bytes : List β) (fs : FileSystem P β) : FileSystem P β :=
  fs.setContents i ((fs.inodes i).take offset ++
    List.replicate (offset - (fs.inodes i).length) 0 ++ bytes ++
    (fs.inodes i).drop (offset + bytes.length))

/-- A write where the file ends. -/
theorem writeAt_end [Zero β] {bytes : List β} :
    fs.writeAt i (fs.inodes i).length bytes = fs.setContents i (fs.inodes i ++ bytes) := by
  have hend : (fs.inodes i).drop ((fs.inodes i).length + bytes.length) = [] :=
    List.drop_eq_nil_iff.2 (Nat.le_add_right _ _)
  simp [writeAt, hend]

variable [DecidableEq P]

/-- Opens a name for writing, as `O_CREAT | O_TRUNC` does, and answers the inode. -/
def openTruncate (p : P) (fs : FileSystem P β) : FileSystem P β × ℕ :=
  match fs.names p with
  | some i => (fs.setContents i [], i)
  | none =>
    ({ names := Function.update fs.names p (some fs.next)
       inodes := Function.update fs.inodes fs.next []
       next := fs.next + 1
       linked := fs.linked.mono.point (Nat.lt_succ_self _) fun q hq =>
        (lt_irrefl _ (fs.linked.used q _ hq)).elim }, fs.next)

theorem linked_rename (fs : FileSystem P β) (hp : fs.names p = some i) (q : P) :
    Linked (Function.update (Function.update fs.names p none) q (some i)) fs.next := by
  refine (fs.linked.unlink p).point (fs.linked.used p i hp) fun r hr => ?_
  by_cases hrp : r = p
  · subst hrp
    simp at hr
  · rw [Function.update_of_ne hrp] at hr
    exact (hrp (fs.linked.single r p i hr hp)).elim

/-- `rename(2)`, which fails where there is no file of the first name. -/
def rename (p q : P) (fs : FileSystem P β) : Option (FileSystem P β) :=
  match hp : fs.names p with
  | none => none
  | some i => some
    { fs with
      names := Function.update (Function.update fs.names p none) q (some i)
      linked := fs.linked_rename hp q }

/-! ## What opening and renaming leave -/

theorem openTruncate_spec (p : P) (fs : FileSystem P β) :
    (fs.openTruncate p).1.names p = some (fs.openTruncate p).2 ∧
      (fs.openTruncate p).1.inodes (fs.openTruncate p).2 = [] := by
  unfold openTruncate
  rcases hp : fs.names p with _ | i
  · simp
  · simp [hp]

theorem read_openTruncate_of_ne (h : q ≠ p) : (fs.openTruncate p).1.read q = fs.read q := by
  unfold openTruncate
  rcases hp : fs.names p with _ | i
  · unfold read
    simp only [Function.update_of_ne h]
    rcases hq : fs.names q with _ | j
    · rfl
    · have hj : j ≠ fs.next := (fs.linked.used q j hq).ne
      simp [Function.update_of_ne hj]
  · exact read_setContents_of_ne fun hq => h (fs.linked.single q p i hq hp)

theorem rename_eq_none (h : fs.names p = none) : fs.rename p q = none := by
  unfold rename
  split
  · rfl
  · rename_i i hi
    rw [h] at hi
    simp at hi

theorem rename_of_names (h : fs.names p = some i) (hpq : p ≠ q) : ∃ fs', fs.rename p q = some fs' ∧
    fs'.names p = none ∧ fs'.read q = some (fs.inodes i) ∧ fs'.inodes = fs.inodes := by
  unfold rename
  split
  · rename_i hn
    rw [h] at hn
    simp at hn
  · rename_i i' hi'
    obtain rfl : i' = i := by rw [h] at hi'; exact (Option.some.inj hi').symm
    refine ⟨_, rfl, ?_, ?_, rfl⟩
    · simp [Function.update_of_ne hpq]
    · simp [read]

end FileSystem

end Lib
