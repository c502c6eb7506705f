import Mathlib

/-!
# Stable sorting by a key

`stableSort key` orders a list by `key` and leaves members of equal keys in the order they come in.
So a sorted list is determined by its classes of equal keys (`sorted_ext`), and the sort commutes
with everything that can be said class by class.
-/

namespace Lib

variable {α β : Type*} [LinearOrder β] (key : α → β)

def stableSort (l : List α) : List α := l.insertionSort fun a b => key a ≤ key b

/-- Sorted by the key. -/
def SortedBy (l : List α) : Prop := l.Pairwise fun a b => key a ≤ key b

variable {key} {l l₁ l₂ : List α}

instance keyLe_total : Std.Total (fun a b : α => key a ≤ key b) :=
  ⟨fun a b => le_total (key a) (key b)⟩

instance keyLe_trans : IsTrans α (fun a b => key a ≤ key b) := ⟨fun _ _ _ => le_trans⟩

theorem sortedBy_stableSort (l : List α) : SortedBy key (stableSort key l) :=
  List.pairwise_insertionSort _ l

theorem stableSort_perm (l : List α) : (stableSort key l).Perm l := List.perm_insertionSort _ l

theorem mem_stableSort {a : α} : a ∈ stableSort key l ↔ a ∈ l := (stableSort_perm l).mem_iff

theorem stableSort_of_sortedBy (h : SortedBy key l) : stableSort key l = l :=
  List.Pairwise.insertionSort_eq h

theorem filter_orderedInsert (b : β) (a : α) : ∀ (l : List α),
    (l.orderedInsert (fun a b => key a ≤ key b) a).filter (fun x => key x = b) =
      (a :: l).filter fun x => key x = b
  | [] => rfl
  | c :: l => by
    rw [List.orderedInsert_cons]
    split_ifs with hac
    · rfl
    · rw [List.filter_cons, filter_orderedInsert b a l]
      have hlt : key c < key a := not_le.1 hac
      by_cases hc : key c = b
      · have ha : key a ≠ b := (hc ▸ hlt).ne'
        simp [hc, ha]
      · simp [List.filter_cons, hc]

/-- The sort does not reorder a class. -/
theorem filter_stableSort (b : β) : ∀ (l : List α),
    (stableSort key l).filter (fun x => key x = b) = l.filter fun x => key x = b
  | [] => rfl
  | a :: l => by
    have ih := filter_stableSort b l
    unfold stableSort at ih ⊢
    rw [List.insertionSort_cons, filter_orderedInsert]
    simp only [List.filter_cons, ih]

/-- Two sorted lists with the same classes are the same. -/
theorem sorted_ext : ∀ {l₁ l₂ : List α}, SortedBy key l₁ → SortedBy key l₂ →
    (∀ b, l₁.filter (fun x => key x = b) = l₂.filter fun x => key x = b) → l₁ = l₂
  | [], [], _, _, _ => rfl
  | [], a :: l, _, _, h => by simpa using h (key a)
  | a :: l, [], _, _, h => by simpa using h (key a)
  | a₁ :: l₁, a₂ :: l₂, h₁, h₂, h => by
    obtain ⟨hle₁, hs₁⟩ := List.pairwise_cons.1 h₁
    obtain ⟨hle₂, hs₂⟩ := List.pairwise_cons.1 h₂
    have hmem₁ : a₁ ∈ a₂ :: l₂ := by
      have hm : a₁ ∈ (a₁ :: l₁).filter fun x => key x = key a₁ := by simp
      rw [h] at hm
      exact (List.mem_filter.1 hm).1
    have hmem₂ : a₂ ∈ a₁ :: l₁ := by
      have hm : a₂ ∈ (a₂ :: l₂).filter fun x => key x = key a₂ := by simp
      rw [← h] at hm
      exact (List.mem_filter.1 hm).1
    have hkey : key a₁ = key a₂ := by
      refine le_antisymm ?_ ?_
      · rcases List.mem_cons.1 hmem₂ with rfl | hm
        · exact le_rfl
        · exact hle₁ a₂ hm
      · rcases List.mem_cons.1 hmem₁ with rfl | hm
        · exact le_rfl
        · exact hle₂ a₁ hm
    have hhead : a₁ = a₂ := by
      have hc := h (key a₁)
      simp only [List.filter_cons, decide_true, if_true, hkey, List.cons.injEq] at hc
      exact hc.1
    subst hhead
    rw [sorted_ext hs₁ hs₂ fun b => ?_]
    have hc := h b
    simp only [List.filter_cons] at hc
    split_ifs at hc with hb
    · exact (List.cons.inj hc).2
    · exact hc

theorem filter_comm (p q : α → Bool) (l : List α) :
    (l.filter p).filter q = (l.filter q).filter p := by
  rw [List.filter_filter, List.filter_filter]
  exact List.filter_congr fun a _ => Bool.and_comm _ _

theorem stableSort_filter (p : α → Bool) (l : List α) :
    stableSort key (l.filter p) = (stableSort key l).filter p := by
  refine sorted_ext (sortedBy_stableSort _) ((sortedBy_stableSort l).sublist List.filter_sublist)
    fun b => ?_
  rw [filter_stableSort, filter_comm, filter_comm p, filter_stableSort]

/-- Sorting again after appending to a sorted list is sorting once. -/
theorem stableSort_append_stableSort (l₁ l₂ : List α) :
    stableSort key (stableSort key l₁ ++ l₂) = stableSort key (l₁ ++ l₂) := by
  refine sorted_ext (sortedBy_stableSort _) (sortedBy_stableSort _) fun b => ?_
  rw [filter_stableSort, filter_stableSort, List.filter_append, filter_stableSort,
    List.filter_append]

/-! ## Reading a sorted list clockwise -/

/-- The first member at or past `h`, or the first of all if there is none. -/
def firstFrom (key : α → β) (h : β) (l : List α) : Option α :=
  (l.find? fun a => h ≤ key a).or l.head?

/-- Of the values in `K`, the least at or past `h`, or the least of all if there is none. -/
def LandsOn (K : Set β) (h x : β) : Prop :=
  x ∈ K ∧ (h ≤ x ∧ (∀ y ∈ K, h ≤ y → x ≤ y) ∨ (∀ y ∈ K, y < h) ∧ ∀ y ∈ K, x ≤ y)

variable {h : β} {a : α}

theorem LandsOn.unique {K : Set β} {x y : β} (hx : LandsOn K h x) (hy : LandsOn K h y) :
    x = y := by
  obtain ⟨hxK, ⟨hhx, hxmin⟩ | ⟨hpast, hxmin⟩⟩ := hx <;>
    obtain ⟨hyK, ⟨hhy, hymin⟩ | ⟨hpast', hymin⟩⟩ := hy
  · exact le_antisymm (hxmin y hyK hhy) (hymin x hxK hhx)
  · exact absurd hhx (hpast' x hxK).not_ge
  · exact absurd hhy (hpast y hyK).not_ge
  · exact le_antisymm (hxmin y hyK) (hymin x hxK)

/-- A member is found by its place, or all are before `h` and it is the first. -/
theorem firstFrom_eq_some (ha : firstFrom key h l = some a) :
    (∃ l₁ l₂, l = l₁ ++ a :: l₂ ∧ h ≤ key a ∧ ∀ b ∈ l₁, key b < h) ∨
      (∃ l₂, l = a :: l₂) ∧ ∀ b ∈ l, key b < h := by
  unfold firstFrom at ha
  rcases hf : l.find? (fun a => h ≤ key a) with _ | c <;> rw [hf] at ha
  · rw [Option.none_or, List.head?_eq_some_iff] at ha
    refine .inr ⟨ha, fun b hb => ?_⟩
    simpa using List.find?_eq_none.1 hf b hb
  · rw [Option.some_or, Option.some.injEq] at ha
    subst ha
    obtain ⟨hc, l₁, l₂, hl, hb⟩ := List.find?_eq_some_iff_append.1 hf
    exact .inl ⟨l₁, l₂, hl, by simpa using hc, fun b hb' => by simpa using hb b hb'⟩

theorem firstFrom_eq_none : firstFrom key h l = none ↔ l = [] := by
  unfold firstFrom
  rcases l with _ | ⟨a, l⟩
  · simp
  · rcases List.find? (fun a => decide (h ≤ key a)) (a :: l) <;> simp

/-- Deleting members does not change the one that is found, if it stays. -/
theorem firstFrom_filter {p : α → Bool} (ha : firstFrom key h l = some a) (hp : p a = true) :
    firstFrom key h (l.filter p) = some a := by
  rcases firstFrom_eq_some ha with ⟨l₁, l₂, rfl, hle, hbefore⟩ | ⟨⟨l₂, rfl⟩, hbefore⟩
  · have hf : ((l₁ ++ a :: l₂).filter p).find? (fun a => h ≤ key a) = some a := by
      refine List.find?_eq_some_iff_append.2
        ⟨by simpa using hle, l₁.filter p, l₂.filter p, by simp [List.filter_append, hp], ?_⟩
      intro b hb
      simpa using hbefore b (List.mem_of_mem_filter hb)
    rw [firstFrom, hf, Option.some_or]
  · have hf : ((a :: l₂).filter p).find? (fun a => h ≤ key a) = none := by
      rw [List.find?_eq_none]
      intro b hb
      simpa using hbefore b (List.mem_of_mem_filter hb)
    rw [firstFrom, hf, Option.none_or, List.filter_cons, if_pos hp, List.head?_cons]

/-- In a sorted list, the member found has the key that `h` lands on, and is the first of its
class. -/
theorem firstFrom_landsOn (hs : SortedBy key l) (ha : firstFrom key h l = some a) :
    LandsOn {x | ∃ b ∈ l, key b = x} h (key a) ∧
      (l.filter fun b => key b = key a).head? = some a := by
  rcases firstFrom_eq_some ha with ⟨l₁, l₂, rfl, hle, hbefore⟩ | ⟨⟨l₂, rfl⟩, hbefore⟩
  · obtain ⟨-, htail, -⟩ := List.pairwise_append.1 hs
    have hmin := (List.pairwise_cons.1 htail).1
    refine ⟨⟨⟨a, by simp, rfl⟩, .inl ⟨hle, ?_⟩⟩, ?_⟩
    · rintro _ ⟨b, hb, rfl⟩ hhb
      rcases List.mem_append.1 hb with hb | hb
      · exact absurd hhb (hbefore b hb).not_ge
      · rcases List.mem_cons.1 hb with rfl | hb
        · exact le_rfl
        · exact hmin b hb
    · have hnil : (l₁.filter fun b => key b = key a) = [] := by
        rw [List.filter_eq_nil_iff]
        intro b hb
        simpa using ((hbefore b hb).trans_le hle).ne
      rw [List.filter_append, hnil, List.nil_append]
      simp
  · have hmin := (List.pairwise_cons.1 hs).1
    refine ⟨⟨⟨a, by simp, rfl⟩, .inr ⟨?_, ?_⟩⟩, by simp⟩
    · rintro _ ⟨b, hb, rfl⟩
      exact hbefore b hb
    · rintro _ ⟨b, hb, rfl⟩
      rcases List.mem_cons.1 hb with rfl | hb
      · exact le_rfl
      · exact hmin b hb

end Lib
