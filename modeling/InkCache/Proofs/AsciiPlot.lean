import InkCache.AsciiPlot

/-!
# A plot draws its series

The grid shows a set of cells, and each step of the drawing loops adds the cells it names: a column
stretch, the staircase of a segment, the trace of all points. The trace is then taken apart into the
runs of the series. A segment lies between its two points because the rounded line does, its columns
follow each other without a gap, and segments of one run meet in a point.
-/

namespace InkCache.AsciiPlot

open Lib

/-! ## Rounding -/

theorem round_mem_Icc {a b : ℤ} {v : ℚ} (ha : a ≤ v) (hb : v ≤ b) :
    a ≤ MetricsCollector.round v ∧ MetricsCollector.round v ≤ b := by
  rw [MetricsCollector.round]
  constructor
  · rw [Int.le_floor]
    linarith
  · rw [← Int.lt_add_one_iff, Int.floor_lt]
    push_cast
    linarith

theorem round_intCast (a : ℤ) : MetricsCollector.round (a : ℚ) = a := by
  obtain ⟨h₁, h₂⟩ := round_mem_Icc (a := a) (b := a) le_rfl le_rfl
  exact le_antisymm h₂ h₁

theorem round_mono {v w : ℚ} (h : v ≤ w) : MetricsCollector.round v ≤ MetricsCollector.round w :=
  Int.floor_mono (by linarith)

/-! ## Segments -/

variable {p q : Cell}

theorem rowAt_left (p q : Cell) : rowAt p q p.1 = p.2 := by
  simp [rowAt, round_intCast]

theorem rowAt_right (h : p.1 ≠ q.1) : rowAt p q q.1 = q.2 := by
  have hne : ((q.1 - p.1 : ℤ) : ℚ) ≠ 0 := by exact_mod_cast sub_ne_zero.2 h.symm
  rw [rowAt, Int.cast_mul, mul_div_assoc, div_self hne, mul_one, ← Int.cast_add,
    add_sub_cancel, round_intCast]

/-- The line stays between the rows of its ends, and so does its rounding. -/
theorem rowAt_mem {x : ℤ} (h₁ : p.1 ≤ x) (h₂ : x ≤ q.1) : rowAt p q x ∈ Set.uIcc p.2 q.2 := by
  have hmul : ((q.2 - p.2) * (x - p.1) : ℤ) / ((q.1 - p.1 : ℤ) : ℚ)
      = (q.2 - p.2) * ((x - p.1 : ℤ) / ((q.1 - p.1 : ℤ) : ℚ)) := by
    push_cast
    ring
  rw [rowAt, hmul]
  set t : ℚ := (x - p.1 : ℤ) / ((q.1 - p.1 : ℤ) : ℚ) with ht
  have ht₀ : 0 ≤ t := div_nonneg (by exact_mod_cast sub_nonneg.2 h₁)
    (by exact_mod_cast sub_nonneg.2 (h₁.trans h₂))
  have ht₁ : t ≤ 1 := div_le_one_of_le₀ (by exact_mod_cast sub_le_sub_right h₂ p.1)
    (by exact_mod_cast sub_nonneg.2 (h₁.trans h₂))
  rcases le_total p.2 q.2 with h | h
  · have hq : (p.2 : ℚ) ≤ q.2 := by exact_mod_cast h
    rw [Set.uIcc_of_le h]
    exact round_mem_Icc (by nlinarith) (by nlinarith)
  · have hq : (q.2 : ℚ) ≤ p.2 := by exact_mod_cast h
    rw [Set.uIcc_of_ge h]
    exact round_mem_Icc (by nlinarith) (by nlinarith)

theorem mem_segmentCells_left (h : p.1 ≤ q.1) : p ∈ segmentCells p q := by
  rw [segmentCells]
  split_ifs
  · exact mem_columnCells_left _ _ _
  · have := mem_stairCells_left (rowAt p q) h
    rwa [rowAt_left] at this

theorem mem_segmentCells_right (h : p.1 ≤ q.1) : q ∈ segmentCells p q := by
  rw [segmentCells]
  split_ifs with hx
  · rw [hx]
    exact mem_columnCells_right _ _ _
  · have := mem_stairCells_right (rowAt p q) h
    rwa [rowAt_right hx] at this

theorem fourConnected_segmentCells (h : p.1 ≤ q.1) : FourConnected (segmentCells p q) := by
  rw [segmentCells]
  split_ifs
  · exact fourConnected_columnCells _ _ _
  · exact fourConnected_stairCells _ h

/-- A segment lies in the box of its two points. -/
theorem segmentCells_box (h : p.1 ≤ q.1) {c : Cell} (hc : c ∈ segmentCells p q) :
    p.1 ≤ c.1 ∧ c.1 ≤ q.1 ∧ c.2 ∈ Set.uIcc p.2 q.2 := by
  rw [segmentCells] at hc
  split_ifs at hc with hx
  · obtain ⟨h₁, h₂⟩ := hc
    exact ⟨h₁.ge, h₁.le.trans h, h₂⟩
  · exact ⟨hc.1, hc.2.1, stairCells_subset (fun x => rowAt_mem) hc⟩

/-! ## What the grid shows -/

variable {o : PlotOptions} {d : UInt16} {S : Set Cell} {grid : Grid}

/-- The dot stands in the cells of `S` that are in the grid, and the others are blank. -/
structure Shows (o : PlotOptions) (d : UInt16) (S : Set Cell) (grid : Grid) : Prop where
  length : grid.length = o.cols * o.rows
  dot : ∀ x y : ℕ, x < o.cols → y < o.rows → ((x, y) : Cell) ∈ S →
    grid[y * o.cols + x]? = some [d]
  blank : ∀ x y : ℕ, x < o.cols → y < o.rows → ((x, y) : Cell) ∉ S →
    grid[y * o.cols + x]? = some (js " ")

theorem index_lt {x y : ℕ} (hx : x < o.cols) (hy : y < o.rows) :
    y * o.cols + x < o.cols * o.rows :=
  calc y * o.cols + x < y * o.cols + o.cols := Nat.add_lt_add_left hx _
    _ = (y + 1) * o.cols := (Nat.succ_mul y o.cols).symm
    _ ≤ o.rows * o.cols := Nat.mul_le_mul_right _ hy
    _ = o.cols * o.rows := Nat.mul_comm _ _

theorem index_inj {x y x' y' : ℕ} (hx : x < o.cols) (hx' : x' < o.cols)
    (h : y * o.cols + x = y' * o.cols + x') : x = x' ∧ y = y' := by
  have hmod := congrArg (· % o.cols) h
  simp only [Nat.mul_add_mod_self_right, Nat.mod_eq_of_lt hx, Nat.mod_eq_of_lt hx'] at hmod
  subst hmod
  exact ⟨rfl, Nat.eq_of_mul_eq_mul_right (by omega) (Nat.add_right_cancel h)⟩

theorem shows_blank : Shows o d ∅ (List.replicate (o.cols * o.rows) (js " ")) where
  length := List.length_replicate
  dot _ _ _ _ h := absurd h (Set.notMem_empty _)
  blank _ _ hx hy _ := List.getElem?_replicate_of_lt (index_lt hx hy)

theorem Shows.set (h : Shows o d S grid) (hdot : o.dot = [d]) (x y : ℤ) :
    Shows o d (insert (x, y) S) (set o grid x y) := by
  rw [AsciiPlot.set]
  split_ifs with hout
  · have hne : ∀ x' y' : ℕ, x' < o.cols → y' < o.rows → ((x', y') : Cell) ≠ (x, y) := by
      rintro x' y' hx' hy' heq
      cases heq
      omega
    exact ⟨h.length,
      fun x' y' hx' hy' hmem => h.dot x' y' hx' hy' (hmem.resolve_left (hne x' y' hx' hy')),
      fun x' y' hx' hy' hmem => h.blank x' y' hx' hy' fun hS => hmem (.inr hS)⟩
  · obtain ⟨hx₀, hx, hy₀, hy⟩ : 0 ≤ x ∧ x < o.cols ∧ 0 ≤ y ∧ y < o.rows := by omega
    lift x to ℕ using hx₀
    lift y to ℕ using hy₀
    have hx : x < o.cols := by exact_mod_cast hx
    have hy : y < o.rows := by exact_mod_cast hy
    have hindex : ((y : ℤ) * o.cols + x).toNat = y * o.cols + x := by
      rw [← Nat.cast_mul, ← Nat.cast_add, Int.toNat_natCast]
    rw [hindex, hdot]
    refine ⟨by rw [List.length_set, h.length], fun x' y' hx' hy' hmem => ?_,
      fun x' y' hx' hy' hmem => ?_⟩
    · by_cases heq : y * o.cols + x = y' * o.cols + x'
      · rw [heq, List.getElem?_set_self (by rw [h.length]; exact index_lt hx' hy')]
      · rw [List.getElem?_set_ne heq]
        refine h.dot x' y' hx' hy' (hmem.resolve_left fun hxy => heq ?_)
        cases hxy
        rfl
    · have hne : y * o.cols + x ≠ y' * o.cols + x' := by
        intro heq
        obtain ⟨rfl, rfl⟩ := index_inj hx hx' heq
        exact hmem (.inl rfl)
      rw [List.getElem?_set_ne hne]
      exact h.blank x' y' hx' hy' fun hS => hmem (.inr hS)

/-! ## The drawing loops -/

theorem mem_upTo {a b i : ℤ} : i ∈ upTo a b ↔ a ≤ i ∧ i ≤ b := by
  simp only [upTo, List.mem_map, List.mem_range]
  constructor
  · rintro ⟨n, hn, rfl⟩
    omega
  · rintro ⟨h₁, h₂⟩
    exact ⟨(i - a).toNat, by omega, by omega⟩

theorem upTo_self (a : ℤ) : upTo a a = [a] := by
  rw [upTo, add_sub_cancel_left]
  simp

theorem upTo_succ {a b : ℤ} (h : a ≤ b) : upTo a (b + 1) = upTo a b ++ [b + 1] := by
  have hlen : (b + 1 + 1 - a).toNat = (b + 1 - a).toNat + 1 := by omega
  have hlast : a + ((b + 1 - a).toNat : ℤ) = b + 1 := by omega
  rw [upTo, hlen, List.range_succ, List.map_append, List.map_singleton, hlast, upTo]

theorem Shows.foldl_set (hdot : o.dot = [d]) (x : ℤ) : ∀ {l : List ℤ} {S : Set Cell} {grid : Grid},
    Shows o d S grid → Shows o d (S ∪ {c | c.1 = x ∧ c.2 ∈ l})
      (l.foldl (fun grid y => AsciiPlot.set o grid x y) grid)
  | [], S, grid, h => by simpa using h
  | y :: l, S, grid, h => by
    have hset : S ∪ {c : Cell | c.1 = x ∧ c.2 ∈ y :: l}
        = insert (x, y) S ∪ {c | c.1 = x ∧ c.2 ∈ l} := by
      ext ⟨x', y'⟩
      simp only [Set.mem_union, Set.mem_insert_iff, Set.mem_ofPred_eq, List.mem_cons,
        Prod.mk.injEq]
      tauto
    rw [hset]
    exact Shows.foldl_set hdot x (h.set hdot x y)

theorem Shows.fill (h : Shows o d S grid) (hdot : o.dot = [d]) (x y₁ y₂ : ℤ) :
    Shows o d (S ∪ columnCells x y₁ y₂) (fill o x y₁ y₂ grid) := by
  have hcells : ∀ a b : ℤ, a ≤ b →
      {c : Cell | c.1 = x ∧ c.2 ∈ upTo a b} = columnCells x a b := by
    intro a b hab
    ext c
    simp only [columnCells, Set.mem_ofPred_eq, mem_upTo, Set.uIcc_of_le hab, Set.mem_Icc]
  rw [AsciiPlot.fill]
  split_ifs with hle
  · rw [← hcells y₁ y₂ hle]
    exact h.foldl_set hdot x
  · have hcomm : columnCells x y₁ y₂ = columnCells x y₂ y₁ := by
      rw [columnCells, columnCells, Set.uIcc_comm]
    rw [hcomm, ← hcells y₂ y₁ (by omega)]
    exact h.foldl_set hdot x

/-- The loop over the columns of a segment has drawn the staircase up to its column, and holds the
row there. -/
theorem Shows.stairs (h : Shows o d S grid) (hdot : o.dot = [d]) (p q : Cell) {b : ℤ}
    (hb : p.1 ≤ b) :
    let s := (upTo p.1 b).foldl (fun (s : Grid × ℤ) x =>
      let y := rowAt p q x
      (AsciiPlot.fill o x s.2 y s.1, y)) (grid, p.2)
    Shows o d (S ∪ stairCells (rowAt p q) p.1 b) s.1 ∧ s.2 = rowAt p q b := by
  induction b, hb using Int.leInduction with
  | base =>
    have hcell : columnCells p.1 p.2 (rowAt p q p.1) = {(p.1, rowAt p q p.1)} := by
      ext c
      simp [rowAt_left, columnCells, Prod.ext_iff]
    rw [upTo_self, stairCells_self, ← hcell]
    exact ⟨h.fill hdot p.1 p.2 _, rfl⟩
  | succ b hb ih =>
    obtain ⟨hshows, hrow⟩ := ih
    rw [upTo_succ hb, stairCells_succ _ hb, ← Set.union_assoc, List.foldl_append]
    refine ⟨?_, rfl⟩
    have := hshows.fill hdot (b + 1) (rowAt p q b) (rowAt p q (b + 1))
    simpa only [List.foldl_cons, List.foldl_nil, hrow] using this

theorem Shows.segment (h : Shows o d S grid) (hdot : o.dot = [d]) {p q : Cell} (hle : p.1 ≤ q.1) :
    Shows o d (S ∪ segmentCells p q) (segment o p q grid) := by
  by_cases hx : p.1 = q.1
  · rw [segmentCells, if_pos hx, AsciiPlot.segment, if_pos (by omega), ← hx]
    exact h.fill hdot _ _ _
  · rw [segmentCells, if_neg hx, AsciiPlot.segment, if_neg (by omega)]
    exact (h.stairs hdot p q hle).1

/-- The points come from left to right. -/
def LeftToRight (ps : List (Option Cell)) : Prop :=
  ∀ i j p q, i ≤ j → valueAt ps i = some p → valueAt ps j = some q → p.1 ≤ q.1

@[simp] theorem valueAt_nil {α : Type} (k : ℕ) : valueAt ([] : List (Option α)) k = none := rfl

@[simp] theorem valueAt_cons_zero {α : Type} (v : Option α) (l : List (Option α)) :
    valueAt (v :: l) 0 = v := rfl

@[simp] theorem valueAt_cons_succ {α : Type} (v : Option α) (l : List (Option α)) (k : ℕ) :
    valueAt (v :: l) (k + 1) = valueAt l k := rfl

theorem LeftToRight.tail {p : Option Cell} {ps : List (Option Cell)} (h : LeftToRight (p :: ps)) :
    LeftToRight ps :=
  fun i j p q hij hp hq => h (i + 1) (j + 1) p q (Nat.succ_le_succ hij) hp hq

theorem LeftToRight.cons_none {ps : List (Option Cell)} (h : LeftToRight ps) :
    LeftToRight (none :: ps) := by
  rintro (_ | i) (_ | j) p q hij hp hq
  · cases hp
  · cases hp
  · omega
  · exact h i j p q (Nat.le_of_succ_le_succ hij) hp hq

/-- The cells that are drawn at a point, with the point before. -/
def stepCells : Option Cell → Option Cell → Set Cell
  | _, none => ∅
  | none, some p => {p}
  | some prev, some p => segmentCells prev p

theorem Shows.draw (h : Shows o d S grid) (hdot : o.dot = [d]) {prev p : Option Cell}
    (hle : ∀ a ∈ prev, ∀ b ∈ p, a.1 ≤ b.1) :
    Shows o d (S ∪ stepCells prev p) (draw o (grid, prev) p).1 ∧ (draw o (grid, prev) p).2 = p := by
  rcases p with _ | p
  · rw [stepCells, Set.union_empty]
    cases prev <;> exact ⟨h, rfl⟩
  · rcases prev with _ | prev
    · refine ⟨?_, rfl⟩
      rw [stepCells, Set.union_comm, ← Set.insert_eq]
      exact h.set hdot p.1 p.2
    · exact ⟨h.segment hdot (hle prev rfl p rfl), rfl⟩

/-- The cells drawn behind the first point. -/
def traceCells (ps : List (Option Cell)) : Set Cell :=
  {c | ∃ k, c ∈ stepCells (valueAt ps k) (valueAt ps (k + 1))}

theorem traceCells_singleton (p : Option Cell) : traceCells [p] = ∅ := by
  refine Set.eq_empty_of_forall_notMem ?_
  rintro c ⟨k, hk⟩
  exact hk

theorem traceCells_cons (prev p : Option Cell) (ps : List (Option Cell)) :
    traceCells (prev :: p :: ps) = stepCells prev p ∪ traceCells (p :: ps) :=
  Set.ext fun c => (Nat.or_exists_add_one (p := fun k =>
    c ∈ stepCells (valueAt (prev :: p :: ps) k) (valueAt (prev :: p :: ps) (k + 1)))).symm

theorem Shows.foldl_draw (hdot : o.dot = [d]) : ∀ {ps : List (Option Cell)} {prev : Option Cell}
    {S : Set Cell} {grid : Grid}, LeftToRight (prev :: ps) → Shows o d S grid →
      Shows o d (S ∪ traceCells (prev :: ps)) (ps.foldl (AsciiPlot.draw o) (grid, prev)).1
  | [], prev, S, grid, _, h => by
    rw [traceCells_singleton, Set.union_empty]
    exact h
  | p :: ps, prev, S, grid, hps, h => by
    obtain ⟨hshows, hp⟩ := h.draw hdot fun a (ha : a ∈ prev) b (hb : b ∈ p) =>
      hps 0 1 a b (Nat.zero_le 1) ha hb
    have ih := Shows.foldl_draw hdot hps.tail hshows
    have hstate : AsciiPlot.draw o (grid, prev) p = ((AsciiPlot.draw o (grid, prev) p).1, p) :=
      Prod.ext rfl hp
    rw [traceCells_cons, ← Set.union_assoc, List.foldl_cons, hstate]
    exact ih

/-! ## The points of a series -/

variable {values : List (Option ℚ)}

theorem valueAt_points (values : List (Option ℚ)) (o : PlotOptions) (k : ℕ) :
    valueAt (points values o) k
      = (valueAt values k).map (point o (seriesBounds values o) values.length k) := by
  rw [valueAt, valueAt, points, List.getElem?_map, List.getElem?_zipIdx]
  rcases values[k]? with _ | v
  · rfl
  · rw [Option.map_some, Option.map_some, Nat.zero_add]
    rfl

theorem lt_length_of_valueAt {α : Type} {l : List (Option α)} {k : ℕ} {v : α}
    (h : valueAt l k = some v) : k < l.length := by
  by_contra hk
  rw [valueAt, List.getElem?_eq_none (by omega)] at h
  cases h

/-- There is a point just where there is a value. -/
theorem valueAt_points_eq_none {k : ℕ} :
    valueAt (points values o) k = none ↔ valueAt values k = none := by
  rw [valueAt_points, Option.map_eq_none_iff]

variable {range : ℚ × ℚ} {n : ℕ}

theorem point_col_mono (hcols : 1 ≤ o.cols) {i j : ℕ} (hij : i ≤ j) (v w : ℚ) :
    (point o range n i v).1 ≤ (point o range n j w).1 := by
  simp only [point]
  split_ifs with hn
  · exact le_rfl
  · have hn' : (1 : ℚ) < n := by exact_mod_cast not_le.1 hn
    have hc : (1 : ℚ) ≤ o.cols := by exact_mod_cast hcols
    have hij' : (i : ℚ) ≤ j := by exact_mod_cast hij
    refine round_mono (mul_le_mul_of_nonneg_right ?_ (by linarith))
    exact div_le_div_of_nonneg_right hij' (by linarith)

theorem point_inGrid (hcols : 1 ≤ o.cols) (hrows : 1 ≤ o.rows) {i : ℕ} (hi : i < n) (v : ℚ) :
    InGrid o (point o range n i v) := by
  have hc : (1 : ℚ) ≤ o.cols := by exact_mod_cast hcols
  have hr : (1 : ℚ) ≤ o.rows := by exact_mod_cast hrows
  have hcol : 0 ≤ (point o range n i v).1 ∧ (point o range n i v).1 ≤ (o.cols : ℤ) - 1 := by
    simp only [point]
    split_ifs with hn
    · omega
    · have hn' : (1 : ℚ) < n := by exact_mod_cast not_le.1 hn
      have hi' : (i : ℚ) ≤ n - 1 := by
        have : (i : ℚ) + 1 ≤ n := by exact_mod_cast hi
        linarith
      have h₀ : (0 : ℚ) ≤ i / (n - 1) := div_nonneg (Nat.cast_nonneg i) (by linarith)
      have h₁ : (i : ℚ) / (n - 1) ≤ 1 := (div_le_one (by linarith)).2 hi'
      refine round_mem_Icc ?_ ?_ <;> push_cast <;> nlinarith
  have hrow : 0 ≤ (point o range n i v).2 ∧ (point o range n i v).2 ≤ (o.rows : ℤ) - 1 := by
    simp only [point]
    set t : ℚ := min 1 (max 0 ((v - range.1) / (range.2 - range.1)))
    have h₀ : 0 ≤ t := le_min zero_le_one (le_max_left _ _)
    have h₁ : t ≤ 1 := min_le_left _ _
    refine round_mem_Icc ?_ ?_ <;> push_cast <;> nlinarith
  exact ⟨hcol.1, by omega, hrow.1, by omega⟩

theorem leftToRight_points (hcols : 1 ≤ o.cols) : LeftToRight (points values o) := by
  intro i j p q hij hp hq
  rw [valueAt_points, Option.map_eq_some_iff] at hp hq
  obtain ⟨v, -, rfl⟩ := hp
  obtain ⟨w, -, rfl⟩ := hq
  exact point_col_mono hcols hij v w

/-! ## Runs -/

theorem exists_run_from {α : Type} {l : List (Option α)} {i : ℕ} (hi : valueAt l i ≠ none) :
    ∃ j, i ≤ j ∧ (∀ k, i ≤ k → k ≤ j → valueAt l k ≠ none) ∧ valueAt l (j + 1) = none := by
  have hex : ∃ m, valueAt l (i + m) = none :=
    ⟨l.length, by rw [valueAt, List.getElem?_eq_none (by omega)]; rfl⟩
  have hfind := Nat.find_spec hex
  have hpos : Nat.find hex ≠ 0 := fun h => hi (by simpa [h] using hfind)
  refine ⟨i + (Nat.find hex - 1), by omega, fun k hik hk => ?_, ?_⟩
  · have := Nat.find_min hex (m := k - i) (by omega)
    rwa [Nat.add_sub_cancel' hik] at this
  · have heq : i + (Nat.find hex - 1) + 1 = i + Nat.find hex := by omega
    rwa [heq]

/-- Every value is in a run. -/
theorem exists_run {α : Type} {l : List (Option α)} : ∀ {k : ℕ}, valueAt l k ≠ none →
    ∃ i j, IsRun l i j ∧ i ≤ k ∧ k ≤ j
  | 0, hk => by
    obtain ⟨j, hj, hpresent, hbehind⟩ := exists_run_from hk
    exact ⟨0, j, ⟨hj, hpresent, fun k h => absurd h (Nat.succ_ne_zero k), hbehind⟩, le_rfl, hj⟩
  | k + 1, hk => by
    by_cases hprev : valueAt l k = none
    · obtain ⟨j, hj, hpresent, hbehind⟩ := exists_run_from hk
      refine ⟨k + 1, j, ⟨hj, hpresent, fun m hm => ?_, hbehind⟩, le_rfl, hj⟩
      rwa [Nat.succ_injective hm]
    · obtain ⟨i, j, hrun, hi, hj⟩ := exists_run hprev
      have hne : k ≠ j := by
        rintro rfl
        exact hk hrun.behind
      exact ⟨i, j, hrun, by omega, by omega⟩

theorem IsRun.runCells_subset {i j : ℕ} (h : IsRun values i j) :
    runCells (points values o) i j ⊆ traceCells (none :: points values o) := by
  rintro c (hc | ⟨k, p, q, -, -, hp, hq, hc⟩)
  · have hbefore : valueAt (none :: AsciiPlot.points values o) i = none := by
      rcases i with _ | i
      · rfl
      · exact valueAt_points_eq_none.2 (h.before i rfl)
    refine ⟨i, ?_⟩
    rw [hbefore, valueAt_cons_succ, show valueAt (AsciiPlot.points values o) i = some c from hc]
    rfl
  · refine ⟨k + 1, ?_⟩
    rw [valueAt_cons_succ, valueAt_cons_succ, hp, hq]
    exact hc

/-- What is drawn on the way to a point is in the run of its value. -/
theorem IsRun.stepCells_subset {i j k : ℕ} (h : IsRun values i j) (hi : i ≤ k) (hj : k ≤ j) :
    stepCells (valueAt (none :: points values o) k) (valueAt (points values o) k)
      ⊆ runCells (points values o) i j := by
  intro c hc
  rcases hq : valueAt (AsciiPlot.points values o) k with _ | q <;> rw [hq] at hc
  · exact absurd hc (Set.notMem_empty c)
  rcases hp : valueAt (none :: AsciiPlot.points values o) k with _ | p <;> rw [hp] at hc
  · -- nothing is before `k`, so the run starts there
    obtain rfl : c = q := hc
    rcases k with _ | k
    · obtain rfl := Nat.le_zero.1 hi
      exact .inl hq
    · have hik : i = k + 1 := by
        by_contra hne
        exact h.present k (by omega) (by omega) (valueAt_points_eq_none.1 hp)
      exact .inl (by rw [hik]; exact hq)
  · rcases k with _ | k
    · cases hp
    have hik : i ≤ k := by
      by_contra hlt
      have hnone := valueAt_points_eq_none (o := o).2 (h.before k (by omega))
      rw [valueAt_cons_succ, hnone] at hp
      cases hp
    exact .inr ⟨k, p, q, hik, by omega, hp, hq, hc⟩

/-- What the loop draws are the cells of the runs. -/
theorem painted_eq : painted values o = traceCells (none :: points values o) := by
  ext c
  constructor
  · rintro ⟨i, j, hrun, hc⟩
    exact hrun.runCells_subset hc
  · rintro ⟨k, hk⟩
    rw [valueAt_cons_succ] at hk
    have hvalue : valueAt values k ≠ none := by
      intro hnone
      rw [valueAt_points_eq_none.2 hnone] at hk
      exact hk
    obtain ⟨i, j, hrun, hi, hj⟩ := exists_run hvalue
    exact ⟨i, j, hrun, hrun.stepCells_subset hi hj hk⟩

/-! ## One run -/

theorem runCells_self {ps : List (Option Cell)} {i : ℕ} {p : Cell} (hp : valueAt ps i = some p) :
    runCells ps i i = {p} := by
  ext c
  simp only [runCells, Set.mem_union, Set.mem_ofPred_eq, hp, Option.some.injEq,
    Set.mem_singleton_iff]
  constructor
  · rintro (rfl | ⟨k, p, q, h₁, h₂, -⟩)
    · rfl
    · omega
  · rintro rfl
    exact .inl rfl

theorem runCells_succ {ps : List (Option Cell)} {i j : ℕ} {p q : Cell} (hij : i ≤ j)
    (hp : valueAt ps j = some p) (hq : valueAt ps (j + 1) = some q) :
    runCells ps i (j + 1) = runCells ps i j ∪ segmentCells p q := by
  ext c
  simp only [runCells, Set.mem_union, Set.mem_ofPred_eq]
  constructor
  · rintro (h | ⟨k, p', q', hik, hkj, hp', hq', hc⟩)
    · exact .inl (.inl h)
    · by_cases hk : k = j
      · subst hk
        cases hp.symm.trans hp'
        cases hq.symm.trans hq'
        exact .inr hc
      · exact .inl (.inr ⟨k, p', q', hik, by omega, hp', hq', hc⟩)
  · rintro ((h | ⟨k, p', q', hik, hkj, hp', hq', hc⟩) | hc)
    · exact .inl h
    · exact .inr ⟨k, p', q', hik, by omega, hp', hq', hc⟩
    · exact .inr ⟨j, p, q, hij, Nat.lt_succ_self j, hp, hq, hc⟩

theorem runCells_mono {ps : List (Option Cell)} {i m j : ℕ} (h : m ≤ j) :
    runCells ps i m ⊆ runCells ps i j := by
  rintro c (hc | ⟨k, p, q, hik, hkm, hp, hq, hc⟩)
  · exact .inl hc
  · exact .inr ⟨k, p, q, hik, by omega, hp, hq, hc⟩

/-- The run up to a point is connected, ends in it and stays left of it. -/
theorem runCells_connected {ps : List (Option Cell)} (hps : LeftToRight ps) {i j : ℕ} (hij : i ≤ j)
    (hpresent : ∀ k, i ≤ k → k ≤ j → valueAt ps k ≠ none) {p q : Cell}
    (hp : valueAt ps i = some p) (hq : valueAt ps j = some q) :
    FourConnected (runCells ps i j) ∧ q ∈ runCells ps i j ∧
      ∀ c ∈ runCells ps i j, p.1 ≤ c.1 ∧ c.1 ≤ q.1 := by
  induction j, hij using Nat.le_induction generalizing q with
  | base =>
    obtain rfl : p = q := Option.some.inj (hp.symm.trans hq)
    rw [runCells_self hp]
    refine ⟨fourConnected_singleton, rfl, ?_⟩
    rintro c rfl
    exact ⟨le_rfl, le_rfl⟩
  | succ j hij ih =>
    obtain ⟨r, hr⟩ := Option.ne_none_iff_exists'.1 (hpresent j hij (Nat.le_succ j))
    obtain ⟨hconn, hmem, hcols⟩ := ih (fun k h₁ h₂ => hpresent k h₁ (by omega)) hr
    have hpr : p.1 ≤ r.1 := hps i j p r hij hp hr
    have hrq : r.1 ≤ q.1 := hps j (j + 1) r q (Nat.le_succ j) hr hq
    rw [runCells_succ hij hr hq]
    refine ⟨hconn.union_of_mem (fourConnected_segmentCells hrq) hmem (mem_segmentCells_left hrq),
      .inr (mem_segmentCells_right hrq), ?_⟩
    rintro c (hc | hc)
    · obtain ⟨h₁, h₂⟩ := hcols c hc
      exact ⟨h₁, h₂.trans hrq⟩
    · obtain ⟨h₁, h₂, -⟩ := segmentCells_box hrq hc
      exact ⟨hpr.trans h₁, h₂⟩

/-- A run of values is a run of points, with a point at either end. -/
theorem IsRun.points {i j : ℕ} (h : IsRun values i j) :
    (∀ k, i ≤ k → k ≤ j → valueAt (points values o) k ≠ none) ∧
    (∃ p, valueAt (points values o) i = some p) ∧ ∃ q, valueAt (points values o) j = some q := by
  have hpresent : ∀ k, i ≤ k → k ≤ j → valueAt (AsciiPlot.points values o) k ≠ none :=
    fun k h₁ h₂ => fun hk => h.present k h₁ h₂ (valueAt_points_eq_none.1 hk)
  exact ⟨hpresent, Option.ne_none_iff_exists'.1 (hpresent i le_rfl h.le),
    Option.ne_none_iff_exists'.1 (hpresent j h.le le_rfl)⟩

/-- The cells of a run are connected and lie between its ends. -/
theorem IsRun.cells (hcols : 1 ≤ o.cols) {i j : ℕ} (h : IsRun values i j) {p q : Cell}
    (hp : valueAt (AsciiPlot.points values o) i = some p)
    (hq : valueAt (AsciiPlot.points values o) j = some q) :
    FourConnected (runCells (AsciiPlot.points values o) i j) ∧
      ∀ c ∈ runCells (AsciiPlot.points values o) i j, p.1 ≤ c.1 ∧ c.1 ≤ q.1 := by
  obtain ⟨hconn, -, hbetween⟩ :=
    runCells_connected (leftToRight_points hcols) h.le h.points.1 hp hq
  exact ⟨hconn, hbetween⟩

theorem runCells_inGrid (hcols : 1 ≤ o.cols) (hrows : 1 ≤ o.rows) {i j : ℕ} {c : Cell}
    (hc : c ∈ runCells (points values o) i j) : InGrid o c := by
  have hgrid : ∀ {k : ℕ} {p : Cell}, valueAt (points values o) k = some p → InGrid o p := by
    intro k p hp
    rw [valueAt_points, Option.map_eq_some_iff] at hp
    obtain ⟨v, hv, rfl⟩ := hp
    exact point_inGrid hcols hrows (lt_length_of_valueAt hv) v
  rcases hc with hc | ⟨k, p, q, -, -, hp, hq, hc⟩
  · exact hgrid hc
  · have hle : p.1 ≤ q.1 := leftToRight_points hcols k (k + 1) p q (Nat.le_succ k) hp hq
    obtain ⟨h₁, h₂, h₃⟩ := segmentCells_box hle hc
    obtain ⟨hp₁, hp₂, hp₃, hp₄⟩ := hgrid hp
    obtain ⟨hq₁, hq₂, hq₃, hq₄⟩ := hgrid hq
    rw [Set.mem_uIcc] at h₃
    exact ⟨by omega, by omega, by omega, by omega⟩

/-- Where values are missing from the end of a run to the index `i'`, every run is left of the gap
or right of it. -/
theorem IsRun.beside_gap {α : Type} {l : List (Option α)} {i j i' a b : ℕ} (h : IsRun l i j)
    (hgap : ∀ k, j < k → k < i' → valueAt l k = none) (hab : IsRun l a b) :
    b ≤ j ∨ i' ≤ a := by
  by_contra hnot
  have hb : j < b := by omega
  have ha : a < i' := by omega
  by_cases haj : a ≤ j
  · exact hab.present (j + 1) (by omega) hb h.behind
  · exact hab.present a le_rfl hab.le (hgap a (by omega) ha)

/-! ## The plot -/

open scoped Classical in
theorem Shows.line (h : Shows o d S grid) {y : ℕ} (hy : y < o.rows) :
    ((grid.drop (y * o.cols)).take o.cols).flatten
      = (List.range o.cols).map fun x : ℕ => if ((x, y) : Cell) ∈ S then d else 32 := by
  have hslice : (grid.drop (y * o.cols)).take o.cols
      = (List.range o.cols).map fun x : ℕ => [if ((x, y) : Cell) ∈ S then d else 32] := by
    refine List.ext_getElem? fun x => ?_
    by_cases hx : x < o.cols
    · rw [List.getElem?_take_of_lt hx, List.getElem?_drop, List.getElem?_map,
        List.getElem?_range hx, Option.map_some]
      by_cases hS : ((x, y) : Cell) ∈ S
      · rw [if_pos hS, h.dot x y hx hy hS]
      · rw [if_neg hS, h.blank x y hx hy hS]
        rfl
    · rw [List.getElem?_eq_none (by simp; omega), List.getElem?_eq_none (by simp; omega)]
  rw [hslice, ← List.flatMap_def, List.map_eq_flatMap]

/-- The text of a plot draws the series, with the dot `d`. -/
structure Draws (values : List (Option ℚ)) (o : PlotOptions) (d : UInt16) (text : JsString) :
    Prop where
  /-- The dot stands in the painted cells, and nowhere else. -/
  lines : ∃ lines : List JsString, text = (js "\n").intercalate lines ∧ lines.length = o.rows ∧
    (∀ line ∈ lines, line.length = o.cols) ∧
    ∀ x y : ℕ, x < o.cols → y < o.rows →
      (((x, y) : Cell) ∈ painted values o → lines[y]?.bind (·[x]?) = some d) ∧
      (((x, y) : Cell) ∉ painted values o → lines[y]?.bind (·[x]?) = some 32)
  inGrid : ∀ c ∈ painted values o, InGrid o c
  value : ∀ k v, valueAt values k = some v →
    ∃ p ∈ painted values o, valueAt (points values o) k = some p
  connected : ∀ i j, IsRun values i j → FourConnected (runCells (points values o) i j)
  columns : ∀ i j p q, IsRun values i j → valueAt (points values o) i = some p →
    valueAt (points values o) j = some q →
    ∀ c ∈ runCells (points values o) i j, p.1 ≤ c.1 ∧ c.1 ≤ q.1
  segment : ∀ k p q, valueAt (points values o) k = some p →
    valueAt (points values o) (k + 1) = some q →
    ∀ c ∈ segmentCells p q, p.1 ≤ c.1 ∧ c.1 ≤ q.1 ∧ c.2 ∈ Set.uIcc p.2 q.2
  gap : ∀ i j i' j' p q, IsRun values i j → IsRun values i' j' →
    (∀ k, j < k → k < i' → valueAt values k = none) → valueAt (points values o) j = some p →
    valueAt (points values o) i' = some q →
    ∀ c ∈ painted values o, ¬ (p.1 < c.1 ∧ c.1 < q.1)

theorem shows_grid (hcols : 1 ≤ o.cols) (hdot : o.dot = [d]) :
    Shows o d (painted values o) ((points values o).foldl (draw o)
      (List.replicate (o.cols * o.rows) (js " "), none)).1 := by
  have hpoints : LeftToRight (none :: points values o) := (leftToRight_points hcols).cons_none
  have h := Shows.foldl_draw hdot hpoints (shows_blank (o := o) (d := d))
  rwa [Set.empty_union, ← painted_eq] at h

open scoped Classical in
theorem getElem?_plotLines (hcols : 1 ≤ o.cols) (hdot : o.dot = [d]) {y : ℕ} (hy : y < o.rows) :
    (plotLines values o)[y]? = some ((List.range o.cols).map fun x : ℕ =>
      if ((x, y) : Cell) ∈ painted values o then d else 32) := by
  have hshows : Shows o d (painted values o) _ := shows_grid hcols hdot
  rw [plotLines, List.getElem?_map, List.getElem?_range hy, Option.map_some, hshows.line hy]

theorem length_of_mem_plotLines (hcols : 1 ≤ o.cols) (hdot : o.dot = [d]) {line : JsString}
    (hline : line ∈ plotLines values o) : line.length = o.cols := by
  classical
  obtain ⟨y, hy, rfl⟩ := List.mem_iff_getElem.1 hline
  have hy' : y < o.rows := by simpa [plotLines] using hy
  have hget : (plotLines values o)[y]? = _ := getElem?_plotLines hcols hdot hy'
  rw [List.getElem?_eq_getElem hy, Option.some.injEq] at hget
  rw [hget, List.length_map, List.length_range]

/-- A plot has as many lines and columns as it was asked for, and in them the cells of its series,
and no others: one for each value that is there, joined to the next within a run, from left to
right, with nothing across a gap. -/
theorem plotSeries_draws (hcols : 1 ≤ o.cols) (hrows : 1 ≤ o.rows) (hdot : o.dot = [d]) :
    Draws values o d (plotSeries values o).text where
  lines := by
    refine ⟨plotLines values o, rfl, by simp [plotLines],
      fun line hline => length_of_mem_plotLines hcols hdot hline,
      fun x y hx hy => ⟨fun hc => ?_, fun hc => ?_⟩⟩
    · rw [getElem?_plotLines hcols hdot hy, Option.bind_some, List.getElem?_map,
        List.getElem?_range hx, Option.map_some, if_pos hc]
    · rw [getElem?_plotLines hcols hdot hy, Option.bind_some, List.getElem?_map,
        List.getElem?_range hx, Option.map_some, if_neg hc]
  inGrid := by
    rintro c ⟨i, j, -, hc⟩
    exact runCells_inGrid hcols hrows hc
  value := by
    intro k v hv
    obtain ⟨i, j, hrun, hi, hj⟩ := exists_run (k := k) (by rw [hv]; exact Option.some_ne_none v)
    obtain ⟨hpresent, ⟨p, hp⟩, -⟩ := hrun.points (o := o)
    obtain ⟨q, hq⟩ := Option.ne_none_iff_exists'.1 (hpresent k hi hj)
    have hmem := (runCells_connected (leftToRight_points hcols) hi
      (fun m h₁ h₂ => hpresent m h₁ (h₂.trans hj)) hp hq).2.1
    exact ⟨q, ⟨i, j, hrun, runCells_mono hj hmem⟩, hq⟩
  connected := by
    intro i j hrun
    obtain ⟨-, ⟨p, hp⟩, ⟨q, hq⟩⟩ := hrun.points (o := o)
    exact (hrun.cells hcols hp hq).1
  columns := fun i j p q hrun hp hq => (hrun.cells hcols hp hq).2
  segment := fun k p q hp hq c hc =>
    segmentCells_box (leftToRight_points hcols k (k + 1) p q (Nat.le_succ k) hp hq) hc
  gap := by
    rintro i j i' j' p q hrun - hgap hp hq c ⟨a, b, hab, hc⟩ ⟨h₁, h₂⟩
    obtain ⟨-, ⟨r, hr⟩, ⟨s, hs⟩⟩ := hab.points (o := o)
    obtain ⟨hr₁, hs₁⟩ := (hab.cells hcols hr hs).2 c hc
    rcases hrun.beside_gap hgap hab with hle | hle
    · have := leftToRight_points hcols b j s p hle hs hp
      omega
    · have := leftToRight_points hcols i' a q r hle hq hr
      omega

/-- Two values with a missing one between them. -/
theorem plotSeries_draws_gap : Draws [some 0, none, some 10] { cols := 3, rows := 5 } 0xB7
    (plotSeries [some 0, none, some 10] { cols := 3, rows := 5 }).text :=
  plotSeries_draws (by decide) (by decide) (by decide)

end InkCache.AsciiPlot
