import InkCache.Js
import InkCache.Lib.Grid
import InkCache.Metrics

/-!
# Line plots on a character grid

A series is drawn as a trace through the cells of its values; where a value is missing the trace is
broken. The numbers are exact. What the trace covers is also stated without the grid: the cells of
one segment, and those of a run of values.
-/

namespace InkCache

open Lib

namespace AsciiPlot

/-- `PLOT_DOT` -/
def plotDot : JsString := js "·"

structure PlotOptions where
  cols : ℕ
  rows : ℕ
  min : Option ℚ := none
  max : Option ℚ := none
  dot : JsString := plotDot

structure PlotResult where
  text : JsString
  min : ℚ
  max : ℚ

/-- The bounds of the axis, for a list that is not empty. -/
def bounds (values : List ℚ) (min max : Option ℚ) : ℚ × ℚ :=
  let lo := min.getD (values.min?.getD 0)
  let hi := max.getD (values.max?.getD 0)
  -- flat series still needs a drawable range
  (lo, if hi ≤ lo then lo + 1 else hi)

/-- The bounds for a series. -/
def seriesBounds (values : List (Option ℚ)) (o : PlotOptions) : ℚ × ℚ :=
  let present := values.reduceOption
  bounds (if present.isEmpty then [0] else present) o.min o.max

/-- The cell of the value `v`, the `i`-th of `n`. -/
def point (o : PlotOptions) (range : ℚ × ℚ) (n i : ℕ) (v : ℚ) : Cell :=
  let t := (v - range.1) / (range.2 - range.1)
  (if n ≤ 1 then 0 else MetricsCollector.round ((i / (n - 1) : ℚ) * (o.cols - 1)),
    -- Row 0 is the top of the plot, so invert.
    MetricsCollector.round ((1 - min 1 (max 0 t)) * (o.rows - 1)))

def points (values : List (Option ℚ)) (o : PlotOptions) : List (Option Cell) :=
  values.zipIdx.map fun v => v.1.map (point o (seriesBounds values o) values.length v.2)

/-- The cells of the grid, row by row. -/
abbrev Grid := List JsString

def set (o : PlotOptions) (grid : Grid) (x y : ℤ) : Grid :=
  if x < 0 ∨ o.cols ≤ x ∨ y < 0 ∨ o.rows ≤ y then grid
  else grid.set (y * o.cols + x).toNat o.dot

/-- `for (let i = a; i <= b; i++)` -/
def upTo (a b : ℤ) : List ℤ := (List.range (b + 1 - a).toNat).map fun i : ℕ => a + i

/-- Sets the cells of column `x` from one row to the other. -/
def fill (o : PlotOptions) (x : ℤ) (y₁ y₂ : ℤ) (grid : Grid) : Grid :=
  let (a, b) := if y₁ ≤ y₂ then (y₁, y₂) else (y₂, y₁)
  (upTo a b).foldl (fun grid y => set o grid x y) grid

/-- The row of the line from `prev` to `p` in column `x`. -/
def rowAt (prev p : Cell) (x : ℤ) : ℤ :=
  MetricsCollector.round (prev.2 + ((p.2 - prev.2) * (x - prev.1) : ℤ) / (p.1 - prev.1 : ℤ))

/-- Draws from `prev` to `p`. -/
def segment (o : PlotOptions) (prev p : Cell) (grid : Grid) : Grid :=
  if p.1 - prev.1 = 0 then fill o p.1 prev.2 p.2 grid
  else
    ((upTo prev.1 p.1).foldl (fun (s : Grid × ℤ) x =>
      let y := rowAt prev p x
      -- Fill the vertical run too
      (fill o x s.2 y s.1, y)) (grid, prev.2)).1

/-- One turn of the loop over the points, with the point before. -/
def draw (o : PlotOptions) : Grid × Option Cell → Option Cell → Grid × Option Cell
  -- A gap in the data breaks the trace instead of being bridged
  | (grid, _), none => (grid, none)
  | (grid, some prev), some p => (segment o prev p grid, some p)
  | (grid, none), some p => (set o grid p.1 p.2, some p)

/-- The lines of the plot. -/
def plotLines (values : List (Option ℚ)) (o : PlotOptions) : List JsString :=
  let grid := ((points values o).foldl (draw o)
    (List.replicate (o.cols * o.rows) (js " "), none)).1
  (List.range o.rows).map fun r => ((grid.drop (r * o.cols)).take o.cols).flatten

/-- Rasterize one series. -/
def plotSeries (values : List (Option ℚ)) (o : PlotOptions) : PlotResult where
  text := (js "\n").intercalate (plotLines values o)
  min := (seriesBounds values o).1
  max := (seriesBounds values o).2

/-! ## What a trace covers -/

/-- What a list has at an index, and nothing behind its end. -/
def valueAt {α : Type} (l : List (Option α)) (i : ℕ) : Option α := l[i]?.join

def InGrid (o : PlotOptions) (c : Cell) : Prop :=
  0 ≤ c.1 ∧ c.1 < o.cols ∧ 0 ≤ c.2 ∧ c.2 < o.rows

/-- The cells of the segment from `p` to `q`: a stretch of their column, or the staircase along the
line. -/
def segmentCells (p q : Cell) : Set Cell :=
  if p.1 = q.1 then columnCells p.1 p.2 q.2 else stairCells (rowAt p q) p.1 q.1

/-- The values from index `i` to index `j` are a run: none is missing, and one is missing at either
end. -/
structure IsRun {α : Type} (values : List (Option α)) (i j : ℕ) : Prop where
  le : i ≤ j
  present : ∀ k, i ≤ k → k ≤ j → valueAt values k ≠ none
  before : ∀ k, k + 1 = i → valueAt values k = none
  behind : valueAt values (j + 1) = none

/-- The cells of a run: the first point and the segments. -/
def runCells (points : List (Option Cell)) (i j : ℕ) : Set Cell :=
  {c | valueAt points i = some c} ∪
    {c | ∃ k p q, i ≤ k ∧ k < j ∧ valueAt points k = some p ∧ valueAt points (k + 1) = some q ∧
      c ∈ segmentCells p q}

/-- The cells of all runs. -/
def painted (values : List (Option ℚ)) (o : PlotOptions) : Set Cell :=
  {c | ∃ i j, IsRun values i j ∧ c ∈ runCells (points values o) i j}

end AsciiPlot

end InkCache
