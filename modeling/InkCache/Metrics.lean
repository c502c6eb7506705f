import InkCache.Lib.LowerBound
import InkCache.Lib.Run

/-!
# The metrics (`src/core/metrics.ts`)

`now` is what `Date.now()` answers, a whole number of milliseconds. The latencies and the rates are
exact numbers. The history of snapshots that a timer keeps is left out: it calls `snapshot` and
changes nothing else.
-/

namespace InkCache

open Lib

inductive OpType where
  | get
  | set
  | delete
  deriving DecidableEq

/-- Absent figures, which are `null`, are `none`. -/
structure LatencySnapshot where
  avgUs : Option ℚ
  p95Us : Option ℚ
  samples : ℕ
  deriving DecidableEq

structure MetricsSnapshot where
  uptimeSec : ℚ
  hits : ℕ
  misses : ℕ
  hitRate : Option ℚ
  sets : ℕ
  deletes : ℕ
  opsPerSec : ℚ
  latency : LatencySnapshot
  deriving DecidableEq

/-- `LATENCY_SAMPLE_CAP` -/
def latencySampleCap : ℕ := 512

/-- `THROUGHPUT_WINDOW_MS` -/
def throughputWindowMs : ℤ := 10000

/-- `opTimestamps` is a queue whose front is at `opTimestampsHead`. -/
structure MetricsCollector where
  hits : ℕ
  misses : ℕ
  sets : ℕ
  deletes : ℕ
  startedAt : ℤ
  latenciesUs : List ℚ
  latencyIdx : ℕ
  opTimestamps : List ℤ
  opTimestampsHead : ℕ
  latencySum : ℚ
  deriving DecidableEq

namespace MetricsCollector

def new (now : ℤ) : MetricsCollector where
  hits := 0
  misses := 0
  sets := 0
  deletes := 0
  startedAt := now
  latenciesUs := []
  latencyIdx := 0
  opTimestamps := []
  opTimestampsHead := 0
  latencySum := 0

/-! ## `record` -/

/-- The counters; a `get` that does not say whether it hit is a miss. -/
def count (op : OpType) (hit : Option Bool) (m : MetricsCollector) : MetricsCollector :=
  match op with
  | .get => if hit = some true then { m with hits := m.hits + 1 }
    else { m with misses := m.misses + 1 }
  | .set => { m with sets := m.sets + 1 }
  | .delete => { m with deletes := m.deletes + 1 }

/-- The ring buffer of the latencies, with their sum. -/
def sample (latencyUs : ℚ) (m : MetricsCollector) : MetricsCollector :=
  if m.latenciesUs.length < latencySampleCap then
    { m with
      latenciesUs := m.latenciesUs ++ [latencyUs]
      latencySum := m.latencySum + latencyUs }
  else
    -- the oldest sample is overwritten
    { m with
      latencySum := m.latencySum + (latencyUs - m.latenciesUs.getD m.latencyIdx 0)
      latenciesUs := m.latenciesUs.set m.latencyIdx latencyUs
      latencyIdx := (m.latencyIdx + 1) % latencySampleCap }

/-- The loop that moves the head past the timestamps before the window. -/
def prune (opTimestamps : List ℤ) (cutoff : ℤ) (head : ℕ) : ℕ :=
  match h : opTimestamps[head]? with
  | none => head
  | some t => if t < cutoff then prune opTimestamps cutoff (head + 1) else head
termination_by opTimestamps.length - head
decreasing_by
  obtain ⟨hlt, -⟩ := List.getElem?_eq_some_iff.1 h
  omega

/-- The prefix before the head is dropped once it is long, and longer than the rest. -/
def compact (m : MetricsCollector) : MetricsCollector :=
  if 256 < m.opTimestampsHead ∧ m.opTimestamps.length < m.opTimestampsHead * 2 then
    { m with opTimestamps := m.opTimestamps.drop m.opTimestampsHead, opTimestampsHead := 0 }
  else m

def stamp (now : ℤ) (m : MetricsCollector) : MetricsCollector :=
  let opTimestamps := m.opTimestamps ++ [now]
  let cutoff := now - throughputWindowMs
  { m with
    opTimestamps
    opTimestampsHead := prune opTimestamps cutoff m.opTimestampsHead }.compact

def record (now : ℤ) (op : OpType) (latencyUs : ℚ) (hit : Option Bool) (m : MetricsCollector) :
    MetricsCollector :=
  ((m.count op hit).sample latencyUs).stamp now

/-! ## `snapshot` -/

def uptimeSec (now : ℤ) (m : MetricsCollector) : ℚ := ((now - m.startedAt : ℤ) : ℚ) / 1000

/-- `Math.round` -/
def round (x : ℚ) : ℤ := ⌊x + 1 / 2⌋

/-- The sample of the nearest rank to the 95th percentile. -/
def p95 (sorted : List ℚ) : Option ℚ :=
  if 0 < sorted.length then
    sorted[min (sorted.length - 1) (⌈(sorted.length : ℚ) * (95 / 100)⌉ - 1).toNat]?
  else none

/-- The operations in the window that ends now: the first one is found from the head on. -/
def recentCount (now : ℤ) (m : MetricsCollector) : ℕ :=
  let cutoff := now - throughputWindowMs
  m.opTimestamps.length -
    lowerBound (fun t => t < cutoff) m.opTimestamps m.opTimestampsHead m.opTimestamps.length

def snapshot (now : ℤ) (m : MetricsCollector) : MetricsSnapshot :=
  let reads := m.hits + m.misses
  let sorted := m.latenciesUs.insertionSort (· ≤ ·)
  let avg := if 0 < m.latenciesUs.length then some (m.latencySum / m.latenciesUs.length) else none
  { uptimeSec := m.uptimeSec now
    hits := m.hits
    misses := m.misses
    hitRate := if 0 < reads then some (m.hits / reads) else none
    sets := m.sets
    deletes := m.deletes
    opsPerSec := m.recentCount now / (throughputWindowMs / 1000 : ℚ)
    latency :=
      { avgUs := avg.map fun avg => (round (avg * 100) : ℚ) / 100
        p95Us := p95 sorted
        samples := sorted.length } }

end MetricsCollector

/-! ## Runs -/

/-- The arguments of a `record`, and the clock at it. -/
structure RecordCall where
  now : ℤ
  op : OpType
  latencyUs : ℚ
  hit : Option Bool

def MetricsCollector.recordAll (calls : List RecordCall) (m : MetricsCollector) :
    MetricsCollector :=
  calls.foldl (fun m call => m.record call.now call.op call.latencyUs call.hit) m

inductive MetricsAction where
  | record (now : ℤ) (op : OpType) (latencyUs : ℚ) (hit : Option Bool)
  | snapshot (now : ℤ)

/-- A collector with the clock of its last `record`, or of its construction. -/
structure TimedMetrics where
  clock : ℤ
  metrics : MetricsCollector

/-- Reports the timestamp of each `record`. -/
def metricsStep (s : TimedMetrics) : MetricsAction → Option (TimedMetrics × List ℤ)
  | .record now op latencyUs hit => some (⟨now, s.metrics.record now op latencyUs hit⟩, [now])
  | .snapshot _ => some (s, [])

/-- The clock does not run backwards between one `record` and the next. -/
def RecordedInOrder (s : TimedMetrics) : MetricsAction → Prop
  | .record now _ _ _ => s.clock ≤ now
  | .snapshot _ => True

instance (s : TimedMetrics) : ∀ a, Decidable (RecordedInOrder s a)
  | .record now _ _ _ => inferInstanceAs (Decidable (s.clock ≤ now))
  | .snapshot _ => instDecidableTrue

end InkCache
