import InkCache.Js
import InkCache.Lib.RingBuffer
import InkCache.Metrics

/-!
# The latency statistics

Read from its index on, the buffer is the last 512 latencies, and `latencySum` is its sum
(`Sampled`): a sample that is overwritten is the oldest, and leaves the sum with it. The sorted
buffer has the sample of each rank in its place, and the rank of the 95th percentile is the least
that has 95% of the samples at most as large.
-/

namespace InkCache

open Lib

namespace MetricsCollector

variable {m : MetricsCollector} {history : List ℚ} {sorted : List ℚ} {v : ℚ}

/-- The ring buffer and the sum against all the latencies so far. -/
structure Sampled (history : List ℚ) (m : MetricsCollector) : Prop where
  buffer : HoldsLast latencySampleCap history (m.latenciesUs, m.latencyIdx)
  sum : m.latencySum = m.latenciesUs.sum

theorem sampled_new (t₀ : ℤ) : Sampled [] (.new t₀) :=
  ⟨.empty (by decide), rfl⟩

theorem sample_ring (latencyUs : ℚ) (m : MetricsCollector) :
    ((m.sample latencyUs).latenciesUs, (m.sample latencyUs).latencyIdx) =
      ringPush latencySampleCap latencyUs (m.latenciesUs, m.latencyIdx) := by
  unfold sample ringPush
  split_ifs <;> rfl

/-- The sum changes with the sample that the index points at, if there is one there. -/
theorem sample_sum (hidx : m.latenciesUs.length < latencySampleCap ∨
    m.latencyIdx < m.latenciesUs.length) (hsum : m.latencySum = m.latenciesUs.sum)
    (latencyUs : ℚ) : (m.sample latencyUs).latencySum = (m.sample latencyUs).latenciesUs.sum := by
  unfold sample
  split_ifs with hlt
  · rw [List.sum_append, List.sum_singleton, hsum]
  · have hin : m.latencyIdx < m.latenciesUs.length := hidx.resolve_left hlt
    have hold : m.latenciesUs.getD m.latencyIdx 0 = m.latenciesUs[m.latencyIdx] := by
      simp [hin]
    rw [List.sum_set', dif_pos hin, hsum, hold]
    ring

theorem Sampled.sample (h : Sampled history m) (latencyUs : ℚ) :
    Sampled (history ++ [latencyUs]) (m.sample latencyUs) := by
  have hbuffer := h.buffer.push latencyUs
  rw [← sample_ring] at hbuffer
  refine ⟨hbuffer, sample_sum ?_ h.sum latencyUs⟩
  have hidx : m.latencyIdx < latencySampleCap := h.buffer.index_lt
  by_contra hcon
  rw [not_or] at hcon
  exact hcon.2 (hidx.trans_le (not_lt.1 hcon.1))

theorem Sampled.count (h : Sampled history m) (op : OpType) (hit : Option Bool) :
    Sampled history (m.count op hit) := by
  cases op with
  | get =>
    unfold MetricsCollector.count
    split_ifs
    · exact ⟨h.buffer, h.sum⟩
    · exact ⟨h.buffer, h.sum⟩
  | set | delete => exact ⟨h.buffer, h.sum⟩

theorem Sampled.compact (h : Sampled history m) : Sampled history m.compact := by
  unfold MetricsCollector.compact
  split_ifs
  · exact ⟨h.buffer, h.sum⟩
  · exact ⟨h.buffer, h.sum⟩

theorem Sampled.stamp (h : Sampled history m) (now : ℤ) : Sampled history (m.stamp now) :=
  Sampled.compact ⟨h.buffer, h.sum⟩

theorem Sampled.record (h : Sampled history m) (now : ℤ) (op : OpType) (latencyUs : ℚ)
    (hit : Option Bool) : Sampled (history ++ [latencyUs]) (m.record now op latencyUs hit) :=
  ((h.count op hit).sample latencyUs).stamp now

theorem Sampled.recordAll : ∀ (calls : List RecordCall) {history : List ℚ} {m : MetricsCollector},
    Sampled history m → Sampled (history ++ calls.map (·.latencyUs)) (m.recordAll calls)
  | [], history, m, h => by
    rw [List.map_nil, List.append_nil]
    exact h
  | call :: calls, history, m, h => by
    have := Sampled.recordAll calls (h.record call.now call.op call.latencyUs call.hit)
    rwa [List.append_assoc] at this

/-! ## The percentile -/

/-- The rank of the 95th percentile of `n` samples, counted from one. -/
def rank95 (n : ℕ) : ℕ := ⌈(n : ℚ) * (95 / 100)⌉₊

theorem rank95_le_iff {n k : ℕ} : rank95 n ≤ k ↔ 95 * n ≤ 100 * k := by
  rw [rank95, Nat.ceil_le, ← @Nat.cast_le ℚ]
  push_cast
  constructor
  · intro h
    linarith
  · intro h
    linarith

theorem rank95_pos {n : ℕ} (hn : 0 < n) : 0 < rank95 n :=
  Nat.ceil_pos.2 (by positivity)

theorem p95_eq (hn : 0 < sorted.length) : p95 sorted = sorted[rank95 sorted.length - 1]? := by
  have hle : rank95 sorted.length ≤ sorted.length := rank95_le_iff.2 (by omega)
  have hceil : (⌈(sorted.length : ℚ) * (95 / 100)⌉ - 1).toNat = rank95 sorted.length - 1 := by
    rw [rank95, ← Int.ceil_toNat]
    omega
  rw [p95, if_pos hn, hceil, min_eq_right (by omega)]

/-- The sample that `p95` answers is the least that 95% of the samples are at most. -/
theorem p95_isLeast (hsorted : sorted.Pairwise (· ≤ ·)) (hv : p95 sorted = some v) :
    IsLeast {v | v ∈ sorted ∧ 95 * sorted.length ≤ 100 * sorted.countP (· ≤ v)} v := by
  have hn : 0 < sorted.length := by
    by_contra hn
    rw [p95, if_neg hn] at hv
    cases hv
  rw [p95_eq hn] at hv
  have hrank := isNearestRank_of_sorted hsorted hv
  rw [Nat.sub_add_cancel (rank95_pos hn)] at hrank
  simpa only [IsNearestRank, rank95_le_iff] using hrank

theorem p95_eq_none_iff : p95 sorted = none ↔ sorted = [] := by
  constructor
  · intro h
    by_contra hne
    have hn : 0 < sorted.length := List.length_pos_iff.2 hne
    rw [p95_eq hn, List.getElem?_eq_none_iff] at h
    have : rank95 sorted.length ≤ sorted.length := rank95_le_iff.2 (by omega)
    have := rank95_pos hn
    omega
  · rintro rfl
    rfl

/-! ## `snapshot` -/

/-- The latencies of a snapshot, of the last 512 records. -/
theorem Sampled.snapshot (h : Sampled history m) (now : ℤ) :
    let last := history.rtake latencySampleCap
    let latency := (m.snapshot now).latency
    latency.samples = last.length ∧
      latency.avgUs = (if last = [] then none else
        some ((⌊last.sum / last.length * 100 + 1 / 2⌋ : ℚ) / 100)) ∧
      (latency.p95Us = none ↔ last = []) ∧
      ∀ v, latency.p95Us = some v →
        IsLeast {v | v ∈ last ∧ 95 * last.length ≤ 100 * last.countP (· ≤ v)} v := by
  intro last latency
  have hbuffer : m.latenciesUs.Perm last := h.buffer.perm
  have hsorted : (m.latenciesUs.insertionSort (· ≤ ·)).Perm last :=
    (List.perm_insertionSort _ _).trans hbuffer
  refine ⟨hsorted.length_eq, ?_, ?_, fun v hv => ?_⟩
  · by_cases hlast : last = []
    · have hempty : m.latenciesUs = [] := List.Perm.eq_nil (hlast ▸ hbuffer)
      simp [latency, MetricsCollector.snapshot, hempty, hlast]
    · have hpos : 0 < m.latenciesUs.length := by
        rw [hbuffer.length_eq]
        exact List.length_pos_iff.2 hlast
      rw [if_neg hlast, ← hbuffer.length_eq, ← hbuffer.sum_eq, ← h.sum]
      simp only [latency, MetricsCollector.snapshot, if_pos hpos, Option.map_some, round]
  · refine p95_eq_none_iff.trans ⟨fun hnil => ?_, fun hnil => ?_⟩
    · exact List.Perm.nil_eq (hnil ▸ hsorted) |>.symm
    · exact List.Perm.eq_nil (hnil ▸ hsorted)
  · have hleast := p95_isLeast (List.pairwise_insertionSort _ _) hv
    simpa only [hsorted.mem_iff, hsorted.length_eq, hsorted.countP_eq] using hleast

end MetricsCollector

/-- After any records the buffer has the last 512 latencies and `latencySum` is their sum; a
snapshot has their number, their mean to two decimals, and the least of them that 95% are at
most. -/
theorem latency_statistics (t₀ : ℤ) (calls : List RecordCall) :
    let last := (calls.map (·.latencyUs)).rtake 512
    let m := (MetricsCollector.new t₀).recordAll calls
    m.latenciesUs.Perm last ∧ m.latencySum = last.sum ∧ ∀ now,
      let latency := (m.snapshot now).latency
      latency.samples = min calls.length 512 ∧
        latency.avgUs = (if calls.length = 0 then none else
          some ((⌊last.sum / last.length * 100 + 1 / 2⌋ : ℚ) / 100)) ∧
        (latency.p95Us = none ↔ calls.length = 0) ∧
        ∀ v, latency.p95Us = some v →
          IsLeast {v | v ∈ last ∧ 95 * last.length ≤ 100 * last.countP (· ≤ v)} v := by
  intro last m
  have h : MetricsCollector.Sampled (calls.map (·.latencyUs)) m :=
    (MetricsCollector.sampled_new t₀).recordAll calls
  have hperm : m.latenciesUs.Perm last := h.buffer.perm
  have hlen : last.length = min calls.length 512 := by
    simp only [last, length_rtake, List.length_map]
  have hnil : last = [] ↔ calls.length = 0 := by
    rw [← List.length_eq_zero_iff, hlen]
    omega
  refine ⟨hperm, h.sum.trans hperm.sum_eq, fun now => ?_⟩
  have hsnap := h.snapshot now
  simp only [show latencySampleCap = 512 from rfl] at hsnap
  obtain ⟨hsamples, havg, hp95, hleast⟩ := hsnap
  exact ⟨hsamples.trans hlen, havg.trans (if_congr hnil rfl rfl), hp95.trans hnil, hleast⟩

end InkCache
