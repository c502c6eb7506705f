import InkCache.Metrics

/-!
# The throughput window

The queue holds the end of the history of timestamps: those before its head, and those that were
dropped from it, are before the window of the last `record` (`Windowed`). Later windows begin no
earlier, so a count over the queue is a count over the history (`recentCount_eq`).
-/

namespace InkCache

open Lib

namespace MetricsCollector

variable {m : MetricsCollector} {now cutoff : ℤ} {l log : List ℤ} {head : ℕ}

/-- Sorted timestamps have those before the window first. -/
theorem belowFirst (hl : l.Pairwise (· ≤ ·)) (cutoff : ℤ) : BelowFirst (fun t => t < cutoff) l :=
  hl.imp fun {a b} hab hb => by
    rw [decide_eq_true_eq] at hb ⊢
    omega

/-! ## `record` -/

@[simp] theorem count_opTimestamps (op : OpType) (hit : Option Bool) :
    (m.count op hit).opTimestamps = m.opTimestamps := by
  cases op with
  | get => unfold count; split_ifs <;> rfl
  | set | delete => rfl

@[simp] theorem count_opTimestampsHead (op : OpType) (hit : Option Bool) :
    (m.count op hit).opTimestampsHead = m.opTimestampsHead := by
  cases op with
  | get => unfold count; split_ifs <;> rfl
  | set | delete => rfl

@[simp] theorem sample_opTimestamps (latencyUs : ℚ) :
    (m.sample latencyUs).opTimestamps = m.opTimestamps := by
  unfold sample
  split_ifs <;> rfl

@[simp] theorem sample_opTimestampsHead (latencyUs : ℚ) :
    (m.sample latencyUs).opTimestampsHead = m.opTimestampsHead := by
  unfold sample
  split_ifs <;> rfl

/-- The head stops where the timestamps before it are before the window and no other is. -/
theorem prune_spec (hl : l.Pairwise (· ≤ ·)) (hhead : head ≤ l.length)
    (hbefore : ∀ t ∈ l.take head, t < cutoff) :
    prune l cutoff head ≤ l.length ∧ (∀ t ∈ l.take (prune l cutoff head), t < cutoff) ∧
      ∀ t ∈ l.drop (prune l cutoff head), cutoff ≤ t := by
  fun_induction prune l cutoff head with
  | case1 head hnone =>
    rw [List.getElem?_eq_none_iff] at hnone
    refine ⟨hhead, hbefore, ?_⟩
    rw [List.drop_eq_nil_of_le hnone]
    simp
  | case2 head t ht hlt ih =>
    obtain ⟨hlen, -⟩ := List.getElem?_eq_some_iff.1 ht
    refine ih hlen fun t' ht' => ?_
    rw [(take_drop_of_getElem? ht).1] at ht'
    rcases List.mem_append.1 ht' with ht' | ht'
    · exact hbefore t' ht'
    · rw [List.mem_singleton.1 ht']
      exact hlt
  | case3 head t ht hge =>
    refine ⟨hhead, hbefore, fun t' ht' => ?_⟩
    have hprobe := ((belowFirst hl cutoff).probe ht).2 (by simpa using hge) t' ht'
    simpa using hprobe

/-- The queue, with its head, against the history of timestamps and the clock of the last one. -/
structure Windowed (log : List ℤ) (clock : ℤ) (opTimestamps : List ℤ) (head : ℕ) : Prop where
  sorted : log.Pairwise (· ≤ ·)
  le_clock : ∀ t ∈ log, t ≤ clock
  head_le : head ≤ opTimestamps.length
  split : ∃ dropped, log = dropped ++ opTimestamps ∧
    ∀ t ∈ dropped ++ opTimestamps.take head, t < clock - throughputWindowMs
  inside : ∀ t ∈ opTimestamps.drop head, clock - throughputWindowMs ≤ t

namespace Windowed

variable {clock : ℤ}

theorem sorted_queue (h : Windowed log clock l head) : l.Pairwise (· ≤ ·) := by
  obtain ⟨dropped, rfl, -⟩ := h.split
  exact h.sorted.sublist (List.sublist_append_right _ _)

/-- Moving the head after a new timestamp. -/
theorem push (h : Windowed log clock l head) (hnow : clock ≤ now) :
    Windowed (log ++ [now]) now (l ++ [now])
      (prune (l ++ [now]) (now - throughputWindowMs) head) := by
  have hsorted : (log ++ [now]).Pairwise (· ≤ ·) := by
    refine List.pairwise_append.2 ⟨h.sorted, List.pairwise_singleton _ _, fun t ht t' ht' => ?_⟩
    rw [List.mem_singleton.1 ht']
    exact (h.le_clock t ht).trans hnow
  obtain ⟨dropped, hlog, hstale⟩ := h.split
  have hqueue : (l ++ [now]).Pairwise (· ≤ ·) := by
    rw [hlog, List.append_assoc] at hsorted
    exact hsorted.sublist (List.sublist_append_right _ _)
  have hbefore : ∀ t ∈ (l ++ [now]).take head, t < now - throughputWindowMs := by
    intro t ht
    rw [List.take_append_of_le_length h.head_le] at ht
    have := hstale t (List.mem_append_right _ ht)
    omega
  obtain ⟨hle, htake, hdrop⟩ := prune_spec hqueue
    (h.head_le.trans (by simp)) hbefore
  refine ⟨hsorted, fun t ht => ?_, hle, ⟨dropped, by rw [hlog, List.append_assoc], ?_⟩, hdrop⟩
  · rcases List.mem_append.1 ht with ht | ht
    · exact (h.le_clock t ht).trans hnow
    · rw [List.mem_singleton.1 ht]
  · intro t ht
    rcases List.mem_append.1 ht with ht | ht
    · have := hstale t (List.mem_append_left _ ht)
      omega
    · exact htake t ht

/-- Dropping the prefix before the head. -/
theorem drop (h : Windowed log clock l head) : Windowed log clock (l.drop head) 0 := by
  obtain ⟨dropped, hlog, hstale⟩ := h.split
  refine ⟨h.sorted, h.le_clock, Nat.zero_le _, ⟨dropped ++ l.take head, ?_, ?_⟩, h.inside⟩
  · rw [List.append_assoc, List.take_append_drop, hlog]
  · rw [List.take_zero, List.append_nil]
    exact hstale

/-- The members of the queue that are in the window are those from the head on. -/
theorem countP_inside (h : Windowed log clock l head) :
    l.countP (fun t => clock - throughputWindowMs ≤ t) = l.length - head := by
  obtain ⟨dropped, hlog, hstale⟩ := h.split
  have hnone : (l.take head).countP (fun t => clock - throughputWindowMs ≤ t) = 0 := by
    rw [List.countP_eq_zero]
    intro t ht
    have := hstale t (List.mem_append_right _ ht)
    rw [decide_eq_true_eq]
    omega
  have hall : (l.drop head).countP (fun t => clock - throughputWindowMs ≤ t) =
      (l.drop head).length := by
    rw [List.countP_eq_length]
    intro t ht
    simpa using h.inside t ht
  calc l.countP (fun t => clock - throughputWindowMs ≤ t)
      = (l.take head ++ l.drop head).countP (fun t => clock - throughputWindowMs ≤ t) := by
        rw [List.take_append_drop]
    _ = l.length - head := by rw [List.countP_append, hnone, hall, zero_add, List.length_drop]

end Windowed

theorem windowed_compact {clock : ℤ} (h : Windowed log clock m.opTimestamps m.opTimestampsHead) :
    Windowed log clock m.compact.opTimestamps m.compact.opTimestampsHead := by
  unfold compact
  split_ifs
  · exact h.drop
  · exact h

theorem compact_bound (m : MetricsCollector) : m.compact.opTimestampsHead ≤ 256 ∨
    2 * m.compact.opTimestampsHead ≤ m.compact.opTimestamps.length := by
  unfold compact
  split_ifs with h
  · exact .inl (Nat.zero_le _)
  · rw [not_and_or] at h
    omega

theorem windowed_record {clock : ℤ} (h : Windowed log clock m.opTimestamps m.opTimestampsHead)
    (hnow : clock ≤ now) (op : OpType) (latencyUs : ℚ) (hit : Option Bool) :
    Windowed (log ++ [now]) now (m.record now op latencyUs hit).opTimestamps
      (m.record now op latencyUs hit).opTimestampsHead := by
  unfold record stamp
  refine windowed_compact ?_
  simp only [sample_opTimestamps, sample_opTimestampsHead, count_opTimestamps,
    count_opTimestampsHead]
  exact h.push hnow

theorem windowed_run {t₀ : ℤ} {s : TimedMetrics}
    (h : Run metricsStep RecordedInOrder ⟨t₀, .new t₀⟩ log s) :
    Windowed log s.clock s.metrics.opTimestamps s.metrics.opTimestampsHead := by
  refine h.invariant (I := fun log s => Windowed log s.clock s.metrics.opTimestamps
    s.metrics.opTimestampsHead) ?_ ?_
  · exact ⟨List.Pairwise.nil, by simp, le_rfl, ⟨[], rfl, by simp [new]⟩, by simp [new]⟩
  · intro log s a s' es hI ha he
    cases a with
    | snapshot now =>
      simp only [metricsStep, Option.some.injEq, Prod.mk.injEq] at he
      obtain ⟨rfl, rfl⟩ := he
      rw [List.append_nil]
      exact hI
    | record now op latencyUs hit =>
      simp only [metricsStep, Option.some.injEq, Prod.mk.injEq] at he
      obtain ⟨rfl, rfl⟩ := he
      exact windowed_record hI ha op latencyUs hit

/-! ## `snapshot` -/

/-- From the last `record` on, the search over the queue counts what the history has in the
window. -/
theorem recentCount_eq {clock : ℤ} (h : Windowed log clock m.opTimestamps m.opTimestampsHead)
    (hnow : clock ≤ now) :
    m.recentCount now = log.countP fun t => now - throughputWindowMs ≤ t := by
  obtain ⟨dropped, hlog, hstale⟩ := h.split
  have hbefore : ∀ t ∈ m.opTimestamps.take m.opTimestampsHead,
      decide (t < now - throughputWindowMs) = true := by
    intro t ht
    have := hstale t (List.mem_append_right _ ht)
    rw [decide_eq_true_eq]
    omega
  have hsearch := lowerBound_eq_countP (belowFirst h.sorted_queue (now - throughputWindowMs))
    h.head_le hbefore
  have hdropped : dropped.countP (fun t => now - throughputWindowMs ≤ t) = 0 := by
    rw [List.countP_eq_zero]
    intro t ht
    have := hstale t (List.mem_append_left _ ht)
    rw [decide_eq_true_eq]
    omega
  have hcompl := List.length_eq_countP_add_countP (fun t => decide (t < now - throughputWindowMs))
    (l := m.opTimestamps)
  have hnot : (m.opTimestamps.countP fun t => ¬ decide (t < now - throughputWindowMs) = true) =
      m.opTimestamps.countP fun t => now - throughputWindowMs ≤ t := by
    congr 1
    funext t
    simp
  simp only [recentCount]
  rw [hsearch, hlog, List.countP_append, hdropped, zero_add, ← hnot]
  omega

end MetricsCollector

/-- At any time from the last `record` on, `snapshot` reports a tenth of the number of records in
the last ten seconds; and a `record` leaves a prefix that is short, or no longer than the rest. -/
theorem throughput_window {t₀ : ℤ} {log : List ℤ} {s : TimedMetrics}
    (h : Run metricsStep RecordedInOrder ⟨t₀, .new t₀⟩ log s) :
    (∀ now, s.clock ≤ now →
      (s.metrics.snapshot now).opsPerSec * 10 = log.countP fun t => now - 10000 ≤ t) ∧
    ∀ now op latencyUs hit, s.clock ≤ now →
      let m := s.metrics.record now op latencyUs hit
      let inside := m.opTimestamps.countP fun t => now - 10000 ≤ t
      (m.opTimestampsHead ≤ 256 ∨ 2 * m.opTimestampsHead ≤ m.opTimestamps.length) ∧
        m.opTimestamps.length ≤ max (inside + 256) (2 * inside) := by
  have hw := MetricsCollector.windowed_run h
  refine ⟨fun now hnow => ?_, fun now op latencyUs hit hnow => ?_⟩
  · have hcount := MetricsCollector.recentCount_eq hw hnow
    unfold throughputWindowMs at hcount
    simp only [MetricsCollector.snapshot, hcount, throughputWindowMs]
    norm_num
  · intro m inside
    have hm := MetricsCollector.windowed_record hw hnow op latencyUs hit
    have hbound : m.opTimestampsHead ≤ 256 ∨ 2 * m.opTimestampsHead ≤ m.opTimestamps.length :=
      MetricsCollector.compact_bound _
    have hinside : inside = m.opTimestamps.length - m.opTimestampsHead := hm.countP_inside
    have hle : m.opTimestampsHead ≤ m.opTimestamps.length := hm.head_le
    refine ⟨hbound, ?_⟩
    rw [le_max_iff]
    omega

/-- Of four records two are still in the window three seconds after the last one. -/
theorem throughput_window_idle : ∃ (log : List ℤ) (s : TimedMetrics),
    Run metricsStep RecordedInOrder ⟨0, .new 0⟩ log s ∧ log = [0, 5000, 9000, 12000] ∧
      s.metrics.opTimestampsHead = 1 ∧ (s.metrics.snapshot 15500).opsPerSec * 10 = 2 := by
  have hrun : ∃ (log : List ℤ) (s : TimedMetrics),
      Run metricsStep RecordedInOrder ⟨0, .new 0⟩ log s ∧ log = [0, 5000, 9000, 12000] ∧
        s.metrics.opTimestampsHead = 1 ∧ s.clock ≤ 15500 :=
    exists_run_of_exec [.record 0 .set 3 none, .record 5000 .get 2 (some true), .snapshot 6000,
      .record 9000 .get 2 (some false), .record 12000 .delete 1 none] (by decide +kernel)
  obtain ⟨log, s, h, hlog, hhead, hclock⟩ := hrun
  refine ⟨log, s, h, hlog, hhead, ?_⟩
  rw [(throughput_window h).1 15500 hclock, hlog]
  norm_num

end InkCache
