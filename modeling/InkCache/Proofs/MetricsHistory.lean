import InkCache.Lib.RingBuffer
import InkCache.Proofs.Acknowledged
import InkCache.Proofs.Snapshot

/-!
# What the history of the metrics tells

No request writes the history (`receive_history`), and a sample puts the counters at the end of it,
which are those of the answers so far (`Counted.counters`). So the rows are the last samples,
each with what had been answered by then (`HistoryTells`).
-/

namespace InkCache

open Lib

variable {ν : Type} [JsNumber ν]

omit [JsNumber ν] in
/-- One more event is a sample, or there is none. -/
theorem samples_concat (log : List (NodeEvent ν)) (e : NodeEvent ν) :
    samples (log ++ [e]) =
      samples log ++ (e.sampledAt?.map fun clock => (clock, log ++ [e])).toList := by
  have hinits : (log ++ [e]).inits = log.inits ++ [log ++ [e]] := by
    simp [List.inits_append]
  rw [samples, hinits, List.filterMap_append, List.filterMap_cons, List.filterMap_nil,
    List.getLast?_concat, Option.bind_some]
  rcases e.sampledAt? with _ | clock <;> rfl

namespace NodeServer

variable {C : NodeConfig ν} {n n' : NodeServer ν} {m : Moment ν} {req : HttpRequest}
  {r : RouteOutcome ν}

theorem foldl_replicate_history (m : Moment ν) : ∀ (ops : List (ReplicationOp ν))
    (n : NodeServer ν),
    (ops.foldl (fun n op => n.serve m (.replicate op)) n).history = n.history
  | [], _ => rfl
  | op :: ops, n => foldl_replicate_history m ops (n.serve m (.replicate op))

/-- No route writes the history. -/
theorem dispatch_history {body : Option (Json ν)} {route : Route}
    (hr : n.dispatch C m body route = some r) : r.node.history = n.history := by
  cases route with
  | replicate =>
    simp only [dispatch, replicateRoute] at hr
    split at hr
    · obtain rfl := Option.some.inj hr
      rfl
    · obtain ⟨ops, -, rfl⟩ := Option.map_eq_some_iff.1 hr
      exact foldl_replicate_history m ops n
  | promote =>
    obtain rfl := Option.some.inj hr
    simp only [promoteRoute]
    split
    · rfl
    · split_ifs <;> rfl
  | requestVote =>
    obtain rfl := Option.some.inj hr
    simp only [requestVoteRoute]
    split <;> rfl
  | leader =>
    obtain rfl := Option.some.inj hr
    simp only [leaderRoute]
    split <;> rfl
  | set | get | predict | delete | invalidate | keys | keyStats | snapshot | restore | flush
  | metrics | metricsHistory | version | health | undecodable | unknown =>
    obtain rfl := Option.some.inj hr
    rfl

omit [JsNumber ν] in
theorem limit_history (C : NodeConfig ν) (clock : ℤ) (req : HttpRequest) (n : NodeServer ν) :
    (n.limit C clock req).1.history = n.history := by
  unfold limit
  rcases C.rateLimit with _ | o <;> rfl

theorem receive_history (hr : n.receive C m req = some r) : r.node.history = n.history := by
  unfold receive at hr
  split_ifs at hr
  · obtain rfl := Option.some.inj hr
    rfl
  have hlimit := limit_history C m.clock req n
  rcases hl : n.limit C m.clock req with ⟨n₁, _ | ⟨retryAfter, e⟩⟩ <;> rw [hl] at hr hlimit
  · simp only [authorize] at hr
    rcases hauth : authMiddleware C.apiKey req.auth with _ | e <;> rw [hauth] at hr
    · rcases hbody : expressJson C.numberText req.body with e | body <;> rw [hbody] at hr
      · obtain rfl := Option.some.inj hr
        exact hlimit
      · exact (dispatch_history hr).trans hlimit
    · obtain rfl := Option.some.inj hr
      exact hlimit
  · obtain rfl := Option.some.inj hr
    exact hlimit

/-! ## Runs -/

/-- The rows are the last samples. -/
def HistoryTells (log : List (NodeEvent ν)) (n : NodeServer ν) : Prop :=
  n.history.map MetricsHistoryEntry.counts =
    ((samples log).rtake metricsHistoryCap).map fun sample => countsOf sample.1 sample.2

omit [JsNumber ν] in
theorem HistoryTells.keep {log : List (NodeEvent ν)} {e : NodeEvent ν} (h : HistoryTells log n)
    (he : e.sampledAt? = none) (hhistory : n'.history = n.history) :
    HistoryTells (log ++ [e]) n' := by
  rw [HistoryTells, hhistory, samples_concat, he, Option.map_none, Option.toList_none,
    List.append_nil]
  exact h

omit [JsNumber ν] in
/-- A sample is a row with the counters. -/
theorem HistoryTells.sample {start clock : ℤ} {log : List (NodeEvent ν)}
    (hcounted : Counted start log n) (h : HistoryTells log n) :
    HistoryTells (log ++ [.sampled clock]) (n.sample clock) := by
  have hanswers : answers (log ++ [.sampled clock]) = answers log := by
    simp [answers, NodeEvent.exchange?]
  have hrow : (MetricsHistoryEntry.mk clock (n.served.metrics.snapshot clock)).counts =
      countsOf clock (log ++ [.sampled clock]) := by
    obtain ⟨hhits, hmisses, hsets, hdeletes⟩ := hcounted.counters
    rw [countsOf, hanswers, ← hhits, ← hmisses, ← hsets, ← hdeletes]
    unfold MetricsHistoryEntry.counts MetricsCollector.snapshot
    rfl
  have hhistory : (n.sample clock).history =
      (n.history ++ [⟨clock, n.served.metrics.snapshot clock⟩] :
        List MetricsHistoryEntry).rtake metricsHistoryCap := by
    unfold NodeServer.sample metricsHistoryCap
    rw [List.rtake_concat_succ]
  rw [HistoryTells, map_rtake] at h
  rw [HistoryTells, hhistory, samples_concat, NodeEvent.sampledAt?, Option.map_some,
    Option.toList_some, map_rtake, map_rtake, List.map_append, List.map_append, h,
    List.map_singleton, List.map_singleton, hrow, rtake_rtake_concat _ _ (by decide)]

theorem HistoryTells.step {clock : ℤ} {log es : List (NodeEvent ν)} {a : NodeAction ν}
    (hcounted : Counted clock log n) (h : HistoryTells log n) (hs : n.step C a = some (n', es)) :
    HistoryTells (log ++ es) n' := by
  cases a with
  | request m req =>
    simp only [NodeServer.step, Option.map_eq_some_iff] at hs
    obtain ⟨r, hr, heq⟩ := hs
    obtain ⟨rfl, rfl⟩ := Prod.mk.inj heq
    exact h.keep rfl (receive_history hr)
  | load now rows =>
    obtain ⟨rfl, rfl⟩ := Prod.mk.inj (Option.some.inj hs)
    exact h.keep rfl rfl
  | sample clock =>
    obtain ⟨rfl, rfl⟩ := Prod.mk.inj (Option.some.inj hs)
    exact h.sample hcounted
  | lead | sweep | monitored =>
    obtain ⟨rfl, rfl⟩ := Prod.mk.inj (Option.some.inj hs)
    rw [List.append_nil]
    exact h

end NodeServer

open NodeServer

/-- `GET /metrics/history` has a row for each of the last 360 samples: when it was taken, and how
many hits, misses, sets and deletes had been answered by then. So two rows differ by what was
answered in between. -/
theorem history_counts_answers (C : NodeConfig ν) (opts : CacheStoreOptions) (maxKeyLength : ℕ)
    (leadership : Leadership) (clock : ℤ) {log : List (NodeEvent ν)} {n : NodeServer ν}
    (h : Run (NodeServer.step C) (fun _ _ => True) (.start opts maxKeyLength leadership clock)
      log n) : n.history.map MetricsHistoryEntry.counts =
      ((samples log).rtake metricsHistoryCap).map fun sample => countsOf sample.1 sample.2 := by
  refine h.invariant_reached (I := HistoryTells) ?_ ?_
  · have hnone : samples ([] : List (NodeEvent ν)) = [] := rfl
    rw [HistoryTells, hnone, List.rtake_nil]
    rfl
  · intro log n a n' es hrun ih _ hs
    exact ih.step (counted_run leadership hrun) hs

/-- Two samples, and a `GET` that finds `a` between them. -/
theorem history_counts_answers_hit : ∃ (log : List (NodeEvent ℚ)) (n : NodeServer ℚ),
    Run (NodeServer.step guardedConfig) (fun _ _ => True) (.start {} 256 replicaOfA 0) log n ∧
      n.history.map MetricsHistoryEntry.counts = [⟨1, 0, 0, 0, 0⟩, ⟨9, 1, 0, 0, 0⟩] := by
  have hrun : ∃ (log : List (NodeEvent ℚ)) (n : NodeServer ℚ),
      Run (NodeServer.step guardedConfig) (fun _ _ => True) (.start {} 256 replicaOfA 0) log n ∧
      ((samples log).rtake metricsHistoryCap).map (fun sample => countsOf sample.1 sample.2) =
        [⟨1, 0, 0, 0, 0⟩, ⟨9, 1, 0, 0, 0⟩] :=
    exists_run_of_exec [.load 0 [⟨js "a", js "1", none⟩], .sample 1, .request ⟨4, 4, 0⟩ getRequest,
      .sample 9] (by decide +kernel)
  obtain ⟨log, n, h, hrows⟩ := hrun
  exact ⟨log, n, h,
    (history_counts_answers guardedConfig {} 256 replicaOfA 0 h).trans hrows⟩

end InkCache
