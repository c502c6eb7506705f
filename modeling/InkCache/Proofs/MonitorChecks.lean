import InkCache.MonitorChecks

/-!
# Checks that overtake each other

The monitor takes each answer for the latest. What it reports stays that of the check that started
last as long as no failure comes after a later success, and no success after a later failure that
still counts (`reportsLatest_completed`).
-/

namespace InkCache

open Lib

namespace MonitorChecks

variable {s s' : MonitorChecks} {check : ℕ} {ok : Bool} {completed : List (ℕ × Bool)}
  {log es : List ℕ} {primaryUrl : JsString}

/-! ## Numbers of checks -/

/-- Each check has a number of its own and is over once. -/
structure Numbered (s : MonitorChecks) : Prop where
  inFlight_lt : ∀ check ∈ s.inFlight, check < s.started
  inFlight_nodup : s.inFlight.Nodup
  completed_lt : ∀ e ∈ s.completed, e.1 < s.started ∧ e.1 ∉ s.inFlight
  completed_unique : ∀ e ∈ s.completed, ∀ e' ∈ s.completed, e.1 = e'.1 → e = e'

theorem step_completed (hs : s.step (.completed check ok) = some (s', es)) :
    check ∈ s.inFlight ∧ s' = { s with
      monitor := s.monitor.checked ok
      inFlight := s.inFlight.erase check
      completed := s.completed ++ [(check, ok)] } ∧
      es = if ok then [] else [(s.monitor.checked ok).failures] := by
  simp only [step] at hs
  by_cases hflight : check ∈ s.inFlight
  · rw [if_pos hflight, Option.some.injEq, Prod.mk.injEq] at hs
    exact ⟨hflight, hs.1.symm, hs.2.symm⟩
  · rw [if_neg hflight] at hs
    cases hs

theorem step_tick (hs : s.step .tick = some (s', es)) : s' = { s with
    started := s.started + 1
    inFlight := s.inFlight ++ [s.started] } := by
  simp only [step] at hs
  split_ifs at hs
  exact (Prod.mk.inj (Option.some.inj hs)).1.symm

theorem step_stop (hs : s.step .stop = some (s', es)) : s' = { s with
    monitor := s.monitor.stop } := by
  simp only [step] at hs
  exact (Prod.mk.inj (Option.some.inj hs)).1.symm

namespace Numbered

theorem tick (h : s.Numbered) (hs : s.step .tick = some (s', es)) : s'.Numbered := by
  obtain rfl := step_tick hs
  have hnew : s.started ∉ s.inFlight := fun hmem => lt_irrefl _ (h.inFlight_lt _ hmem)
  refine ⟨?_, ?_, fun e he => ?_, h.completed_unique⟩
  · rw [List.forall_mem_append, List.forall_mem_singleton]
    exact ⟨fun check hc => (h.inFlight_lt check hc).trans (Nat.lt_succ_self _),
      Nat.lt_succ_self _⟩
  · rw [← List.concat_eq_append]
    exact h.inFlight_nodup.concat hnew
  · obtain ⟨hlt, hnot⟩ := h.completed_lt e he
    refine ⟨hlt.trans (Nat.lt_succ_self _), ?_⟩
    rw [List.mem_append, List.mem_singleton]
    exact not_or.2 ⟨hnot, hlt.ne⟩

/-- A check that is on its way is not completed. -/
theorem completed_ne (h : s.Numbered) (hflight : check ∈ s.inFlight) :
    ∀ e ∈ s.completed, e.1 ≠ check := by
  rintro e he rfl
  exact (h.completed_lt e he).2 hflight

theorem complete (h : s.Numbered) (hs : s.step (.completed check ok) = some (s', es)) :
    s'.Numbered := by
  obtain ⟨hflight, rfl, -⟩ := step_completed hs
  have hnew := h.completed_ne hflight
  refine ⟨fun c hc => h.inFlight_lt c (List.mem_of_mem_erase hc), h.inFlight_nodup.erase _, ?_, ?_⟩
  · rw [List.forall_mem_append, List.forall_mem_singleton]
    exact ⟨fun e he => ⟨(h.completed_lt e he).1,
        fun hc => (h.completed_lt e he).2 (List.mem_of_mem_erase hc)⟩,
      h.inFlight_lt check hflight, h.inFlight_nodup.not_mem_erase⟩
  · intro e he e' he' heq
    rcases List.mem_append.1 he with he | he <;> rcases List.mem_append.1 he' with he' | he'
    · exact h.completed_unique e he e' he' heq
    · rw [List.mem_singleton.1 he'] at heq
      exact absurd heq (hnew e he)
    · rw [List.mem_singleton.1 he] at heq
      exact absurd heq.symm (hnew e' he')
    · rw [List.mem_singleton.1 he, List.mem_singleton.1 he']

theorem step {a : CheckAction} (h : s.Numbered) (hs : s.step a = some (s', es)) : s'.Numbered := by
  cases a with
  | tick => exact h.tick hs
  | completed check ok => exact h.complete hs
  | stop =>
    obtain rfl := step_stop hs
    exact ⟨h.inFlight_lt, h.inFlight_nodup, h.completed_lt, h.completed_unique⟩

end Numbered

theorem numbered_start (primaryUrl : JsString) : (start primaryUrl).Numbered where
  inFlight_lt := by simp [start]
  inFlight_nodup := List.nodup_nil
  completed_lt := by simp [start]
  completed_unique := by simp [start]

/-! ## The streak -/

/-- A failure belongs to the streak if it is later than every success. -/
theorem streak_failure (completed : List (ℕ × Bool)) (check : ℕ) :
    streak (completed ++ [(check, false)]) = streak completed +
      if ∀ e ∈ completed, e.2 = true → e.1 < check then 1 else 0 := by
  have hsuccess : ∀ j, (∀ e' ∈ completed ++ [(check, false)], e'.2 = true → e'.1 < j) ↔
      ∀ e' ∈ completed, e'.2 = true → e'.1 < j := by
    intro j
    rw [List.forall_mem_append, List.forall_mem_singleton]
    simp
  unfold streak
  rw [List.countP_append, List.countP_singleton]
  simp only [hsuccess]
  refine congrArg _ (if_congr ?_ rfl rfl)
  rw [decide_eq_true_eq]
  exact and_iff_right trivial

/-- With a success there is no streak exactly if every failure has a later success. -/
theorem streak_success_iff (completed : List (ℕ × Bool)) (check : ℕ) :
    streak (completed ++ [(check, true)]) = 0 ↔ ∀ e ∈ completed, e.2 = false →
      e.1 ≤ check ∨ ∃ e' ∈ completed, e'.2 = true ∧ e.1 ≤ e'.1 := by
  unfold streak
  rw [List.countP_eq_zero, List.forall_mem_append, List.forall_mem_singleton]
  simp only [decide_eq_true_eq, not_and, Bool.true_eq_false, false_implies, and_true]
  refine forall₂_congr fun e he => ?_
  rw [List.forall_mem_append, List.forall_mem_singleton]
  simp only [not_and_or, not_forall, not_lt, exists_prop, forall_const]
  rw [or_comm]

/-! ## What is reported -/

/-- What is over last is reported, as long as every check that found the opposite is followed. -/
theorem healthy_of_followed (hcompleted : s'.completed = s.completed ++ [(check, ok)])
    (hhealthy : s'.monitor.healthy = ok)
    (hfollowed : ∀ e ∈ s.completed, e.2 ≠ ok → e.1 < check ∨ ∃ e' ∈ s.completed, e.1 < e'.1) :
    ∀ e ∈ s'.completed, (∀ e' ∈ s'.completed, e'.1 ≤ e.1) → s'.monitor.healthy = e.2 := by
  intro e he hlatest
  rw [hcompleted] at he hlatest
  rw [List.forall_mem_append, List.forall_mem_singleton] at hlatest
  rw [hhealthy]
  rcases List.mem_append.1 he with he | he
  · by_contra hopposite
    rcases hfollowed e he (Ne.symm hopposite) with hlt | ⟨e', he', hlt⟩
    · exact absurd hlt (not_lt.2 hlatest.2)
    · exact absurd hlt (not_lt.2 (hlatest.1 e' he'))
  · rw [List.mem_singleton.1 he]

/-- A success is reported right if it is the latest, or no streak goes on after it. -/
theorem reportsLatest_success (hnew : ∀ e ∈ s.completed, e.1 ≠ check)
    (hunique : ∀ e ∈ s.completed, ∀ e' ∈ s.completed, e.1 = e'.1 → e = e')
    (hcompleted : s'.completed = s.completed ++ [(check, true)])
    (hmonitor : s'.monitor = s.monitor.checked true) :
    s'.ReportsLatest ↔ InOrder s.completed check true := by
  have hhealthy : s'.monitor.healthy = true := by rw [hmonitor]; rfl
  have hfailures : s'.monitor.failures = 0 := by rw [hmonitor]; rfl
  constructor
  · intro h e he hfailed hlt
    have hstreak := h.failures
    rw [hfailures, hcompleted] at hstreak
    obtain hle | ⟨e', he', hok, hle⟩ := (streak_success_iff _ _).1 hstreak.symm e he hfailed
    · exact absurd hlt (not_lt.2 hle)
    · refine ⟨e', he', hok, lt_of_le_of_ne hle fun heq => ?_⟩
      rw [hunique e he e' he' heq, hok] at hfailed
      cases hfailed
  · intro horder
    refine ⟨healthy_of_followed hcompleted hhealthy fun e he hfailed => ?_, ?_⟩
    · refine (hnew e he).lt_or_gt.imp_right fun hlt => ?_
      obtain ⟨e', he', -, hafter⟩ := horder e he (Bool.eq_false_of_not_eq_true hfailed) hlt
      exact ⟨e', he', hafter⟩
    · rw [hfailures, hcompleted, eq_comm, streak_success_iff]
      intro e he hfailed
      rcases le_or_gt e.1 check with hle | hlt
      · exact .inl hle
      · obtain ⟨e', he', hok, hafter⟩ := horder e he hfailed hlt
        exact .inr ⟨e', he', hok, hafter.le⟩

/-- A failure is reported right if no later check has succeeded. -/
theorem reportsLatest_failure (h : s.ReportsLatest)
    (hcompleted : s'.completed = s.completed ++ [(check, false)])
    (hmonitor : s'.monitor = s.monitor.checked false) :
    s'.ReportsLatest ↔ InOrder s.completed check false := by
  have hhealthy : s'.monitor.healthy = false := by rw [hmonitor]; rfl
  have hfailures : s'.monitor.failures = streak s.completed + 1 := by
    rw [hmonitor, ← h.failures]
    rfl
  simp only [InOrder]
  constructor
  · intro h'
    have hstreak := h'.failures
    rw [hfailures, hcompleted, streak_failure] at hstreak
    by_contra horder
    rw [if_neg horder] at hstreak
    omega
  · intro horder
    refine ⟨healthy_of_followed hcompleted hhealthy fun e he hok => ?_, ?_⟩
    · exact .inl (horder e he (Bool.eq_true_of_not_eq_false hok))
    · rw [hfailures, hcompleted, streak_failure, if_pos horder]

theorem reportsLatest_completed (hnum : s.Numbered) (h : s.ReportsLatest)
    (hs : s.step (.completed check ok) = some (s', es)) :
    s'.ReportsLatest ↔ InOrder s.completed check ok := by
  obtain ⟨hflight, rfl, -⟩ := step_completed hs
  cases ok with
  | true =>
    exact reportsLatest_success (hnum.completed_ne hflight) hnum.completed_unique rfl rfl
  | false => exact reportsLatest_failure h rfl rfl

theorem reportsLatest_run (h : Run step CompletesInOrder (start primaryUrl) log s) :
    s.Numbered ∧ s.ReportsLatest := by
  refine h.invariant (I := fun _ s => s.Numbered ∧ s.ReportsLatest)
    ⟨numbered_start primaryUrl, fun e he => absurd he List.not_mem_nil, rfl⟩ ?_
  rintro log s a s' es ⟨hnum, hI⟩ ha hs
  refine ⟨hnum.step hs, ?_⟩
  cases a with
  | tick =>
    obtain rfl := step_tick hs
    exact ⟨hI.healthy, hI.failures⟩
  | completed check ok => exact (reportsLatest_completed hnum hI hs).2 ha
  | stop =>
    obtain rfl := step_stop hs
    exact ⟨hI.healthy, hI.failures⟩

end MonitorChecks

/-- As long as the checks complete in order where it matters, the handle reports the one of those
that are completed that started last, and the streak; and the next completion leaves it so exactly
if it is in order too. -/
theorem monitor_reports_iff (primaryUrl : JsString) {log : List ℕ} {s : MonitorChecks}
    (h : Run MonitorChecks.step MonitorChecks.CompletesInOrder (.start primaryUrl) log s) :
    s.ReportsLatest ∧ ∀ check ok s' es, s.step (.completed check ok) = some (s', es) →
      (s'.ReportsLatest ↔ MonitorChecks.InOrder s.completed check ok) :=
  ⟨(MonitorChecks.reportsLatest_run h).2, fun _ _ _ _ hs =>
    MonitorChecks.reportsLatest_completed (MonitorChecks.reportsLatest_run h).1
      (MonitorChecks.reportsLatest_run h).2 hs⟩

/-- Two checks overlap, and the later one is the first to complete; a success that comes late
changes nothing. -/
theorem monitor_reports_overlapping : ∃ s : MonitorChecks,
    s.completed = [(1, true), (0, true)] ∧ s.monitor.healthy = true ∧ s.ReportsLatest := by
  have hrun : ∃ (log : List ℕ) (s : MonitorChecks),
      Run MonitorChecks.step MonitorChecks.CompletesInOrder (.start (js "http://p")) log s ∧
        s.completed = [(1, true), (0, true)] ∧ s.monitor.healthy = true :=
    exists_run_of_exec [.tick, .tick, .completed 1 true, .completed 0 true] (by decide)
  obtain ⟨log, s, h, hcompleted, hhealthy⟩ := hrun
  exact ⟨s, hcompleted, hhealthy, (monitor_reports_iff _ h).1⟩

/-- A check that times out after a later one has found the primary up. -/
theorem monitor_reports_stale : ∃ (log : List ℕ) (s : MonitorChecks),
    Run MonitorChecks.step (fun _ _ => True) (.start (js "http://p")) log s ∧
      s.completed = [(1, true), (0, false)] ∧ s.monitor.healthy = false ∧
      s.monitor.failures = 1 ∧ ¬ s.ReportsLatest := by
  have hrun : ∃ (log : List ℕ) (s : MonitorChecks),
      Run MonitorChecks.step (fun _ _ => True) (.start (js "http://p")) log s ∧
        s.completed = [(1, true), (0, false)] ∧ s.monitor.healthy = false ∧
        s.monitor.failures = 1 :=
    exists_run_of_exec [.tick, .tick, .completed 1 true, .completed 0 false] (by decide)
  obtain ⟨log, s, h, hcompleted, hhealthy, hfailures⟩ := hrun
  refine ⟨log, s, h, hcompleted, hhealthy, hfailures, fun hlatest => ?_⟩
  have hcount := hlatest.failures
  rw [hcompleted, hfailures] at hcount
  exact absurd hcount (by decide)

end InkCache
