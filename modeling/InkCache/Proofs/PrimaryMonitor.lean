import InkCache.PrimaryMonitor

/-!
# A stopped monitor

Only `checked` changes what a handle reports or calls back, and `stop` does not undo the pings that
are in flight. As long as these agree with the last check before, nothing shows (`quiet_step`);
the first that does not breaks the silence.
-/

namespace InkCache

open Lib

namespace FollowerProcess

variable {C : MonitorConfig} {s s' : FollowerProcess} {k handle : ℕ} {m : PrimaryMonitor}
  {log es : List MonitorEvent} {a : MonitorAction}

/-! ## The steps -/

/-- What a step can do to the monitors: nothing, check one, stop one, stop the current one since an
election is won, or replace it since a leader is adopted. -/
inductive FollowerStep (C : MonitorConfig) (s : FollowerProcess) :
    MonitorAction → FollowerProcess × List MonitorEvent → Prop where
  | unwatched (a : MonitorAction) (s' : FollowerProcess) (hmonitors : s'.monitors = s.monitors)
    (hhandle : s'.primaryMonitorHandle = s.primaryMonitorHandle) : FollowerStep C s a (s', [])
  | answered (i : ℕ) (ok : Bool) (handle : ℕ) (s₁ : FollowerProcess)
    (hi : s.checks[i]? = some handle) (hmonitors : s₁.monitors = s.monitors)
    (hhandle : s₁.primaryMonitorHandle = s.primaryMonitorHandle) :
    FollowerStep C s (.answered i ok) (s₁.checked C handle ok)
  | stop (handle : ℕ) : FollowerStep C s (.stop handle) (s.stop handle)
  | won (grants : List Bool) (term : ℤ) (s₁ : FollowerProcess)
    (hmonitors : s₁.monitors = s.monitors)
    (hhandle : s₁.primaryMonitorHandle = s.primaryMonitorHandle) :
    FollowerStep C s (.conclude grants) (s₁.stopCurrent.1, .promoted term :: s₁.stopCurrent.2)
  | adopted (term : ℤ) (primaryUrl : JsString) (s₁ : FollowerProcess)
    (hmonitors : s₁.monitors = s.monitors)
    (hhandle : s₁.primaryMonitorHandle = s.primaryMonitorHandle) :
    FollowerStep C s (.leader term primaryUrl) ((s₁.attachPrimaryMonitor primaryUrl).1,
      (s₁.attachPrimaryMonitor primaryUrl).2 ++ [.adopted primaryUrl])

theorem followerStep {r : FollowerProcess × List MonitorEvent} (hs : s.step C a = some r) :
    FollowerStep C s a r := by
  cases a with
  | tick handle =>
    simp only [step] at hs
    rcases hm : s.monitors[handle]? with _ | m <;> rw [hm] at hs
    · simp at hs
    · simp only at hs
      split_ifs at hs
      obtain rfl := Option.some.inj hs
      exact .unwatched _ _ rfl rfl
  | answered i ok =>
    simp only [step] at hs
    rcases hi : s.checks[i]? with _ | handle <;> rw [hi] at hs
    · simp at hs
    · obtain rfl := Option.some.inj hs
      exact .answered i ok handle _ hi rfl rfl
  | stop handle =>
    obtain rfl := Option.some.inj hs
    exact .stop handle
  | conclude grants =>
    simp only [step] at hs
    rcases he : s.electionInFlight with _ | term <;> rw [he] at hs
    · simp at hs
    · simp only at hs
      split_ifs at hs
      obtain rfl := Option.some.inj hs
      simp only [conclude]
      split_ifs
      · exact .won grants term _ rfl rfl
      · exact .unwatched _ _ rfl rfl
  | leader term primaryUrl =>
    obtain rfl := Option.some.inj hs
    simp only [leader]
    split_ifs
    · exact .adopted term primaryUrl _ rfl rfl
    · exact .unwatched _ _ rfl rfl
  | requestVote term candidateId | promote replicaUrls =>
    obtain rfl := Option.some.inj hs
    exact .unwatched _ _ rfl rfl

/-! ## What a step does to stopped monitors -/

/-- A step leaves the stopped monitors alone; only a running one calls back; and what it stops
reports from then on what it reported, and is logged. -/
structure Quiet (s : FollowerProcess) (r : FollowerProcess × List MonitorEvent) : Prop where
  keeps : ∀ (k : ℕ) (m : PrimaryMonitor), s.monitors[k]? = some m → m.running = false →
    r.1.monitors[k]? = some m
  failed : ∀ k n, .failed k n ∈ r.2 →
    ∃ m : PrimaryMonitor, s.monitors[k]? = some m ∧ m.running = true
  campaigned : ∀ k t, .campaigned k t ∈ r.2 →
    ∃ m : PrimaryMonitor, s.monitors[k]? = some m ∧ m.running = true
  stopped : ∀ k healthy failures, .stopped k healthy failures ∈ r.2 →
    (∀ k n, .failed k n ∉ r.2) ∧ (∀ k t, .campaigned k t ∉ r.2) ∧
      ∃ m : PrimaryMonitor, r.1.monitors[k]? = some m ∧ m.running = false ∧
        m.healthy = healthy ∧ m.failures = failures
  logged : ∀ (k : ℕ) (m : PrimaryMonitor), r.1.monitors[k]? = some m → m.running = false →
    s.monitors[k]? = some m ∨ .stopped k m.healthy m.failures ∈ r.2

theorem Quiet.of_eq (h : s'.monitors = s.monitors) : Quiet s (s', []) where
  keeps k m hm _ := h ▸ hm
  failed k n h := by simp at h
  campaigned k t h := by simp at h
  stopped k healthy failures h := by simp at h
  logged k m hm _ := .inl (h ▸ hm)

theorem Quiet.of_monitors {s₁ : FollowerProcess} {r : FollowerProcess × List MonitorEvent}
    (h : s₁.monitors = s.monitors) (hq : Quiet s₁ r) : Quiet s r := by
  obtain ⟨hkeeps, hfailed, hcampaigned, hstopped, hlogged⟩ := hq
  rw [h] at hkeeps hfailed hcampaigned hlogged
  exact ⟨hkeeps, hfailed, hcampaigned, hstopped, hlogged⟩

/-- What is added to the log is no matter, as long as no monitor is meant. -/
theorem Quiet.logging {r : FollowerProcess × List MonitorEvent} (h : Quiet s r)
    (hfailed : ∀ k n, .failed k n ∈ es ↔ .failed k n ∈ r.2)
    (hcampaigned : ∀ k t, .campaigned k t ∈ es ↔ .campaigned k t ∈ r.2)
    (hstopped : ∀ k healthy failures,
      .stopped k healthy failures ∈ es ↔ .stopped k healthy failures ∈ r.2) :
    Quiet s (r.1, es) where
  keeps := h.keeps
  failed k n hk := h.failed k n ((hfailed k n).1 hk)
  campaigned k t hk := h.campaigned k t ((hcampaigned k t).1 hk)
  stopped k healthy failures hk := by
    obtain ⟨hf, hc, hm⟩ := h.stopped k healthy failures ((hstopped k healthy failures).1 hk)
    exact ⟨fun k n => (hfailed k n).not.2 (hf k n), fun k t => (hcampaigned k t).not.2 (hc k t), hm⟩
  logged k m hm hr := (h.logged k m hm hr).imp_right (hstopped k m.healthy m.failures).2

theorem getElem?_setMonitor : (s.setMonitor handle m).monitors[k]? =
    if k = handle then (s.monitors[k]?).map fun _ => m else s.monitors[k]? := by
  unfold setMonitor
  simp only [List.getElem?_set]
  by_cases hk : k = handle
  · subst hk
    rw [if_pos rfl, if_pos rfl]
    split_ifs with hlt
    · rw [List.getElem?_eq_getElem hlt]
      rfl
    · rw [List.getElem?_eq_none (not_lt.1 hlt)]
      rfl
  · rw [if_neg (Ne.symm hk), if_neg hk]

theorem quiet_stop (handle : ℕ) (s : FollowerProcess) : Quiet s (s.stop handle) := by
  unfold stop
  rcases hm : s.monitors[handle]? with _ | m
  · exact .of_eq rfl
  refine ⟨fun k m' hm' hr => ?_, by simp, by simp, ?_, fun k m' hm' _ => ?_⟩
  · rw [getElem?_setMonitor]
    split_ifs with hk
    · subst hk
      rw [hm] at hm'
      obtain rfl := Option.some.inj hm'
      have hstop : m.stop = m := by
        unfold PrimaryMonitor.stop
        rw [← hr]
      rw [hm, hstop]
      rfl
    · exact hm'
  · intro k healthy failures hk
    simp only [List.mem_singleton, MonitorEvent.stopped.injEq] at hk
    obtain ⟨rfl, rfl, rfl⟩ := hk
    refine ⟨by simp, by simp, m.stop, ?_, rfl, rfl, rfl⟩
    rw [getElem?_setMonitor, if_pos rfl, hm]
    rfl
  · rw [getElem?_setMonitor] at hm'
    split_ifs at hm' with hk
    · subst hk
      rw [hm] at hm'
      obtain rfl := Option.some.inj hm'
      exact .inr List.mem_cons_self
    · exact .inl hm'

theorem quiet_stopCurrent (s : FollowerProcess) : Quiet s s.stopCurrent := by
  unfold stopCurrent
  rcases s.primaryMonitorHandle with _ | handle
  · exact .of_eq rfl
  · exact quiet_stop handle s

theorem quiet_attachPrimaryMonitor (primaryUrl : JsString) (s : FollowerProcess) :
    Quiet s (s.attachPrimaryMonitor primaryUrl) := by
  have h := quiet_stopCurrent s
  have hold : ∀ (k : ℕ) (m : PrimaryMonitor), s.stopCurrent.1.monitors[k]? = some m →
      (s.attachPrimaryMonitor primaryUrl).1.monitors[k]? = some m := by
    intro k m hm
    obtain ⟨hlt, -⟩ := List.getElem?_eq_some_iff.1 hm
    exact (List.getElem?_append_left hlt).trans hm
  refine ⟨fun k m hm hr => hold k m (h.keeps k m hm hr), h.failed, h.campaigned, ?_, ?_⟩
  · intro k healthy failures hk
    obtain ⟨hf, hc, m, hm, hrest⟩ := h.stopped k healthy failures hk
    exact ⟨hf, hc, m, hold k m hm, hrest⟩
  · intro k m hm hr
    refine h.logged k m ?_ hr
    simp only [attachPrimaryMonitor, List.getElem?_append] at hm
    split_ifs at hm with hlt
    · exact hm
    · -- the monitor that was started is running
      rw [List.mem_singleton.1 (List.mem_of_getElem? hm)] at hr
      exact Bool.noConfusion hr

theorem quiet_onFailure {s₀ : FollowerProcess} {n : ℕ} (hmon : ∀ (k : ℕ) (m : PrimaryMonitor),
      m.running = false → (s.monitors[k]? = some m ↔ s₀.monitors[k]? = some m))
    (hrun : ∃ m : PrimaryMonitor, s₀.monitors[handle]? = some m ∧ m.running = true) :
    Quiet s₀ (s.onFailure C handle n) := by
  have hcampaign : (s.campaignForPrimary handle).1.monitors = s.monitors ∧
      ((s.campaignForPrimary handle).2 = [] ∨
        ∃ t, (s.campaignForPrimary handle).2 = [.campaigned handle t]) := by
    unfold campaignForPrimary
    split_ifs
    · exact ⟨rfl, .inl rfl⟩
    · exact ⟨rfl, .inr ⟨_, rfl⟩⟩
  obtain ⟨hcmon, hces⟩ := hcampaign
  unfold onFailure
  split_ifs with hauto hlow
  · refine ⟨fun k m hm hr => (hmon k m hr).2 hm, ?_, by simp, by simp,
      fun k m hm hr => .inl ((hmon k m hr).1 hm)⟩
    intro k n' hk
    simp only [List.mem_singleton, MonitorEvent.failed.injEq] at hk
    obtain ⟨rfl, -⟩ := hk
    exact hrun
  · refine ⟨fun k m hm hr => ?_, ?_, ?_, ?_, fun k m hm hr => .inl ?_⟩
    · rw [hcmon]
      exact (hmon k m hr).2 hm
    · intro k n' hk
      rcases hces with hces | ⟨t, hces⟩ <;> simp [hces] at hk <;> exact hk.1 ▸ hrun
    · intro k t' hk
      rcases hces with hces | ⟨t, hces⟩ <;> simp [hces] at hk
      exact hk.1 ▸ hrun
    · intro k healthy failures hk
      rcases hces with hces | ⟨t, hces⟩ <;> simp [hces] at hk
    · rw [hcmon] at hm
      exact (hmon k m hr).1 hm
  · exact ⟨fun k m hm hr => (hmon k m hr).2 hm, by simp, by simp, by simp,
      fun k m hm hr => .inl ((hmon k m hr).1 hm)⟩

/-- The answer of a ping is quiet if its monitor is running, or has nothing new to report. -/
theorem quiet_checked {ok : Bool} (hsound : ∀ m ∈ s.monitors, m.healthy = decide (m.failures = 0))
    (hlate : ∀ m : PrimaryMonitor, s.monitors[handle]? = some m → m.running = false →
      ok = true ∧ m.failures = 0) : Quiet s (s.checked C handle ok) := by
  unfold checked
  rcases hm : s.monitors[handle]? with _ | m
  · exact .of_eq rfl
  have hsame : m.running = false → m.checked ok = m := by
    intro hr
    obtain ⟨rfl, hzero⟩ := hlate m hm hr
    have hhealthy := hsound m (List.mem_of_getElem? hm)
    rw [decide_eq_true hzero] at hhealthy
    unfold PrimaryMonitor.checked
    rw [if_pos rfl, ← hzero, ← hhealthy]
  have hkeep : ∀ (k : ℕ) (m' : PrimaryMonitor), m'.running = false →
      ((s.setMonitor handle (m.checked ok)).monitors[k]? = some m' ↔
        s.monitors[k]? = some m') := by
    intro k m' hr
    rw [getElem?_setMonitor]
    split_ifs with hk
    · subst hk
      have hrunning : (m.checked ok).running = m.running := by
        unfold PrimaryMonitor.checked
        split_ifs <;> rfl
      rw [hm, Option.map_some, Option.some.injEq, Option.some.injEq]
      constructor
      · rintro rfl
        rw [hsame (hrunning ▸ hr)]
      · rintro rfl
        exact hsame hr
    · rfl
  simp only
  split_ifs with hok
  · exact ⟨fun k m hm hr => (hkeep k m hr).2 hm, by simp, by simp, by simp,
      fun k m hm hr => .inl ((hkeep k m hr).1 hm)⟩
  · refine quiet_onFailure hkeep ⟨m, hm, ?_⟩
    by_contra hr
    exact hok (hlate m hm (by simpa using hr)).1

theorem quiet_step {r : FollowerProcess × List MonitorEvent}
    (hsound : ∀ m ∈ s.monitors, m.healthy = decide (m.failures = 0))
    (hlate : LateChecksAgree s a) (h : FollowerStep C s a r) : Quiet s r := by
  cases h with
  | unwatched a s' hmonitors hhandle => exact .of_eq hmonitors
  | answered i ok handle s₁ hi hmonitors hhandle =>
    refine Quiet.of_monitors hmonitors (quiet_checked (hmonitors ▸ hsound) fun m hm hr => ?_)
    exact hlate handle hi m (hmonitors ▸ hm) hr
  | stop handle => exact quiet_stop handle s
  | won grants term s₁ hmonitors hhandle =>
    exact .of_monitors hmonitors
      ((quiet_stopCurrent s₁).logging (by simp) (by simp) (by simp))
  | adopted term primaryUrl s₁ hmonitors hhandle =>
    exact .of_monitors hmonitors
      ((quiet_attachPrimaryMonitor primaryUrl s₁).logging (by simp) (by simp) (by simp))

/-! ## What a monitor reports -/

theorem sound_checked {ok : Bool} (m : PrimaryMonitor) :
    (m.checked ok).healthy = decide ((m.checked ok).failures = 0) := by
  cases ok <;> simp [PrimaryMonitor.checked]

/-- A monitor reports its primary healthy if no failure is counted. -/
def Sound (s : FollowerProcess) : Prop :=
  ∀ m ∈ s.monitors, m.healthy = decide (m.failures = 0)

theorem sound_setMonitor (h : s.Sound) (hm : m.healthy = decide (m.failures = 0)) :
    (s.setMonitor handle m).Sound := by
  intro m' hm'
  rcases List.mem_or_eq_of_mem_set hm' with hm' | rfl
  · exact h m' hm'
  · exact hm

theorem sound_stop (h : s.Sound) : (s.stop handle).1.Sound := by
  unfold stop
  rcases hm : s.monitors[handle]? with _ | m
  · exact h
  · exact sound_setMonitor h (h m (List.mem_of_getElem? hm))

theorem sound_stopCurrent (h : s.Sound) : s.stopCurrent.1.Sound := by
  unfold stopCurrent
  rcases s.primaryMonitorHandle with _ | handle
  · exact h
  · exact sound_stop h

theorem sound_attachPrimaryMonitor (h : s.Sound) (primaryUrl : JsString) :
    (s.attachPrimaryMonitor primaryUrl).1.Sound := by
  intro m hm
  rcases List.mem_append.1 hm with hm | hm
  · exact sound_stopCurrent h m hm
  · rw [List.mem_singleton.1 hm]
    rfl

theorem sound_checks (h : s.Sound) {ok : Bool} : (s.checked C handle ok).1.Sound := by
  unfold checked
  rcases hm : s.monitors[handle]? with _ | m
  · exact h
  have hset : (s.setMonitor handle (m.checked ok)).Sound := sound_setMonitor h (sound_checked m)
  simp only
  split_ifs
  · exact hset
  · unfold onFailure campaignForPrimary
    split_ifs <;> exact hset

theorem sound_step {r : FollowerProcess × List MonitorEvent} (h : s.Sound)
    (hs : FollowerStep C s a r) : r.1.Sound := by
  have hrest : ∀ s₁ : FollowerProcess, s₁.monitors = s.monitors → s₁.Sound := by
    intro s₁ hmonitors m hm
    exact h m (hmonitors ▸ hm)
  cases hs with
  | unwatched a s' hmonitors hhandle => exact hrest s' hmonitors
  | answered i ok handle s₁ hi hmonitors hhandle => exact sound_checks (hrest s₁ hmonitors)
  | stop handle => exact sound_stop h
  | won grants term s₁ hmonitors hhandle => exact sound_stopCurrent (hrest s₁ hmonitors)
  | adopted term primaryUrl s₁ hmonitors hhandle =>
    exact sound_attachPrimaryMonitor (hrest s₁ hmonitors) primaryUrl

/-! ## The monitor that is current -/

/-- No monitor but that of the handle is running. -/
def OneRunning (s : FollowerProcess) : Prop :=
  ∀ (k : ℕ) (m : PrimaryMonitor), s.monitors[k]? = some m → m.running = true →
    s.primaryMonitorHandle = some k

/-- No monitor is running. -/
def NoneRunning (s : FollowerProcess) : Prop :=
  ∀ (k : ℕ) (m : PrimaryMonitor), s.monitors[k]? = some m → m.running = false

theorem running_stop {m' : PrimaryMonitor} (h : (s.stop handle).1.monitors[k]? = some m')
    (hr : m'.running = true) : k ≠ handle ∧ s.monitors[k]? = some m' := by
  unfold stop at h
  rcases hm : s.monitors[handle]? with _ | m <;> rw [hm] at h
  · refine ⟨?_, h⟩
    rintro rfl
    rw [hm] at h
    simp at h
  · simp only [getElem?_setMonitor] at h
    split_ifs at h with hk
    · obtain ⟨-, -, rfl⟩ := Option.map_eq_some_iff.1 h
      exact Bool.noConfusion hr
    · exact ⟨hk, h⟩

theorem stop_handle : (s.stop handle).1.primaryMonitorHandle = s.primaryMonitorHandle := by
  unfold stop
  rcases s.monitors[handle]? with _ | m <;> rfl

theorem OneRunning.stop (h : s.OneRunning) : (s.stop handle).1.OneRunning := by
  intro k m hm hr
  rw [stop_handle]
  exact h k m (running_stop hm hr).2 hr

theorem OneRunning.stopCurrent (h : s.OneRunning) : s.stopCurrent.1.NoneRunning := by
  intro k m hm
  by_contra hr
  rw [Bool.not_eq_false] at hr
  unfold FollowerProcess.stopCurrent at hm
  rcases hc : s.primaryMonitorHandle with _ | handle <;> rw [hc] at hm
  · rw [h k m hm hr] at hc
    simp at hc
  · obtain ⟨hne, hm⟩ := running_stop hm hr
    rw [h k m hm hr, Option.some.injEq] at hc
    exact hne hc

/-- The old monitors are stopped, and the new one is current. -/
theorem OneRunning.attachPrimaryMonitor (h : s.OneRunning) (primaryUrl : JsString) (k : ℕ)
    (m : PrimaryMonitor) (hm : (s.attachPrimaryMonitor primaryUrl).1.monitors[k]? = some m) :
    (k < s.stopCurrent.1.monitors.length ∧ m.running = false) ∨
      (s.attachPrimaryMonitor primaryUrl).1.primaryMonitorHandle = some k := by
  simp only [FollowerProcess.attachPrimaryMonitor, List.getElem?_append] at hm ⊢
  split_ifs at hm with hlt
  · exact .inl ⟨hlt, h.stopCurrent k m hm⟩
  · obtain ⟨hlen, -⟩ := List.getElem?_eq_some_iff.1 hm
    rw [List.length_singleton] at hlen
    refine .inr (congrArg some ?_)
    omega

theorem length_stopCurrent : s.stopCurrent.1.monitors.length = s.monitors.length := by
  unfold stopCurrent
  rcases s.primaryMonitorHandle with _ | handle
  · rfl
  · simp only [stop]
    rcases s.monitors[handle]? with _ | m
    · rfl
    · exact List.length_set

/-- A check neither starts a monitor nor stops one. -/
theorem OneRunning.checked {ok : Bool} (h : s.OneRunning) :
    (s.checked C handle ok).1.OneRunning := by
  unfold FollowerProcess.checked
  rcases hm : s.monitors[handle]? with _ | m
  · exact h
  have hset : (s.setMonitor handle (m.checked ok)).OneRunning := by
    intro k m' hm' hr
    rw [getElem?_setMonitor] at hm'
    split_ifs at hm' with hk
    · subst hk
      rw [hm, Option.map_some, Option.some.injEq] at hm'
      refine h k m hm ?_
      rw [← hm'] at hr
      unfold PrimaryMonitor.checked at hr
      split_ifs at hr <;> exact hr
    · exact h k m' hm' hr
  simp only
  split_ifs
  · exact hset
  · unfold onFailure campaignForPrimary
    split_ifs <;> exact hset

/-- A check promotes no one and adopts no leader. -/
theorem checked_events {ok : Bool} : (∀ term, .promoted term ∉ (s.checked C handle ok).2) ∧
    ∀ primaryUrl, .adopted primaryUrl ∉ (s.checked C handle ok).2 := by
  unfold FollowerProcess.checked onFailure campaignForPrimary
  rcases s.monitors[handle]? with _ | m
  · simp
  · simp only
    split_ifs <;> simp

theorem stopCurrent_events : (∀ term, .promoted term ∉ s.stopCurrent.2) ∧
    ∀ primaryUrl, .adopted primaryUrl ∉ s.stopCurrent.2 := by
  unfold stopCurrent
  rcases s.primaryMonitorHandle with _ | handle
  · simp
  · simp only [stop]
    rcases s.monitors[handle]? with _ | m <;> simp

/-- What is left running by a step: nothing of before once a leader is adopted, and nothing at all
once an election is won. -/
structure Current (s : FollowerProcess) (r : FollowerProcess × List MonitorEvent) : Prop where
  one : r.1.OneRunning
  promoted : ∀ term, .promoted term ∈ r.2 → r.1.NoneRunning
  adopted : ∀ primaryUrl, .adopted primaryUrl ∈ r.2 → ∀ (k : ℕ) (m : PrimaryMonitor),
    k < s.monitors.length → r.1.monitors[k]? = some m → m.running = false

theorem Current.of_one {r : FollowerProcess × List MonitorEvent} (h : r.1.OneRunning)
    (hp : ∀ term, .promoted term ∉ r.2) (ha : ∀ primaryUrl, .adopted primaryUrl ∉ r.2) :
    Current s r :=
  ⟨h, fun term hk => absurd hk (hp term), fun primaryUrl hk => absurd hk (ha primaryUrl)⟩

/-- Once an election is won, none is running. -/
theorem current_won {s₁ : FollowerProcess} (h : s₁.OneRunning) (term : ℤ) :
    Current s (s₁.stopCurrent.1, .promoted term :: s₁.stopCurrent.2) := by
  have hnone := h.stopCurrent
  refine ⟨fun k m hm hr => ?_, fun _ _ => hnone, fun primaryUrl hk => ?_⟩
  · rw [hnone k m hm] at hr
    exact Bool.noConfusion hr
  · rcases List.mem_cons.1 hk with hk | hk
    · exact MonitorEvent.noConfusion hk
    · exact absurd hk (stopCurrent_events.2 primaryUrl)

/-- Once a leader is adopted, the one that was started then is the only one that is running. -/
theorem current_adopted {s₁ : FollowerProcess} (hmonitors : s₁.monitors = s.monitors)
    (h : s₁.OneRunning) (primaryUrl : JsString) :
    Current s ((s₁.attachPrimaryMonitor primaryUrl).1,
      (s₁.attachPrimaryMonitor primaryUrl).2 ++ [.adopted primaryUrl]) := by
  have hattach := h.attachPrimaryMonitor primaryUrl
  refine ⟨fun k m hm hr => ?_, fun term hk => ?_, fun url _ k m hlt hm => ?_⟩
  · rcases hattach k m hm with ⟨-, hoff⟩ | hcur
    · rw [hoff] at hr
      exact Bool.noConfusion hr
    · exact hcur
  · rcases List.mem_append.1 hk with hk | hk
    · exact absurd hk (stopCurrent_events.1 term)
    · simp at hk
  · rcases hattach k m hm with ⟨-, hoff⟩ | hcur
    · exact hoff
    · simp only [FollowerProcess.attachPrimaryMonitor, length_stopCurrent, hmonitors,
        Option.some.injEq] at hcur
      omega

theorem current_step {r : FollowerProcess × List MonitorEvent} (h : s.OneRunning)
    (hs : FollowerStep C s a r) : Current s r := by
  have hrest : ∀ s₁ : FollowerProcess, s₁.monitors = s.monitors →
      s₁.primaryMonitorHandle = s.primaryMonitorHandle → s₁.OneRunning := by
    intro s₁ hmonitors hhandle k m hm hr
    rw [hhandle]
    exact h k m (hmonitors ▸ hm) hr
  cases hs with
  | unwatched a s' hmonitors hhandle =>
    exact .of_one (hrest s' hmonitors hhandle) (by simp) (by simp)
  | answered i ok handle s₁ hi hmonitors hhandle =>
    exact .of_one (hrest s₁ hmonitors hhandle).checked checked_events.1 checked_events.2
  | stop handle =>
    refine .of_one h.stop (fun term hk => ?_) fun primaryUrl hk => ?_ <;>
      · unfold FollowerProcess.stop at hk
        rcases hm : s.monitors[handle]? with _ | m <;> simp [hm] at hk
  | won grants term s₁ hmonitors hhandle => exact current_won (hrest s₁ hmonitors hhandle) term
  | adopted term primaryUrl s₁ hmonitors hhandle =>
    exact current_adopted hmonitors (hrest s₁ hmonitors hhandle) primaryUrl

/-! ## Runs -/

/-- What is true of the monitors after a run whose late checks all agree. -/
structure Silent (log : List MonitorEvent) (s : FollowerProcess) : Prop where
  sound : s.Sound
  oneRunning : s.OneRunning
  silent : ∀ before k healthy failures after, log = before ++ .stopped k healthy failures :: after →
    (∀ n, .failed k n ∉ after) ∧ (∀ t, .campaigned k t ∉ after) ∧
      ∃ m : PrimaryMonitor, s.monitors[k]? = some m ∧ m.running = false ∧ m.healthy = healthy ∧
        m.failures = failures
  logged : ∀ (k : ℕ) (m : PrimaryMonitor), s.monitors[k]? = some m → m.running = false →
    .stopped k m.healthy m.failures ∈ log

theorem Silent.staysSilent (h : Silent log s) : StaysSilent log s := by
  intro before k healthy failures after hlog
  obtain ⟨hf, hc, m, hm, -, hhealthy, hfailures⟩ := h.silent before k healthy failures after hlog
  exact ⟨hf, hc, m, hm, hhealthy, hfailures⟩

theorem append_eq_append_cons {α : Type} {l₁ l₂ before after : List α} {x : α}
    (h : l₁ ++ l₂ = before ++ x :: after) : (∃ l, l₁ = before ++ x :: l ∧ after = l ++ l₂) ∨
      ∃ l, l₂ = l ++ x :: after ∧ before = l₁ ++ l := by
  rcases List.append_eq_append_iff.1 h with ⟨l, hb, hl⟩ | ⟨l, hl₁, hl⟩
  · exact .inr ⟨l, hl, hb⟩
  · rcases l with _ | ⟨y, l⟩
    · exact .inr ⟨[], by simpa using hl.symm, by simpa using hl₁.symm⟩
    · obtain ⟨rfl, rfl⟩ := List.cons.inj hl
      exact .inl ⟨l, hl₁, rfl⟩

theorem Silent.step (h : Silent log s) (ha : LateChecksAgree s a)
    (hs : s.step C a = some (s', es)) : Silent (log ++ es) s' := by
  have hstep := followerStep hs
  have hq := quiet_step h.sound ha hstep
  refine ⟨sound_step h.sound hstep, (current_step h.oneRunning hstep).one, ?_,
    fun k m hm hr => ?_⟩
  · intro before k healthy failures after hlog
    rcases append_eq_append_cons hlog with ⟨x, rfl, rfl⟩ | ⟨x, rfl, -⟩
    · obtain ⟨hf, hc, m, hm, hr, hrest⟩ := h.silent before k healthy failures x rfl
      refine ⟨fun n hn => ?_, fun t ht => ?_, m, hq.keeps k m hm hr, hr, hrest⟩
      · rcases List.mem_append.1 hn with hn | hn
        · exact hf n hn
        · obtain ⟨m', hm', hr'⟩ := hq.failed k n hn
          rw [hm, Option.some.injEq] at hm'
          rw [← hm', hr] at hr'
          exact Bool.noConfusion hr'
      · rcases List.mem_append.1 ht with ht | ht
        · exact hc t ht
        · obtain ⟨m', hm', hr'⟩ := hq.campaigned k t ht
          rw [hm, Option.some.injEq] at hm'
          rw [← hm', hr] at hr'
          exact Bool.noConfusion hr'
    · -- the monitor is stopped by this step
      obtain ⟨hf, hc, hm⟩ := hq.stopped k healthy failures (by simp)
      refine ⟨fun n hn => hf k n ?_, fun t ht => hc k t ?_, hm⟩
      · exact List.mem_append_right _ (List.mem_cons_of_mem _ hn)
      · exact List.mem_append_right _ (List.mem_cons_of_mem _ ht)
  · rcases hq.logged k m hm hr with hm | hk
    · exact List.mem_append_left _ (h.logged k m hm hr)
    · exact List.mem_append_right _ hk

theorem silent_started (leadership : Leadership) : Silent [] (started leadership) := by
  have hboot : Silent [] (boot leadership) :=
    ⟨by simp [Sound, boot], by simp [OneRunning, boot], by simp, by simp [boot]⟩
  unfold started
  split
  · exact hboot
  · exact hboot
  · exact hboot
  · refine ⟨sound_attachPrimaryMonitor hboot.sound _, fun k m hm _ => ?_, by simp,
      fun k m hm hr => ?_⟩
    · rcases hboot.oneRunning.attachPrimaryMonitor _ k m hm with ⟨hlt, -⟩ | hcur
      · exact absurd hlt (Nat.not_lt_zero k)
      · exact hcur
    · have hstart : m = .start _ := List.mem_singleton.1 (List.mem_of_getElem? hm)
      rw [hstart] at hr
      exact Bool.noConfusion hr

theorem silent_run {leadership : Leadership}
    (h : Run (step C) LateChecksAgree (started leadership) log s) : Silent log s :=
  h.invariant (I := Silent) (silent_started leadership) fun hI ha hs => hI.step ha hs

theorem getElem?_checked (C : MonitorConfig) (ok : Bool) (hm : s.monitors[handle]? = some m) :
    (s.checked C handle ok).1.monitors[handle]? = some (m.checked ok) := by
  have hset : (s.setMonitor handle (m.checked ok)).monitors[handle]? = some (m.checked ok) := by
    rw [getElem?_setMonitor, if_pos rfl, hm]
    rfl
  simp only [FollowerProcess.checked, hm]
  split_ifs
  · exact hset
  · unfold onFailure campaignForPrimary
    split_ifs <;> exact hset

/-- A late check that does not agree changes what the handle reports. -/
theorem Silent.broken (h : Silent log s) (ha : ¬ LateChecksAgree s a)
    (hs : s.step C a = some (s', es)) : ¬ StaysSilent (log ++ es) s' := by
  cases a with
  | tick | stop | conclude | leader | requestVote | promote => exact absurd trivial ha
  | answered i ok =>
    simp only [LateChecksAgree] at ha
    push Not at ha
    obtain ⟨k, hi, m, hm, hr, hnew⟩ := ha
    obtain ⟨before, after, rfl⟩ := List.append_of_mem (h.logged k m hm hr)
    intro hsilent
    obtain ⟨-, -, m', hm', -, hfailures⟩ :=
      hsilent before k m.healthy m.failures (after ++ es) (by simp)
    simp only [FollowerProcess.step, show s.checks[i]? = some k from hi, Option.some.injEq] at hs
    have hrest : ({ s with checks := s.checks.eraseIdx i } : FollowerProcess).monitors[k]? =
      some m := hm
    have hset := getElem?_checked C ok hrest
    rw [hs, hm', Option.some.injEq] at hset
    rw [hset] at hfailures
    unfold PrimaryMonitor.checked at hfailures
    split_ifs at hfailures with hok
    · exact hnew hok hfailures.symm
    · simp at hfailures

end FollowerProcess

/-- As long as the pings that are answered after their monitor was stopped only repeat its last
check, every stopped monitor stays silent; a step breaks the silence exactly if it answers one that
does not. What ran before is stopped once a leader is adopted, and all once an election is won. -/
theorem stopped_monitor_silent (C : MonitorConfig) (leadership : Leadership)
    {log : List MonitorEvent} {s : FollowerProcess}
    (h : Run (FollowerProcess.step C) LateChecksAgree (.started leadership) log s) :
    StaysSilent log s ∧
    ∀ a s' es, s.step C a = some (s', es) →
      (StaysSilent (log ++ es) s' ↔ LateChecksAgree s a) ∧
      (∀ primaryUrl, .adopted primaryUrl ∈ es → ∀ (k : ℕ) (m : PrimaryMonitor),
        k < s.monitors.length → s'.monitors[k]? = some m → m.running = false) ∧
      (∀ term, .promoted term ∈ es → ∀ (k : ℕ) (m : PrimaryMonitor),
        s'.monitors[k]? = some m → m.running = false) := by
  have hs := FollowerProcess.silent_run h
  refine ⟨hs.staysSilent, fun a s' es he => ⟨⟨fun hsilent => ?_, fun ha => ?_⟩, ?_, ?_⟩⟩
  · by_contra ha
    exact hs.broken ha he hsilent
  · exact (hs.step ha he).staysSilent
  · exact (FollowerProcess.current_step hs.oneRunning (FollowerProcess.followerStep he)).adopted
  · exact (FollowerProcess.current_step hs.oneRunning (FollowerProcess.followerStep he)).promoted

/-- A replica of `http://a` that promotes itself after the default of three failures. -/
def monitorConfig : MonitorConfig where
  autoPromote := true
  autoPromoteThreshold := 3
  peerUrls := [js "http://c"]

def replicaOfA : Leadership where
  role := .replica
  primaryUrl := some (js "http://a")
  replicaUrls := []
  election := .new (js "http://b")

/-- Two pings of the old primary are in flight when a new leader is adopted. Both are answered, and
the handle of the old monitor still reports what it did when it was stopped. -/
theorem stopped_monitor_silent_late : ∃ (log : List MonitorEvent) (s : FollowerProcess),
    Run (FollowerProcess.step monitorConfig) LateChecksAgree (.started replicaOfA) log s ∧
      log = [.stopped 0 true 0, .adopted (js "http://c")] ∧ s.checks = [] ∧ StaysSilent log s := by
  have hrun : ∃ (log : List MonitorEvent) (s : FollowerProcess),
      Run (FollowerProcess.step monitorConfig) LateChecksAgree (.started replicaOfA) log s ∧
        log = [.stopped 0 true 0, .adopted (js "http://c")] ∧ s.checks = [] :=
    exists_run_of_exec [.tick 0, .tick 0, .leader 1 (js "http://c"), .answered 1 true,
      .answered 0 true] (by decide +kernel)
  obtain ⟨log, s, h, hlog, hchecks⟩ := hrun
  exact ⟨log, s, h, hlog, hchecks, (stopped_monitor_silent monitorConfig replicaOfA h).1⟩

/-- The third ping in a row of the old primary fails after a new leader was adopted: the monitor
that was stopped calls back, and the node stands for election against the leader it follows. -/
theorem stopped_monitor_campaigns : ∃ (log : List MonitorEvent) (s : FollowerProcess),
    Run (FollowerProcess.step monitorConfig) (fun _ _ => True) (.started replicaOfA) log s ∧
      log = [.failed 0 1, .failed 0 2, .stopped 0 false 2, .adopted (js "http://c"), .failed 0 3,
        .campaigned 0 2] ∧
      s.leadership.primaryUrl = some (js "http://c") ∧ s.leadership.election.currentTerm = 2 ∧
      ¬ StaysSilent log s := by
  have hrun : ∃ (log : List MonitorEvent) (s : FollowerProcess),
      Run (FollowerProcess.step monitorConfig) (fun _ _ => True) (.started replicaOfA) log s ∧
        log = [.failed 0 1, .failed 0 2, .stopped 0 false 2, .adopted (js "http://c"), .failed 0 3,
          .campaigned 0 2] ∧
        s.leadership.primaryUrl = some (js "http://c") ∧ s.leadership.election.currentTerm = 2 :=
    exists_run_of_exec [.tick 0, .answered 0 false, .tick 0, .answered 0 false, .tick 0,
      .leader 1 (js "http://c"), .answered 0 false] (by decide +kernel)
  obtain ⟨log, s, h, hlog, hurl, hterm⟩ := hrun
  refine ⟨log, s, h, hlog, hurl, hterm, fun hsilent => ?_⟩
  obtain ⟨-, hcampaigned, -⟩ := hsilent [.failed 0 1, .failed 0 2] 0 false 2
    [.adopted (js "http://c"), .failed 0 3, .campaigned 0 2] hlog
  exact hcampaigned 2 (by simp)

end InkCache
