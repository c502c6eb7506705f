import InkCache.Takeover
import InkCache.Proofs.Cluster
import InkCache.Proofs.PrimaryMonitor

/-!
# Takeovers

Of the steps of a process only a check that fails starts an election, and only the conclusion of an
election promotes the node (`WatchStep`). So the log tells, for each campaign, the failures in a row
that it answers, and for each promotion, its campaign (`Watched`). And a replica that nobody opposes
takes over: from the failure that is enough on, an election is under way until the node is primary
(`Takes`), and a majority of the votes is all that it waits for.
-/

namespace InkCache

open Lib

/-! ## Terms -/

theorem leader_term (t : ℤ) (url : JsString) (n : Leadership) :
    n.election.currentTerm ≤ (n.leader t url).1.election.currentTerm := by
  have hl := leaderRouteStep t url n
  generalize (n.leader t url).2.isAdopted = b at hl
  generalize (n.leader t url).1 = l at hl ⊢
  cases hl with
  | refused => exact le_rfl
  | adopted hle => exact (observeTerm_advances t (some url) n.election).term_le

theorem requestVote_term (t : ℤ) (c : JsString) (n : Leadership) :
    n.election.currentTerm ≤ (n.requestVote t c).1.election.currentTerm := by
  have hl := voteRouteStep t c n
  generalize (n.requestVote t c).2.grants = b at hl
  generalize (n.requestVote t c).1 = l at hl ⊢
  cases hl with
  | refused => exact le_rfl
  | granted hc hle => exact hle

namespace FollowerProcess

variable {C : MonitorConfig} {s s' : FollowerProcess} {k handle : ℕ} {m : PrimaryMonitor}
  {log es : List MonitorEvent} {a : MonitorAction}

/-! ## The steps -/

/-- The failures in a row that a monitor has counted. -/
def failures (s : FollowerProcess) (k : ℕ) : ℕ := ((s.monitors[k]?).map (·.failures)).getD 0

def term (s : FollowerProcess) : ℤ := s.leadership.election.currentTerm

/-- What is neither a failure nor of an election. -/
def Calm (es : List MonitorEvent) : Prop :=
  ∀ e ∈ es, e.isElection = false ∧ ∀ k n, e ≠ .failed k n

/-- What a step does to the counts of the monitors, and to the elections. -/
inductive WatchStep (C : MonitorConfig) (s : FollowerProcess) (a : MonitorAction) :
    FollowerProcess → List MonitorEvent → Prop
  | calm {s' : FollowerProcess} {es : List MonitorEvent} (hfailures : s'.failures = s.failures)
      (hflight : s'.electionInFlight = s.electionInFlight ∨ s'.electionInFlight = none)
      (hterm : s.term ≤ s'.term) (hes : Calm es) : WatchStep C s a s' es
  | won {s' : FollowerProcess} {es : List MonitorEvent} {t : ℤ}
      (hfailures : s'.failures = s.failures) (hflight : s.electionInFlight = some t)
      (hflight' : s'.electionInFlight = none) (hterm : s.term ≤ s'.term) (hes : Calm es) :
      WatchStep C s a s' (.promoted t :: es)
  | succeeded {s' : FollowerProcess} {handle i : ℕ} (ha : a = .answered i true)
      (hi : s.checks[i]? = some handle)
      (hfailures : s'.failures = Function.update s.failures handle 0)
      (hflight : s'.electionInFlight = s.electionInFlight) (hterm : s'.term = s.term) :
      WatchStep C s a s' []
  | unheeded {s' : FollowerProcess} (hauto : C.autoPromote = false)
      (hflight : s'.electionInFlight = s.electionInFlight) (hterm : s'.term = s.term) :
      WatchStep C s a s' []
  | failed {s' : FollowerProcess} (handle : ℕ)
      (hfailures : s'.failures = Function.update s.failures handle (s.failures handle + 1))
      (hflight : s'.electionInFlight = s.electionInFlight) (hterm : s'.term = s.term)
      (hlow : C.autoPromoteThreshold ≤ s.failures handle + 1 → s.electionInFlight.isSome) :
      WatchStep C s a s' [.failed handle (s.failures handle + 1)]
  | campaigned {s' : FollowerProcess} (handle : ℕ) {t : ℤ} (hauto : C.autoPromote = true)
      (hfailures : s'.failures = Function.update s.failures handle (s.failures handle + 1))
      (hhigh : C.autoPromoteThreshold ≤ s.failures handle + 1)
      (hflight : s'.electionInFlight = some t) (hterm : s.term < t) (hterm' : s'.term = t) :
      WatchStep C s a s' [.failed handle (s.failures handle + 1), .campaigned handle t]

theorem failures_setMonitor (hm : s.monitors[handle]? = some m) (m' : PrimaryMonitor) :
    (s.setMonitor handle m').failures = Function.update s.failures handle m'.failures := by
  funext k
  rw [failures, getElem?_setMonitor, Function.update_apply]
  split_ifs with hk
  · subst hk
    rw [hm]
    rfl
  · rfl

theorem failures_stop : (s.stop handle).1.failures = s.failures := by
  unfold stop
  rcases hm : s.monitors[handle]? with _ | m
  · rfl
  · simp only [failures_setMonitor hm]
    rw [Function.update_eq_self_iff, failures, hm]
    rfl

theorem calm_stop : Calm (s.stop handle).2 := by
  unfold stop
  rcases hm : s.monitors[handle]? with _ | m
  · simp [Calm]
  · simp [Calm, MonitorEvent.isElection]

theorem kept_stop (handle : ℕ) (s : FollowerProcess) :
    (s.stop handle).1.electionInFlight = s.electionInFlight ∧
    (s.stop handle).1.leadership = s.leadership := by
  unfold stop
  rcases hm : s.monitors[handle]? with _ | m
  · exact ⟨rfl, rfl⟩
  · exact ⟨rfl, rfl⟩

theorem stopCurrent_spec : s.stopCurrent.1.failures = s.failures ∧ Calm s.stopCurrent.2 ∧
    s.stopCurrent.1.electionInFlight = s.electionInFlight ∧
    s.stopCurrent.1.leadership = s.leadership := by
  unfold stopCurrent
  rcases s.primaryMonitorHandle with _ | handle
  · exact ⟨rfl, by simp [Calm], rfl, rfl⟩
  · exact ⟨failures_stop, calm_stop, kept_stop handle s⟩

theorem attachPrimaryMonitor_spec (primaryUrl : JsString) (s : FollowerProcess) :
    (s.attachPrimaryMonitor primaryUrl).1.failures = s.failures ∧
    Calm (s.attachPrimaryMonitor primaryUrl).2 ∧
    (s.attachPrimaryMonitor primaryUrl).1.electionInFlight = s.electionInFlight ∧
    (s.attachPrimaryMonitor primaryUrl).1.leadership = s.leadership := by
  obtain ⟨hfailures, hcalm, hflight, hleadership⟩ := stopCurrent_spec (s := s)
  refine ⟨?_, hcalm, hflight, hleadership⟩
  rw [← hfailures]
  funext k
  simp only [failures, attachPrimaryMonitor, List.getElem?_append]
  split_ifs with hlt
  · rfl
  · rw [List.getElem?_eq_none (not_lt.1 hlt)]
    rcases hk : k - s.stopCurrent.1.monitors.length with _ | n
    · rfl
    · rfl

/-- A ping that fails. -/
theorem watchStep_failed (hm : s.monitors[handle]? = some m) (a : MonitorAction) :
    WatchStep C s a (s.checked C handle false).1 (s.checked C handle false).2 := by
  have hcount : s.failures handle = m.failures := by
    rw [failures, hm]
    rfl
  have hfailed : (s.setMonitor handle (m.checked false)).failures =
      Function.update s.failures handle (s.failures handle + 1) := by
    rw [failures_setMonitor hm, hcount]
    rfl
  have hn : (m.checked false).failures = s.failures handle + 1 := by
    rw [hcount]
    rfl
  unfold checked
  simp only [hm, Bool.false_eq_true, if_false, onFailure]
  split_ifs with hauto hlow
  · rw [hn] at hlow ⊢
    exact .failed handle hfailed rfl rfl fun hhigh => absurd hlow hhigh.not_gt
  · rw [hn] at hlow ⊢
    simp only [campaignForPrimary]
    split_ifs with hflight
    · exact .failed handle hfailed rfl rfl fun _ => hflight
    · refine .campaigned handle hauto hfailed (not_lt.1 hlow) rfl ?_ rfl
      exact lt_add_one s.leadership.election.currentTerm
  · exact .unheeded (Bool.eq_false_of_not_eq_true hauto) rfl rfl

theorem watchStep (hs : s.step C a = some (s', es)) : WatchStep C s a s' es := by
  cases a with
  | tick handle =>
    simp only [step] at hs
    rcases hm : s.monitors[handle]? with _ | m <;> rw [hm] at hs
    · simp at hs
    · simp only at hs
      split_ifs at hs
      obtain ⟨rfl, rfl⟩ := Prod.mk.inj (Option.some.inj hs)
      exact .calm rfl (.inl rfl) le_rfl (by simp [Calm])
  | answered i ok =>
    simp only [step] at hs
    rcases hi : s.checks[i]? with _ | handle <;> rw [hi] at hs
    · simp at hs
    simp only [Option.some.injEq] at hs
    rcases hm : s.monitors[handle]? with _ | m
    · simp only [checked, hm, Prod.mk.injEq] at hs
      obtain ⟨rfl, rfl⟩ := hs
      exact .calm rfl (.inl rfl) le_rfl (by simp [Calm])
    cases ok with
    | true =>
      simp only [checked, hm, if_true, Prod.mk.injEq] at hs
      obtain ⟨rfl, rfl⟩ := hs
      exact .succeeded rfl hi (failures_setMonitor (s := { s with checks := s.checks.eraseIdx i })
        hm _) rfl rfl
    | false =>
      have hstep := watchStep_failed (C := C) (s := { s with checks := s.checks.eraseIdx i }) hm
        (.answered i false)
      rw [hs] at hstep
      cases hstep with
      | calm hfailures hflight hterm hes => exact .calm hfailures hflight hterm hes
      | won hfailures hflight hflight' hterm hes => exact .won hfailures hflight hflight' hterm hes
      | succeeded ha => simp at ha
      | unheeded hauto hflight hterm => exact .unheeded hauto hflight hterm
      | failed handle hfailures hflight hterm hlow =>
        exact .failed handle hfailures hflight hterm hlow
      | campaigned handle hauto hfailures hhigh hflight hterm hterm' =>
        exact .campaigned handle hauto hfailures hhigh hflight hterm hterm'
  | stop handle =>
    simp only [step, Option.some.injEq, Prod.ext_iff] at hs
    obtain ⟨rfl, rfl⟩ := hs
    obtain ⟨hflight, hleadership⟩ := kept_stop handle s
    exact .calm failures_stop (.inl hflight) (by rw [term, term, hleadership]) calm_stop
  | conclude grants =>
    simp only [step] at hs
    rcases he : s.electionInFlight with _ | t <;> rw [he] at hs
    · simp at hs
    simp only at hs
    split_ifs at hs
    simp only [Option.some.injEq, conclude] at hs
    split_ifs at hs
    · obtain ⟨rfl, rfl⟩ := Prod.mk.inj hs
      set s₁ : FollowerProcess := { s with
        electionInFlight := none
        leadership := (s.leadership.promoteToPrimary C.peerUrls).1 } with hs₁
      obtain ⟨hfailures, hcalm, hflight, hleadership⟩ := stopCurrent_spec (s := s₁)
      refine .won hfailures he hflight ?_ hcalm
      rw [term, term, hleadership, hs₁, promoteToPrimary_election]
    · obtain ⟨rfl, rfl⟩ := Prod.mk.inj hs
      exact .calm rfl (.inr rfl) le_rfl (by simp [Calm])
  | leader t primaryUrl =>
    simp only [step, Option.some.injEq, leader] at hs
    have hterm : s.term ≤ (s.leadership.leader t primaryUrl).1.election.currentTerm :=
      leader_term t primaryUrl s.leadership
    split_ifs at hs
    · obtain ⟨rfl, rfl⟩ := Prod.mk.inj hs
      set s₁ : FollowerProcess := { s with leadership := (s.leadership.leader t primaryUrl).1 }
        with hs₁
      obtain ⟨hfailures, hcalm, hflight, hleadership⟩ := attachPrimaryMonitor_spec primaryUrl s₁
      refine .calm hfailures (.inl hflight) ?_ ?_
      · exact hterm.trans_eq (congrArg (·.election.currentTerm) hleadership).symm
      · intro e he
        rcases List.mem_append.1 he with he | he
        · exact hcalm e he
        · rw [List.mem_singleton.1 he]
          exact ⟨rfl, by simp⟩
    · obtain ⟨rfl, rfl⟩ := Prod.mk.inj hs
      exact .calm rfl (.inl rfl) hterm (by simp [Calm])
  | requestVote t candidateId =>
    simp only [step, Option.some.injEq, Prod.mk.injEq] at hs
    obtain ⟨rfl, rfl⟩ := hs
    exact .calm rfl (.inl rfl) (requestVote_term t candidateId s.leadership) (by simp [Calm])
  | promote replicaUrls =>
    simp only [step, Option.some.injEq, Prod.mk.injEq] at hs
    obtain ⟨rfl, rfl⟩ := hs
    refine .calm rfl (.inl rfl) ?_ (by simp [Calm])
    rw [term, term, promoteToPrimary_election]

/-! ## The log -/

theorem failuresOf_append (k : ℕ) (log es : List MonitorEvent) :
    failuresOf k (log ++ es) = failuresOf k log ++ failuresOf k es := List.filterMap_append

theorem campaignTerms_append (log es : List MonitorEvent) :
    campaignTerms (log ++ es) = campaignTerms log ++ campaignTerms es := List.filterMap_append

theorem Calm.failuresOf (h : Calm es) (k : ℕ) : failuresOf k es = [] := by
  refine List.filterMap_eq_nil_iff.2 fun e he => ?_
  cases e with
  | failed k' n => exact absurd rfl ((h _ he).2 k' n)
  | stopped | campaigned | promoted | adopted => rfl

theorem Calm.campaignTerms (h : Calm es) : campaignTerms es = [] := by
  refine List.filterMap_eq_nil_iff.2 fun e he => ?_
  cases e with
  | campaigned k t => exact absurd (h _ he).1 (by simp [MonitorEvent.isElection])
  | failed | stopped | promoted | adopted => rfl

theorem inARow_succ (n : ℕ) : inARow (n + 1) = inARow n ++ [n + 1] := by
  simp [inARow, List.range_succ]

/-- The last election in the log is a campaign in the term. -/
def LastCampaign (log : List MonitorEvent) (t : ℤ) : Prop :=
  ∃ before k after, log = before ++ .campaigned k t :: after ∧ ∀ e ∈ after, e.isElection = false

theorem LastCampaign.append {t : ℤ} (h : LastCampaign log t)
    (hes : ∀ e ∈ es, e.isElection = false) : LastCampaign (log ++ es) t := by
  obtain ⟨before, k, after, rfl, hafter⟩ := h
  refine ⟨before, k, after ++ es, by simp, fun e he => ?_⟩
  rcases List.mem_append.1 he with he | he
  · exact hafter e he
  · exact hes e he

/-- What the log of a run says of the state it ends in. -/
structure Watched (C : MonitorConfig) (log : List MonitorEvent) (s : FollowerProcess) : Prop where
  counts : C.autoPromote = true → ∀ k, ∃ earlier,
    failuresOf k log = earlier ++ inARow (s.failures k)
  flight : ∀ t, s.electionInFlight = some t → LastCampaign log t
  reached : ∀ t ∈ campaignTerms log, t ≤ s.term
  rising : (campaignTerms log).Pairwise (· < ·)
  notPremature : NotPremature C.autoPromoteThreshold log
  byCampaign : PromotedByCampaign log

/-- What is said of the places of an event is said of those in the log, and in what is added. -/
theorem notPremature_append {n : ℕ} (h : NotPremature n log)
    (hes : ∀ k t, .campaigned k t ∉ es) : NotPremature n (log ++ es) := by
  intro before k t after hlog
  rcases append_eq_append_cons hlog with ⟨l, rfl, -⟩ | ⟨l, rfl, -⟩
  · exact h before k t l rfl
  · exact absurd (by simp) (hes k t)

theorem promotedByCampaign_append (h : PromotedByCampaign log)
    (hes : ∀ t, .promoted t ∉ es) : PromotedByCampaign (log ++ es) := by
  intro before t after hlog
  rcases append_eq_append_cons hlog with ⟨l, rfl, -⟩ | ⟨l, rfl, -⟩
  · exact h before t l rfl
  · exact absurd (by simp) (hes t)

theorem Calm.no_campaign (h : Calm es) (k : ℕ) (t : ℤ) : .campaigned k t ∉ es :=
  fun he => absurd (h _ he).1 (by simp [MonitorEvent.isElection])

theorem Calm.no_promotion (h : Calm es) (t : ℤ) : .promoted t ∉ es :=
  fun he => absurd (h _ he).1 (by simp [MonitorEvent.isElection])

namespace Watched

theorem calm (h : Watched C log s) (hfailures : s'.failures = s.failures)
    (hflight : s'.electionInFlight = s.electionInFlight ∨ s'.electionInFlight = none)
    (hterm : s.term ≤ s'.term) (hes : Calm es) : Watched C (log ++ es) s' where
  counts hauto k := by
    rw [failuresOf_append, hes.failuresOf, List.append_nil, hfailures]
    exact h.counts hauto k
  flight t ht := by
    rcases hflight with hflight | hflight <;> rw [hflight] at ht
    · exact (h.flight t ht).append fun e he => (hes e he).1
    · simp at ht
  reached t ht := by
    rw [campaignTerms_append, hes.campaignTerms, List.append_nil] at ht
    exact (h.reached t ht).trans hterm
  rising := by
    rw [campaignTerms_append, hes.campaignTerms, List.append_nil]
    exact h.rising
  notPremature := notPremature_append h.notPremature hes.no_campaign
  byCampaign := promotedByCampaign_append h.byCampaign hes.no_promotion

/-- A promotion ends the election that is under way. -/
theorem won (h : Watched C log s) {t : ℤ} (hfailures : s'.failures = s.failures)
    (hflight : s.electionInFlight = some t) (hflight' : s'.electionInFlight = none)
    (hterm : s.term ≤ s'.term) : Watched C (log ++ [.promoted t]) s' where
  counts hauto k := by
    rw [failuresOf_append, hfailures]
    simpa [failuresOf] using h.counts hauto k
  flight u hu := by
    rw [hflight'] at hu
    simp at hu
  reached u hu := by
    rw [campaignTerms_append] at hu
    exact (h.reached u (by simpa [campaignTerms] using hu)).trans hterm
  rising := by
    rw [campaignTerms_append]
    simpa [campaignTerms] using h.rising
  notPremature := notPremature_append h.notPremature (by simp)
  byCampaign := by
    intro before u after hlog
    rcases append_eq_append_cons hlog with ⟨l, rfl, -⟩ | ⟨l, hl, rfl⟩
    · exact h.byCampaign before u l rfl
    · obtain ⟨rfl, heq⟩ : l = [] ∧ MonitorEvent.promoted t = .promoted u := by
        rcases l with _ | ⟨e, l⟩
        · exact ⟨rfl, (List.cons.inj hl).1⟩
        · simpa using (List.cons.inj hl).2
      obtain rfl := MonitorEvent.promoted.inj heq
      rw [List.append_nil]
      exact h.flight t hflight

/-- Another failure is one more in a row. -/
theorem counts_failed (h : Watched C log s) (hauto : C.autoPromote = true)
    (hfailures : s'.failures = Function.update s.failures handle (s.failures handle + 1)) (k : ℕ) :
    ∃ earlier, failuresOf k (log ++ [.failed handle (s.failures handle + 1)]) =
      earlier ++ inARow (s'.failures k) := by
  obtain ⟨earlier, hk⟩ := h.counts hauto k
  refine ⟨earlier, ?_⟩
  rw [failuresOf_append, hk, hfailures, Function.update_apply]
  by_cases hkh : k = handle
  · subst hkh
    rw [if_pos rfl, inARow_succ]
    simp [failuresOf]
  · rw [if_neg hkh]
    simp [failuresOf, Ne.symm hkh]

theorem failed (h : Watched C log s)
    (hfailures : s'.failures = Function.update s.failures handle (s.failures handle + 1))
    (hflight : s'.electionInFlight = s.electionInFlight) (hterm : s'.term = s.term) :
    Watched C (log ++ [.failed handle (s.failures handle + 1)]) s' where
  counts hauto k := h.counts_failed hauto hfailures k
  flight t ht := (h.flight t (hflight ▸ ht)).append (by simp [MonitorEvent.isElection])
  reached t ht := by
    rw [campaignTerms_append] at ht
    exact (h.reached t (by simpa [campaignTerms] using ht)).trans_eq hterm.symm
  rising := by
    rw [campaignTerms_append]
    simpa [campaignTerms] using h.rising
  notPremature := notPremature_append h.notPremature (by simp)
  byCampaign := promotedByCampaign_append h.byCampaign (by simp)

/-- A campaign right after enough failures in a row. -/
theorem campaigned (h : Watched C log s) {t : ℤ} (hauto : C.autoPromote = true)
    (hlast : log.getLast? = some (.failed handle (s.failures handle)))
    (hhigh : C.autoPromoteThreshold ≤ s.failures handle) (hfailures : s'.failures = s.failures)
    (hflight : s'.electionInFlight = some t) (hterm : s.term < t) (hterm' : s'.term = t) :
    Watched C (log ++ [.campaigned handle t]) s' where
  counts hauto k := by
    rw [failuresOf_append, hfailures]
    simpa [failuresOf] using h.counts hauto k
  flight u hu := by
    rw [hflight] at hu
    obtain rfl := Option.some.inj hu
    exact ⟨log, handle, [], rfl, by simp⟩
  reached u hu := by
    rw [campaignTerms_append] at hu
    rcases List.mem_append.1 hu with hu | hu
    · exact (h.reached u hu).trans (hterm.le.trans_eq hterm'.symm)
    · obtain rfl : u = t := by simpa [campaignTerms] using hu
      exact hterm'.ge
  rising := by
    rw [campaignTerms_append]
    refine List.pairwise_append.2 ⟨h.rising, by simp [campaignTerms], fun u hu u' hu' => ?_⟩
    obtain rfl : u' = t := by simpa [campaignTerms] using hu'
    exact (h.reached u hu).trans_lt hterm
  notPremature := by
    intro before k u after hlog
    rcases append_eq_append_cons hlog with ⟨l, rfl, -⟩ | ⟨l, hl, rfl⟩
    · exact h.notPremature before k u l rfl
    · obtain ⟨rfl, heq⟩ : l = [] ∧ MonitorEvent.campaigned handle t = .campaigned k u := by
        rcases l with _ | ⟨e, l⟩
        · exact ⟨rfl, (List.cons.inj hl).1⟩
        · simpa using (List.cons.inj hl).2
      obtain ⟨rfl, rfl⟩ := MonitorEvent.campaigned.inj heq
      rw [List.append_nil]
      exact ⟨_, hhigh, hlast, h.counts hauto handle⟩
  byCampaign := promotedByCampaign_append h.byCampaign (by simp)

theorem step (h : Watched C log s) (hs : WatchStep C s a s' es) : Watched C (log ++ es) s' := by
  cases hs with
  | calm hfailures hflight hterm hes => exact h.calm hfailures hflight hterm hes
  | @won es t hfailures hflight hflight' hterm hes =>
    have hwon : Watched C (log ++ [.promoted t]) s' := h.won hfailures hflight hflight' hterm
    rw [← List.singleton_append, ← List.append_assoc]
    exact hwon.calm rfl (.inl rfl) le_rfl hes
  | succeeded ha hi hfailures hflight hterm =>
    rw [List.append_nil]
    refine { h with
      counts := fun hauto k => ?_
      flight := fun t ht => h.flight t (hflight ▸ ht)
      reached := fun t ht => (h.reached t ht).trans_eq hterm.symm }
    rw [hfailures, Function.update_apply]
    split_ifs with hk
    · exact ⟨failuresOf k log, by simp [inARow]⟩
    · exact h.counts hauto k
  | unheeded hauto hflight hterm =>
    rw [List.append_nil]
    refine { h with
      counts := fun hauto' k => ?_
      flight := fun t ht => h.flight t (hflight ▸ ht)
      reached := fun t ht => (h.reached t ht).trans_eq hterm.symm }
    rw [hauto] at hauto'
    simp at hauto'
  | failed handle hfailures hflight hterm hlow => exact h.failed hfailures hflight hterm
  | campaigned handle hauto hfailures hhigh hflight hterm hterm' =>
    set s₁ : FollowerProcess := { s' with
      electionInFlight := s.electionInFlight, leadership := s.leadership }
    have h₁ : Watched C (log ++ [.failed handle (s.failures handle + 1)]) s₁ :=
      h.failed hfailures rfl rfl
    have hcount : s₁.failures handle = s.failures handle + 1 :=
      (congrFun hfailures handle).trans (Function.update_self _ _ _)
    have hcampaigned : Watched C _ s' :=
      h₁.campaigned hauto (by simp [hcount]) (hcount.symm ▸ hhigh) rfl
      hflight hterm hterm'
    rwa [List.append_assoc, List.singleton_append] at hcampaigned

end Watched

theorem watched_started (C : MonitorConfig) (leadership : Leadership) :
    Watched C [] (started leadership) := by
  have hflight : (started leadership).electionInFlight = none := by
    unfold started
    split <;> rfl
  have hfailures : ∀ k, (started leadership).failures k = 0 := by
    intro k
    unfold started
    split
    · rfl
    · rfl
    · rfl
    · exact congrFun (attachPrimaryMonitor_spec _ (boot leadership)).1 k
  refine ⟨fun _ k => ⟨[], ?_⟩, fun t ht => ?_, by simp [campaignTerms], by simp [campaignTerms],
    by simp [NotPremature], by simp [PromotedByCampaign]⟩
  · rw [hfailures]
    rfl
  · rw [hflight] at ht
    simp at ht

end FollowerProcess

open FollowerProcess

/-- In every run, whatever the monitors, the pings and the election messages do: every campaign
answers enough failures in a row of one monitor, each is in a later term than the one before, and
the node is promoted only in the term of its last campaign, and once for it. -/
theorem takeovers_justified (C : MonitorConfig) (leadership : Leadership)
    {log : List MonitorEvent} {s : FollowerProcess}
    (h : Run (FollowerProcess.step C) (fun _ _ => True) (.started leadership) log s) :
    NotPremature C.autoPromoteThreshold log ∧ (campaignTerms log).Pairwise (· < ·) ∧
      PromotedByCampaign log := by
  have hwatched : Watched C log s := h.invariant (I := fun log s => Watched C log s)
    (watched_started C leadership) fun hI _ hs => hI.step (watchStep hs)
  exact ⟨hwatched.notPremature, hwatched.rising, hwatched.byCampaign⟩

/-- A success starts the count again: of five failures only the last three are in a row. The peer
grants its vote, and the node is promoted. -/
theorem takeovers_justified_promoted : ∃ (log : List MonitorEvent) (s : FollowerProcess),
    Run (FollowerProcess.step monitorConfig) (fun _ _ => True) (.started replicaOfA) log s ∧
      log = [.failed 0 1, .failed 0 2, .failed 0 1, .failed 0 2, .failed 0 3, .campaigned 0 1,
        .promoted 1, .stopped 0 false 3] ∧
      s.leadership.role = .primary ∧ PromotedByCampaign log := by
  have hrun : ∃ (log : List MonitorEvent) (s : FollowerProcess),
      Run (FollowerProcess.step monitorConfig) (fun _ _ => True) (.started replicaOfA) log s ∧
        log = [.failed 0 1, .failed 0 2, .failed 0 1, .failed 0 2, .failed 0 3, .campaigned 0 1,
          .promoted 1, .stopped 0 false 3] ∧ s.leadership.role = .primary :=
    exists_run_of_exec [.tick 0, .answered 0 false, .tick 0, .answered 0 false, .tick 0,
      .answered 0 true, .tick 0, .tick 0, .tick 0, .answered 2 false, .answered 1 false,
      .answered 0 false, .conclude [true]] (by decide +kernel)
  obtain ⟨log, s, h, hlog, hrole⟩ := hrun
  exact ⟨log, s, h, hlog, hrole, (takeovers_justified monitorConfig replicaOfA h).2.2⟩

/-! ## A replica that nobody opposes -/

namespace FollowerProcess

variable {C : MonitorConfig} {s s' : FollowerProcess} {handle : ℕ} {log es : List MonitorEvent}
  {a : MonitorAction}

theorem promoteToPrimary_role (n : Leadership) (urls : List JsString) :
    (n.promoteToPrimary urls).1.role = .primary := by
  unfold Leadership.promoteToPrimary
  split_ifs with h
  · exact h
  · rfl

/-- An election that has a majority of the votes makes a replica the primary. -/
theorem conclude_majority (C : MonitorConfig) (term : ℤ) {grants : List Bool}
    (hrole : s.leadership.role = .replica)
    (hmajority : hasMajority (1 + grants.count true) (C.peerUrls.length + 1) = true) :
    (s.conclude C term grants).1.leadership.role = .primary ∧
      .promoted term ∈ (s.conclude C term grants).2 := by
  have hpromoted : (s.leadership.promoteToPrimary C.peerUrls).2 = true := by
    unfold Leadership.promoteToPrimary
    rw [if_neg (by rw [hrole]; decide)]
  simp only [conclude, hmajority, hpromoted, Bool.and_self, if_true]
  refine ⟨?_, List.mem_cons_self⟩
  rw [stopCurrent_spec.2.2.2]
  exact promoteToPrimary_role _ _

theorem checked_keeps (C : MonitorConfig) (handle : ℕ) (ok : Bool) (s : FollowerProcess) :
    (s.checked C handle ok).1.leadership.role = s.leadership.role ∧
      (s.electionInFlight.isSome → (s.checked C handle ok).1.electionInFlight.isSome) := by
  unfold checked
  rcases s.monitors[handle]? with _ | m
  · exact ⟨rfl, id⟩
  · simp only
    split_ifs
    · exact ⟨rfl, id⟩
    · unfold onFailure campaignForPrimary
      split_ifs
      · exact ⟨rfl, id⟩
      · exact ⟨rfl, id⟩
      · exact ⟨rfl, fun _ => rfl⟩
      · exact ⟨rfl, id⟩

/-- As long as nobody opposes it, a node stays in its role and in its election, or is primary. -/
theorem unopposed_step (ha : Unopposed C handle s a) (hs : s.step C a = some (s', es)) :
    s'.leadership.role = .primary ∨ s'.leadership.role = s.leadership.role ∧
      (s.electionInFlight.isSome → s'.electionInFlight.isSome) := by
  cases a with
  | tick k =>
    simp only [step] at hs
    rcases hm : s.monitors[k]? with _ | m <;> rw [hm] at hs
    · simp at hs
    · simp only at hs
      split_ifs at hs
      obtain ⟨rfl, -⟩ := Prod.mk.inj (Option.some.inj hs)
      exact .inr ⟨rfl, id⟩
  | answered i ok =>
    simp only [step] at hs
    rcases hi : s.checks[i]? with _ | k <;> rw [hi] at hs
    · simp at hs
    · have hkeeps := checked_keeps C k ok { s with checks := s.checks.eraseIdx i }
      rw [Option.some.inj hs] at hkeeps
      exact .inr hkeeps
  | stop k =>
    obtain ⟨hflight, hleadership⟩ := kept_stop k s
    rw [Option.some.inj hs] at hflight hleadership
    exact .inr ⟨congrArg (·.role) hleadership, fun h => hflight ▸ h⟩
  | conclude grants =>
    simp only [step] at hs
    rcases he : s.electionInFlight with _ | t <;> rw [he] at hs
    · simp at hs
    simp only at hs
    split_ifs at hs
    left
    rcases hrole : s.leadership.role with _ | _
    · have hkept : (s.conclude C t grants).1.leadership = s.leadership := by
        have hheld : (s.leadership.promoteToPrimary C.peerUrls).2 = false := by
          unfold Leadership.promoteToPrimary
          rw [if_pos hrole]
        simp only [conclude, hheld, Bool.and_false, Bool.false_eq_true, if_false]
      rw [Option.some.inj hs] at hkept
      exact (congrArg (·.role) hkept).trans hrole
    · have hpromoted := (conclude_majority C t hrole ha).1
      rwa [Option.some.inj hs] at hpromoted
  | leader t url | requestVote t k => exact absurd ha (by simp [Unopposed])
  | promote urls =>
    obtain ⟨rfl, -⟩ := Prod.mk.inj (Option.some.inj hs)
    exact .inl (promoteToPrimary_role _ _)

/-- Where a node is on its way to primary after so many failures of its monitor. -/
inductive Takes (C : MonitorConfig) (handle : ℕ) (n : ℕ) (s : FollowerProcess) : Prop
  | primary (hrole : s.leadership.role = .primary)
  | replica (hrole : s.leadership.role = .replica) (hcount : n ≤ s.failures handle)
      (hflight : C.autoPromoteThreshold ≤ n → s.electionInFlight.isSome)

theorem Takes.step (hauto : C.autoPromote = true)
    (h : Takes C handle (failuresOf handle log).length s) (ha : Unopposed C handle s a)
    (hs : s.step C a = some (s', es)) :
    Takes C handle (failuresOf handle (log ++ es)).length s' := by
  rcases unopposed_step ha hs with hprimary | ⟨hrole', hkeeps⟩
  · exact .primary hprimary
  cases h with
  | primary hrole => exact .primary (hrole'.trans hrole)
  | replica hrole hcount hflight =>
    have hrole' := hrole'.trans hrole
    rw [failuresOf_append, List.length_append]
    cases watchStep hs with
    | calm hfailures hflight' hterm hes =>
      rw [hes.failuresOf, List.length_nil, add_zero]
      exact .replica hrole' (hfailures ▸ hcount) fun hn => hkeeps (hflight hn)
    | @won es t hfailures hwon hwon' hterm hes =>
      have hlost := hkeeps (hwon ▸ rfl)
      rw [hwon'] at hlost
      exact absurd hlost (by simp)
    | @succeeded k i hok hi hfailures hflight' hterm =>
      subst hok
      have hk : handle ≠ k := fun hk => absurd (ha (hk ▸ hi)) (by simp)
      refine .replica hrole' ?_ fun hn => hkeeps (hflight hn)
      rw [hfailures, Function.update_of_ne hk]
      exact hcount
    | unheeded hoff hflight' hterm =>
      rw [hauto] at hoff
      exact absurd hoff (by simp)
    | failed k hfailures hflight' hterm hlow =>
      by_cases hk : k = handle
      · subst hk
        refine .replica hrole' ?_ fun hn => ?_
        · rw [hfailures, Function.update_self]
          simpa [failuresOf] using hcount
        · refine hkeeps (hlow (hn.trans ?_))
          simpa [failuresOf] using hcount
      · have hnone : failuresOf handle [.failed k (s.failures k + 1)] = [] := by
          simp [failuresOf, hk]
        rw [hnone, List.length_nil, add_zero]
        refine .replica hrole' ?_ fun hn => hkeeps (hflight hn)
        rw [hfailures, Function.update_of_ne (Ne.symm hk)]
        exact hcount
    | campaigned k hauto' hfailures hhigh hflight' hterm hterm' =>
      refine .replica hrole' ?_ fun _ => hflight' ▸ rfl
      rw [hfailures, Function.update_apply]
      split_ifs with hk
      · subst hk
        simpa [failuresOf] using hcount
      · simpa [failuresOf, Ne.symm hk] using hcount

theorem oneRunning_run {leadership : Leadership}
    (h : Run (step C) (fun _ _ => True) (started leadership) log s) : s.OneRunning :=
  h.invariant (I := fun _ s => s.OneRunning) (silent_started leadership).oneRunning
    fun hI _ hs => (current_step hI (followerStep hs)).one

end FollowerProcess

/-- A replica that nobody opposes takes over: once as many checks of one of its monitors have failed
as the threshold asks for, it is primary, or an election is under way that any majority of the votes
wins, and then no monitor is left running. -/
theorem unopposed_replica_takes_over (C : MonitorConfig) (leadership : Leadership)
    (hauto : C.autoPromote = true) (hthreshold : 1 ≤ C.autoPromoteThreshold) (handle : ℕ)
    {log log' : List MonitorEvent} {s s' : FollowerProcess}
    (h : Run (FollowerProcess.step C) (fun _ _ => True) (.started leadership) log s)
    (h' : Run (FollowerProcess.step C) (Unopposed C handle) s log' s')
    (hlong : C.autoPromoteThreshold ≤ (failuresOf handle log').length) :
    s'.leadership.role = .primary ∨
      ∃ term, s'.electionInFlight = some term ∧
        ∀ grants : List Bool, grants.length = C.peerUrls.length →
          hasMajority (1 + grants.count true) (C.peerUrls.length + 1) = true →
          ∃ s'' es, s'.step C (.conclude grants) = some (s'', es) ∧
            s''.leadership.role = .primary ∧ .promoted term ∈ es ∧ s''.NoneRunning := by
  have htakes : Takes C handle (failuresOf handle log').length s' := by
    refine h'.invariant (I := fun log s => Takes C handle (failuresOf handle log).length s) ?_
      fun hI ha hs => hI.step hauto ha hs
    rcases hrole : s.leadership.role with _ | _
    · exact .primary hrole
    · refine .replica hrole (Nat.zero_le _) fun hn => ?_
      rw [failuresOf, List.filterMap_nil, List.length_nil] at hn
      omega
  cases htakes with
  | primary hrole => exact .inl hrole
  | replica hrole hcount hflight =>
    obtain ⟨term, hterm⟩ := Option.isSome_iff_exists.1 (hflight hlong)
    refine .inr ⟨term, hterm, fun grants hlength hmajority => ?_⟩
    have hs : s'.step C (.conclude grants) = some (s'.conclude C term grants) := by
      simp only [FollowerProcess.step, hterm, if_pos hlength]
    obtain ⟨hpromoted, hmem⟩ := conclude_majority C term hrole hmajority
    have hone : s'.OneRunning :=
      oneRunning_run (h.trans (h'.mono fun _ _ _ => trivial))
    have hcurrent := current_step hone (followerStep hs)
    exact ⟨_, _, hs, hpromoted, hmem, hcurrent.promoted term hmem⟩

/-- A replica of `http://a` with two peers. -/
def peersConfig : MonitorConfig where
  autoPromote := true
  autoPromoteThreshold := 2
  peerUrls := [js "http://b", js "http://c"]

/-- After the second ping that fails, the vote of one of the two is enough. -/
theorem unopposed_replica_takes_over_peers : ∃ (log : List MonitorEvent) (s s' : FollowerProcess)
    (es : List MonitorEvent),
    Run (FollowerProcess.step peersConfig) (Unopposed peersConfig 0) (.started replicaOfA) log s ∧
      s.leadership.role = .replica ∧
      s.step peersConfig (.conclude [false, true]) = some (s', es) ∧
      s'.leadership.role = .primary ∧ s'.NoneRunning := by
  have hrun : ∃ (log : List MonitorEvent) (s : FollowerProcess),
      Run (FollowerProcess.step peersConfig) (Unopposed peersConfig 0) (.started replicaOfA) log s ∧
        log = [.failed 0 1, .failed 0 2, .campaigned 0 1] ∧ s.leadership.role = .replica ∧
        s.electionInFlight = some 1 :=
    exists_run_of_exec [.tick 0, .tick 0, .answered 1 false, .answered 0 false] (by decide +kernel)
  obtain ⟨log, s, h, hlog, hrole, hflight⟩ := hrun
  have hlong : peersConfig.autoPromoteThreshold ≤ (failuresOf 0 log).length := by
    rw [hlog]
    decide
  rcases unopposed_replica_takes_over peersConfig replicaOfA rfl (by decide) 0 .start h hlong with
    hprimary | ⟨term, -, hwins⟩
  · rw [hrole] at hprimary
    exact absurd hprimary (by decide)
  · obtain ⟨s', es, hs, hpromoted, -, hnone⟩ := hwins [false, true] rfl (by decide)
    exact ⟨log, s, s', es, h, hrole, hs, hpromoted, hnone⟩

end InkCache
