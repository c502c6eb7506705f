import InkCache.Proofs.NodeServer

/-!
# Who is throttled

However many clients come, and whichever of them the limiter forgets to make room: the bucket that a
client has counts no more requests than it has sent since the window began, and its first `limit`
were let through (`BucketsTell`). A bucket is forgotten in the client's favour. So who is throttled
has had its share within the last window, and who waits as long as it is told is let through.
-/

namespace InkCache

open Lib

variable {ν : Type} [JsNumber ν]

namespace NodeServer

variable {C : NodeConfig ν} {n n' : NodeServer ν} {m : Moment ν} {req : HttpRequest}
  {r : RouteOutcome ν} {o : RateLimitOptions} {client k : JsString}

/-! ## One request -/

/-- No route answers as the limiter does. -/
theorem dispatch_not_throttled {body : Option (Json ν)} {route : Route}
    (hr : n.dispatch C m body route = some r) : r.response.isThrottled = false := by
  cases route with
  | get key =>
    obtain rfl := Option.some.inj hr
    simp only [getRoute]
    split <;> rfl
  | replicate =>
    simp only [dispatch, replicateRoute] at hr
    split at hr
    · obtain rfl := Option.some.inj hr
      rfl
    · obtain ⟨ops, -, rfl⟩ := Option.map_eq_some_iff.1 hr
      rfl
  | promote =>
    obtain rfl := Option.some.inj hr
    simp only [promoteRoute]
    split
    · rfl
    · split_ifs <;> rfl
  | requestVote =>
    obtain rfl := Option.some.inj hr
    simp only [requestVoteRoute]
    split <;> rfl
  | leader =>
    obtain rfl := Option.some.inj hr
    simp only [leaderRoute]
    split <;> rfl
  | set | predict | delete | invalidate | keys | keyStats | snapshot | restore | flush
  | metrics | metricsHistory | version | health | undecodable | unknown =>
    obtain rfl := Option.some.inj hr
    rfl

theorem authorize_not_throttled (hr : n.authorize C m req = some r) :
    r.response.isThrottled = false := by
  unfold authorize at hr
  rcases hauth : authMiddleware C.apiKey req.auth with _ | e <;> rw [hauth] at hr
  · rcases hbody : expressJson C.numberText req.body with e | body <;> rw [hbody] at hr
    · obtain rfl := Option.some.inj hr
      rfl
    · exact dispatch_not_throttled hr
  · obtain rfl := Option.some.inj hr
    rfl

omit [JsNumber ν] in
/-- Another client's bucket stays or is forgotten. -/
theorem rateLimiter_other {q : LimitedRequest} (b : Buckets) (hk : k ≠ q.client) :
    (o.rateLimiter q b).1.get? k = b.get? k ∨ (o.rateLimiter q b).1.get? k = none := by
  by_cases hpath : q.path ∈ exemptPaths
  · rw [RateLimitOptions.rateLimiter, if_pos hpath]
    exact .inl rfl
  · rw [RateLimitOptions.rateLimiter_eq hpath, OrderedMap.get?_set, if_neg hk]
    unfold RateLimitOptions.bucketOf
    rcases b.get? q.client with _ | bucket
    · exact (OrderedMap.get?_insertBounded hk).imp_right And.right
    · dsimp only
      split_ifs
      · rw [OrderedMap.get?_set, if_neg hk]
        exact .inl rfl
      · exact .inl rfl

/-- What a request that is counted does to the buckets, and how it is answered. -/
structure Counts (o : RateLimitOptions) (m : Moment ν) (req : HttpRequest) (n : NodeServer ν)
    (r : RouteOutcome ν) : Prop where
  own : r.node.buckets.get? req.client =
    some (tick o.windowMs m.clock (n.buckets.get? req.client))
  others : ∀ k, k ≠ req.client →
    r.node.buckets.get? k = n.buckets.get? k ∨ r.node.buckets.get? k = none
  throttled : r.response.isThrottled =
    decide (o.limit < (tick o.windowMs m.clock (n.buckets.get? req.client)).count)
  retryAfter : ∀ s e, r.response = .throttled s e → s =
    ⌈((tick o.windowMs m.clock (n.buckets.get? req.client)).resetAt - m.clock) / 1000⌉

theorem receive_counts (ho : C.rateLimit = some o) (hcounted : req.isCounted = true)
    (hr : n.receive C m req = some r) : Counts o m req n r := by
  obtain ⟨hpreflight, hpath⟩ : req.isPreflight = false ∧ req.path ∉ exemptPaths := by
    simpa [HttpRequest.isCounted] using hcounted
  have hlimiter := @RateLimitOptions.rateLimiter_eq o (req.limited m.clock) n.buckets hpath
  have hother : ∀ k, k ≠ req.client →
      (o.rateLimiter (req.limited m.clock) n.buckets).1.get? k = n.buckets.get? k ∨
      (o.rateLimiter (req.limited m.clock) n.buckets).1.get? k = none :=
    fun k hk => rateLimiter_other n.buckets hk
  have hown : (o.rateLimiter (req.limited m.clock) n.buckets).1.get? req.client =
      some (tick o.windowMs m.clock (n.buckets.get? req.client)) := by
    rw [hlimiter]
    exact OrderedMap.get?_set.trans (if_pos rfl)
  have houtcome : (o.rateLimiter (req.limited m.clock) n.buckets).2 =
      o.outcomeOf (m.clock, tick o.windowMs m.clock (n.buckets.get? req.client)) := by
    rw [hlimiter]
    rfl
  simp only [receive, hpreflight, Bool.false_eq_true, if_false, limit, ho, houtcome,
    RateLimitOptions.outcomeOf] at hr
  split_ifs at hr with hlimit
  · obtain rfl := Option.some.inj hr
    refine ⟨hown, hother, (decide_eq_true hlimit).symm, ?_⟩
    rintro s e ⟨⟩
    rfl
  · have hbuckets := authorize_buckets hr
    have hnot := authorize_not_throttled hr
    refine ⟨hbuckets ▸ hown, fun k hk => hbuckets ▸ hother k hk,
      hnot.trans (decide_eq_false hlimit).symm, fun s e hse => ?_⟩
    rw [hse] at hnot
    exact absurd hnot (by simp [NodeResponse.isThrottled])

/-- One that is not counted leaves the buckets as they are, and is never throttled. -/
theorem receive_uncounted (hcounted : req.isCounted = false) (hr : n.receive C m req = some r) :
    r.node.buckets = n.buckets ∧ r.response.isThrottled = false := by
  unfold receive at hr
  split_ifs at hr with hpreflight
  · obtain rfl := Option.some.inj hr
    exact ⟨rfl, rfl⟩
  have hpath : req.path ∈ exemptPaths := by
    simpa [HttpRequest.isCounted, hpreflight] using hcounted
  have hlimit : n.limit C m.clock req = (n, .next) := by
    unfold limit
    rcases C.rateLimit with _ | o
    · rfl
    · have hskip : o.rateLimiter (req.limited m.clock) n.buckets = (n.buckets, .next) :=
        if_pos hpath
      simp only [hskip]
  rw [hlimit] at hr
  exact ⟨authorize_buckets hr, authorize_not_throttled hr⟩

/-- Whatever else happens to a node leaves the buckets as they are. -/
theorem step_request {a : NodeAction ν} {es : List (NodeEvent ν)}
    (hs : n.step C a = some (n', es)) :
    (∃ m req r, a = .request m req ∧ n.receive C m req = some r ∧ n' = r.node ∧
      es = [.answered ⟨m, req, r.response, r.forwarded⟩]) ∨
    n'.buckets = n.buckets ∧ clocks es = [] ∧ ∀ client, admissions client es = [] := by
  cases a with
  | request m req =>
    simp only [step, Option.map_eq_some_iff] at hs
    obtain ⟨r, hr, heq⟩ := hs
    obtain ⟨rfl, rfl⟩ := Prod.mk.inj heq
    exact .inl ⟨m, req, r, rfl, hr, rfl, rfl⟩
  | lead | load | sweep | monitored =>
    obtain ⟨rfl, rfl⟩ := Prod.mk.inj (Option.some.inj hs)
    exact .inr ⟨rfl, rfl, fun _ => rfl⟩
  | sample clock =>
    obtain ⟨rfl, rfl⟩ := Prod.mk.inj (Option.some.inj hs)
    exact .inr ⟨sample_buckets clock n, rfl, fun _ => rfl⟩

/-! ## What a bucket tells -/

/-- Each bucket began with a request, and counts no more requests than were let through since,
unless the limit is exceeded. -/
def BucketsTell (o : RateLimitOptions) (log : List (NodeEvent ν)) (n : NodeServer ν) : Prop :=
  ∀ k b, n.buckets.get? k = some b →
    (∃ c ∈ clocks log, b.resetAt = c + o.windowMs) ∧
    min b.count o.limit ≤
      (admissions k log).countP fun c : ℤ => decide (b.resetAt - o.windowMs ≤ c)

omit [JsNumber ν] in
theorem clocks_append (log es : List (NodeEvent ν)) :
    clocks (log ++ es) = clocks log ++ clocks es :=
  List.filterMap_append

omit [JsNumber ν] in
theorem admissions_append (k : JsString) (log es : List (NodeEvent ν)) :
    admissions k (log ++ es) = admissions k log ++ admissions k es :=
  List.filterMap_append

omit [JsNumber ν] in
theorem admissions_subset (k : JsString) (log : List (NodeEvent ν)) :
    admissions k log ⊆ clocks log := by
  intro c hc
  obtain ⟨e, he, hec⟩ := List.mem_filterMap.1 hc
  refine List.mem_filterMap.2 ⟨e, he, ?_⟩
  cases e with
  | answered e =>
    simp only [NodeEvent.admittedAt] at hec
    split_ifs at hec
    exact hec
  | loaded | sampled => cases hec

omit [JsNumber ν] in
/-- What a bucket told it tells after more events. -/
theorem BucketsTell.keep {log es : List (NodeEvent ν)} (h : BucketsTell o log n)
    {b : Window ℚ} (hb : n.buckets.get? k = some b) :
    (∃ c ∈ clocks (log ++ es), b.resetAt = c + o.windowMs) ∧
    min b.count o.limit ≤
      (admissions k (log ++ es)).countP fun c : ℤ => decide (b.resetAt - o.windowMs ≤ c) := by
  obtain ⟨⟨c, hc, hreset⟩, hcount⟩ := h k b hb
  refine ⟨⟨c, ?_, hreset⟩, hcount.trans ?_⟩
  · rw [clocks_append]
    exact List.mem_append_left _ hc
  · rw [admissions_append, List.countP_append]
    exact Nat.le_add_right _ _

theorem BucketsTell.step {log es : List (NodeEvent ν)} {a : NodeAction ν}
    (h : BucketsTell o log n) (ho : C.rateLimit = some o)
    (hclock : (clocks (log ++ es)).Pairwise (· ≤ ·)) (hs : n.step C a = some (n', es)) :
    BucketsTell o (log ++ es) n' := by
  intro k b hb
  rcases step_request hs with ⟨m, req, r, -, hr, rfl, rfl⟩ | ⟨hbuckets, -⟩
  swap
  · exact h.keep (hbuckets ▸ hb)
  rcases hcounted : req.isCounted
  · exact h.keep ((receive_uncounted hcounted hr).1 ▸ hb)
  have hrec := receive_counts ho hcounted hr
  by_cases hk : k = req.client
  swap
  · rcases hrec.others k hk with hsame | hgone
    · exact h.keep (hsame ▸ hb)
    · rw [hgone] at hb
      cases hb
  subst hk
  obtain rfl := Option.some.inj (hrec.own.symm.trans hb)
  have hlast : clocks (log ++ [.answered ⟨m, req, r.response, r.forwarded⟩]) =
      clocks log ++ [m.clock] := clocks_append ..
  rw [hlast] at hclock ⊢
  have hpassed : admissions req.client [.answered ⟨m, req, r.response, r.forwarded⟩] =
      if (tick o.windowMs m.clock (n.buckets.get? req.client)).count ≤ o.limit then [m.clock]
      else [] := by
    simp only [admissions, List.filterMap_cons, List.filterMap_nil, NodeEvent.admittedAt,
      hcounted, hrec.throttled, true_and]
    split_ifs with h₁ h₂ h₂
    · rfl
    · exact absurd h₁ (by simpa using h₂)
    · exact absurd h₂ (by simpa using h₁)
    · rfl
  rw [admissions_append, hpassed, List.countP_append]
  rcases tick_cases o.windowMs m.clock (n.buckets.get? req.client) with
    hopens | ⟨b, hold, hgoes, hcontinues⟩
  · rw [hopens]
    refine ⟨⟨m.clock, by simp, rfl⟩, ?_⟩
    dsimp only
    split_ifs with hlimit
    · simp
    · omega
  rw [hcontinues]
  obtain ⟨⟨c, hc, hreset⟩, hcount⟩ := h req.client b hold
  refine ⟨⟨c, List.mem_append_left _ hc, hreset⟩, ?_⟩
  have hsince : b.resetAt - o.windowMs ≤ (m.clock : ℚ) := by
    rw [hreset, add_sub_cancel_right]
    exact_mod_cast (List.pairwise_append.1 hclock).2.2 c hc m.clock (by simp)
  dsimp only
  split_ifs with hlimit
  · simp only [List.countP_singleton, decide_eq_true hsince, if_true]
    omega
  · simp only [List.countP_nil]
    omega

theorem bucketsTell_run {opts : CacheStoreOptions} {maxKeyLength : ℕ} {leadership : Leadership}
    {clock : ℤ} {P : NodeServer ν → NodeAction ν → Prop} {log : List (NodeEvent ν)}
    (ho : C.rateLimit = some o)
    (h : Run (NodeServer.step C) P (.start opts maxKeyLength leadership clock) log n)
    (hclock : (clocks log).Pairwise (· ≤ ·)) : BucketsTell o log n := by
  refine h.invariant (I := fun log n => (clocks log).Pairwise (· ≤ ·) → BucketsTell o log n)
    (fun _ k b hb => ?_) (fun ih _ hs hclock => ?_) hclock
  · cases hb
  · refine (ih ?_).step ho hclock hs
    rw [clocks_append] at hclock
    exact (List.pairwise_append.1 hclock).1

/-! ## A client that waits -/

/-- While a client waits its bucket stays, if it is not forgotten. -/
theorem bucket_of_waits {log : List (NodeEvent ν)} (ho : C.rateLimit = some o)
    (h : Run (NodeServer.step C) (Waits client) n log n') :
    n'.buckets.get? client = n.buckets.get? client ∨ n'.buckets.get? client = none := by
  refine h.invariant (I := fun _ n' => n'.buckets.get? client = n.buckets.get? client ∨
    n'.buckets.get? client = none) (.inl rfl) ?_
  intro log n₁ a n₂ es ih ha hs
  have hstays : n₂.buckets.get? client = n₁.buckets.get? client ∨
      n₂.buckets.get? client = none := by
    rcases step_request hs with ⟨m, req, r, rfl, hr, rfl, -⟩ | ⟨hbuckets, -⟩
    · rcases hcounted : req.isCounted
      · rw [(receive_uncounted hcounted hr).1]
        exact .inl rfl
      · refine (receive_counts ho hcounted hr).others client fun hclient => ?_
        rw [ha hclient.symm] at hcounted
        cases hcounted
    · rw [hbuckets]
      exact .inl rfl
  rcases hstays with hstays | hgone
  · rwa [hstays]
  · exact .inr hgone

end NodeServer

open NodeServer

/-- Whoever is throttled has had `limit` requests let through within the last window, however many
other clients there are; it is told to wait for a positive number of seconds, no longer than a
window; and if it waits as long as that, its next request is let through, whatever the others send
in between. -/
theorem throttled_justly (C : NodeConfig ν) {o : RateLimitOptions} (ho : C.rateLimit = some o)
    (hlimit : 1 ≤ o.limit) (opts : CacheStoreOptions) (maxKeyLength : ℕ) (leadership : Leadership)
    (clock : ℤ) {log : List (NodeEvent ν)} {n : NodeServer ν}
    (h : Run (NodeServer.step C) (fun _ _ => True)
      (.start opts maxKeyLength leadership clock) log n) {m : Moment ν}
    (hclock : (clocks log ++ [m.clock]).Pairwise (· ≤ ·)) {req : HttpRequest}
    {r : RouteOutcome ν} (hr : n.receive C m req = some r) {s : ℤ} {e : HttpError}
    (hthrottled : r.response = .throttled s e) :
    o.limit ≤ (admissions req.client log).countP
      (fun c : ℤ => decide ((m.clock : ℚ) - o.windowMs < c ∧ c ≤ m.clock)) ∧
    (0 < s ∧ s ≤ ⌈o.windowMs / 1000⌉) ∧
    ∀ log' n', Run (NodeServer.step C) (Waits req.client) r.node log' n' →
      ∀ m' req' r', req'.client = req.client → (m.clock : ℚ) + 1000 * s ≤ m'.clock →
        n'.receive C m' req' = some r' → r'.response.isThrottled = false := by
  have htell := bucketsTell_run ho h (List.pairwise_append.1 hclock).1
  have hbefore : ∀ c ∈ clocks log, c ≤ m.clock := fun c hc =>
    (List.pairwise_append.1 hclock).2.2 c hc m.clock (by simp)
  have hcounted : req.isCounted = true := by
    by_contra hcounted
    have hnot := (receive_uncounted (by simpa using hcounted) hr).2
    rw [hthrottled] at hnot
    cases hnot
  have hrec := receive_counts ho hcounted hr
  have hover : o.limit < (tick o.windowMs m.clock (n.buckets.get? req.client)).count := by
    have hover := hrec.throttled
    rw [hthrottled] at hover
    exact of_decide_eq_true hover.symm
  have hs := hrec.retryAfter s e hthrottled
  have hown := hrec.own
  rcases tick_cases o.windowMs m.clock (n.buckets.get? req.client) with
    hopens | ⟨b, hold, hgoes, hcontinues⟩
  · rw [hopens] at hover
    exact absurd hlimit hover.not_ge
  rw [hcontinues] at hover hs hown
  obtain ⟨⟨c, hc, hreset⟩, hcount⟩ := htell req.client b hold
  have hstart : (c : ℚ) ≤ m.clock := by exact_mod_cast hbefore c hc
  refine ⟨?_, ⟨?_, ?_⟩, ?_⟩
  · -- the window began less than its length ago
    rw [min_eq_right (Nat.lt_succ_iff.1 hover)] at hcount
    refine hcount.trans (List.countP_mono_left fun x hx hsince => ?_)
    rw [decide_eq_true_eq] at hsince ⊢
    exact ⟨by linarith, hbefore x (admissions_subset _ _ hx)⟩
  · rw [hs, Int.ceil_pos]
    exact div_pos (sub_pos.2 hgoes) (by norm_num)
  · rw [hs]
    refine Int.ceil_mono (div_le_div_of_nonneg_right ?_ (by norm_num))
    dsimp only
    linarith
  · intro log' n' hwaits m' req' r' hclient hlate hr'
    rcases hcounted' : req'.isCounted
    · exact (receive_uncounted hcounted' hr').2
    have hceil : (b.resetAt - m.clock) / 1000 ≤ (s : ℚ) := hs ▸ Int.le_ceil _
    have hfresh : tick o.windowMs m'.clock (n'.buckets.get? req'.client) =
        ⟨1, (m'.clock : ℚ) + o.windowMs⟩ := by
      rw [hclient]
      rcases bucket_of_waits ho hwaits with hstays | hgone
      · rw [hstays, hown]
        exact tick_of_le (by dsimp only; linarith)
      · rw [hgone]
        rfl
    rw [(receive_counts ho hcounted' hr').throttled, hfresh]
    exact decide_eq_false hlimit.not_gt

/-- A third request within a second is throttled, and one a second later is not. -/
theorem throttled_justly_flush : ∃ (log : List (NodeEvent ℚ)) (n : NodeServer ℚ)
    (r : RouteOutcome ℚ), Run (NodeServer.step guardedConfig) (fun _ _ => True)
      (.start {} 256 replicaOfA 0) log n ∧ n.receive guardedConfig ⟨3, 3, 0⟩ flushRequest = some r ∧
      r.response.isThrottled = true ∧ 2 ≤ (admissions (js "6.6.6.6") log).length ∧
      ∀ r', r.node.receive guardedConfig ⟨1003, 1003, 0⟩ flushRequest = some r' →
        r'.response.isThrottled = false := by
  have hrun : ∃ (log : List (NodeEvent ℚ)) (n : NodeServer ℚ),
      Run (NodeServer.step guardedConfig) (fun _ _ => True) (.start {} 256 replicaOfA 0) log n ∧
      (clocks log ++ [3]).Pairwise (· ≤ ·) ∧
      ((n.receive guardedConfig ⟨3, 3, 0⟩ flushRequest).map (·.response.isThrottled)) =
        some true :=
    exists_run_of_exec [.request ⟨1, 1, 0⟩ flushRequest, .request ⟨2, 2, 0⟩ flushRequest]
      (by decide +kernel)
  obtain ⟨log, n, h, hclock, hreceive⟩ := hrun
  obtain ⟨⟨node, response, forwarded⟩, hr, hthrottled⟩ := Option.map_eq_some_iff.1 hreceive
  cases response with
  | throttled s e =>
    obtain ⟨hhad, ⟨-, hs⟩, hwaits⟩ := throttled_justly guardedConfig rfl (by decide) {} 256
      replicaOfA 0 h hclock hr rfl
    have hsecond : s ≤ 1 := by simpa [guardedConfig] using hs
    have hlate : ((3 : ℤ) : ℚ) + 1000 * (s : ℚ) ≤ ((1003 : ℤ) : ℚ) := by
      have : (s : ℚ) ≤ 1 := by exact_mod_cast hsecond
      push_cast
      linarith
    exact ⟨log, n, _, h, hr, rfl, hhad.trans List.countP_le_length,
      fun r' hr' => hwaits [] node .start _ _ r' rfl hlate hr'⟩
  | _ => cases hthrottled

end InkCache
