import InkCache.RateLimit

/-!
# The rate limiter bounds and separates its clients

While there is room for a new client no other loses its bucket, so a request changes the bucket of
its own client only, and as a tick changes a window (`rateLimiter_get?`). What comes of the
requests of one client is then what its own ticks say (`serve_client`), whatever the others send.
-/

namespace InkCache

open Lib

namespace RateLimitOptions

variable {o : RateLimitOptions} {req : LimitedRequest} {reqs : List LimitedRequest}
  {buckets : Buckets} {key k : JsString} {now : ℚ} {b : Window ℚ}

/-- The buckets have one for the client, or may have one more. -/
def HasRoom (o : RateLimitOptions) (key : JsString) (buckets : Buckets) : Prop :=
  key ∈ buckets.keys ∨ buckets.size < o.maxTrackedClients

/-! ## One request -/

/-- With the request counted, the bucket is what a tick makes of the one before. -/
theorem bucketOf_tick (o : RateLimitOptions) (key : JsString) (now : ℚ) (buckets : Buckets) :
    (⟨(o.bucketOf key now buckets).2.count + 1, (o.bucketOf key now buckets).2.resetAt⟩ :
      Window ℚ) = tick o.windowMs now (buckets.get? key) := by
  unfold bucketOf
  rcases buckets.get? key with _ | bucket
  · rfl
  · dsimp only
    rcases le_or_gt bucket.resetAt now with hle | hlt
    · rw [if_pos hle, tick_of_le hle]
    · rw [if_neg (not_le.2 hlt), tick_of_lt hlt]

/-- With room, only the client's own bucket is another than before. -/
theorem bucketOf_get? (hroom : o.HasRoom key buckets) (hk : k ≠ key) :
    (o.bucketOf key now buckets).1.get? k = buckets.get? k := by
  unfold bucketOf
  rcases hget : buckets.get? key with _ | bucket
  · refine (OrderedMap.get?_insertBounded hk).resolve_right fun hfull => ?_
    exact absurd hfull.1 (not_le.2 (hroom.resolve_left (OrderedMap.get?_eq_none.1 hget)))
  · dsimp only
    split_ifs
    · rw [OrderedMap.get?_set, if_neg hk]
    · rfl

theorem bucketOf_keys : k ∈ (o.bucketOf key now buckets).1.keys → k = key ∨ k ∈ buckets.keys := by
  unfold bucketOf
  rcases buckets.get? key with _ | bucket
  · exact OrderedMap.mem_keys_insertBounded
  · dsimp only
    split_ifs
    · exact OrderedMap.mem_keys_set.1
    · exact .inr

theorem key_mem_bucketOf (o : RateLimitOptions) (key : JsString) (now : ℚ) (buckets : Buckets) :
    key ∈ (o.bucketOf key now buckets).1.keys := by
  unfold bucketOf
  rcases hget : buckets.get? key with _ | bucket
  · exact OrderedMap.mem_keys_set.2 (.inl rfl)
  · dsimp only
    split_ifs
    · exact OrderedMap.mem_keys_set.2 (.inl rfl)
    · exact OrderedMap.mem_keys_of_mem (OrderedMap.get?_eq_some.1 hget)

theorem bucketOf_size (hmax : 1 ≤ o.maxTrackedClients)
    (hsize : buckets.size ≤ o.maxTrackedClients) :
    (o.bucketOf key now buckets).1.size ≤ o.maxTrackedClients := by
  unfold bucketOf
  rcases hget : buckets.get? key with _ | bucket
  · exact OrderedMap.size_insertBounded hmax hsize (OrderedMap.get?_eq_none.1 hget)
  · dsimp only
    split_ifs
    · rwa [OrderedMap.size_set_of_mem (OrderedMap.mem_keys_of_mem (OrderedMap.get?_eq_some.1 hget))]
    · exact hsize

/-- What comes of a request, by the window as its tick leaves it. -/
def outcomeOf (o : RateLimitOptions) (e : ℚ × Window ℚ) : RateLimitOutcome :=
  if o.limit < e.2.count then .reject ⌈(e.2.resetAt - e.1) / 1000⌉ rateLimitExceeded else .next

theorem rateLimiter_eq (hpath : req.path ∉ exemptPaths) : o.rateLimiter req buckets =
    ((o.bucketOf req.client req.now buckets).1.set req.client
      (tick o.windowMs req.now (buckets.get? req.client)),
      o.outcomeOf (req.now, tick o.windowMs req.now (buckets.get? req.client))) := by
  rw [rateLimiter, if_neg hpath, ← bucketOf_tick]
  rfl

theorem rateLimiter_get? (hpath : req.path ∉ exemptPaths) (hroom : o.HasRoom req.client buckets) :
    (o.rateLimiter req buckets).1.get? k =
      if k = req.client then some (tick o.windowMs req.now (buckets.get? req.client))
      else buckets.get? k := by
  rw [rateLimiter_eq hpath, OrderedMap.get?_set]
  split_ifs with hk
  · rfl
  · exact bucketOf_get? hroom hk

theorem rateLimiter_keys (h : k ∈ (o.rateLimiter req buckets).1.keys) :
    k = req.client ∨ k ∈ buckets.keys := by
  by_cases hpath : req.path ∈ exemptPaths
  · rw [rateLimiter, if_pos hpath] at h
    exact .inr h
  · rw [rateLimiter_eq hpath, OrderedMap.mem_keys_set] at h
    exact h.elim .inl bucketOf_keys

theorem rateLimiter_size (hmax : 1 ≤ o.maxTrackedClients)
    (hsize : buckets.size ≤ o.maxTrackedClients) :
    (o.rateLimiter req buckets).1.size ≤ o.maxTrackedClients := by
  by_cases hpath : req.path ∈ exemptPaths
  · rwa [rateLimiter, if_pos hpath]
  · rw [rateLimiter_eq hpath, OrderedMap.size_set_of_mem (key_mem_bucketOf ..)]
    exact bucketOf_size hmax hsize

/-! ## Streams of requests -/

theorem serve_size (hmax : 1 ≤ o.maxTrackedClients) : ∀ (reqs : List LimitedRequest)
    {buckets : Buckets}, buckets.size ≤ o.maxTrackedClients →
      (o.serve buckets reqs).1.size ≤ o.maxTrackedClients
  | [], _, hsize => hsize
  | _ :: reqs, _, hsize => serve_size hmax reqs (rateLimiter_size hmax hsize)

/-- The event of a client's tick. -/
def eventOf (o : RateLimitOptions) (client : JsString) (e : ℚ × Window ℚ) : RateLimitEvent where
  client := client
  now := e.1
  resetAt := some e.2.resetAt
  outcome := o.outcomeOf e

@[simp] theorem eventOf_now (client : JsString) (e : ℚ × Window ℚ) :
    (o.eventOf client e).now = e.1 := rfl

@[simp] theorem eventOf_resetAt (client : JsString) (e : ℚ × Window ℚ) :
    (o.eventOf client e).resetAt = some e.2.resetAt := rfl

theorem eventOf_admitted (client : JsString) (e : ℚ × Window ℚ) :
    (o.eventOf client e).admitted ↔ e.2.count ≤ o.limit := by
  unfold eventOf RateLimitEvent.admitted outcomeOf
  dsimp only
  split_ifs with h
  · simpa [RateLimitOutcome.admitted, RateLimitOutcome.retryAfter] using h
  · simpa [RateLimitOutcome.admitted, RateLimitOutcome.retryAfter] using h

/-- When the requests of a client came. -/
def timesOf (client : JsString) (reqs : List LimitedRequest) : List ℚ :=
  (reqs.filter (·.client = client)).map (·.now)

/-- What comes of a client's requests is what its own ticks say, if there is room for all. -/
theorem serve_client {clients : Finset JsString} (hclients : clients.card ≤ o.maxTrackedClients)
    (client : JsString) : ∀ (reqs : List LimitedRequest) (buckets : Buckets),
      (∀ r ∈ reqs, r.path ∉ exemptPaths) → (∀ r ∈ reqs, r.client ∈ clients) →
      (∀ k ∈ buckets.keys, k ∈ clients) →
      (o.serve buckets reqs).2.filter (·.client = client) =
        (ticks o.windowMs (buckets.get? client) (timesOf client reqs)).map (o.eventOf client)
  | [], _, _, _, _ => rfl
  | req :: reqs, buckets, hpath, hreqs, hkeys => by
    rw [List.forall_mem_cons] at hpath hreqs
    have hroom : o.HasRoom req.client buckets := by
      by_cases hmem : req.client ∈ buckets.keys
      · exact .inl hmem
      · exact .inr ((OrderedMap.size_lt_card hmem hreqs.1 hkeys).trans_le hclients)
    have ih := serve_client hclients client reqs (o.rateLimiter req buckets).1 hpath.2 hreqs.2
      fun k hk => (rateLimiter_keys hk).elim (fun h => h ▸ hreqs.1) (hkeys k)
    have hget := fun k => rateLimiter_get? (k := k) hpath.1 hroom
    have houtcome : (o.rateLimiter req buckets).2 =
        o.outcomeOf (req.now, tick o.windowMs req.now (buckets.get? req.client)) := by
      rw [rateLimiter_eq hpath.1]
    rw [hget] at ih
    simp only [serve, hget, if_true, houtcome, Option.map_some]
    by_cases hclient : req.client = client
    · subst hclient
      rw [if_pos rfl] at ih
      rw [List.filter_cons_of_pos (by simp), ih, timesOf, timesOf,
        List.filter_cons_of_pos (by simp)]
      rfl
    · rw [if_neg (Ne.symm hclient)] at ih
      rw [List.filter_cons_of_neg (by simpa using hclient), ih, timesOf, timesOf,
        List.filter_cons_of_neg (by simpa using hclient)]

/-- There is an event for each request. -/
theorem serve_clients (o : RateLimitOptions) : ∀ (buckets : Buckets) (reqs : List LimitedRequest),
    (o.serve buckets reqs).2.map (·.client) = reqs.map (·.client)
  | _, [] => rfl
  | _, req :: reqs => congrArg (req.client :: ·) (serve_clients o _ reqs)

/-- What comes of a client's requests when there are no others. -/
theorem serve_alone (hcard : (reqs.map (·.client)).toFinset.card ≤ o.maxTrackedClients)
    (hpath : ∀ r ∈ reqs, r.path ∉ exemptPaths) (client : JsString) :
    (o.serve .empty (reqs.filter (·.client = client))).2 =
      (ticks o.windowMs none (timesOf client reqs)).map (o.eventOf client) := by
  have hself : ∀ e ∈ (o.serve .empty (reqs.filter (·.client = client))).2,
      e.client = client := by
    intro e he
    have hmem : e.client ∈ (reqs.filter (·.client = client)).map (·.client) := by
      rw [← serve_clients]
      exact List.mem_map_of_mem he
    obtain ⟨r, hr, heq⟩ := List.mem_map.1 hmem
    rw [← heq]
    simpa using (List.mem_filter.1 hr).2
  have hevents := serve_client hcard client (reqs.filter (·.client = client)) .empty
    (fun r hr => hpath r (List.mem_of_mem_filter hr))
    (fun r hr => List.mem_toFinset.2 (List.mem_map_of_mem (List.mem_of_mem_filter hr)))
    fun _ hk => absurd hk List.not_mem_nil
  rw [List.filter_eq_self.2 fun e he => decide_eq_true (hself e he), timesOf,
    List.filter_filter] at hevents
  simp only [Bool.and_self] at hevents
  exact hevents

/-- After a rejection a tick from the end of the window on is the first of its own. -/
theorem admitted_after (hlimit : 1 ≤ o.limit) {e e' : ℚ × Window ℚ} {s : ℤ}
    (he : e'.2 = tick o.windowMs e'.1 (some e.2)) (hs : (o.outcomeOf e).retryAfter = some s)
    (hlate : e.1 + 1000 * (s : ℚ) ≤ e'.1) : e'.2.count ≤ o.limit := by
  unfold outcomeOf at hs
  split_ifs at hs
  · have hceil : (e.2.resetAt - e.1) / 1000 ≤ (s : ℚ) := by
      rw [← Option.some.inj hs]
      exact Int.le_ceil _
    rw [he, tick_of_le (by linarith)]
    exact hlimit
  · cases hs

end RateLimitOptions

/-- For any number of clients the map tracks no more than it may. With a clock that does not run
backwards and no more clients than that, a client is admitted at most `2 * limit` times in any
interval of the length of a window and `limit` times in one of its windows, as if the others were
absent; and after a rejection it is admitted from `Retry-After` seconds on. -/
theorem rate_limiter (o : RateLimitOptions) (hlimit : 1 ≤ o.limit) (hwindow : 0 < o.windowMs)
    (hmax : 1 ≤ o.maxTrackedClients) :
    (∀ reqs, (o.serve .empty reqs).1.size ≤ o.maxTrackedClients) ∧
    ∀ reqs : List LimitedRequest, (∀ r ∈ reqs, r.path ∉ exemptPaths) →
      reqs.Pairwise (·.now ≤ ·.now) →
      (reqs.map (·.client)).toFinset.card ≤ o.maxTrackedClients → ∀ client : JsString,
      let events := (o.serve .empty reqs).2.filter (·.client = client)
      (∀ t, events.countP (fun e => e.admitted ∧ t ≤ e.now ∧ e.now ≤ t + o.windowMs)
        ≤ 2 * o.limit) ∧
      (∀ r, events.countP (fun e => e.admitted ∧ e.resetAt = some r) ≤ o.limit) ∧
      (∀ e ∈ events, ∃ r, e.resetAt = some r ∧ r - o.windowMs ≤ e.now ∧ e.now < r) ∧
      events = (o.serve .empty (reqs.filter (·.client = client))).2 ∧
      events.IsChain fun e e' => ∀ s : ℤ, e.outcome.retryAfter = some s →
        e.now + 1000 * (s : ℚ) ≤ e'.now → e'.admitted := by
  refine ⟨fun reqs => RateLimitOptions.serve_size hmax reqs (Nat.zero_le _),
    fun reqs hpath hclock hcard client => ?_⟩
  have hevents := RateLimitOptions.serve_client hcard client reqs .empty hpath
    (fun r hr => List.mem_toFinset.2 (List.mem_map_of_mem hr))
    fun _ hk => absurd hk List.not_mem_nil
  have htimes : (RateLimitOptions.timesOf client reqs).Pairwise (· ≤ ·) :=
    (hclock.filter _).map _ fun _ _ h => h
  obtain ⟨w, hcounted⟩ := (Counted.none o.windowMs).ticks hwindow _ htimes (by simp)
  rw [List.nil_append] at hcounted
  intro events
  have heq : events = _ := hevents
  refine ⟨fun t => ?_, fun r => ?_, ?_, ?_, ?_⟩
  · have hle := hcounted.countP_le t o.limit
    rw [heq, List.countP_map]
    refine le_trans (List.countP_mono_left fun e _ he => ?_) hle
    rw [Function.comp_apply, decide_eq_true_eq, RateLimitOptions.eventOf_admitted] at he
    exact decide_eq_true he
  · have hle := hcounted.numbered r o.limit
    rw [heq, List.countP_map]
    refine le_trans (List.countP_mono_left fun e _ he => ?_) hle
    simpa [RateLimitOptions.eventOf_admitted, and_comm] using he
  · rw [heq, List.forall_mem_map]
    intro e he
    exact ⟨e.2.resetAt, rfl, sub_le_iff_le_add.2 (hcounted.inside e he).1, (hcounted.inside e he).2⟩
  · exact heq.trans (RateLimitOptions.serve_alone hcard hpath client).symm
  · rw [heq, List.isChain_map]
    refine (ticks_isChain _ _ _).imp fun e e' he s hs hlate => ?_
    exact (RateLimitOptions.eventOf_admitted _ _).2
      (RateLimitOptions.admitted_after hlimit he hs hlate)

/-- Two clients, one of which comes again too soon, and again after the second it has to wait. -/
theorem rate_limiter_two_clients :
    let o : RateLimitOptions := { limit := 1, windowMs := 1000, maxTrackedClients := 2 }
    let client : JsString := js "1.1.1.1"
    let reqs : List LimitedRequest := [⟨js "/get/a", client, 0⟩, ⟨js "/get/a", js "2.2.2.2", 1⟩,
      ⟨js "/get/a", client, 500⟩, ⟨js "/get/a", client, 1500⟩]
    let events := (o.serve .empty reqs).2.filter (·.client = client)
    (o.serve .empty reqs).1.size ≤ 2 ∧
      events.countP (fun e => e.admitted ∧ 500 ≤ e.now ∧ e.now ≤ 500 + o.windowMs) ≤ 2 ∧
      events = (o.serve .empty (reqs.filter (·.client = client))).2 := by
  intro o client reqs events
  have h := rate_limiter o (by decide) (by norm_num) (by decide)
  have hreqs := h.2 reqs (by decide) (by simp [reqs]; norm_num) (by decide) client
  exact ⟨h.1 reqs, hreqs.1 500, hreqs.2.2.2.1⟩

end InkCache
