import InkCache.NodeServer
import InkCache.Proofs.Auth
import InkCache.Proofs.PrimaryMonitor
import InkCache.Proofs.RateLimit

/-!
# What comes down the stack

Below the rate limiter nothing reads the buckets (`authorize_withBuckets`), and a request whose key
is not right goes no further than the check of it, unless it only reads. So a request of an intruder
changes nothing but the buckets, and of these, while there is room for every client, only its own.
-/

namespace InkCache

open Lib

variable {ν : Type} [JsNumber ν]

namespace NodeServer

variable {C : NodeConfig ν} {n n' : NodeServer ν} {m : Moment ν} {req : HttpRequest}
  {key : JsString} {clients intruders : Finset JsString}

/-! ## The buckets -/

def withBuckets (buckets : Buckets) (n : NodeServer ν) : NodeServer ν := { n with buckets }

omit [JsNumber ν] in
theorem sample_buckets (clock : ℤ) (n : NodeServer ν) : (n.sample clock).buckets = n.buckets := by
  unfold sample
  rfl

omit [JsNumber ν] in
theorem withBuckets_sample (b : Buckets) (clock : ℤ) (n : NodeServer ν) :
    (n.withBuckets b).sample clock = (n.sample clock).withBuckets b := by
  unfold sample withBuckets
  rfl

def RouteOutcome.withBuckets (buckets : Buckets) (r : RouteOutcome ν) : RouteOutcome ν :=
  { r with node := r.node.withBuckets buckets }

theorem foldl_replicate (m : Moment ν) (b : Buckets) : ∀ (ops : List (ReplicationOp ν))
    (n : NodeServer ν), ops.foldl (fun n op => n.serve m (.replicate op)) (n.withBuckets b) =
      (ops.foldl (fun n op => n.serve m (.replicate op)) n).withBuckets b
  | [], _ => rfl
  | op :: ops, n => foldl_replicate m b ops (n.serve m (.replicate op))

/-- No route reads the buckets. -/
theorem dispatch_withBuckets (C : NodeConfig ν) (m : Moment ν) (body : Option (Json ν))
    (b : Buckets) (n : NodeServer ν) (route : Route) :
    (n.withBuckets b).dispatch C m body route =
      (n.dispatch C m body route).map (RouteOutcome.withBuckets b) := by
  cases route with
  | replicate =>
    simp only [dispatch, replicateRoute]
    rcases opName body with _ | name
    · rfl
    · simp only [Option.map_map]
      refine congrArg (fun f => (readOp name (orEmpty body)).map f) (funext fun ops => ?_)
      rw [foldl_replicate]
      rfl
  | promote =>
    simp only [dispatch, promoteRoute]
    rcases promoteUrls body with _ | urls
    · rfl
    · simp only [Option.map_some, Option.some.injEq]
      split_ifs with h h' h'
      · rfl
      · exact absurd h h'
      · exact absurd h' h
      · rfl
  | requestVote =>
    simp only [dispatch, requestVoteRoute]
    rcases electionBody C.toInteger _ _ body with e | ⟨term, candidateId⟩ <;> rfl
  | leader =>
    simp only [dispatch, leaderRoute]
    rcases electionBody C.toInteger _ _ body with e | ⟨term, primaryUrl⟩ <;> rfl
  | set | get | predict | delete | invalidate | keys | keyStats | snapshot | restore | flush
  | metrics | metricsHistory | version | health | undecodable | unknown => rfl

theorem authorize_withBuckets (b : Buckets) :
    (n.withBuckets b).authorize C m req =
      (n.authorize C m req).map (RouteOutcome.withBuckets b) := by
  unfold authorize
  rcases authMiddleware C.apiKey req.auth with _ | e
  · rcases expressJson C.numberText req.body with e | body
    · rfl
    · exact dispatch_withBuckets C m body b n req.route
  · rfl

/-! ## The rate limiter -/

/-- What one request does to the buckets while there is room for every client. -/
theorem rateLimiter_bucket {o : RateLimitOptions} {q : LimitedRequest} {b : Buckets}
    (hroom : o.HasRoom q.client b) (k : JsString) :
    (o.rateLimiter q b).1.get? k =
      if q.path ∉ exemptPaths ∧ k = q.client then some (tick o.windowMs q.now (b.get? q.client))
      else b.get? k := by
  by_cases hpath : q.path ∈ exemptPaths
  · rw [if_neg fun h => h.1 hpath, RateLimitOptions.rateLimiter, if_pos hpath]
  · rw [RateLimitOptions.rateLimiter_get? hpath hroom]
    simp only [hpath, not_false_eq_true, true_and]

/-- What comes of a request is decided by the bucket of its client. -/
theorem rateLimiter_outcome {o : RateLimitOptions} {q : LimitedRequest} {b b' : Buckets}
    (h : b.get? q.client = b'.get? q.client) :
    (o.rateLimiter q b).2 = (o.rateLimiter q b').2 := by
  by_cases hpath : q.path ∈ exemptPaths
  · rw [RateLimitOptions.rateLimiter, RateLimitOptions.rateLimiter, if_pos hpath, if_pos hpath]
  · rw [RateLimitOptions.rateLimiter_eq hpath, RateLimitOptions.rateLimiter_eq hpath, h]

/-- The buckets are of clients that there is room for. -/
def Roomy (C : NodeConfig ν) (clients : Finset JsString) (buckets : Buckets) : Prop :=
  (∀ k ∈ buckets.keys, k ∈ clients) ∧ ∀ o ∈ C.rateLimit, clients.card ≤ o.maxTrackedClients

omit [JsNumber ν] in
theorem Roomy.hasRoom {o : RateLimitOptions} {b : Buckets} (h : Roomy C clients b)
    (ho : C.rateLimit = some o) {k : JsString} (hk : k ∈ clients) : o.HasRoom k b := by
  by_cases hmem : k ∈ b.keys
  · exact .inl hmem
  · exact .inr ((OrderedMap.size_lt_card hmem hk h.1).trans_le (h.2 o ho))

omit [JsNumber ν] in
/-- What the limiter leaves of a node: the buckets of other clients as they are. -/
theorem limit_spec (clock : ℤ) (hroom : Roomy C clients n.buckets) (hmem : req.client ∈ clients) :
    ∃ b, (n.limit C clock req).1 = n.withBuckets b ∧ Roomy C clients b ∧
      ∀ k, k ≠ req.client → b.get? k = n.buckets.get? k := by
  unfold limit
  rcases ho : C.rateLimit with _ | o
  · exact ⟨n.buckets, rfl, hroom, fun _ _ => rfl⟩
  · refine ⟨_, rfl, ⟨fun k hk => ?_, hroom.2⟩, fun k hk => ?_⟩
    · rcases RateLimitOptions.rateLimiter_keys hk with hk | hk
      · exact hk ▸ hmem
      · exact hroom.1 k hk
    · have hhas : o.HasRoom (req.limited clock).client n.buckets := hroom.hasRoom ho hmem
      rw [rateLimiter_bucket hhas, if_neg fun h => hk h.2]

omit [JsNumber ν] in
/-- Nodes with the same bucket of a client limit it alike. -/
theorem limit_congr (clock : ℤ) {b : Buckets} (hroom : Roomy C clients n.buckets)
    (hroom' : Roomy C clients b) (hmem : req.client ∈ clients)
    (h : b.get? req.client = n.buckets.get? req.client) :
    ((n.withBuckets b).limit C clock req).2 = (n.limit C clock req).2 ∧
      ((n.withBuckets b).limit C clock req).1.buckets.get? req.client =
        (n.limit C clock req).1.buckets.get? req.client := by
  unfold limit
  rcases ho : C.rateLimit with _ | o
  · exact ⟨rfl, h⟩
  · have hhas : o.HasRoom (req.limited clock).client n.buckets := hroom.hasRoom ho hmem
    have hhas' : o.HasRoom (req.limited clock).client b := hroom'.hasRoom ho hmem
    refine ⟨rateLimiter_outcome h, ?_⟩
    simp only [withBuckets, rateLimiter_bucket hhas, rateLimiter_bucket hhas']
    have hclient : (req.limited clock).client = req.client := rfl
    rw [hclient, h]

/-! ## Intruders -/

/-- Without the key a request passes on an exempt path only. -/
theorem authMiddleware_intruder {q : AuthRequest} (hne : key ≠ [])
    (hpresents : q.presents key = false) (hpath : q.path ∉ authExemptPaths) :
    authMiddleware (some key) q = .reject unauthorized := by
  rcases key with _ | ⟨u, us⟩
  · exact absurd rfl hne
  · simp only [authMiddleware, if_neg hpath]
    rcases hp : q.presentedKey with _ | p
    · rfl
    · rcases p with _ | ⟨v, vs⟩
      · rfl
      · have hsafe : safeEqual (v :: vs) (u :: us) = false := by
          simpa [AuthRequest.presents, hp] using hpresents
        simp only [hsafe, Bool.false_eq_true, if_false]

/-- Behind the check of the key an intruder changes nothing. -/
theorem authorize_intruder {r : RouteOutcome ν} (hkey : C.apiKey = some key) (hne : key ≠ [])
    (hpresents : req.auth.presents key = false) (hr : n.authorize C m req = some r) :
    r.node = n := by
  unfold authorize at hr
  rw [hkey] at hr
  by_cases hpath : req.path ∈ authExemptPaths
  · rcases hauth : authMiddleware (some key) req.auth with _ | e <;> rw [hauth] at hr
    · rcases hbody : expressJson C.numberText req.body with e | body <;> rw [hbody] at hr
      · obtain rfl := Option.some.inj hr
        rfl
      · rcases req.exempt hpath with hroute | hroute <;> rw [hroute] at hr
        · obtain rfl := Option.some.inj hr
          rfl
        · obtain rfl := Option.some.inj hr
          rfl
    · obtain rfl := Option.some.inj hr
      rfl
  · rw [authMiddleware_intruder hne hpresents hpath] at hr
    obtain rfl := Option.some.inj hr
    rfl

/-- Two nodes that no one but intruders can tell apart. -/
structure Alike (C : NodeConfig ν) (clients intruders : Finset JsString) (n n' : NodeServer ν) :
    Prop where
  rest : n' = n.withBuckets n'.buckets
  roomy : Roomy C clients n.buckets
  roomy' : Roomy C clients n'.buckets
  buckets : ∀ k, k ∉ intruders → n'.buckets.get? k = n.buckets.get? k

theorem receive_intruder {r : RouteOutcome ν} (h : Alike C clients intruders n n')
    (hkey : C.apiKey = some key) (hne : key ≠ []) (hmem : req.client ∈ clients)
    (hintruder : req.client ∈ intruders) (hpresents : req.auth.presents key = false)
    (hr : n.receive C m req = some r) : Alike C clients intruders r.node n' := by
  unfold receive at hr
  split_ifs at hr
  · obtain rfl := Option.some.inj hr
    exact h
  obtain ⟨b, hnode, hroomy, hothers⟩ := limit_spec m.clock h.roomy hmem
  have halike : Alike C clients intruders (n.limit C m.clock req).1 n' := by
    rw [hnode]
    refine ⟨h.rest, hroomy, h.roomy', fun k hk => ?_⟩
    rw [h.buckets k hk]
    exact (hothers k fun hkc => hk (hkc ▸ hintruder)).symm
  rcases hl : n.limit C m.clock req with ⟨n₁, _ | ⟨retryAfter, e⟩⟩ <;> rw [hl] at hr halike
  · rwa [authorize_intruder hkey hne hpresents hr]
  · obtain rfl := Option.some.inj hr
    exact halike

/-- Behind the rate limiter the buckets stay as they are. -/
theorem authorize_buckets {r : RouteOutcome ν} (hr : n.authorize C m req = some r) :
    r.node.buckets = n.buckets := by
  have hself : n.authorize C m req =
      (n.authorize C m req).map (RouteOutcome.withBuckets n.buckets) :=
    authorize_withBuckets n.buckets
  rw [hr, Option.map_some, Option.some.injEq] at hself
  rw [hself]
  rfl

/-- A request of another client is answered alike. -/
theorem receive_other {r : RouteOutcome ν} (h : Alike C clients intruders n n')
    (hmem : req.client ∈ clients) (hother : req.client ∉ intruders)
    (hr : n.receive C m req = some r) :
    ∃ r', n'.receive C m req = some r' ∧ r'.response = r.response ∧ r'.forwarded = r.forwarded ∧
      Alike C clients intruders r.node r'.node := by
  unfold receive at hr ⊢
  split_ifs at hr ⊢ with hpre
  · obtain rfl := Option.some.inj hr
    exact ⟨_, rfl, rfl, rfl, h⟩
  obtain ⟨b, hnode, hroomy, hothers⟩ := limit_spec m.clock h.roomy hmem
  obtain ⟨b', hnode', hroomy', hothers'⟩ := limit_spec (n := n') m.clock h.roomy' hmem
  obtain ⟨houtcome, hbucket⟩ := limit_congr m.clock h.roomy h.roomy' hmem
    (h.buckets req.client hother)
  rw [← h.rest] at houtcome hbucket
  rcases hl : n.limit C m.clock req with ⟨n₁, outcome⟩
  rcases hl' : n'.limit C m.clock req with ⟨n₁', outcome'⟩
  rw [hl] at hr hnode houtcome hbucket
  rw [hl'] at hnode' houtcome hbucket
  simp only at hnode hnode' houtcome hbucket
  have hrest : n₁' = n₁.withBuckets b' := by
    rw [hnode', hnode, h.rest]
    rfl
  have hbuckets : ∀ k, k ∉ intruders → b'.get? k = b.get? k := by
    intro k hk
    by_cases hkc : k = req.client
    · rw [hnode, hnode'] at hbucket
      exact hkc ▸ hbucket
    · rw [hothers k hkc, hothers' k hkc]
      exact h.buckets k hk
  have halike : Alike C clients intruders n₁ n₁' := by
    refine ⟨?_, ?_, ?_, ?_⟩
    · rw [hrest]
      rfl
    · rwa [hnode]
    · rwa [hnode']
    · rwa [hnode, hnode']
  rw [houtcome]
  rcases outcome with _ | ⟨retryAfter, e⟩
  · have hr₁ : n₁.authorize C m req = some r := hr
    have hr' : n₁'.authorize C m req = some (RouteOutcome.withBuckets b' r) := by
      rw [hrest, authorize_withBuckets, hr₁]
      rfl
    refine ⟨_, hr', rfl, rfl, rfl, ?_, hroomy', ?_⟩
    · rw [authorize_buckets hr₁]
      exact halike.roomy
    · rw [authorize_buckets hr₁, hnode]
      exact hbuckets
  · obtain rfl := Option.some.inj hr
    exact ⟨_, rfl, rfl, rfl, halike⟩

omit [JsNumber ν] in
/-- What the buckets have no part in leaves two nodes as alike as they were. -/
theorem Alike.keep {n₁ : NodeServer ν} (h : Alike C clients intruders n n')
    (hbuckets : n₁.buckets = n.buckets) :
    Alike C clients intruders n₁ (n₁.withBuckets n'.buckets) where
  rest := rfl
  roomy := hbuckets ▸ h.roomy
  roomy' := h.roomy'
  buckets k hk := (h.buckets k hk).trans (by rw [hbuckets])

/-- What no client asks for changes the other node alike. -/
theorem Alike.follow {a : NodeAction ν} {n₁ : NodeServer ν} {es : List (NodeEvent ν)}
    (h : Alike C clients intruders n n') (ha : ∀ m req, a ≠ .request m req)
    (hs : n.step C a = some (n₁, es)) :
    es.filter (!·.isOf intruders) = es ∧
      ∃ n₁', n'.step C a = some (n₁', es) ∧ Alike C clients intruders n₁ n₁' := by
  cases a with
  | request m req => exact absurd rfl (ha m req)
  | sample clock =>
    obtain ⟨rfl, rfl⟩ := Prod.mk.inj (Option.some.inj hs)
    refine ⟨rfl, _, ?_, h.keep (sample_buckets clock n)⟩
    rw [h.rest]
    exact congrArg (fun n => some (n, [NodeEvent.sampled clock]))
      (withBuckets_sample n'.buckets clock n)
  | lead | load | sweep | monitored =>
    obtain ⟨rfl, rfl⟩ := Prod.mk.inj (Option.some.inj hs)
    exact ⟨rfl, _, by rw [h.rest]; rfl, h.keep rfl⟩

/-- The other node takes every action that is no request of an intruder, and reports the same. -/
theorem Alike.step {a : NodeAction ν} {n₁ : NodeServer ν} {es : List (NodeEvent ν)}
    (h : Alike C clients intruders n n') (ha : Uncredentialed key clients intruders n a)
    (hs : n.step C a = some (n₁, es)) (hother : a.isOf intruders = false) :
    ∃ n₁', n'.step C a = some (n₁', es.filter (!·.isOf intruders)) ∧
      Alike C clients intruders n₁ n₁' := by
  by_cases hreq : ∃ m req, a = .request m req
  · obtain ⟨m, req, rfl⟩ := hreq
    have hclient : req.client ∉ intruders := of_decide_eq_false hother
    simp only [NodeServer.step, Option.map_eq_some_iff] at hs
    obtain ⟨r, hr, heq⟩ := hs
    obtain ⟨rfl, rfl⟩ := Prod.mk.inj heq
    obtain ⟨r', hr', hresponse, hforwarded, halike⟩ := receive_other h ha.1 hclient hr
    rw [List.filter_cons_of_pos (by simpa [NodeEvent.isOf] using hclient)]
    refine ⟨r'.node, ?_, halike⟩
    simp only [NodeServer.step, hr', Option.map_some, hresponse, hforwarded, List.filter_nil]
  · push Not at hreq
    obtain ⟨hes, n₁', hs', halike⟩ := h.follow hreq hs
    exact ⟨n₁', hes.symm ▸ hs', halike⟩

/-- A request of an intruder is not reported to the others, and the other node is alike without
it. -/
theorem Alike.intruder {a : NodeAction ν} {n₁ : NodeServer ν} {es : List (NodeEvent ν)}
    (h : Alike C clients intruders n n') (hkey : C.apiKey = some key) (hne : key ≠ [])
    (ha : Uncredentialed key clients intruders n a) (hs : n.step C a = some (n₁, es))
    (hintruder : a.isOf intruders = true) :
    es.filter (!·.isOf intruders) = [] ∧ Alike C clients intruders n₁ n' := by
  cases a with
  | request m req =>
    have hclient : req.client ∈ intruders := of_decide_eq_true hintruder
    simp only [NodeServer.step, Option.map_eq_some_iff] at hs
    obtain ⟨r, hr, heq⟩ := hs
    obtain ⟨rfl, rfl⟩ := Prod.mk.inj heq
    refine ⟨?_, receive_intruder h hkey hne ha.1 hclient (ha.2 hclient) hr⟩
    rw [List.filter_cons_of_neg (by simpa [NodeEvent.isOf] using hclient), List.filter_nil]
  | lead | load | sweep | sample | monitored => simp [NodeAction.isOf] at hintruder

end NodeServer

/-- Intruders cannot be observed: with a key configured, and as long as the rate limiter has room
for every client, take the requests of clients that do not present the key out of the actions of a
run. The others are taken as before, each request with the same answer and the same ops forwarded,
and the node is left as before but for the buckets of the intruders. -/
theorem intruders_unobservable (C : NodeConfig ν) {key : JsString} (hkey : C.apiKey = some key)
    (hne : key ≠ []) (clients intruders : Finset JsString)
    (hroom : ∀ o ∈ C.rateLimit, clients.card ≤ o.maxTrackedClients) (opts : CacheStoreOptions)
    (maxKeyLength : ℕ) (leadership : Leadership) (clock : ℤ) (actions : List (NodeAction ν))
    {log : List (NodeEvent ν)} {n : NodeServer ν}
    (h : exec (NodeServer.step C) (Uncredentialed key clients intruders) []
      (.start opts maxKeyLength leadership clock) actions = some (log, n)) :
    ∃ n', exec (NodeServer.step C) (fun _ _ => True) []
        (.start opts maxKeyLength leadership clock) (actions.filter (!·.isOf intruders))
        = some (log.filter (!·.isOf intruders), n') ∧
      n'.served = n.served ∧ n'.predictor = n.predictor ∧ n'.history = n.history ∧
      n'.primaryMonitor = n.primaryMonitor ∧
      ∀ k, k ∉ intruders → n'.buckets.get? k = n.buckets.get? k := by
  have hstart : NodeServer.Alike C clients intruders
      (.start opts maxKeyLength leadership clock : NodeServer ν)
      (.start opts maxKeyLength leadership clock) :=
    ⟨rfl, ⟨fun k hk => absurd hk List.not_mem_nil, hroom⟩,
      ⟨fun k hk => absurd hk List.not_mem_nil, hroom⟩, fun _ _ => rfl⟩
  obtain ⟨n', hexec, halike⟩ : ∃ n', exec (NodeServer.step C) (fun _ _ => True) []
      (.start opts maxKeyLength leadership clock) (actions.filter (!·.isOf intruders))
        = some (log.filter (!·.isOf intruders), n') ∧
      NodeServer.Alike C clients intruders n n' := by
    refine exec_filter (R := NodeServer.Alike C clients intruders) ?_ ?_ actions hstart h
    · intro n n' a n₁ es halike ha hs hleft
      exact halike.intruder hkey hne ha hs (by simpa using hleft)
    · intro n n' a n₁ es halike ha hs hkept
      exact ⟨trivial, halike.step ha hs (by simpa using hkept)⟩
  refine ⟨n', hexec, ?_, ?_, ?_, ?_, halike.buckets⟩ <;> rw [halike.rest] <;> rfl

/-- A node with the key `k` that lets a client make two requests a second. -/
def guardedConfig : NodeConfig ℚ where
  nodeId := js "node-1"
  version := js "0.1.0"
  apiKey := some (js "k")
  rateLimit := some { limit := 2, windowMs := 1000 }
  numberText := { ofString := fun _ => none, toString := fun _ => [] }
  toInteger := fun x => if x.den = 1 then some x.num else none

/-- `POST /flush` from a client without the key. -/
def flushRequest : HttpRequest where
  isPreflight := false
  path := js "/flush"
  route := .flush
  ip := some (js "6.6.6.6")
  xApiKey := none
  authorization := none
  body := none
  exempt := by decide

/-- `GET /get/a` from one with the key. -/
def getRequest : HttpRequest where
  isPreflight := false
  path := js "/get/a"
  route := .get (js "a")
  ip := some (js "1.1.1.1")
  xApiKey := some ⟨js "k", by simp [js, codeUnits]⟩
  authorization := none
  body := none
  exempt := by decide

/-- The statuses of the requests that were answered. -/
def statuses (log : List (NodeEvent ν)) : List ℕ :=
  (log.filterMap NodeEvent.exchange?).map (·.response.status)

/-- The intruder is refused twice and then throttled; without it, `a` is found as before. -/
theorem intruders_unobservable_flush : ∃ (log : List (NodeEvent ℚ)) (n : NodeServer ℚ),
    exec (NodeServer.step guardedConfig) (fun _ _ => True) [] (.start {} 256 replicaOfA 0)
        [.load 0 [⟨js "a", js "1", none⟩], .request ⟨4, 4, 0⟩ getRequest] = some (log, n) ∧
      statuses log = [200] ∧ n.served.metrics.hits = 1 := by
  have hexec : ∃ (log : List (NodeEvent ℚ)) (n : NodeServer ℚ),
      exec (NodeServer.step guardedConfig)
        (Uncredentialed (js "k") {js "1.1.1.1", js "6.6.6.6"} {js "6.6.6.6"}) []
        (.start {} 256 replicaOfA 0)
        [.load 0 [⟨js "a", js "1", none⟩], .request ⟨1, 1, 0⟩ flushRequest,
          .request ⟨2, 2, 0⟩ flushRequest, .request ⟨3, 3, 0⟩ flushRequest,
          .request ⟨4, 4, 0⟩ getRequest] = some (log, n) ∧
      statuses log = [401, 401, 429, 200] ∧
      statuses (log.filter (!·.isOf {js "6.6.6.6"})) = [200] ∧ n.served.metrics.hits = 1 :=
    exists_exec _ (by decide +kernel)
  obtain ⟨log, n, h, -, hother, hhits⟩ := hexec
  obtain ⟨n', h', hserved, -⟩ := intruders_unobservable guardedConfig rfl
    (by decide : js "k" ≠ []) _ _ (by decide) {} 256 replicaOfA 0 _ h
  exact ⟨_, n', h', hother, hserved ▸ hhits⟩

end InkCache
