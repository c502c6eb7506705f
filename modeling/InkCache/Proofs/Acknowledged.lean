import InkCache.NodeServer
import InkCache.Proofs.Dashboard
import InkCache.Proofs.Eviction
import InkCache.Proofs.NodeServer
import InkCache.Proofs.StoreHistory

/-!
# What a node has acknowledged

A request changes the store by the operations it asks for, if it is served, and by none if it is
not (`Received`). So the store has a history whose writes and deletions are those acknowledged, and
it is left to see what a read of such a history finds: what was acknowledged last, unless it has
expired since, or the policy has given it up. The metrics and the predictor follow the answers
alone, whatever the clock does (`Counted`).
-/

namespace InkCache

open Lib

variable {ν : Type} [JsNumber ν]

/-! ## Histories without what nobody was told -/

theorem acknowledgment_eq (now : ν) (op : StoreOp ν) (s : CacheStore ν) :
    (op.events now s).filter (·.isAcknowledged) = (op.acknowledgment now).toList := by
  cases op with
  | set key value t =>
    simp only [StoreOp.events, List.filter_append]
    have hnone : ((newlyEvicted s (s.set now key value t)).map StoreEvent.evicted).filter
        (·.isAcknowledged) = ([] : List (StoreEvent ν)) := by
      rw [List.filter_eq_nil_iff]
      intro e he
      obtain ⟨w, -, rfl⟩ := List.mem_map.1 he
      simp [StoreEvent.isAcknowledged]
    rw [hnone]
    rfl
  | get key =>
    simp only [StoreOp.events]
    split_ifs <;> rfl
  | getWithTtl key =>
    simp only [StoreOp.events]
    split_ifs <;> rfl
  | delete | deleteByPrefix | clear | has | ttl | accessCount | keys | detailedKeys
  | exportEntries | sweep => rfl

/-- The operations of a request, one after the other, as a history goes on. -/
theorem storeRun_ops {opts : CacheStoreOptions} {t₀ now : ν} : ∀ (ops : List (StoreOp ν))
    {log : List (StoreEvent ν)} {ts : TimedStore ν}, StoreRun opts t₀ log ts → ts.clock ≤ now →
      ∃ es c, c ≤ now ∧
        StoreRun opts t₀ (log ++ es) ⟨c, ops.foldl (fun s op => op.apply now s) ts.store⟩ ∧
        es.filter (·.isAcknowledged) = ops.filterMap (·.acknowledgment now)
  | [], log, ts, h, hnow => ⟨[], ts.clock, hnow, by rwa [List.append_nil], rfl⟩
  | op :: ops, log, ts, h, hnow => by
    have hs : storeStep ts (now, op) =
        some (⟨now, op.apply now ts.store⟩, op.events now ts.store) := rfl
    obtain ⟨es, c, hc, hrun, hes⟩ := storeRun_ops ops (h.next (now, op) hnow hs) le_rfl
    refine ⟨op.events now ts.store ++ es, c, hc, by rwa [← List.append_assoc], ?_⟩
    rw [List.filter_append, acknowledgment_eq, hes]
    rcases ha : op.acknowledgment now with _ | e
    · rw [List.filterMap_cons_none ha]
      rfl
    · rw [List.filterMap_cons_some ha]
      rfl

namespace NodeServer

variable {C : NodeConfig ν} {n n' : NodeServer ν} {m : Moment ν} {req : HttpRequest}
  {body : Option (Json ν)}

/-! ## One request -/

/-- The event of a request that was answered. -/
def exchangeOf (m : Moment ν) (req : HttpRequest) (r : RouteOutcome ν) : Answered ν where
  moment := m
  request := req
  response := r.response
  forwarded := r.forwarded

/-- What a request does to a node, as its answer tells. -/
structure Received (T : NumberText ν) (m : Moment ν) (req : HttpRequest) (n : NodeServer ν)
    (r : RouteOutcome ν) : Prop where
  store : r.node.served.app.store =
    (if r.response.isServed then req.asks T n.served.app.maxKeyLength m.now else []).foldl
      (fun s op => op.apply m.now s) n.served.app.store
  maxKeyLength : r.node.served.app.maxKeyLength = n.served.app.maxKeyLength
  metrics : r.node.served.metrics =
    n.served.metrics.recordAll (exchangeOf m req r).recordCall.toList
  predictor : r.node.predictor = n.predictor.recordAll (exchangeOf m req r).gotKey.toList
  hit : ∀ k v ttl, r.response = .hit k v ttl →
    (n.served.app.store.getWithTtl m.now k).2 = some ⟨v, ttl⟩
  miss : ∀ k, r.response = .miss k → (n.served.app.store.getWithTtl m.now k).2 = none

/-- A request that is not served. -/
theorem Received.refused {T : NumberText ν} {r : RouteOutcome ν}
    (hserved : r.node.served = n.served) (hpredictor : r.node.predictor = n.predictor)
    (hrefused : r.response.isServed = false)
    (hcall : (exchangeOf m req r).recordCall = none)
    (hkey : (exchangeOf m req r).gotKey = none) : Received T m req n r where
  store := by rw [hrefused, hserved]; rfl
  maxKeyLength := by rw [hserved]
  metrics := by rw [hcall, hserved]; rfl
  predictor := by rw [hkey, hpredictor]; rfl
  hit k v ttl hr := by rw [hr] at hrefused; simp [NodeResponse.isServed] at hrefused
  miss k hr := by rw [hr] at hrefused; simp [NodeResponse.isServed] at hrefused

/-- A route that writes. -/
theorem received_write (T : NumberText ν) (r : WriteRequest ν)
    (hasks : req.asks T n.served.app.maxKeyLength m.now =
      r.asks n.served.app.maxKeyLength m.now) : Received T m req n (n.writeRoute m r) := by
  have refused : ∀ (status : ℕ) (message : JsString),
      n.served.app.write m.now r = (n.served.app, .error status message, []) →
        Received T m req n (n.writeRoute m r) := by
    intro status message h
    have hresponse : (n.writeRoute m r).response = .write (.error status message) := by
      simp only [writeRoute, h]
    refine .refused ?_ rfl ?_ ?_ ?_
    · simp only [writeRoute, serve, MeteredApp.handle, h, AppResponse.isOk, Bool.false_eq_true,
        if_false]
      rcases r.recorded with _ | op <;> rfl
    · rw [hresponse]
      rfl
    · simp only [Answered.recordCall, exchangeOf, hresponse]
    · simp only [Answered.gotKey, exchangeOf, hresponse]
  have acknowledged : ∀ (op : StoreOp ν) {a : AppResponse ν}
      {forwarded : List (JsString × ReplicationOp ν)}, n.served.app.write m.now r =
        ({ n.served.app with store := op.apply m.now n.served.app.store }, a, forwarded) →
      a.isOk = true → r.asks n.served.app.maxKeyLength m.now = [op] →
      (∀ e : Answered ν, e.moment = m → e.response = .write a → e.recordCall =
        r.recorded.map fun op => ⟨m.clock, op, m.latencyUs, none⟩) →
      Received T m req n (n.writeRoute m r) := by
    intro op a forwarded h hok hop hcall
    have hresponse : (n.writeRoute m r).response = .write a := by simp only [writeRoute, h]
    have hnode : (n.writeRoute m r).node.served.app =
        { n.served.app with store := op.apply m.now n.served.app.store } := by
      simp only [writeRoute, serve, MeteredApp.handle, h]
    refine ⟨?_, by rw [hnode], ?_, ?_, fun k v ttl hr => ?_, fun k hr => ?_⟩
    · rw [hnode, hresponse, NodeResponse.isServed, if_pos hok, hasks, hop]
      rfl
    · rw [hcall (exchangeOf m req (n.writeRoute m r)) rfl hresponse]
      simp only [writeRoute, serve, MeteredApp.handle, h, hok, if_true]
      rcases r.recorded with _ | op <;> rfl
    · rw [show (exchangeOf m req (n.writeRoute m r)).gotKey = none by
        simp only [Answered.gotKey, exchangeOf, hresponse]]
      rfl
    · rw [hresponse] at hr
      simp at hr
    · rw [hresponse] at hr
      simp at hr
  cases r with
  | set body =>
    by_cases hrole : n.served.app.leadership.role = .replica
    · exact refused _ _ (by simp only [App.write, App.postSet, if_pos hrole]; rfl)
    rcases he : validateEntry n.served.app.maxKeyLength m.now (some (orEmpty body)) with message | e
    · exact refused _ _ (by simp only [App.write, App.postSet, if_neg hrole, he]; rfl)
    · refine acknowledged (.set e.key e.value e.ttl) (a := .set e.key e.ttl)
        (by simp only [App.write, App.postSet, if_neg hrole, he]; rfl) rfl ?_ fun x hm hx => ?_
      · simp only [WriteRequest.asks, he]
        rfl
      · simp only [Answered.recordCall, hx, hm]
        rfl
  | delete key =>
    by_cases hrole : n.served.app.leadership.role = .replica
    · exact refused _ _ (by simp only [App.write, App.deleteKey, if_pos hrole]; rfl)
    · refine acknowledged (.delete key)
        (by simp only [App.write, App.deleteKey, if_neg hrole]; rfl) rfl rfl fun x hm hx => ?_
      simp only [Answered.recordCall, hx, hm]
      rfl
  | invalidate body =>
    by_cases hrole : n.served.app.leadership.role = .replica
    · exact refused _ _ (by simp only [App.write, App.postInvalidate, if_pos hrole]; rfl)
    by_cases hpre : ∃ pre, readField (orEmpty body) (js "prefix") = .value (.str pre)
    · obtain ⟨pre, hpre⟩ := hpre
      rcases Nat.lt_or_ge n.served.app.maxKeyLength pre.length with hlong | hshort
      · exact refused _ _ (by
          simp only [App.write, App.postInvalidate, if_neg hrole, hpre, if_pos hlong]; rfl)
      · refine acknowledged (.deleteByPrefix pre)
          (by simp only [App.write, App.postInvalidate, if_neg hrole, hpre, if_neg hshort.not_gt]
              rfl) rfl ?_ fun x hm hx => ?_
        · simp only [WriteRequest.asks, stringField, hpre]
          rfl
        · simp only [Answered.recordCall, hx]
          rfl
    · refine refused 400 (js "prefix must be a string") ?_
      simp only [App.write, App.postInvalidate, if_neg hrole]
      split
      · rename_i pre hfield
        exact absurd ⟨pre, hfield⟩ hpre
      · rfl
  | flush =>
    by_cases hrole : n.served.app.leadership.role = .replica
    · exact refused _ _ (by simp only [App.write, App.postFlush, if_pos hrole]; rfl)
    · refine acknowledged .clear
        (by simp only [App.write, App.postFlush, if_neg hrole]; rfl) rfl rfl fun x hm hx => ?_
      simp only [Answered.recordCall, hx]
      rfl

/-- A request whose answer is no business of the metrics and the predictor. -/
theorem Received.quiet {T : NumberText ν} {r : RouteOutcome ν}
    (hstore : r.node.served.app.store =
      (if r.response.isServed then req.asks T n.served.app.maxKeyLength m.now else []).foldl
        (fun s op => op.apply m.now s) n.served.app.store)
    (hmaxKeyLength : r.node.served.app.maxKeyLength = n.served.app.maxKeyLength)
    (hmetrics : r.node.served.metrics = n.served.metrics)
    (hpredictor : r.node.predictor = n.predictor)
    (hcall : (exchangeOf m req r).recordCall = none)
    (hkey : (exchangeOf m req r).gotKey = none) : Received T m req n r where
  store := hstore
  maxKeyLength := hmaxKeyLength
  metrics := by rw [hcall, hmetrics]; rfl
  predictor := by rw [hkey, hpredictor]; rfl
  hit k v ttl hr := by
    rw [Answered.gotKey, exchangeOf, hr] at hkey
    simp at hkey
  miss k hr := by
    rw [Answered.gotKey, exchangeOf, hr] at hkey
    simp at hkey

theorem received_get (T : NumberText ν) {key : JsString}
    (hasks : req.asks T n.served.app.maxKeyLength m.now = [.getWithTtl key]) :
    Received T m req n (n.getRoute m key) := by
  have hserved : (n.getRoute m key).response.isServed = true := by
    simp only [getRoute]
    split <;> rfl
  refine ⟨?_, rfl, ?_, ?_, fun k v ttl hr => ?_, fun k hr => ?_⟩
  · rw [hserved, hasks]
    rfl
  · rcases hg : (n.served.app.store.getWithTtl m.now key).2 with _ | r
    · have hcall : (exchangeOf m req (n.getRoute m key)).recordCall =
          some ⟨m.clock, .get, m.latencyUs, some false⟩ := by
        simp only [Answered.recordCall, exchangeOf, getRoute, hg]
      rw [hcall]
      simp only [getRoute, serve, MeteredApp.handle, hg]
      rfl
    · have hcall : (exchangeOf m req (n.getRoute m key)).recordCall =
          some ⟨m.clock, .get, m.latencyUs, some true⟩ := by
        simp only [Answered.recordCall, exchangeOf, getRoute, hg]
      rw [hcall]
      simp only [getRoute, serve, MeteredApp.handle, hg]
      rfl
  · have hkey : (exchangeOf m req (n.getRoute m key)).gotKey = some key := by
      simp only [Answered.gotKey, exchangeOf, getRoute]
      rcases (n.served.app.store.getWithTtl m.now key).2 with _ | r <;> rfl
    rw [hkey]
    rfl
  · simp only [getRoute] at hr
    rcases hg : (n.served.app.store.getWithTtl m.now key).2 with _ | r <;> rw [hg] at hr
    · simp at hr
    · obtain ⟨rfl, rfl, rfl⟩ := NodeResponse.hit.inj hr
      exact hg
  · simp only [getRoute] at hr
    rcases hg : (n.served.app.store.getWithTtl m.now key).2 with _ | r <;> rw [hg] at hr
    · obtain rfl := NodeResponse.miss.inj hr
      exact hg
    · simp at hr

theorem received_restore (T : NumberText ν) (body : Option (Json ν))
    (hasks : req.asks T n.served.app.maxKeyLength m.now =
      (n.served.app.restoredEntries m.now body).map fun e => .set e.key e.value e.ttl) :
    Received T m req n (n.restoreRoute m body) := by
  have hspec := restoreSpec m.now body n.served.app
  rcases hanswer : n.served.app.postRestore m.now body with ⟨app, a⟩
  rw [hanswer] at hspec
  have hresponse : (n.restoreRoute m body).response = .write a := by
    simp only [restoreRoute, hanswer]
  have happ : (n.restoreRoute m body).node.served.app = app := by
    simp only [restoreRoute, serve, MeteredApp.handle, hanswer]
  have hkey : (exchangeOf m req (n.restoreRoute m body)).gotKey = none := by
    simp only [Answered.gotKey, exchangeOf, hresponse]
  have hcall : (∀ key ttl, a ≠ .set key ttl) → (∀ key deleted, a ≠ .deleted key deleted) →
      (exchangeOf m req (n.restoreRoute m body)).recordCall = none := by
    intro hset hdeleted
    cases a with
    | set key ttl => exact absurd rfl (hset key ttl)
    | deleted key deleted => exact absurd rfl (hdeleted key deleted)
    | error | invalidated | flushed | restored =>
      simp only [Answered.recordCall, exchangeOf, hresponse]
  cases hspec with
  | refused a ha =>
    refine .quiet ?_ (by rw [happ]) rfl rfl (hcall ?_ ?_) hkey
    · rw [happ, hresponse, NodeResponse.isServed, ha]
      rfl
    · rintro key ttl rfl
      simp [AppResponse.isOk] at ha
    · rintro key deleted rfl
      simp [AppResponse.isOk] at ha
  | accepted loaded =>
    refine .quiet ?_ (by rw [happ]) rfl rfl (hcall (by simp) (by simp)) hkey
    rw [happ, hresponse, hasks]
    simp only [NodeResponse.isServed, AppResponse.isOk, if_true, List.foldl_map]
    rfl

theorem foldl_replicate_served (m : Moment ν) : ∀ (ops : List (ReplicationOp ν))
    (n : NodeServer ν), (ops.foldl (fun n op => n.serve m (.replicate op)) n) =
      { n with served := { n.served with app := { n.served.app with
          store := (ops.map ReplicationOp.asks).foldl (fun s op => op.apply m.now s)
            n.served.app.store } } }
  | [], _ => rfl
  | op :: ops, n => by
    have hop : applyReplicationOp m.now n.served.app.store op =
        op.asks.apply m.now n.served.app.store := by
      cases op <;> rfl
    rw [List.foldl_cons, foldl_replicate_served m ops, List.map_cons, List.foldl_cons, ← hop]
    rfl

theorem received_replicate {T : NumberText ν} {r : RouteOutcome ν}
    (hasks : req.asks T n.served.app.maxKeyLength m.now =
      (((opName body).bind fun name => readOp name (orEmpty body)).getD []).map
        ReplicationOp.asks)
    (hr : n.replicateRoute m body = some r) : Received T m req n r := by
  unfold replicateRoute at hr
  rcases hname : opName body with _ | name <;> rw [hname] at hr
  · obtain rfl := Option.some.inj hr
    exact .refused rfl rfl rfl rfl rfl
  · rcases hops : readOp name (orEmpty body) with _ | ops
    · simp [hops] at hr
    · simp only [hops, Option.map_some, Option.some.injEq] at hr
      subst hr
      refine .quiet ?_ ?_ ?_ ?_ rfl rfl
      · rw [foldl_replicate_served, hasks, hname, Option.bind_some, hops]
        rfl
      all_goals rw [foldl_replicate_served]

/-- A route that neither reads nor writes the store. -/
theorem Received.apart {T : NumberText ν} {r : RouteOutcome ν}
    (hasks : req.asks T n.served.app.maxKeyLength m.now = [])
    (hstore : r.node.served.app.store = n.served.app.store)
    (hmaxKeyLength : r.node.served.app.maxKeyLength = n.served.app.maxKeyLength)
    (hmetrics : r.node.served.metrics = n.served.metrics)
    (hpredictor : r.node.predictor = n.predictor)
    (hcall : (exchangeOf m req r).recordCall = none)
    (hkey : (exchangeOf m req r).gotKey = none) : Received T m req n r := by
  refine .quiet ?_ hmaxKeyLength hmetrics hpredictor hcall hkey
  rw [hasks, ite_self, hstore]
  rfl

theorem received_promote {T : NumberText ν}
    (hasks : req.asks T n.served.app.maxKeyLength m.now = []) :
    Received T m req n (n.promoteRoute body) := by
  unfold promoteRoute
  rcases promoteUrls body with _ | urls
  · exact .apart hasks rfl rfl rfl rfl rfl rfl
  · dsimp only
    split_ifs <;> exact .apart hasks rfl rfl rfl rfl rfl rfl

theorem received_requestVote {T : NumberText ν}
    (hasks : req.asks T n.served.app.maxKeyLength m.now = []) :
    Received T m req n (n.requestVoteRoute C body) := by
  unfold requestVoteRoute
  rcases electionBody C.toInteger (js "candidateId") _ body with e | ⟨term, candidateId⟩
  · exact .apart hasks rfl rfl rfl rfl rfl rfl
  · exact .apart hasks rfl rfl rfl rfl rfl rfl

theorem received_leader {T : NumberText ν}
    (hasks : req.asks T n.served.app.maxKeyLength m.now = []) :
    Received T m req n (n.leaderRoute C body) := by
  unfold leaderRoute
  rcases electionBody C.toInteger (js "primaryUrl") _ body with e | ⟨term, primaryUrl⟩
  · exact .apart hasks rfl rfl rfl rfl rfl rfl
  · exact .apart hasks rfl rfl rfl rfl rfl rfl

theorem received_dispatch {T : NumberText ν} {r : RouteOutcome ν}
    (hbody : expressJson T req.body = .ok body) (hr : n.dispatch C m body req.route = some r) :
    Received T m req n r := by
  cases hroute : req.route with
  | set | delete | invalidate | flush =>
    rw [hroute] at hr
    obtain rfl := Option.some.inj hr
    exact received_write T _ (by simp only [HttpRequest.asks, hbody, hroute])
  | get key =>
    rw [hroute] at hr
    obtain rfl := Option.some.inj hr
    exact received_get T (by simp only [HttpRequest.asks, hbody, hroute])
  | keys | keyStats | snapshot =>
    rw [hroute] at hr
    obtain rfl := Option.some.inj hr
    refine .quiet ?_ rfl rfl rfl rfl rfl
    simp only [HttpRequest.asks, hbody, hroute]
    rfl
  | restore =>
    rw [hroute] at hr
    obtain rfl := Option.some.inj hr
    refine received_restore T body ?_
    simp only [HttpRequest.asks, hbody, hroute, App.restoredEntries]
    rcases readField (orEmpty body) (js "keys") with _ | _ | j
    · rfl
    · rfl
    · cases j <;> rfl
  | replicate =>
    rw [hroute] at hr
    exact received_replicate (by simp only [HttpRequest.asks, hbody, hroute]) hr
  | promote =>
    rw [hroute] at hr
    obtain rfl := Option.some.inj hr
    exact received_promote (by simp only [HttpRequest.asks, hbody, hroute])
  | requestVote =>
    rw [hroute] at hr
    obtain rfl := Option.some.inj hr
    exact received_requestVote (by simp only [HttpRequest.asks, hbody, hroute])
  | leader =>
    rw [hroute] at hr
    obtain rfl := Option.some.inj hr
    exact received_leader (by simp only [HttpRequest.asks, hbody, hroute])
  | predict | metrics | metricsHistory | version | health | undecodable | unknown =>
    rw [hroute] at hr
    obtain rfl := Option.some.inj hr
    exact .apart (by simp only [HttpRequest.asks, hbody, hroute]) rfl rfl rfl rfl rfl rfl

omit [JsNumber ν] in
/-- The rate limiter leaves all but the buckets. -/
theorem limit_served (C : NodeConfig ν) (clock : ℤ) (req : HttpRequest) (n : NodeServer ν) :
    (n.limit C clock req).1.served = n.served ∧
      (n.limit C clock req).1.predictor = n.predictor := by
  unfold limit
  rcases C.rateLimit with _ | o <;> exact ⟨rfl, rfl⟩

theorem received {r : RouteOutcome ν} (hr : n.receive C m req = some r) :
    Received C.numberText m req n r := by
  unfold receive at hr
  split_ifs at hr
  · obtain rfl := Option.some.inj hr
    exact .refused rfl rfl rfl rfl rfl
  obtain ⟨hserved, hpredictor⟩ := limit_served C m.clock req n
  rcases hl : n.limit C m.clock req with ⟨n₁, outcome⟩
  rw [hl] at hr hserved hpredictor
  simp only at hserved hpredictor
  rcases outcome with _ | ⟨retryAfter, e⟩
  · simp only [authorize] at hr
    rcases hauth : authMiddleware C.apiKey req.auth with _ | e <;> rw [hauth] at hr
    · rcases hbody : expressJson C.numberText req.body with e | body <;> rw [hbody] at hr
      · obtain rfl := Option.some.inj hr
        exact .refused hserved hpredictor rfl rfl rfl
      · obtain ⟨hstore, hlength, hmetrics, hkeys, hhit, hmiss⟩ := received_dispatch hbody hr
        rw [hserved] at hstore hlength hmetrics hhit hmiss
        rw [hpredictor] at hkeys
        exact ⟨hstore, hlength, hmetrics, hkeys, hhit, hmiss⟩
    · obtain rfl := Option.some.inj hr
      exact .refused hserved hpredictor rfl rfl rfl
  · obtain rfl := Option.some.inj hr
    exact .refused hserved hpredictor rfl rfl rfl

/-! ## Runs -/

/-- What the log says of the store of a node. -/
structure Accounted (C : NodeConfig ν) (opts : CacheStoreOptions) (maxKeyLength : ℕ) (t₀ : ν)
    (log : List (NodeEvent ν)) (t : TimedNode ν) : Prop where
  store : ∃ storeLog c, c ≤ t.clock ∧
    StoreRun opts t₀ storeLog ⟨c, t.node.served.app.store⟩ ∧
    storeLog.filter (·.isAcknowledged) = acknowledged C.numberText maxKeyLength log
  maxKeyLength : t.node.served.app.maxKeyLength = maxKeyLength

/-- What the log says of the metrics and the predictor. -/
structure Counted (clock : ℤ) (log : List (NodeEvent ν)) (n : NodeServer ν) : Prop where
  metrics : n.served.metrics = (MetricsCollector.new clock).recordAll
    ((log.filterMap NodeEvent.exchange?).filterMap Answered.recordCall)
  predictor : n.predictor = AccessPredictor.new.recordAll
    ((log.filterMap NodeEvent.exchange?).filterMap Answered.gotKey)

omit [JsNumber ν] in
theorem served_sample (clock : ℤ) (n : NodeServer ν) :
    (n.sample clock).served = n.served ∧ (n.sample clock).predictor = n.predictor := by
  unfold sample
  exact ⟨rfl, rfl⟩

theorem acknowledged_append (T : NumberText ν) (maxKeyLength : ℕ) (log es : List (NodeEvent ν)) :
    acknowledged T maxKeyLength (log ++ es) =
      acknowledged T maxKeyLength log ++ acknowledged T maxKeyLength es := by
  rw [acknowledged, List.flatMap_append, List.filterMap_append]
  rfl

theorem acknowledged_answered (T : NumberText ν) (maxKeyLength : ℕ) (e : Answered ν) :
    acknowledged T maxKeyLength [.answered e] =
      (if e.response.isServed then e.request.asks T maxKeyLength e.moment.now else []).filterMap
        (·.acknowledgment e.moment.now) := by
  rw [acknowledged, List.flatMap_singleton, NodeEvent.operations]
  split_ifs
  · rw [List.filterMap_map]
    rfl
  · rfl

theorem acknowledged_loaded (T : NumberText ν) (maxKeyLength : ℕ) (now : ν)
    (rows : List (SnapshotRow ν)) : acknowledged T maxKeyLength [.loaded now rows] =
      (rows.map fun row => StoreOp.set row.key row.value row.ttl).filterMap
        (·.acknowledgment now) := by
  rw [acknowledged, List.flatMap_singleton, NodeEvent.operations, List.filterMap_map,
    List.filterMap_map]
  rfl

variable {opts : CacheStoreOptions} {maxKeyLength : ℕ} {t₀ : ν} {clock : ℤ}
  {log es : List (NodeEvent ν)} {t t' : TimedNode ν} {a : NodeAction ν}

/-- What changes the store by operations that are acknowledged. -/
theorem Accounted.operate {now : ν} (ops : List (StoreOp ν))
    (h : Accounted C opts maxKeyLength t₀ log t) (hnow : t.clock ≤ now)
    (hclock : t'.clock = now)
    (hstore : t'.node.served.app.store =
      ops.foldl (fun s op => op.apply now s) t.node.served.app.store)
    (hops : acknowledged C.numberText maxKeyLength es = ops.filterMap (·.acknowledgment now))
    (hlength : t'.node.served.app.maxKeyLength = t.node.served.app.maxKeyLength) :
    Accounted C opts maxKeyLength t₀ (log ++ es) t' where
  store := by
    obtain ⟨storeLog, c, hc, hrun, hlog⟩ := h.store
    obtain ⟨storeEvents, c', hc', hrun', hevents⟩ := storeRun_ops ops hrun (hc.trans hnow)
    refine ⟨storeLog ++ storeEvents, c', hc'.trans_eq hclock.symm, ?_, ?_⟩
    · rw [hstore]
      exact hrun'
    · rw [List.filter_append, hlog, hevents, acknowledged_append, hops]
  maxKeyLength := hlength.trans h.maxKeyLength

/-- What leaves the store as it is. -/
theorem Accounted.keep (h : Accounted C opts maxKeyLength t₀ log t)
    (hclock : t.clock ≤ t'.clock) (hserved : t'.node.served.app.store = t.node.served.app.store)
    (hlength : t'.node.served.app.maxKeyLength = t.node.served.app.maxKeyLength)
    (hops : acknowledged C.numberText maxKeyLength es = []) :
    Accounted C opts maxKeyLength t₀ (log ++ es) t' where
  store := by
    obtain ⟨storeLog, c, hc, hrun, hlog⟩ := h.store
    refine ⟨storeLog, c, hc.trans hclock, ?_, ?_⟩
    · rwa [hserved]
    · rw [acknowledged_append, hops, List.append_nil, hlog]
  maxKeyLength := hlength.trans h.maxKeyLength

theorem Accounted.step (h : Accounted C opts maxKeyLength t₀ log t) (ha : NodeClockOk t a)
    (hs : timedNodeStep C t a = some (t', es)) :
    Accounted C opts maxKeyLength t₀ (log ++ es) t' := by
  simp only [timedNodeStep, Option.map_eq_some_iff] at hs
  obtain ⟨⟨n', es'⟩, hs, heq⟩ := hs
  obtain ⟨rfl, rfl⟩ := Prod.mk.inj heq
  cases a with
  | request m req =>
    simp only [NodeServer.step, Option.map_eq_some_iff] at hs
    obtain ⟨r, hr, heq⟩ := hs
    obtain ⟨rfl, rfl⟩ := Prod.mk.inj heq
    have hrec := received hr
    refine h.operate _ (ha m.now rfl) rfl hrec.store ?_ hrec.maxKeyLength
    rw [acknowledged_answered, h.maxKeyLength]
  | lead leadership =>
    obtain ⟨rfl, rfl⟩ := Prod.mk.inj (Option.some.inj hs)
    exact h.keep le_rfl rfl rfl rfl
  | load now rows =>
    obtain ⟨rfl, rfl⟩ := Prod.mk.inj (Option.some.inj hs)
    refine h.operate (rows.map fun row => .set row.key row.value row.ttl) (ha now rfl) rfl
      ?_ (acknowledged_loaded ..) rfl
    rw [List.foldl_map]
    rfl
  | sweep now =>
    obtain ⟨rfl, rfl⟩ := Prod.mk.inj (Option.some.inj hs)
    exact h.operate [.sweep] (ha now rfl) rfl rfl rfl rfl
  | sample clock =>
    obtain ⟨rfl, rfl⟩ := Prod.mk.inj (Option.some.inj hs)
    obtain ⟨hserved, -⟩ := served_sample clock t.node
    exact h.keep le_rfl (by rw [hserved]) (by rw [hserved]) rfl
  | monitored monitor =>
    obtain ⟨rfl, rfl⟩ := Prod.mk.inj (Option.some.inj hs)
    exact h.keep le_rfl rfl rfl rfl

theorem accounted_run (leadership : Leadership)
    (h : Run (timedNodeStep C) NodeClockOk ⟨t₀, .start opts maxKeyLength leadership clock⟩ log t) :
    Accounted C opts maxKeyLength t₀ log t := by
  refine h.invariant (I := Accounted C opts maxKeyLength t₀) ⟨?_, rfl⟩
    fun hI ha hs => hI.step ha hs
  exact ⟨[], t₀, le_rfl, .start, rfl⟩

/-- The metrics and the predictor are told of what is answered, and of nothing else. -/
theorem Counted.step (h : Counted clock log n) (hs : n.step C a = some (n', es)) :
    Counted clock (log ++ es) n' := by
  have hcounted : n'.served.metrics = n.served.metrics.recordAll
        ((es.filterMap NodeEvent.exchange?).filterMap Answered.recordCall) ∧
      n'.predictor = n.predictor.recordAll
        ((es.filterMap NodeEvent.exchange?).filterMap Answered.gotKey) := by
    cases a with
    | request m req =>
      simp only [NodeServer.step, Option.map_eq_some_iff] at hs
      obtain ⟨r, hr, heq⟩ := hs
      obtain ⟨rfl, rfl⟩ := Prod.mk.inj heq
      have hrec := received hr
      exact ⟨hrec.metrics, hrec.predictor⟩
    | sample clock =>
      obtain ⟨rfl, rfl⟩ := Prod.mk.inj (Option.some.inj hs)
      obtain ⟨hserved, hpredictor⟩ := served_sample clock n
      exact ⟨by rw [hserved]; rfl, hpredictor⟩
    | lead | load | sweep | monitored =>
      obtain ⟨rfl, rfl⟩ := Prod.mk.inj (Option.some.inj hs)
      exact ⟨rfl, rfl⟩
  refine ⟨?_, ?_⟩
  · rw [hcounted.1, h.metrics, List.filterMap_append, List.filterMap_append]
    simp only [MetricsCollector.recordAll, List.foldl_append]
  · rw [hcounted.2, h.predictor, List.filterMap_append, List.filterMap_append]
    simp only [AccessPredictor.recordAll, List.foldl_append]

theorem counted_run (leadership : Leadership) (h : Run (NodeServer.step C) (fun _ _ => True)
    (.start opts maxKeyLength leadership clock) log n) : Counted clock log n :=
  h.invariant (I := Counted clock) ⟨rfl, rfl⟩ fun hI _ hs => hI.step hs

/-- What is read was acknowledged last, and has not expired. -/
theorem Accounted.last_of_read {now : ν} (h : Accounted C opts maxKeyLength t₀ log t)
    {k v : JsString} {ttl : Option ν}
    (hget : (t.node.served.app.store.getWithTtl now k).2 = some ⟨v, ttl⟩) :
    ∃ d, mostRecent k (acknowledged C.numberText maxKeyLength log) = some (.set k v d) ∧
      (∀ x ∈ d, now < x) ∧ ttl = d.map fun x => max 0 ((x - now) / msPerSecond) := by
  obtain ⟨storeLog, c, -, hrun, hlog⟩ := h.store
  obtain ⟨hsome, -⟩ := tracks hrun k
  rw [← hlog]
  rcases lookup_cases now t.node.served.app.store.entries k with hk | ⟨x, hk, hx⟩ | ⟨x, hk, hx⟩
  · rw [CacheStore.getWithTtl, touch_absent hk] at hget
    simp at hget
  · rw [CacheStore.getWithTtl, touch_expired hk hx] at hget
    simp at hget
  · rw [CacheStore.getWithTtl, touch_live hk hx] at hget
    simp only [Option.map_some, Option.some.injEq, ValueWithTtl.mk.injEq] at hget
    obtain ⟨rfl, rfl⟩ := hget
    exact ⟨x.expiresAt, mostRecent_acknowledged (hsome x hk) rfl, deadline_live.1 hx, rfl⟩

end NodeServer

open NodeServer

/-- Whatever else a node has been asked, throttled, refused, restored, replicated and loaded, its
store has a history whose writes and deletions are those acknowledged. A `GET` that is answered with
a value finds what was acknowledged last of the key, and it has not expired; and where one misses a
key that was written last, the deadline has passed or the policy has given the key up since. -/
theorem gets_find_acknowledged (C : NodeConfig ν) (opts : CacheStoreOptions) (maxKeyLength : ℕ)
    (leadership : Leadership) (t₀ : ν) (clock : ℤ) {log : List (NodeEvent ν)} {t t' : TimedNode ν}
    (h : Run (timedNodeStep C) NodeClockOk ⟨t₀, .start opts maxKeyLength leadership clock⟩ log t)
    {m : Moment ν} {req : HttpRequest} {e : Answered ν} (hnow : t.clock ≤ m.now)
    (hs : timedNodeStep C t (.request m req) = some (t', [.answered e])) :
    ∃ storeLog c, c ≤ m.now ∧ StoreRun opts t₀ storeLog ⟨c, t.node.served.app.store⟩ ∧
      storeLog.filter (·.isAcknowledged) = acknowledged C.numberText maxKeyLength log ∧
      (∀ k v ttl, e.response = .hit k v ttl →
        ∃ d, mostRecent k (acknowledged C.numberText maxKeyLength log) = some (.set k v d) ∧
          (∀ x ∈ d, m.now < x) ∧ ttl = d.map fun x => max 0 ((x - m.now) / msPerSecond)) ∧
      ∀ k v d, e.response = .miss k →
        mostRecent k (acknowledged C.numberText maxKeyLength log) = some (.set k v d) →
          (∃ x ∈ d, x ≤ m.now) ∨ mostRecent k storeLog = some (.evicted k) := by
  have hacc := accounted_run leadership h
  obtain ⟨storeLog, c, hc, hrun, hlog⟩ := hacc.store
  refine ⟨storeLog, c, hc.trans hnow, hrun, hlog, ?_⟩
  simp only [timedNodeStep, NodeServer.step, Option.map_eq_some_iff, Option.map_map] at hs
  obtain ⟨r, hr, heq⟩ := hs
  obtain ⟨-, heq⟩ := Prod.mk.inj heq
  have hresponse : e.response = r.response := by
    rw [← NodeEvent.answered.inj (List.cons.inj heq).1]
  have hrec := received hr
  rw [hresponse]
  refine ⟨fun k v ttl hhit => hacc.last_of_read (hrec.hit k v ttl hhit),
    fun k v d hmiss hset => ?_⟩
  · rw [← hlog] at hset
    have hget := hrec.miss k hmiss
    obtain ⟨hsome, hnone⟩ := tracks hrun k
    rcases mostRecent_or_evicted hset with hlast | hgone
    swap
    · exact .inr hgone
    left
    rcases lookup_cases m.now t.node.served.app.store.entries k with hk | ⟨x, hk, hx⟩ | ⟨x, hk, hx⟩
    · obtain ⟨y, rfl, hy⟩ := hnone hk k v d hlast
      exact ⟨y, rfl, hy.trans (hc.trans hnow)⟩
    · rw [hsome x hk, Option.some.injEq, StoreEvent.set.injEq] at hlast
      obtain ⟨y, hy, hle⟩ := isExpired_iff.1 hx
      exact ⟨y, hlast.2.2 ▸ hy, hle⟩
    · rw [CacheStore.getWithTtl, touch_live hk hx] at hget
      simp at hget

/-- A loaded `1` is found under `a`, and it was the last that was acknowledged of that key. -/
theorem gets_find_acknowledged_loaded : ∃ (log : List (NodeEvent ℚ)) (t : TimedNode ℚ),
    Run (timedNodeStep guardedConfig) NodeClockOk ⟨0, .start {} 256 replicaOfA 0⟩ log t ∧
      ∃ k v d, mostRecent k (acknowledged guardedConfig.numberText 256 log) =
        some (.set k v d) := by
  have hrun : ∃ (log : List (NodeEvent ℚ)) (t : TimedNode ℚ),
      Run (timedNodeStep guardedConfig) NodeClockOk ⟨0, .start {} 256 replicaOfA 0⟩ log t ∧
      t.clock ≤ 4 ∧
      ((t.node.receive guardedConfig ⟨4, 4, 0⟩ getRequest).map (·.response.isHit)) = some true :=
    exists_run_of_exec [.load 0 [⟨js "a", js "1", none⟩], .request ⟨1, 1, 0⟩ flushRequest]
      (by decide +kernel)
  obtain ⟨log, t, h, hclock, hget⟩ := hrun
  refine ⟨log, t, h, ?_⟩
  obtain ⟨⟨node, response, forwarded⟩, hr, hhit⟩ := Option.map_eq_some_iff.1 hget
  have hs : timedNodeStep guardedConfig t (.request ⟨4, 4, 0⟩ getRequest) =
      some (⟨4, node⟩, [.answered ⟨⟨4, 4, 0⟩, getRequest, response, forwarded⟩]) := by
    simp only [timedNodeStep, NodeServer.step, hr, Option.map_some]
    rfl
  obtain ⟨-, -, -, -, -, hfound, -⟩ :=
    gets_find_acknowledged guardedConfig {} 256 replicaOfA 0 0 h hclock hs
  cases response with
  | hit k v ttl =>
    obtain ⟨d, hd, -⟩ := hfound k v ttl rfl
    exact ⟨k, v, d, hd⟩
  | _ => simp [NodeResponse.isHit] at hhit

/-! ## Counts -/

namespace MetricsCollector

def tally (m : MetricsCollector) : ℕ × ℕ × ℕ × ℕ := (m.hits, m.misses, m.sets, m.deletes)

theorem tally_record (now : ℤ) (op : OpType) (latencyUs : ℚ) (hit : Option Bool)
    (m : MetricsCollector) :
    (m.record now op latencyUs hit).tally = (m.count op hit).tally := by
  have hcompact : ∀ m : MetricsCollector, m.compact.tally = m.tally := by
    intro m
    unfold compact
    split_ifs <;> rfl
  have hstamp : ∀ m : MetricsCollector, (m.stamp now).tally = m.tally := fun m => hcompact _
  have hsample : ∀ m : MetricsCollector, (m.sample latencyUs).tally = m.tally := by
    intro m
    unfold sample
    split_ifs <;> rfl
  rw [record, hstamp, hsample]

/-- What a call adds to the counters. -/
def gain (call : RecordCall) : ℕ × ℕ × ℕ × ℕ :=
  (if call.op = .get ∧ call.hit = some true then 1 else 0,
    if call.op = .get ∧ call.hit ≠ some true then 1 else 0,
    if call.op = .set then 1 else 0, if call.op = .delete then 1 else 0)

theorem tally_recordAll (calls : List RecordCall) (m : MetricsCollector) :
    (m.recordAll calls).tally = m.tally + (calls.map gain).sum := by
  induction calls using List.reverseRecOn with
  | nil => simp [recordAll]
  | append_singleton calls call ih =>
    have hgain : ∀ m : MetricsCollector,
        (m.count call.op call.hit).tally = m.tally + gain call := by
      intro m
      rcases call with ⟨now, op, latencyUs, hit⟩
      cases op with
      | get =>
        simp only [count, gain, tally]
        split_ifs <;> simp_all
      | set => simp [count, gain, tally]
      | delete => simp [count, gain, tally]
    rw [recordAll, List.foldl_append, List.foldl_cons, List.foldl_nil, tally_record, hgain]
    rw [recordAll] at ih
    rw [ih, List.map_append, List.sum_append, List.map_singleton, List.sum_singleton, add_assoc]

end MetricsCollector

omit [JsNumber ν] in
theorem gain_recordCall (e : Answered ν) :
    ((e.recordCall.toList.map MetricsCollector.gain).sum : ℕ × ℕ × ℕ × ℕ) =
      (if e.response.isHit then 1 else 0, if e.response.isMiss then 1 else 0,
        if e.response.isSet then 1 else 0, if e.response.isDeletion then 1 else 0) := by
  rcases e with ⟨m, req, response, forwarded⟩
  cases response with
  | write answer => cases answer <;> rfl
  | _ => rfl

omit [JsNumber ν] in
theorem sum_gain (exchanges : List (Answered ν)) :
    (((exchanges.filterMap Answered.recordCall).map MetricsCollector.gain).sum :
      ℕ × ℕ × ℕ × ℕ) =
      ((exchanges.map Answered.response).countP (·.isHit),
        (exchanges.map Answered.response).countP (·.isMiss),
        (exchanges.map Answered.response).countP (·.isSet),
        (exchanges.map Answered.response).countP (·.isDeletion)) := by
  induction exchanges with
  | nil => rfl
  | cons e exchanges ih =>
    have hcons : (e :: exchanges).filterMap Answered.recordCall =
        e.recordCall.toList ++ exchanges.filterMap Answered.recordCall := by
      rw [List.filterMap_cons]
      rcases e.recordCall with _ | call <;> rfl
    rw [hcons, List.map_append, List.sum_append, gain_recordCall, ih]
    simp only [List.map_cons, List.countP_cons, Prod.mk_add_mk, Nat.add_comm]

omit [JsNumber ν] in
theorem NodeServer.Counted.counters {clock : ℤ} {log : List (NodeEvent ν)} {n : NodeServer ν}
    (h : Counted clock log n) :
    n.served.metrics.hits = (answers log).countP (·.isHit) ∧
      n.served.metrics.misses = (answers log).countP (·.isMiss) ∧
      n.served.metrics.sets = (answers log).countP (·.isSet) ∧
      n.served.metrics.deletes = (answers log).countP (·.isDeletion) := by
  have htally : n.served.metrics.tally =
      ((answers log).countP (·.isHit), (answers log).countP (·.isMiss),
        (answers log).countP (·.isSet), (answers log).countP (·.isDeletion)) := by
    rw [h.metrics, MetricsCollector.tally_recordAll, sum_gain]
    simp [MetricsCollector.tally, MetricsCollector.new, answers]
  simpa only [MetricsCollector.tally, Prod.mk.injEq] using htally

/-- The counters of `GET /metrics` tell how many of the answers there have been, whatever has been
refused before it came to the store; and the predictor has heard of the keys of those `GET`s, in
order. -/
theorem metrics_count_answers (C : NodeConfig ν) (opts : CacheStoreOptions) (maxKeyLength : ℕ)
    (leadership : Leadership) (clock : ℤ) {log : List (NodeEvent ν)} {n : NodeServer ν}
    (h : Run (NodeServer.step C) (fun _ _ => True) (.start opts maxKeyLength leadership clock)
      log n) (now : ℤ) :
    ((n.served.getMetrics now).snapshot.hits = (answers log).countP (·.isHit) ∧
      (n.served.getMetrics now).snapshot.misses = (answers log).countP (·.isMiss) ∧
      (n.served.getMetrics now).snapshot.sets = (answers log).countP (·.isSet) ∧
      (n.served.getMetrics now).snapshot.deletes = (answers log).countP (·.isDeletion)) ∧
    n.predictor = AccessPredictor.new.recordAll
      ((log.filterMap NodeEvent.exchange?).filterMap Answered.gotKey) := by
  have hcounted := counted_run leadership h
  exact ⟨hcounted.counters, hcounted.predictor⟩

/-- A `GET` that finds `a`, one that an intruder flushed before it and one that is throttled. -/
theorem metrics_count_answers_hit : ∃ (log : List (NodeEvent ℚ)) (n : NodeServer ℚ),
    Run (NodeServer.step guardedConfig) (fun _ _ => True) (.start {} 256 replicaOfA 0) log n ∧
      statuses log = [401, 200, 200, 429] ∧ (n.served.getMetrics 9).snapshot.hits = 2 := by
  have hrun : ∃ (log : List (NodeEvent ℚ)) (n : NodeServer ℚ),
      Run (NodeServer.step guardedConfig) (fun _ _ => True) (.start {} 256 replicaOfA 0) log n ∧
      statuses log = [401, 200, 200, 429] ∧ (answers log).countP (·.isHit) = 2 :=
    exists_run_of_exec [.load 0 [⟨js "a", js "1", none⟩], .request ⟨1, 1, 0⟩ flushRequest,
      .request ⟨4, 4, 0⟩ getRequest, .request ⟨4, 4, 0⟩ getRequest,
      .request ⟨5, 5, 0⟩ getRequest] (by decide +kernel)
  obtain ⟨log, n, h, hstatuses, hhits⟩ := hrun
  exact ⟨log, n, h, hstatuses,
    (metrics_count_answers guardedConfig {} 256 replicaOfA 0 h 9).1.1.trans hhits⟩

end InkCache
