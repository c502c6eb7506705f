import InkCache.Console
import InkCache.Proofs.Acknowledged
import InkCache.Proofs.KVConsole
import InkCache.Proofs.NodeUrl
import InkCache.Proofs.RequestBody

/-!
# What is typed is what is done

The client encodes what is typed and the node decodes it: the route of a request has the key that
was typed (`route_getKey`, `route_deleteKey`), unless it is one of the two segments that no path
keeps, and the body the fields. A write is printed as done exactly if the node acknowledged it
(`receive_writes`), and then it is the one that was typed.
-/

namespace InkCache

open Lib JsString Json

variable {ν : Type}

/-! ## The route -/

variable [JsNumber ν] {T : NumberText ν} {router : Express} {isAuthority : JsString → Bool}
  {base : JsString} {ip : Option JsString} {req : HttpRequest} {key : JsString} {c : ApiCall ν}

/-- The path of a call at the node. -/
theorem request_path (horigin : IsOrigin isAuthority base) {s : JsString}
    (hpath : c.path = some (47 :: s)) (hs : ∀ u ∈ s, isControlOrSpace u = false) :
    c.request T router isAuthority base ip =
      some (.fetched router c.method (pathname (47 :: s)) ip
        (c.json.map fun j => .ofText (j.stringify T))) := by
  rw [ApiCall.request, hpath, Option.bind_some, fetchPath_origin horigin hs, Option.map_some]

/-- The two segments that are taken out of a path. -/
def IsDots (key : JsString) : Prop := key = js "." ∨ key = js ".."

instance : DecidablePred IsDots := fun _ => inferInstanceAs (Decidable (_ ∨ _))

theorem keyPath_plain {name encoded : JsString} (hname : RouteName name)
    (hk : key.WellFormed) (he : key.encodeURIComponent = some encoded) :
    ∀ u ∈ name ++ 47 :: encoded, isControlOrSpace u = false := by
  intro u hu
  simp only [List.mem_append, List.mem_cons] at hu
  rcases hu with hu | rfl | hu
  · exact (hname.unit u hu).plain.1
  · rfl
  · exact (pathUnit_encoded hk he u hu).plain.1

theorem wellFormed_of_encode {encoded : JsString} (he : key.encodeURIComponent = some encoded) :
    key.WellFormed := by
  unfold encodeURIComponent at he
  split_ifs at he with hany
  simpa [WellFormed] using hany

/-- What the router reads of the path of a call with a key. -/
theorem request_key {name : JsString} (hname : RouteName name) (horigin : IsOrigin isAuthority base)
    (hne : key ≠ [])
    (hpath : c.path = key.encodeURIComponent.map (js "/" ++ name ++ js "/" ++ ·))
    (hjson : c.json = none) (hreq : c.request T router isAuthority base ip = some req) :
    ∃ encoded, key.encodeURIComponent = some encoded ∧
      req = .fetched router c.method (pathname (js "/" ++ name ++ js "/" ++ encoded)) ip none ∧
      routeKey name (pathname (js "/" ++ name ++ js "/" ++ encoded)) =
        if IsDots key then none else some key := by
  rcases he : key.encodeURIComponent with _ | encoded
  · simp [ApiCall.request, hpath, he] at hreq
  have hk := wellFormed_of_encode he
  have hslash : js "/" ++ name ++ js "/" ++ encoded = 47 :: (name ++ 47 :: encoded) := by
    rw [List.append_assoc, List.append_assoc]
    rfl
  have hpath' : c.path = some (47 :: (name ++ 47 :: encoded)) := by
    rw [hpath, he, Option.map_some, hslash]
  rw [request_path horigin hpath' (keyPath_plain hname hk he), hjson, Option.map_none,
    ← hslash] at hreq
  refine ⟨encoded, rfl, (Option.some.inj hreq).symm, ?_⟩
  have hkey := keyAtNode_eq hname hne hk
  rwa [keyAtNode, he, Option.bind_some] at hkey

theorem encode_dots {encoded : JsString} (h : IsDots key)
    (he : key.encodeURIComponent = some encoded) : encoded = key := by
  rcases h with rfl | rfl
  · exact (Option.some.inj ((by decide : (js ".").encodeURIComponent = some (js ".")).symm.trans
      he)).symm
  · exact (Option.some.inj ((by decide : (js "..").encodeURIComponent = some (js "..")).symm.trans
      he)).symm

/-- The route of `GET /get/:key` has the key. -/
theorem route_getKey (horigin : IsOrigin isAuthority base) (hne : key ≠ [])
    (hreq : (ApiCall.getKey key : ApiCall ν).request T router isAuthority base ip = some req) :
    req.isPreflight = false ∧ req.body = none ∧
      req.route = if IsDots key then .unknown else .get key := by
  obtain ⟨encoded, he, rfl, hkey⟩ := request_key routeName_get horigin hne rfl rfl hreq
  refine ⟨rfl, rfl, ?_⟩
  split_ifs at hkey ⊢ with hdots
  · obtain rfl := encode_dots hdots he
    exact router.keyless .get _ (by rcases hdots with rfl | rfl <;> decide)
  · exact router.get _ _ hkey

theorem route_deleteKey (horigin : IsOrigin isAuthority base) (hne : key ≠ [])
    (hreq : (ApiCall.deleteKey key : ApiCall ν).request T router isAuthority base ip = some req) :
    req.isPreflight = false ∧ req.body = none ∧
      req.route = if IsDots key then .unknown else .delete key := by
  obtain ⟨encoded, he, rfl, hkey⟩ := request_key routeName_delete horigin hne rfl rfl hreq
  refine ⟨rfl, rfl, ?_⟩
  split_ifs at hkey ⊢ with hdots
  · obtain rfl := encode_dots hdots he
    exact router.keyless .delete _ (by rcases hdots with rfl | rfl <;> decide)
  · exact router.delete _ _ hkey

/-- The requests without a key in their path. -/
theorem route_post (name : JsString) (horigin : IsOrigin isAuthority base)
    (hname : ∀ u ∈ name, isControlOrSpace u = false)
    (hreq : c.request T router isAuthority base ip = some req)
    (hpath : c.path = some (47 :: name)) :
    req.isPreflight = false ∧ req.body = c.json.map (fun j => .ofText (j.stringify T)) ∧
      req.route = router.route c.method (pathname (47 :: name)) := by
  rw [request_path horigin hpath hname] at hreq
  obtain rfl := Option.some.inj hreq
  exact ⟨rfl, rfl, rfl⟩

/-! ## The answer -/

namespace NodeServer

variable {C : NodeConfig ν} {n : NodeServer ν} {m : Moment ν} {r : RouteOutcome ν}

omit [JsNumber ν] in
theorem not_isOk_failed (e : HttpError) :
    (NodeResponse.failed e : NodeResponse ν).isOk = false ∧
      ∀ s, (NodeResponse.throttled s e : NodeResponse ν).isOk = false := by
  have h : ¬ (200 ≤ e.status ∧ e.status < 300) := by
    rcases e.notOk with h | h <;> omega
  exact ⟨decide_eq_false h, fun _ => decide_eq_false h⟩

/-- A write that is refused is no success. -/
theorem isOk_write (app : App ν) (now : ν) (wr : WriteRequest ν) :
    (NodeResponse.write (app.write now wr).2.1).isOk = (app.write now wr).2.1.isOk := by
  cases wr with
  | set body =>
    simp only [App.write, App.postSet]
    split_ifs
    · rfl
    · split <;> rfl
  | delete key =>
    simp only [App.write, App.deleteKey]
    split_ifs <;> rfl
  | invalidate body =>
    simp only [App.write, App.postInvalidate]
    split_ifs
    · rfl
    · split
      · split_ifs <;> rfl
      · rfl
  | flush =>
    simp only [App.write, App.postFlush]
    split_ifs <;> rfl

/-- A request to write is a success exactly if it is acknowledged, and then its body could be
read. -/
theorem receive_writes {write : Option (Json ν) → WriteRequest ν}
    (hroute : ∀ (n : NodeServer ν) (body : Option (Json ν)),
      n.dispatch C m body req.route = some (n.writeRoute m (write body)))
    (hpreflight : req.isPreflight = false) (hr : n.receive C m req = some r) :
    r.response.isOk = r.response.isServed ∧ (r.response.isServed = true →
      ∃ body, expressJson C.numberText req.body = .ok body ∧
        r.response = .write (n.served.app.write m.now (write body)).2.1) := by
  simp only [receive, hpreflight, Bool.false_eq_true, if_false] at hr
  obtain ⟨hserved, -⟩ := limit_served C m.clock req n
  rcases hl : n.limit C m.clock req with ⟨n₁, _ | ⟨retryAfter, e⟩⟩ <;> rw [hl] at hr hserved
  · simp only [authorize] at hr
    rcases hauth : authMiddleware C.apiKey req.auth with _ | e <;> rw [hauth] at hr
    · rcases hbody : expressJson C.numberText req.body with e | body <;> rw [hbody] at hr
      · obtain rfl := Option.some.inj hr
        exact ⟨(not_isOk_failed e).1, fun h => by cases h⟩
      · simp only [hroute] at hr
        obtain rfl := Option.some.inj hr
        refine ⟨isOk_write .., fun _ => ⟨body, rfl, ?_⟩⟩
        rw [← hserved]
        rfl
    · obtain rfl := Option.some.inj hr
      exact ⟨(not_isOk_failed e).1, fun h => by cases h⟩
  · obtain rfl := Option.some.inj hr
    exact ⟨(not_isOk_failed e).2 retryAfter, fun h => by cases h⟩

end NodeServer

/-! ## What is typed -/

namespace KVConsole

theorem readSet_typable {args : List JsString} (h : readSet T args = .call c) : c.Typable := by
  unfold readSet usage at h
  split at h
  · cases h
  · cases h
  · rename_i key value rest
    split_ifs at h with hkey
    split at h
    · cases h
      exact ⟨hkey, by simp⟩
    · split at h
      · cases h
      · rename_i ttl httl
        split_ifs at h with hbad
        cases h
        rw [not_or, Bool.not_eq_false, not_le] at hbad
        refine ⟨hkey, ?_⟩
        rintro t ⟨⟩
        exact hbad

theorem readKey_typable {text : JsString} {f : JsString → ApiCall ν} {args : List JsString}
    (hf : ∀ key, key ≠ [] → (f key).Typable) (h : readKey text f args = .call c) :
    c.Typable := by
  unfold readKey usage at h
  split at h
  · cases h
  · cases h
  · rename_i key rest hne
    cases h
    exact hf key hne

theorem read_typable {raw : JsString} (h : read T raw = .call c) : c.Typable := by
  unfold read usage at h
  split at h
  · cases h
  · cases h
  · dsimp only at h
    split_ifs at h
    · exact readSet_typable h
    · exact readKey_typable (c := c) (f := .getKey) (fun _ hne => hne) h
    · cases h
      trivial
    · split at h
      · cases h
      · cases h
        trivial
    · exact readKey_typable (c := c) (f := .deleteKey) (fun _ hne => hne) h

omit [JsNumber ν] in
/-- A line is printed as an error exactly for an error. -/
theorem line_tone (toFixed : ν → JsString) (res : Except JsString (ApiResult ν)) :
    (line T toFixed c res).tone = .err ↔ ∃ message, res = .error message := by
  rcases res with message | r
  · simp [line]
  · have hnot : (line T toFixed c (.ok r)).tone ≠ .err := by
      unfold line
      simp only
      split <;> simp
    simp [hnot]

end KVConsole

/-! ## What is done -/

/-- What validation leaves of the body of a set. -/
theorem validateEntry_setKey {maxKeyLength : ℕ} {now : ν} {value : JsString} {ttl : Option ν}
    {e : ValidatedEntry ν} (h : validateEntry maxKeyLength now
      (some (orEmpty (ApiCall.setKey key value ttl).json)) = .ok e) : e = ⟨key, value, ttl⟩ := by
  have hkey : readField (orEmpty (some (orEmpty (ApiCall.setKey key value ttl).json)))
      (js "key") = .value (.str key) := by
    rcases ttl with _ | t <;> rfl
  have hvalue : readField (orEmpty (some (orEmpty (ApiCall.setKey key value ttl).json)))
      (js "value") = .value (.str value) := by
    rcases ttl with _ | t <;> rfl
  simp only [validateEntry, hkey, hvalue] at h
  split_ifs at h
  rcases ttl with _ | t
  · have httl : readField (orEmpty (some (orEmpty
        (ApiCall.setKey key value (none : Option ν)).json))) (js "ttl") = .undefined := rfl
    rw [httl] at h
    exact (Except.ok.inj h).symm
  · have httl : readField (orEmpty (some (orEmpty (ApiCall.setKey key value (some t)).json)))
        (js "ttl") = .value (.num t) := rfl
    rw [httl, validateTtl] at h
    split_ifs at h
    exact (Except.ok.inj h).symm

/-- The body that the node reads is the one that was stringified. -/
theorem body_of_json (hc : c.Typable) (hprints : ∀ t ∈ c.ttl?, T.Prints t)
    {body : Option (Json ν)}
    (h : expressJson T (c.json.map fun j => .ofText (j.stringify T)) = .ok body) :
    body = c.json := by
  have hobj : ∀ {fields : List (JsString × Json ν)}, Printable T (.obj fields) →
      c.json = some (.obj fields) → body = c.json := by
    intro fields hp hjson
    rw [hjson, Option.map_some, expressJson_stringify hp] at h
    split_ifs at h
    rw [hjson]
    exact (Except.ok.inj h).symm
  cases c with
  | setKey key value ttl =>
    rcases ttl with _ | t
    · exact hobj (.obj (by simp [Printable.str])) rfl
    · have ht := (hc.2 t rfl).1
      exact hobj (.obj (by simp [Printable.str, Printable.num ht (hprints t rfl)])) rfl
  | invalidatePrefix pre => exact hobj (.obj (by simp [Printable.str])) rfl
  | getKey | deleteKey | flush => exact (Except.ok.inj h).symm

namespace NodeServer

variable {C : NodeConfig ν} {n : NodeServer ν} {m : Moment ν} {r : RouteOutcome ν}

/-- What a call to write has acknowledged. -/
theorem acknowledged_write (write : Option (Json ν) → WriteRequest ν) (toFixed : ν → JsString)
    (hroute : ∀ (n : NodeServer ν) (body : Option (Json ν)),
      n.dispatch C m body req.route = some (n.writeRoute m (write body)))
    (hasks : ∀ maxKeyLength body, expressJson C.numberText req.body = .ok body →
      req.asks C.numberText maxKeyLength m.now = (write body).asks maxKeyLength m.now)
    (hpreflight : req.isPreflight = false)
    (hbody : ∀ body, expressJson C.numberText req.body = .ok body → body = c.json)
    (herror : (∃ message, c.result r.response = .error message) ↔ r.response.isOk = false)
    (hop : ∀ app : App ν, (app.write m.now (write c.json)).2.1.isOk = true →
      (write c.json).asks app.maxKeyLength m.now = c.asks)
    (hr : n.receive C m req = some r) :
    (if r.response.isServed then req.asks C.numberText n.served.app.maxKeyLength m.now
      else []).filterMap (·.acknowledgment m.now) =
      if (KVConsole.line C.numberText toFixed c (c.result r.response)).tone = .err then []
      else c.asks.filterMap (·.acknowledgment m.now) := by
  obtain ⟨hok, hserved⟩ := receive_writes hroute hpreflight hr
  have htone : (KVConsole.line C.numberText toFixed c (c.result r.response)).tone = .err ↔
      r.response.isServed = false := by
    rw [KVConsole.line_tone, herror, hok]
  rcases hs : r.response.isServed
  · rw [if_pos (htone.2 hs)]
    rfl
  · obtain ⟨body, hexpress, hresponse⟩ := hserved hs
    obtain rfl := hbody body hexpress
    have hwrite : (n.served.app.write m.now (write c.json)).2.1.isOk = true := by
      rw [hresponse] at hs
      exact hs
    rw [if_pos rfl, if_neg fun h => by simp [htone.1 h] at hs, hasks _ _ hexpress, hop _ hwrite]

/-- A request of no route. -/
theorem receive_unknown (hpreflight : req.isPreflight = false) (hroute : req.route = .unknown)
    (hr : n.receive C m req = some r) :
    r.response.isOk = false ∧ r.response.isServed = false := by
  simp only [receive, hpreflight, Bool.false_eq_true, if_false] at hr
  rcases hl : n.limit C m.clock req with ⟨n₁, _ | ⟨retryAfter, e⟩⟩ <;> rw [hl] at hr
  · simp only [authorize] at hr
    rcases hauth : authMiddleware C.apiKey req.auth with _ | e <;> rw [hauth] at hr
    · rcases hbody : expressJson C.numberText req.body with e | body <;> rw [hbody] at hr
      · obtain rfl := Option.some.inj hr
        exact ⟨(not_isOk_failed e).1, rfl⟩
      · rw [hroute] at hr
        obtain rfl := Option.some.inj hr
        exact ⟨(not_isOk_failed notFound).1, rfl⟩
    · obtain rfl := Option.some.inj hr
      exact ⟨(not_isOk_failed e).1, rfl⟩
  · obtain rfl := Option.some.inj hr
    exact ⟨(not_isOk_failed e).2 retryAfter, rfl⟩

/-- What a request that is not printed as an error has acknowledged is what was typed. -/
theorem acknowledged_call (toFixed : ν → JsString) (hc : c.Typable)
    (hprints : ∀ t ∈ c.ttl?, C.numberText.Prints t) (horigin : IsOrigin isAuthority base)
    (hreq : c.request C.numberText router isAuthority base ip = some req)
    (hr : n.receive C m req = some r) :
    (if r.response.isServed then req.asks C.numberText n.served.app.maxKeyLength m.now
      else []).filterMap (·.acknowledgment m.now) =
      if (KVConsole.line C.numberText toFixed c (c.result r.response)).tone = .err then []
      else c.asks.filterMap (·.acknowledgment m.now) := by
  have hjson : ∀ body, expressJson C.numberText
      (c.json.map fun j => .ofText (j.stringify C.numberText)) = .ok body → body = c.json :=
    fun body h => body_of_json hc hprints h
  have herror : c.isWrite → ((∃ message, c.result r.response = .error message) ↔
      r.response.isOk = false) := by
    intro hwrite
    cases c with
    | getKey key => cases hwrite
    | setKey | deleteKey | flush | invalidatePrefix =>
      simp only [ApiCall.result]
      split_ifs with hok <;> simp [hok]
  cases c with
  | setKey key value ttl =>
    obtain ⟨hpreflight, hbody, hroute⟩ := route_post (js "set") horigin
      (by simp [js, codeUnits, isControlOrSpace]) hreq rfl
    have hroute : req.route = .set := hroute.trans router.set
    refine acknowledged_write .set toFixed (fun _ _ => by rw [hroute]; rfl)
      (fun _ _ h => by simp only [HttpRequest.asks, h, hroute]) hpreflight
      (fun body h => hjson body (hbody ▸ h)) (herror rfl) (fun app hok => ?_) hr
    have hok : (app.postSet m.now (ApiCall.setKey key value ttl).json).2.1.isOk = true := hok
    unfold App.postSet at hok
    split_ifs at hok
    · cases hok
    · rcases he : validateEntry app.maxKeyLength m.now
        (some (orEmpty (ApiCall.setKey key value ttl).json)) with message | e
      · rw [he] at hok
        cases hok
      · obtain rfl := validateEntry_setKey he
        simp only [WriteRequest.asks, he]
        rfl
  | getKey key =>
    obtain ⟨-, -, hroute⟩ := route_getKey horigin hc hreq
    have hasks : (req.asks C.numberText n.served.app.maxKeyLength m.now).filterMap
        (·.acknowledgment m.now) = [] := by
      unfold HttpRequest.asks
      split
      · rfl
      · rw [hroute]
        split_ifs <;> rfl
    have hright : ((ApiCall.getKey key : ApiCall ν).asks).filterMap
      (·.acknowledgment m.now) = [] := rfl
    rw [hright, ite_self]
    split_ifs
    · exact hasks
    · rfl
  | deleteKey key =>
    obtain ⟨hpreflight, hbody, hroute⟩ := route_deleteKey horigin hc hreq
    split_ifs at hroute with hdots
    · obtain ⟨hok, hserved⟩ := receive_unknown hpreflight hroute hr
      rw [hserved, if_pos ((KVConsole.line_tone toFixed _).2 ((herror rfl).2 hok))]
      rfl
    · exact acknowledged_write (fun _ => .delete key) toFixed
        (fun _ _ => by rw [hroute]; rfl) (fun _ _ h => by simp only [HttpRequest.asks, h, hroute])
        hpreflight (fun body h => by rw [hbody] at h; exact hjson body h) (herror rfl)
        (fun _ _ => rfl) hr
  | flush =>
    obtain ⟨hpreflight, hbody, hroute⟩ := route_post (js "flush") horigin
      (by simp [js, codeUnits, isControlOrSpace]) hreq rfl
    have hroute : req.route = .flush := hroute.trans router.flush
    exact acknowledged_write (fun _ => .flush) toFixed (fun _ _ => by rw [hroute]; rfl)
      (fun _ _ h => by simp only [HttpRequest.asks, h, hroute]) hpreflight
      (fun body h => hjson body (hbody ▸ h)) (herror rfl) (fun _ _ => rfl) hr
  | invalidatePrefix pre =>
    obtain ⟨hpreflight, hbody, hroute⟩ := route_post (js "invalidate") horigin
      (by simp [js, codeUnits, isControlOrSpace]) hreq rfl
    have hroute : req.route = .invalidate := hroute.trans router.invalidate
    exact acknowledged_write .invalidate toFixed (fun _ _ => by rw [hroute]; rfl)
      (fun _ _ h => by simp only [HttpRequest.asks, h, hroute]) hpreflight
      (fun body h => hjson body (hbody ▸ h)) (herror rfl) (fun _ _ => rfl) hr

/-- A `GET` of a key that is not refused on its way. -/
theorem receive_get {k : JsString} (hpreflight : req.isPreflight = false) (hbody : req.body = none)
    (hroute : req.route = .get k) (hr : n.receive C m req = some r) :
    r.response.isOk = false ∧ r.response.status ≠ 404 ∨
      r.response = match (n.served.app.store.getWithTtl m.now k).2 with
        | none => .miss k
        | some found => .hit k found.value found.ttl := by
  simp only [receive, hpreflight, Bool.false_eq_true, if_false] at hr
  obtain ⟨hserved, -⟩ := limit_served C m.clock req n
  have hlimit : ∀ retryAfter e, (n.limit C m.clock req).2 = .reject retryAfter e →
      e = rateLimitExceeded := by
    intro retryAfter e h
    unfold limit at h
    split at h
    · cases h
    · rename_i o ho
      simp only [RateLimitOptions.rateLimiter] at h
      split_ifs at h
      exact (RateLimitOutcome.reject.inj h).2.symm
  have hauthorize : ∀ e, authMiddleware C.apiKey req.auth = .reject e → e = unauthorized := by
    intro e h
    unfold authMiddleware at h
    split at h
    · cases h
    · cases h
    · split_ifs at h
      split at h
      · exact (AuthOutcome.reject.inj h).symm
      · exact (AuthOutcome.reject.inj h).symm
      · split_ifs at h
        exact (AuthOutcome.reject.inj h).symm
  rcases hl : n.limit C m.clock req with ⟨n₁, _ | ⟨retryAfter, e⟩⟩ <;> rw [hl] at hr hserved hlimit
  · simp only [authorize, hbody, expressJson] at hr
    rcases hauth : authMiddleware C.apiKey req.auth with _ | e <;> rw [hauth] at hr
    · rw [hroute] at hr
      obtain rfl := Option.some.inj hr
      right
      rw [← hserved]
      rfl
    · obtain rfl := Option.some.inj hr
      left
      rw [hauthorize e hauth]
      exact ⟨(not_isOk_failed unauthorized).1, fun h => absurd h (by decide : (401 : ℕ) ≠ 404)⟩
  · obtain rfl := Option.some.inj hr
    left
    rw [hlimit retryAfter e rfl]
    exact ⟨(not_isOk_failed rateLimitExceeded).2 retryAfter,
      fun h => absurd h (by decide : (429 : ℕ) ≠ 404)⟩

/-- What is printed of a `get` is what the node finds. -/
theorem found_call {k : JsString} (hne : k ≠ []) (horigin : IsOrigin isAuthority base)
    (hreq : (ApiCall.getKey k : ApiCall ν).request C.numberText router isAuthority base ip =
      some req) (hr : n.receive C m req = some r) :
    (∀ v ttl, (ApiCall.getKey k).result r.response = .ok (.hit v ttl) →
      ∃ value, v = some value ∧ (n.served.app.store.getWithTtl m.now k).2 = some ⟨value, ttl⟩) ∧
    ((ApiCall.getKey k).result r.response = .ok .miss →
      IsDots k ∨ (n.served.app.store.getWithTtl m.now k).2 = none) := by
  obtain ⟨hpreflight, hbody, hroute⟩ := route_getKey horigin hne hreq
  split_ifs at hroute with hdots
  · obtain ⟨hok, -⟩ := receive_unknown hpreflight hroute hr
    refine ⟨fun v ttl h => ?_, fun _ => .inl hdots⟩
    simp only [ApiCall.result, hok, Bool.false_eq_true, if_false] at h
    split_ifs at h
    cases h
  · rcases receive_get hpreflight hbody hroute hr with ⟨hok, hstatus⟩ | hresponse
    · simp only [ApiCall.result, hok, Bool.false_eq_true, if_false, if_neg hstatus]
      refine ⟨fun v ttl h => ?_, fun h => ?_⟩ <;> cases h
    · rcases hfound : (n.served.app.store.getWithTtl m.now k).2 with _ | found
      · refine ⟨fun v ttl h => ?_, fun _ => .inr rfl⟩
        rw [hresponse, hfound] at h
        cases h
      · rw [hfound] at hresponse
        rw [hresponse]
        refine ⟨fun v ttl h => ?_, fun h => ?_⟩
        swap
        · cases h
        obtain ⟨rfl, rfl⟩ := ApiResult.hit.inj (Except.ok.inj h)
        exact ⟨found.value, rfl, rfl⟩

end NodeServer

open NodeServer

/-- Whatever is typed into the console, what the node has acknowledged by its answer is nothing
where an error is printed, and the command that was typed where none is: the key, the value and the
time to live as they were typed, whatever is in them. And what is printed for a `get` is the value
that was acknowledged last of that key, or a miss where the node has none, or where the key is one
of the two that no path keeps. -/
theorem typed_is_done (C : NodeConfig ν) (router : Express) (opts : CacheStoreOptions)
    (maxKeyLength : ℕ) (leadership : Leadership) (t₀ : ν) (clock : ℤ) (toFixed : ν → JsString)
    (ip : Option JsString) {env raw : JsString} {log : List (NodeEvent ν)} {t t' : TimedNode ν}
    (h : Run (timedNodeStep C) NodeClockOk ⟨t₀, .start opts maxKeyLength leadership clock⟩ log t)
    (hread : KVConsole.read C.numberText raw = .call c)
    (hprints : ∀ ttl ∈ c.ttl?, C.numberText.Prints ttl)
    (horigin : IsOrigin isAuthority (apiBase env))
    (hreq : c.request C.numberText router isAuthority (apiBase env) ip = some req)
    {m : Moment ν} {e : Answered ν}
    (hs : timedNodeStep C t (.request m req) = some (t', [.answered e])) :
    acknowledged C.numberText maxKeyLength (log ++ [.answered e]) =
      acknowledged C.numberText maxKeyLength log ++
        (if (KVConsole.line C.numberText toFixed c (c.result e.response)).tone = .err then []
          else c.asks.filterMap (·.acknowledgment m.now)) ∧
    ∀ k, c = .getKey k →
      (∀ v ttl, c.result e.response = .ok (.hit v ttl) →
        ∃ value d, v = some value ∧
          mostRecent k (acknowledged C.numberText maxKeyLength log) = some (.set k value d) ∧
          (∀ x ∈ d, m.now < x) ∧ ttl = d.map fun x => max 0 ((x - m.now) / msPerSecond)) ∧
      (c.result e.response = .ok .miss →
        IsDots k ∨ (t.node.served.app.store.getWithTtl m.now k).2 = none) := by
  have hacc := accounted_run leadership h
  have hc := KVConsole.read_typable hread
  simp only [timedNodeStep, NodeServer.step, Option.map_eq_some_iff, Option.map_map] at hs
  obtain ⟨r, hr, heq⟩ := hs
  obtain ⟨-, heq⟩ := Prod.mk.inj heq
  obtain rfl := NodeEvent.answered.inj (List.cons.inj heq).1
  refine ⟨?_, ?_⟩
  · rw [acknowledged_append, acknowledged_answered, ← hacc.maxKeyLength]
    exact congrArg _ (acknowledged_call toFixed hc hprints horigin hreq hr)
  · rintro k rfl
    obtain ⟨hhit, hmiss⟩ := found_call hc horigin hreq hr
    refine ⟨fun v ttl hv => ?_, hmiss⟩
    obtain ⟨value, rfl, hget⟩ := hhit v ttl hv
    obtain ⟨d, hlast, hlive, httl⟩ := hacc.last_of_read hget
    exact ⟨value, d, rfl, hlast, hlive, httl⟩

/-- A node without a key; of its numbers none but `1` is read and printed. -/
def openConfig : NodeConfig ℚ where
  nodeId := js "node-1"
  version := js "0.1.0"
  apiKey := none
  rateLimit := none
  numberText :=
    { ofString := fun s => if s = js "1" then some 1 else none
      toString := fun _ => js "1" }
  toInteger := fun x => if x.den = 1 then some x.num else none

def lonePrimary : Leadership where
  role := .primary
  primaryUrl := none
  replicaUrls := []
  election := .new (js "node-1")

/-- The routes that the console asks for, and no others. -/
def consoleRoutes : Express where
  route
    | .post, path =>
      if path = js "/set" then .set
      else if path = js "/invalidate" then .invalidate
      else if path = js "/flush" then .flush
      else .unknown
    | .get, path => ((routeKey (js "get") path).map .get).getD .unknown
    | .delete, path => ((routeKey (js "delete") path).map .delete).getD .unknown
  set := rfl
  invalidate := rfl
  flush := rfl
  get path key h := by simp [h]
  delete path key h := by simp [h]
  keyless method := by cases method <;> decide
  exempt method := by cases method <;> decide

/-- A key and a value with blanks in them, for one second. -/
theorem typed_is_done_quoted : ∃ (t : TimedNode ℚ) (e : Answered ℚ),
    timedNodeStep openConfig ⟨0, .start {} 256 lonePrimary 0⟩ (.request ⟨0, 0, 0⟩ e.request) =
      some (t, [.answered e]) ∧
    acknowledged openConfig.numberText 256 [.answered e] =
      [.set (js "my key") (js "v w") (some 1000)] := by
  have hread : KVConsole.read openConfig.numberText (js "set \"my key\" \"v w\" 1") =
      .call (.setKey (js "my key") (js "v w") (some 1)) := by decide +kernel
  have hprints : openConfig.numberText.Prints 1 := ⟨by decide, rfl⟩
  have hanswer : ((ApiCall.setKey (js "my key") (js "v w") (some (1 : ℚ))).request
      openConfig.numberText consoleRoutes isNode1 (apiBase (js "http://node-1:3000")) none).bind
        (fun req => ((NodeServer.start {} 256 lonePrimary 0).receive openConfig ⟨0, 0, 0⟩ req).map
          (·.response.isOk)) = some true := by
    decide +kernel
  obtain ⟨req, hreq, hanswer⟩ := Option.bind_eq_some_iff.1 hanswer
  obtain ⟨r, hr, hok⟩ := Option.map_eq_some_iff.1 hanswer
  have hs : timedNodeStep openConfig ⟨0, .start {} 256 lonePrimary 0⟩ (.request ⟨0, 0, 0⟩ req) =
      some (⟨0, r.node⟩, [.answered ⟨⟨0, 0, 0⟩, req, r.response, r.forwarded⟩]) := by
    simp only [timedNodeStep, NodeServer.step, hr, Option.map_some]
    rfl
  refine ⟨_, ⟨⟨0, 0, 0⟩, req, r.response, r.forwarded⟩, hs, ?_⟩
  obtain ⟨hacknowledged, -⟩ := typed_is_done openConfig consoleRoutes {} 256 lonePrimary 0 0
    (fun _ => []) none .start hread (by rintro ttl ⟨⟩; exact hprints) isOrigin_node1 hreq hs
  rw [if_neg fun h => by
    obtain ⟨message, herror⟩ := (KVConsole.line_tone _ _).1 h
    rw [ApiCall.result, if_pos hok] at herror
    cases herror] at hacknowledged
  refine hacknowledged.trans ?_
  have hdeadline : deadline (0 : ℚ) (some 1) = some 1000 := by
    norm_num [deadline, msPerSecond]
  rw [← hdeadline]
  rfl

end InkCache
