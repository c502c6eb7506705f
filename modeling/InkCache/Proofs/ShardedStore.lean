import InkCache.ShardedStore
import InkCache.Proofs.Cache
import InkCache.Proofs.Gateway
import InkCache.Proofs.Restore
import InkCache.ReplicaPair
import InkCache.Lib.LowerBound

/-!
# What a failover can serve

A node is told of no write but those that are proxied to it, so whatever it holds of a key is what
the last of these made of it (`OwnWrites`). Which node a key is routed to depends on the health of
all of them: a node that comes back to the ring serves what it was last told, however long ago.
-/

namespace InkCache

open Lib

variable {ν : Type} {hashToUint32 : JsString → Hash} {stringifies : Json ν → Bool}
  {k key node : JsString}

theorem stringField_orEmpty (body : Json ν) (name : JsString) :
    stringField (orEmpty (some body)) name = stringField body name := by
  cases body <;> rfl

/-! ## What the acknowledged writes make of a key -/

variable {log pre post : List (Exchange ν)} {x : Exchange ν}

theorem latest_concat : latest k (log ++ [x]) = (x.writes k).getD (latest k log) := by
  simp [latest]

theorem latestAt_concat : latestAt node k (log ++ [x]) =
    if x.node = node then (x.writes k).getD (latestAt node k log) else latestAt node k log := by
  unfold latestAt
  rw [List.filter_append]
  split_ifs with hx
  · rw [List.filter_cons_of_pos (by simpa using hx), List.filter_nil, latest_concat]
  · rw [List.filter_cons_of_neg (by simpa using hx), List.filter_nil, List.append_nil]

theorem lastWriter_concat : lastWriter k (log ++ [x]) =
    if (x.writes k).isSome then some x.node else lastWriter k log := by
  simp [lastWriter]

/-- What the last writer of a key was told of it is what anyone was told last. -/
theorem latest_of_lastWriter (h : lastWriter k log = some node) :
    latest k log = latestAt node k log := by
  induction log using List.reverseRecOn with
  | nil => simp [lastWriter] at h
  | append_singleton log x ih =>
    rw [lastWriter_concat] at h
    rw [latest_concat, latestAt_concat]
    rcases hw : x.writes k with _ | v <;> rw [hw] at h
    · simp only [Option.isSome_none, Bool.false_eq_true, if_false] at h
      simp only [Option.getD_none, ite_self]
      exact ih h
    · simp only [Option.isSome_some, if_true, Option.some.injEq] at h
      rw [if_pos h]
      rfl

/-! ## What an operation leaves of a key -/

variable {s : CacheStore ν} {e : CacheEntry ν}

theorem get?_of_delete (h : (s.delete key).1.entries.get? k = some e) :
    key ≠ k ∧ s.entries.get? k = some e := by
  simp only [CacheStore.delete, OrderedMap.get?_delete] at h
  split_ifs at h with hk
  exact ⟨Ne.symm hk, h⟩

variable [JsNumber ν] {now : ν}

theorem get?_of_set {value : JsString} {ttl : Option ν}
    (h : (s.set now key value ttl).entries.get? k = some e) :
    key = k ∧ e.value = value ∨ key ≠ k ∧ s.entries.get? k = some e := by
  obtain ⟨kept, out, hout, hset⟩ := set_spec now key value ttl s
  rw [hset] at h
  simp only [OrderedMap.get?_set] at h
  split_ifs at h with hk
  · rw [Option.some.injEq] at h
    exact .inl ⟨hk.symm, h ▸ rfl⟩
  · exact .inr ⟨Ne.symm hk, (hout.get?_of_kept h).2.2⟩

/-- A read changes no value. -/
theorem get?_of_touch (h : (s.touch now key).1.entries.get? k = some e) :
    ∃ e', s.entries.get? k = some e' ∧ e'.value = e.value := by
  rcases lookup_cases now s.entries key with hnone | ⟨e₀, he₀, hx⟩ | ⟨e₀, he₀, hx⟩
  · rw [touch_absent hnone] at h
    exact ⟨e, h, rfl⟩
  · rw [touch_expired he₀ hx] at h
    exact ⟨e, (get?_of_delete h).2, rfl⟩
  · rw [touch_live he₀ hx] at h
    simp only [OrderedMap.get?_set] at h
    split_ifs at h with hk
    · rw [Option.some.injEq] at h
      exact ⟨e₀, hk ▸ he₀, h ▸ rfl⟩
    · rw [OrderedMap.get?_delete, if_neg hk] at h
      exact ⟨e, h, rfl⟩

/-! ## What a node makes of a request -/

theorem stringField_of_validateEntry {maxKeyLength : ℕ} {body : Json ν} {v : ValidatedEntry ν}
    (h : validateEntry maxKeyLength now (some body) = .ok v) :
    stringField body (js "key") = some v.key ∧ stringField body (js "value") = some v.value := by
  rw [← stringField_orEmpty body (js "key"), ← stringField_orEmpty body (js "value")]
  simp only [validateEntry] at h
  split at h
  · rename_i key hkey
    split_ifs at h
    split at h
    · rename_i value hvalue
      split at h
      · simp only [Except.ok.injEq] at h
        subst h
        exact ⟨by rw [stringField, hkey], by rw [stringField, hvalue]⟩
      · simp at h
    · simp at h
  · simp at h

/-- Where a node holds something of a key after a request, the request was an acknowledged set of
the key to that value, or it held that value before. -/
theorem handle_holds (node : JsString) {app : App ν} {r : NodeRequest ν}
    (h : (app.handle now r).1.store.entries.get? k = some e) :
    let x : Exchange ν := { node, request := r, answer := (app.handle now r).2 }
    x.writes k = some (some e.value) ∨
      x.writes k = none ∧ ∃ e', app.store.entries.get? k = some e' ∧ e'.value = e.value := by
  cases r with
  | set body =>
    simp only [App.handle, App.postSet, validateEntry_orEmpty] at h ⊢
    split_ifs at h ⊢ with hrole
    · exact .inr ⟨by simp [Exchange.writes, App.rejected, AppResponse.isOk], e, h, rfl⟩
    · rcases hv : validateEntry app.maxKeyLength now (some body) with m | v <;>
        simp only [hv] at h ⊢
      · exact .inr ⟨by simp [Exchange.writes, AppResponse.isOk], e, h, rfl⟩
      · obtain ⟨hkey, hvalue⟩ := stringField_of_validateEntry hv
        simp only [Exchange.writes, AppResponse.isOk, hkey, hvalue, true_and, Option.some.injEq]
        rcases get?_of_set h with ⟨hk, he⟩ | ⟨hk, he⟩
        · exact .inl (by rw [if_pos hk, he])
        · exact .inr ⟨by rw [if_neg hk], e, he, rfl⟩
  | get key => exact .inr ⟨rfl, get?_of_touch h⟩
  | delete key =>
    simp only [App.handle, App.deleteKey] at h ⊢
    split_ifs at h ⊢ with hrole
    · exact .inr ⟨by simp [Exchange.writes, App.rejected, AppResponse.isOk], e, h, rfl⟩
    · obtain ⟨hk, he⟩ := get?_of_delete h
      exact .inr ⟨by simp [Exchange.writes, hk], e, he, rfl⟩

/-- A hit is what the node holds of the key. -/
theorem hit_holds {app : App ν} {r : NodeRequest ν} {value : JsString}
    (h : Exchange.hit? { node, request := r, answer := (app.handle now r).2 } = some (key, value)) :
    ∃ e, app.store.entries.get? key = some e ∧ e.value = value := by
  cases r with
  | set body | delete key' => simp [Exchange.hit?] at h
  | get key' =>
    simp only [Exchange.hit?, App.handle, App.getKey, CacheStore.getWithTtl] at h
    rcases lookup_cases now app.store.entries key' with hnone | ⟨e, he, hx⟩ | ⟨e, he, hx⟩
    · simp [touch_absent hnone] at h
    · simp [touch_expired he hx] at h
    · simp only [touch_live he hx, Option.map_some, Option.some.injEq, Prod.mk.injEq] at h
      obtain ⟨rfl, rfl⟩ := h
      exact ⟨e, he, rfl⟩

/-! ## Runs -/

/-- What a node holds of a key, and what it ever answered of one, is what the last acknowledged
write it was told of made of the key. -/
structure OwnWrites (log : List (Exchange ν)) (s : ShardedStore ν) : Prop where
  holds : ∀ (node k : JsString) (e : CacheEntry ν),
    (s.nodes node).store.entries.get? k = some e → latestAt node k log = some e.value
  reads : ∀ (pre post : List (Exchange ν)) (x : Exchange ν), log = pre ++ x :: post →
    ∀ key value, x.hit? = some (key, value) → latestAt x.node key pre = some value

variable {s s' : ShardedStore ν}

omit [JsNumber ν] in
theorem ownWrites_start (hashToUint32 : JsString → Hash) (virtualNodes : ℕ) (urls : List JsString)
    (nodes : JsString → App ν) :
    OwnWrites [] (.start hashToUint32 virtualNodes urls nodes) := by
  refine ⟨fun node k e he => ?_, fun pre post x h => ?_⟩
  · simp [ShardedStore.start, CacheStore.clear] at he
  · simp at h

theorem OwnWrites.request (h : OwnWrites log s) (now : ν) (node : JsString) (r : NodeRequest ν) :
    let answer := (s.nodes node).handle now r
    OwnWrites (log ++ [{ node, request := r, answer := answer.2 }])
      { s with nodes := Function.update s.nodes node answer.1 } := by
  intro answer
  refine ⟨fun n k e he => ?_, fun pre post x hlog key value hx => ?_⟩
  · rw [latestAt_concat]
    by_cases hn : node = n
    · subst hn
      simp only [Function.update_self] at he
      rw [if_pos rfl]
      rcases handle_holds node he with hw | ⟨hw, e', he', hval⟩
      · rw [hw]
        rfl
      · rw [hw, Option.getD_none, h.holds _ _ _ he', hval]
    · simp only [Function.update_of_ne (Ne.symm hn)] at he
      rw [if_neg hn]
      exact h.holds _ _ _ he
  · rcases List.eq_nil_or_concat post with rfl | ⟨post, y, rfl⟩
    · obtain ⟨rfl, hxe⟩ := List.append_inj' hlog rfl
      rw [List.singleton_inj] at hxe
      subst hxe
      obtain ⟨e, he, hval⟩ := hit_holds hx
      rw [h.holds _ _ _ he, hval]
    · rw [List.concat_eq_append, ← List.cons_append, ← List.append_assoc] at hlog
      exact h.reads _ _ _ (List.append_inj_left' hlog rfl) _ _ hx

theorem OwnWrites.sweep (h : OwnWrites log s) (now : ν) (node : JsString) :
    OwnWrites log { s with nodes := Function.update s.nodes node { s.nodes node with
      store := ((s.nodes node).store.sweep now).1 } } := by
  refine ⟨fun n k e he => ?_, h.reads⟩
  by_cases hn : n = node
  · subst hn
    simp only [Function.update_self, sweep_fst] at he
    exact h.holds _ _ _ (get?_live_eq_some.1 he).1
  · simp only [Function.update_of_ne hn] at he
    exact h.holds _ _ _ he

theorem OwnWrites.step {a : ShardedAction ν} {es : List (Exchange ν)} (h : OwnWrites log s)
    (hs : shardedStep hashToUint32 stringifies s a = some (s', es)) : OwnWrites (log ++ es) s' := by
  cases a with
  | request now req =>
    simp only [shardedStep] at hs
    rcases hp : s.gateway.proxied hashToUint32 stringifies req with _ | ⟨node, r⟩ <;>
      rw [hp] at hs <;> simp only [Option.some.injEq, Prod.mk.injEq] at hs <;>
      obtain ⟨rfl, rfl⟩ := hs
    · rw [List.append_nil]
      exact h
    · exact h.request now node r
  | gateway a =>
    simp only [shardedStep, Option.map_eq_some_iff, Prod.mk.injEq] at hs
    obtain ⟨r, -, rfl, rfl⟩ := hs
    rw [List.append_nil]
    exact ⟨h.holds, h.reads⟩
  | sweep now node =>
    simp only [shardedStep, Option.some.injEq, Prod.mk.injEq] at hs
    obtain ⟨rfl, rfl⟩ := hs
    rw [List.append_nil]
    exact h.sweep now node

/-- In every run of a gateway over nodes that start empty, in any interleaving of requests, health
checks and changes of the known nodes: a `GET` is answered a miss, or the value of the latest set of
the key that the node it was routed to acknowledged, with no delete of the key that it acknowledged
after it. Where that node acknowledged the last set or delete of the key that any node did, this
is the value of the latest acknowledged set, with no acknowledged delete after it. -/
theorem reads_own_writes (hashToUint32 : JsString → Hash) (stringifies : Json ν → Bool)
    (virtualNodes : ℕ) (urls : List JsString) (nodes : JsString → App ν)
    (h : Run (shardedStep hashToUint32 stringifies) (fun _ _ => True)
      (.start hashToUint32 virtualNodes urls nodes) log s)
    (hlog : log = pre ++ x :: post) {value : JsString} (hx : x.hit? = some (key, value)) :
    latestAt x.node key pre = some value ∧
      (lastWriter key pre = some x.node → latest key pre = some value) := by
  have hb : OwnWrites log s :=
    h.invariant (ownWrites_start hashToUint32 virtualNodes urls nodes) fun hI _ hs => hI.step hs
  have hread := hb.reads pre post x hlog key value hx
  refine ⟨hread, fun hw => ?_⟩
  rw [latest_of_lastWriter hw, hread]

/-- `POST /set` of a value for `user:1`. -/
def userSet (value : JsString) : RoutedRequest ℚ :=
  .set (some (.obj [(js "key", .str (js "user:1")), (js "value", .str value)]))

/-- Two nodes; `user:1` is routed to the second while that is in the ring. -/
def twoNodes : ShardedStore ℚ :=
  .start md5Points 1 [js "http://node-1:3000", js "http://node-2:3000"] fun _ => freshPair.primary

/-- The second node fails a check and passes the next one; meanwhile the first handles a request. -/
def outage (req : RoutedRequest ℚ) : List (ShardedAction ℚ) :=
  [.gateway .checkAll, .gateway (.checked 1 false), .request 1 req,
    .gateway (.checked 0 true), .gateway .checkAll, .gateway (.checked 1 true),
    .gateway (.checked 0 true)]

theorem exists_hit {log : List (Exchange ℚ)} {i : ℕ} {r : JsString × JsString}
    (h : log[i]?.bind Exchange.hit? = some r) :
    ∃ x post, log = log.take i ++ x :: post ∧ x.hit? = some r := by
  obtain ⟨x, hx, hr⟩ := Option.bind_eq_some_iff.1 h
  refine ⟨x, log.drop (i + 1), ?_, hr⟩
  rw [← (take_drop_of_getElem? hx).2, List.take_append_drop]

/-- The key is overwritten during one outage of the node that holds it and deleted during another:
the node serves its old value after both. -/
theorem failover_serves_stale : ∃ (log : List (Exchange ℚ)) (s : ShardedStore ℚ),
    Run (shardedStep md5Points fun _ => true) (fun _ _ => True) twoNodes log s ∧
    (∃ pre x post, log = pre ++ x :: post ∧ x.hit? = some (js "user:1", js "alice") ∧
      latest (js "user:1") pre = some (js "bob")) ∧
    ∃ pre x post, log = pre ++ x :: post ∧ x.hit? = some (js "user:1", js "alice") ∧
      latest (js "user:1") pre = none := by
  have hrun : ∃ (log : List (Exchange ℚ)) (s : ShardedStore ℚ),
      Run (shardedStep md5Points fun _ => true) (fun _ _ => True) twoNodes log s ∧
      log[2]?.bind Exchange.hit? = some (js "user:1", js "alice") ∧
      latest (js "user:1") (log.take 2) = some (js "bob") ∧
      log[4]?.bind Exchange.hit? = some (js "user:1", js "alice") ∧
      latest (js "user:1") (log.take 4) = none :=
    exists_run_of_exec ([.request 0 (userSet (js "alice"))] ++ outage (userSet (js "bob")) ++
      [.request 2 (.get (js "user:1"))] ++ outage (.delete (js "user:1")) ++
      [.request 3 (.get (js "user:1"))]) (by decide +kernel)
  obtain ⟨log, s, h, hstale, hset, hdeleted, hdelete⟩ := hrun
  obtain ⟨x, post, hlog, hx⟩ := exists_hit hstale
  obtain ⟨y, post', hlog', hy⟩ := exists_hit hdeleted
  exact ⟨log, s, h, ⟨_, x, post, hlog, hx, hset⟩, _, y, post', hlog', hy, hdelete⟩

/-- Without an outage between them, a `GET` is answered what was set. -/
theorem reads_own_writes_user : ∃ (log : List (Exchange ℚ)) (s : ShardedStore ℚ),
    Run (shardedStep md5Points fun _ => true) (fun _ _ => True) twoNodes log s ∧
    ∃ pre x post, log = pre ++ x :: post ∧ x.hit? = some (js "user:1", js "bob") ∧
      latestAt x.node (js "user:1") pre = some (js "bob") := by
  have hrun : ∃ (log : List (Exchange ℚ)) (s : ShardedStore ℚ),
      Run (shardedStep md5Points fun _ => true) (fun _ _ => True) twoNodes log s ∧
      log[3]?.bind Exchange.hit? = some (js "user:1", js "bob") :=
    exists_run_of_exec ([.request 0 (userSet (js "alice"))] ++
      outage (.delete (js "user:1")) ++
      [.request 2 (userSet (js "bob")), .request 3 (.get (js "user:1"))]) (by decide +kernel)
  obtain ⟨log, s, h, hhit⟩ := hrun
  obtain ⟨x, post, hlog, hx⟩ := exists_hit hhit
  exact ⟨log, s, h, _, x, post, hlog, hx,
    (reads_own_writes md5Points (fun _ => true) 1 _ _ h hlog hx).1⟩

end InkCache
