import InkCache.ReplicaPair
import InkCache.Proofs.Cache

/-!
# Replication converges in order

An op changes the map of a store's values as its `writes` say, if there is room (`values_apply`),
and an acknowledged request changes the primary as the op it forwards (`WriteStep`). So what the
replica will be once the messages in flight have arrived is what the primary is (`Converging`), as
long as no message overtakes one that it conflicts with.
-/

namespace InkCache

open Lib

variable {ν : Type} {op op' : ReplicationOp ν} {k : JsString}

/-! ## Conflicts -/

theorem independent_set {key value : JsString} {ttl : Option ν}
    (h : (ReplicationOp.set key value ttl).conflicts op = false) :
    Independent ReplicationOp.writes (.set key value ttl) op := by
  intro k
  by_cases hk : key = k
  swap
  · exact .inl (if_neg hk)
  subst hk
  cases op with
  | set key' value' =>
    simp only [ReplicationOp.conflicts, Bool.and_eq_false_iff, decide_eq_false_iff_not,
      not_not] at h
    rcases h with h | h
    · exact .inr (.inl (if_neg (Ne.symm h)))
    · simp only [ReplicationOp.writes, if_true, h]
      split_ifs <;> simp
  | delete key' =>
    have hne : key ≠ key' := by simpa [ReplicationOp.conflicts] using h
    exact .inr (.inl (if_neg hne.symm))
  | invalidate pre =>
    have hno : ¬ key.startsWith pre = true := by simpa [ReplicationOp.conflicts] using h
    exact .inr (.inl (if_neg hno))
  | flush => simp [ReplicationOp.conflicts] at h

theorem conflicts_comm (op op' : ReplicationOp ν) : op.conflicts op' = op'.conflicts op := by
  cases op <;> cases op' <;> simp [ReplicationOp.conflicts, eq_comm]

/-- An op that sets nothing can only remove a key. -/
theorem writes_of_not_set (h : ∀ key value ttl, op ≠ .set key value ttl) :
    op.writes k = none ∨ op.writes k = some none := by
  cases op with
  | set key value ttl => exact absurd rfl (h key value ttl)
  | delete key =>
    simp only [ReplicationOp.writes]
    split_ifs <;> simp
  | invalidate pre =>
    simp only [ReplicationOp.writes]
    split_ifs <;> simp
  | flush => exact .inr rfl

/-- Ops that do not conflict write no key differently. -/
theorem independent_of_conflicts (h : op.conflicts op' = false) :
    Independent ReplicationOp.writes op op' := by
  by_cases hop : ∃ key value ttl, op = .set key value ttl
  · obtain ⟨key, value, ttl, rfl⟩ := hop
    exact independent_set h
  by_cases hop' : ∃ key value ttl, op' = .set key value ttl
  · obtain ⟨key, value, ttl, rfl⟩ := hop'
    exact (independent_set ((conflicts_comm _ _).trans h)).symm
  push Not at hop hop'
  intro k
  rcases writes_of_not_set (k := k) hop with hk | hk
  · exact .inl hk
  · rcases writes_of_not_set (k := k) hop' with hk' | hk'
    · exact .inr (.inl hk')
    · exact .inr (.inr (hk.trans hk'.symm))

theorem sentTo_forwardToReplicas (url : JsString) (urls : List JsString) (op : ReplicationOp ν) :
    sentTo url (forwardToReplicas urls op) = List.replicate (urls.count url) op := by
  unfold sentTo forwardToReplicas
  induction urls with
  | nil => rfl
  | cons u urls ih =>
    rw [List.map_cons, List.filter_cons, List.count_cons]
    by_cases hu : u = url
    · simp [hu, ih, List.replicate_succ]
    · simp [hu, ih]

variable [JsNumber ν] {now : ν} {s : CacheStore ν} {app : App ν}

/-! ## The effect of an op -/

/-- With room for it, `set` keeps every other entry. -/
theorem set_of_room {key value : JsString} {ttl : Option ν}
    (h : (s.entries.delete key).size < s.maxEntries) :
    s.set now key value ttl = { s with
      entries := (s.entries.delete key).set key (newEntry now value ttl) } := by
  obtain ⟨kept, out, hout, hset⟩ := set_spec now key value ttl s
  rw [hset]
  cases hout with
  | room =>
    rw [List.append_nil]
    rfl
  | reclaimed hfull | evicted _ hfull | noVictim hfull => exact absurd h hfull.not_gt

theorem values_set {key value : JsString} {ttl : Option ν}
    (h : (s.entries.delete key).size < s.maxEntries) :
    (s.set now key value ttl).values =
      effect ReplicationOp.writes s.values (.set key value ttl) := by
  funext k
  rw [set_of_room h]
  simp only [CacheStore.values, effect, ReplicationOp.writes]
  rw [OrderedMap.get?_set_new OrderedMap.not_mem_keys_delete, OrderedMap.get?_delete]
  by_cases hk : k = key
  · simp [hk, newEntry]
  · simp [hk, Ne.symm hk]

theorem values_apply (h : op.hasRoom s = true) :
    (applyReplicationOp now s op).values = effect ReplicationOp.writes s.values op := by
  cases op with
  | set key value ttl => exact values_set (by simpa [ReplicationOp.hasRoom] using h)
  | delete key =>
    funext k
    simp only [applyReplicationOp, CacheStore.delete, CacheStore.values, effect,
      ReplicationOp.writes, OrderedMap.get?_delete]
    by_cases hk : k = key
    · simp [hk]
    · simp [hk, Ne.symm hk]
  | invalidate pre =>
    funext k
    simp only [applyReplicationOp, deleteByPrefix_fst, CacheStore.values, effect,
      ReplicationOp.writes, OrderedMap.get?_filter]
    rcases k.startsWith pre
    · cases s.entries.get? k <;> simp
    · cases s.entries.get? k <;> simp
  | flush => rfl

theorem entries_apply (h : op.hasRoom s = true) :
    ∀ e ∈ (applyReplicationOp now s op).entries.entries, e ∈ s.entries.entries ∨
      ∃ key value ttl, op = .set key value ttl ∧ e = (key, newEntry now value ttl) := by
  cases op with
  | set key value ttl =>
    intro e he
    have hroom : (s.entries.delete key).size < s.maxEntries := by
      simpa [ReplicationOp.hasRoom] using h
    rw [applyReplicationOp, set_of_room hroom, OrderedMap.entries_set_new
      OrderedMap.not_mem_keys_delete, List.mem_append, List.mem_singleton] at he
    rcases he with he | rfl
    · exact .inl (OrderedMap.mem_delete.1 he).1
    · exact .inr ⟨key, value, ttl, rfl, rfl⟩
  | delete key => exact fun e he => .inl (List.mem_of_mem_filter he)
  | invalidate pre =>
    intro e he
    rw [applyReplicationOp, deleteByPrefix_fst] at he
    exact .inl (List.mem_of_mem_filter he)
  | flush =>
    intro e he
    simp [applyReplicationOp, CacheStore.clear, OrderedMap.empty] at he

/-! ## The requests -/

/-- A request is refused and changes nothing, or changes the store as the op it forwards. -/
inductive WriteStep (now : ν) (app : App ν) :
    App ν × AppResponse ν × List (JsString × ReplicationOp ν) → Prop
  | refused (r : AppResponse ν) (hr : r.isOk = false) : WriteStep now app (app, r, [])
  | acknowledged (op : ReplicationOp ν) (r : AppResponse ν) (hr : r.isOk = true) :
      WriteStep now app ({ app with store := applyReplicationOp now app.store op }, r,
        forwardToReplicas app.leadership.replicaUrls op)

/-- The op an accepted request forwards. -/
inductive Forwards (now : ν) (app : App ν) : WriteRequest ν → ReplicationOp ν → Prop
  | set {body : Option (Json ν)} {e : ValidatedEntry ν}
      (he : validateEntry app.maxKeyLength now (some (orEmpty body)) = .ok e) :
      Forwards now app (.set body) (.set e.key e.value e.ttl)
  | delete (key : JsString) : Forwards now app (.delete key) (.delete key)
  | invalidate (body : Option (Json ν)) (pre : JsString) :
      Forwards now app (.invalidate body) (.invalidate pre)
  | flush : Forwards now app .flush .flush

/-- As `WriteStep`, with the request that forwards the op. -/
inductive WriteSpec (now : ν) (app : App ν) (r : WriteRequest ν) :
    App ν × AppResponse ν × List (JsString × ReplicationOp ν) → Prop
  | refused (a : AppResponse ν) (ha : a.isOk = false) : WriteSpec now app r (app, a, [])
  | acknowledged (op : ReplicationOp ν) (hop : Forwards now app r op) (a : AppResponse ν)
      (ha : a.isOk = true) :
      WriteSpec now app r ({ app with store := applyReplicationOp now app.store op }, a,
        forwardToReplicas app.leadership.replicaUrls op)

theorem writeSpec (now : ν) (app : App ν) (r : WriteRequest ν) :
    WriteSpec now app r (app.write now r) := by
  cases r with
  | set body =>
    simp only [App.write, App.postSet]
    split_ifs with hrole
    · exact .refused _ rfl
    · rcases he : validateEntry app.maxKeyLength now (some (orEmpty body)) with message | e
      · exact .refused _ rfl
      · exact .acknowledged _ (.set he) _ rfl
  | delete key =>
    simp only [App.write, App.deleteKey]
    split_ifs with hrole
    · exact .refused _ rfl
    · exact .acknowledged _ (.delete key) _ rfl
  | invalidate body =>
    simp only [App.write, App.postInvalidate]
    split_ifs with hrole
    · exact .refused _ rfl
    · split
      · split_ifs with hlen
        · exact .refused _ rfl
        · exact .acknowledged _ (.invalidate body _) _ rfl
      · exact .refused _ rfl
  | flush =>
    simp only [App.write, App.postFlush]
    split_ifs with hrole
    · exact .refused _ rfl
    · exact .acknowledged _ .flush _ rfl

theorem writeStep (now : ν) (app : App ν) (r : WriteRequest ν) :
    WriteStep now app (app.write now r) := by
  have h := writeSpec now app r
  generalize app.write now r = answer at h
  cases h with
  | refused a ha => exact .refused a ha
  | acknowledged op hop a ha => exact .acknowledged op a ha

/-! ## Convergence -/

variable {p p₀ p' : ReplicaPair ν} {log es : List (AppResponse ν)}

/-- Once the messages in flight have arrived, the replica holds what the primary holds. -/
structure Converging (p : ReplicaPair ν) : Prop where
  values : replay ReplicationOp.writes p.replica.store.values p.messages = p.primary.store.values
  primary : ∀ e ∈ p.primary.store.entries.entries, e.2.expiresAt = none
  replica : ∀ e ∈ p.replica.store.entries.entries, e.2.expiresAt = none
  messages : ∀ op ∈ p.messages, op.hasNoTtl = true
  replicaUrl : p.primary.leadership.replicaUrls.count p.replicaUrl = 1

theorem noTtl_apply (hroom : op.hasRoom s = true) (hno : op.hasNoTtl = true)
    (h : ∀ e ∈ s.entries.entries, e.2.expiresAt = none) :
    ∀ e ∈ (applyReplicationOp now s op).entries.entries, e.2.expiresAt = none := by
  intro e he
  rcases entries_apply hroom e he with he | ⟨key, value, ttl, rfl, rfl⟩
  · exact h e he
  · obtain rfl : ttl = none := by simpa [ReplicationOp.hasNoTtl] using hno
    rfl

theorem Converging.request (h : Converging p) {r : WriteRequest ν} (hA : Ample p (.request now r)) :
    Converging { p with
      primary := (p.primary.write now r).1
      messages := p.messages ++ sentTo p.replicaUrl (p.primary.write now r).2.2 } := by
  have hstep := writeStep now p.primary r
  simp only [Ample] at hA
  generalize p.primary.write now r = answer at hstep hA
  cases hstep with
  | refused =>
    simp only [sentTo, List.filter_nil, List.map_nil, List.append_nil]
    exact ⟨h.values, h.primary, h.replica, h.messages, h.replicaUrl⟩
  | acknowledged op =>
    have hurl : p.replicaUrl ∈ p.primary.leadership.replicaUrls :=
      List.count_pos_iff.1 (by rw [h.replicaUrl]; exact Nat.one_pos)
    obtain ⟨hroom, hno⟩ := hA (p.replicaUrl, op) (List.mem_map.2 ⟨_, hurl, rfl⟩)
    simp only [sentTo_forwardToReplicas, h.replicaUrl, List.replicate_one]
    refine ⟨?_, noTtl_apply hroom hno h.primary, h.replica, fun op' hop' => ?_, h.replicaUrl⟩
    · simp only
      rw [replay_concat, h.values, values_apply hroom]
    · rcases List.mem_append.1 hop' with hop' | hop'
      · exact h.messages op' hop'
      · rw [List.mem_singleton.1 hop']
        exact hno

theorem Converging.deliver (h : Converging p) {op : ReplicationOp ν} {i : ℕ}
    (hop : p.messages[i]? = some op) (hA : Ample p (.deliver now i))
    (hO : InOrder p (.deliver now i)) : Converging { p with
      replica := p.replica.postReplicate now op
      messages := p.messages.eraseIdx i } := by
  have hroom := hA _ hop
  have hno := h.messages _ (List.mem_of_getElem? hop)
  refine ⟨?_, h.primary, noTtl_apply hroom hno h.replica,
    fun op' hop' => h.messages op' (List.mem_of_mem_eraseIdx hop'), h.replicaUrl⟩
  have hvalues := h.values
  rw [replay_eraseIdx hop fun op' hop' => independent_of_conflicts (hO _ hop op' hop'),
    ← values_apply hroom] at hvalues
  exact hvalues

theorem Converging.step {a : PairAction ν} (h : Converging p) (hA : Ample p a) (hO : InOrder p a)
    (hs : pairStep p a = some (p', es)) : Converging p' := by
  cases a with
  | request now r =>
    simp only [pairStep, Option.some.injEq, Prod.mk.injEq] at hs
    obtain ⟨rfl, -⟩ := hs
    exact h.request hA
  | deliver now i =>
    simp only [pairStep] at hs
    rcases hop : p.messages[i]? with _ | op
    · simp [hop] at hs
    · simp only [hop, Option.some.injEq, Prod.mk.injEq] at hs
      obtain ⟨rfl, -⟩ := hs
      exact h.deliver hop hA hO

/-- Where nothing has expired, `get` answers the value that is stored. -/
theorem get_of_allLive (h : AllLive now s.entries) (k : JsString) :
    (s.get now k).2 = s.values k := by
  change (s.touch now k).2.map CacheEntry.value = _
  rcases lookup_cases now s.entries k with hg | ⟨e, hg, hx⟩ | ⟨e, hg, hx⟩
  · rw [touch_absent hg, CacheStore.values, hg]
  · rw [h _ (OrderedMap.get?_eq_some.1 hg)] at hx
    simp at hx
  · rw [touch_live hg hx, CacheStore.values, hg]
    rfl

theorem get_of_noTtl (h : ∀ e ∈ s.entries.entries, e.2.expiresAt = none) (now : ν) (k : JsString) :
    (s.get now k).2 = s.values k := by
  refine get_of_allLive (fun e he => ?_) k
  unfold CacheEntry.isExpired
  rw [h e he]

/-- From equal stores, in every run where no message overtakes one that it conflicts with: when all
have been delivered, the replica answers every read as the primary does. -/
theorem replica_converges (h₀ : Paired p₀)
    (h : Run pairStep (fun p a => Ample p a ∧ InOrder p a) p₀ log p) (hdone : p.messages = [])
    (now : ν) (k : JsString) : (p.replica.store.get now k).2 = (p.primary.store.get now k).2 := by
  have hinv : Converging p := by
    refine h.invariant (I := fun _ p => Converging p) ?_ fun hc hP hs => hc.step hP.1 hP.2 hs
    refine ⟨?_, h₀.primary, h₀.replica, by simp [h₀.messages], h₀.replicaUrl⟩
    rw [h₀.messages, h₀.values]
    rfl
  have hvalues := hinv.values
  rw [hdone] at hvalues
  rw [get_of_noTtl hinv.replica, get_of_noTtl hinv.primary, ← hvalues]
  rfl

theorem paired_freshPair : Paired freshPair where
  values := rfl
  primary := by simp [freshPair, CacheStore.new, OrderedMap.empty]
  replica := by simp [freshPair, CacheStore.new, OrderedMap.empty]
  messages := rfl
  replicaUrl := by decide

/-- Two messages overtake a third that they do not conflict with. -/
theorem replica_converges_overtaking : ∃ (log : List (AppResponse ℚ)) (p : ReplicaPair ℚ),
    Run pairStep (fun p a => Ample p a ∧ InOrder p a) freshPair log p ∧
    (p.replica.store.get 0 (js "k")).2 = (p.primary.store.get 0 (js "k")).2 ∧
    (p.primary.store.get 0 (js "k")).2 = some (js "1") := by
  have hrun : ∃ (log : List (AppResponse ℚ)) (p : ReplicaPair ℚ),
      Run pairStep (fun p a => Ample p a ∧ InOrder p a) freshPair log p ∧ p.messages = [] ∧
      (p.primary.store.get 0 (js "k")).2 = some (js "1") :=
    exists_run_of_exec [
      .request 0 (setRequest (js "k") (js "1")),
      .request 0 (setRequest (js "j") (js "2")),
      .request 0 (.delete (js "j")),
      .deliver 0 1,
      .deliver 0 1,
      .deliver 0 0] (by decide +kernel)
  obtain ⟨log, p, h, hdone, hk⟩ := hrun
  exact ⟨log, p, h, replica_converges paired_freshPair h hdone 0 (js "k"), hk⟩

/-- Two writes of one key arrive in the other order, and nothing is left to arrive. -/
theorem replica_diverges : Paired freshPair ∧
    ∃ (log : List (AppResponse ℚ)) (p : ReplicaPair ℚ),
      Run pairStep Ample freshPair log p ∧ p.messages = [] ∧
      (p.primary.store.get 0 (js "k")).2 = some (js "2") ∧
      (p.replica.store.get 0 (js "k")).2 = some (js "1") :=
  ⟨paired_freshPair, exists_run_of_exec [
    .request 0 (setRequest (js "k") (js "1")),
    .request 0 (setRequest (js "k") (js "2")),
    .deliver 0 1,
    .deliver 0 0] (by decide +kernel)⟩

end InkCache
