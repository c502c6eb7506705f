import InkCache.Dashboard
import InkCache.Proofs.Restore
import InkCache.Proofs.LiveView
import InkCache.Proofs.Replication

/-!
# Which requests the dashboard notices

Only `set` gives keys up, and it does just where the other live keys fill the capacity; so the
evictions of a list of entries are a matter of the live keys alone. The counters never go down.
A request that is counted therefore leaves the token above every token polled before, and the next
poll fetches the list again; one that is not counted leaves the token as it was.
-/

namespace InkCache

open Lib

variable {ν : Type} [JsNumber ν] {now : ν} {s : CacheStore ν}

/-! ## Evictions -/

/-- A store within its capacity, with options as the program reads them. -/
structure Evicts (s : CacheStore ν) : Prop where
  capped : Capped s
  maxEntries : 1 ≤ s.maxEntries
  sample : 1 ≤ s.evictionSampleSize

theorem card_liveKeys_erase (s : CacheStore ν) (key : JsString) :
    ((s.liveKeys now).erase key).card = ((live now s.entries).delete key).size := by
  have hkeys : (s.liveKeys now).erase key = ((live now s.entries).delete key).keys.toFinset := by
    ext k
    simp [CacheStore.liveKeys, OrderedMap.keys_delete, and_comm]
  rw [hkeys, List.toFinset_card_of_nodup (OrderedMap.keys_nodup _), OrderedMap.size_eq_length_keys]

/-- A key is given up just where the other live keys fill the capacity. -/
theorem evictionCount_set (hs : Evicts s) (now : ν) (key value : JsString) (ttl : Option ν) :
    (s.set now key value ttl).evictionCount = s.evictionCount
      + if s.maxEntries ≤ ((s.liveKeys now).erase key).card then 1 else 0 := by
  have hcount := congrArg CacheStore.evictionCount (purged_set hs.capped now key value ttl)
  refine hcount.trans ?_
  rw [card_liveKeys_erase]
  split_ifs with hfull
  · have hne : ((live now s.entries).delete key).entries ≠ [] := by
      intro hnil
      rw [OrderedMap.size, hnil] at hfull
      exact absurd (hs.maxEntries.trans hfull) (by simp)
    obtain ⟨w, hw⟩ := exists_victim hne hs.sample
    rw [spared_of_some hfull hw]
    rfl
  · rw [CacheStore.spared, if_pos (not_le.1 hfull)]
    rfl

theorem isExpired_newEntry (now : ν) (value : JsString) (ttl : Option ν) :
    (newEntry now value ttl).isExpired now = (deadline now ttl).any (· ≤ now) := by
  unfold newEntry CacheEntry.isExpired
  rcases deadline now ttl with _ | d <;> rfl

/-- Where no key is given up, the other live keys stay. -/
theorem liveKeys_set (hs : Evicts s) {key : JsString} (value : JsString) (ttl : Option ν)
    (hroom : ¬ s.maxEntries ≤ ((s.liveKeys now).erase key).card) :
    (s.set now key value ttl).liveKeys now = if (deadline now ttl).any (· ≤ now)
      then (s.liveKeys now).erase key else insert key (s.liveKeys now) := by
  rw [card_liveKeys_erase] at hroom
  have hentries : (live now (((live now s.entries).delete key).set key
      (newEntry now value ttl))).entries = _ :=
    entries_live_set OrderedMap.not_mem_keys_delete (newEntry now value ttl)
  rw [live_delete, live_live, isExpired_newEntry] at hentries
  rw [CacheStore.liveKeys, live_set hs.capped, CacheStore.spared, if_pos (not_le.1 hroom),
    OrderedMap.keys, hentries, List.map_append, ← OrderedMap.keys, OrderedMap.keys_delete]
  ext k
  by_cases hk : k = key <;> split_ifs <;> simp [CacheStore.liveKeys, hk]

theorem Evicts.apply (hs : Evicts s) (now : ν) (op : StoreOp ν) : Evicts (op.apply now s) := by
  have hoptions := options_apply s now op
  have hmax : (op.apply now s).maxEntries = s.maxEntries :=
    congrArg CacheStoreOptions.maxEntries hoptions
  have hsample : (op.apply now s).evictionSampleSize = s.evictionSampleSize :=
    congrArg CacheStoreOptions.evictionSampleSize hoptions
  exact ⟨capped_apply hs.capped now op, hmax ▸ hs.maxEntries, hsample ▸ hs.sample⟩

theorem Evicts.set (hs : Evicts s) (now : ν) (key value : JsString) (ttl : Option ν) :
    Evicts (s.set now key value ttl) ∧ s.evictionCount ≤ (s.set now key value ttl).evictionCount :=
  ⟨hs.apply now (.set key value ttl),
    (Nat.le_add_right _ _).trans (evictionCount_set hs now key value ttl).ge⟩

omit [JsNumber ν] in
/-- What keeps the bounds and takes back no eviction does so step by step. -/
theorem Evicts.foldl {α : Type} {f : CacheStore ν → α → CacheStore ν}
    (hf : ∀ {s} (a : α), Evicts s → Evicts (f s a) ∧ s.evictionCount ≤ (f s a).evictionCount) :
    ∀ (as : List α) {s : CacheStore ν}, Evicts s →
      Evicts (as.foldl f s) ∧ s.evictionCount ≤ (as.foldl f s).evictionCount
  | [], _, hs => ⟨hs, le_rfl⟩
  | a :: as, s, hs => by
    obtain ⟨hstep, hle⟩ := hf a hs
    obtain ⟨hkeep, hrest⟩ := Evicts.foldl hf as hstep
    exact ⟨hkeep, hle.trans hrest⟩

/-- What a list of entries makes of the store. -/
def CacheStore.setAll (now : ν) (es : List (ValidatedEntry ν)) (s : CacheStore ν) : CacheStore ν :=
  es.foldl (fun s e => s.set now e.key e.value e.ttl) s

theorem Evicts.setAll (hs : Evicts s) (now : ν) (es : List (ValidatedEntry ν)) :
    Evicts (s.setAll now es) ∧ s.evictionCount ≤ (s.setAll now es).evictionCount :=
  Evicts.foldl (fun e hs => hs.set now e.key e.value e.ttl) es hs

/-- Setting entries gives keys up just where they overfill the live keys. -/
theorem evictionCount_setAll (now : ν) : ∀ (es : List (ValidatedEntry ν)) {s : CacheStore ν},
    Evicts s → (s.evictionCount < (s.setAll now es).evictionCount ↔
      Overfills now s.maxEntries (s.liveKeys now) es)
  | [], s, _ => by simp [CacheStore.setAll, Overfills]
  | e :: es, s, hs => by
    have hs' := (hs.set now e.key e.value e.ttl).1
    have hset := evictionCount_set hs now e.key e.value e.ttl
    have hmax : (s.set now e.key e.value e.ttl).maxEntries = s.maxEntries :=
      congrArg CacheStoreOptions.maxEntries (options_apply s now (.set e.key e.value e.ttl))
    rw [Overfills]
    by_cases hfull : s.maxEntries ≤ ((s.liveKeys now).erase e.key).card
    · rw [if_pos hfull] at hset
      have hle := (hs'.setAll now es).2
      have hlt : s.evictionCount < (s.set now e.key e.value e.ttl).evictionCount := by omega
      exact iff_of_true (hlt.trans_le hle) (.inl hfull)
    · rw [if_neg hfull, Nat.add_zero] at hset
      have ih := evictionCount_setAll now es hs'
      rw [hset, hmax, liveKeys_set hs e.value e.ttl hfull] at ih
      rw [or_iff_right hfull]
      exact ih

/-! ## The counters -/

theorem stamp_counts (clock : ℤ) (m : MetricsCollector) :
    (m.stamp clock).sets = m.sets ∧ (m.stamp clock).deletes = m.deletes := by
  simp only [MetricsCollector.stamp, MetricsCollector.compact]
  split_ifs <;> exact ⟨rfl, rfl⟩

theorem sample_counts (latencyUs : ℚ) (m : MetricsCollector) :
    (m.sample latencyUs).sets = m.sets ∧ (m.sample latencyUs).deletes = m.deletes := by
  simp only [MetricsCollector.sample]
  split_ifs <;> exact ⟨rfl, rfl⟩

/-- A `get` is not among the sets and deletes. -/
theorem record_counts (clock : ℤ) (op : OpType) (latencyUs : ℚ) (hit : Option Bool)
    (m : MetricsCollector) :
    (m.record clock op latencyUs hit).sets + (m.record clock op latencyUs hit).deletes
      = m.sets + m.deletes + if op = .get then 0 else 1 := by
  rw [MetricsCollector.record, (stamp_counts clock _).1, (stamp_counts clock _).2,
    (sample_counts latencyUs _).1, (sample_counts latencyUs _).2]
  cases op with
  | get =>
    simp only [MetricsCollector.count, if_true, Nat.add_zero]
    split_ifs <;> rfl
  | set => exact Nat.add_right_comm _ _ _
  | delete => rfl

namespace MeteredApp

/-- The token the dashboard computes from the metrics of the node. -/
def token (s : MeteredApp ν) : ℕ :=
  s.metrics.sets + s.metrics.deletes + s.app.store.evictionCount

omit [JsNumber ν] in
theorem keyRefreshToken_eq (clock : ℤ) (s : MeteredApp ν) :
    keyRefreshToken (some (s.getMetrics clock)) = s.token := rfl

end MeteredApp

/-! ## One request -/

variable {node node' : MeteredApp ν}

/-- What a step does to the token: `counted` says whether it grows. -/
structure Served (node node' : MeteredApp ν) (counted : Prop) : Prop where
  evicts : Evicts node'.app.store
  le : node.token ≤ node'.token
  lt_iff : node.token < node'.token ↔ counted

omit [JsNumber ν] in
/-- The token grows by the `n` operations that are recorded and by what is given up. -/
theorem served_of_counts {n : ℕ} {gives : Prop} (hkeep : Evicts node'.app.store)
    (hcounts : node'.metrics.sets + node'.metrics.deletes
      = node.metrics.sets + node.metrics.deletes + n)
    (hle : node.app.store.evictionCount ≤ node'.app.store.evictionCount)
    (hlt : node.app.store.evictionCount < node'.app.store.evictionCount ↔ gives) :
    Served node node' (0 < n ∨ gives) where
  evicts := hkeep
  le := by
    unfold MeteredApp.token
    omega
  lt_iff := by
    rw [← hlt]
    unfold MeteredApp.token
    omega

/-- An operation that sets nothing gives nothing up. -/
theorem evictionCount_apply (now : ν) (s : CacheStore ν) {op : StoreOp ν}
    (hop : ∀ key value ttl, op ≠ .set key value ttl) :
    (op.apply now s).evictionCount = s.evictionCount := by
  have htouch : ∀ key, (s.touch now key).1.evictionCount = s.evictionCount := by
    intro key
    unfold CacheStore.touch
    rcases s.entries.get? key with _ | e
    · rfl
    · simp only []
      split_ifs <;> rfl
  have hpeek : ∀ key, (s.peek now key).1.evictionCount = s.evictionCount := by
    intro key
    rw [peek_eq]
    split_ifs <;> rfl
  cases op with
  | set key value ttl => exact absurd rfl (hop key value ttl)
  | get key | getWithTtl key => exact htouch key
  | has key | ttl key => exact hpeek key
  | delete | deleteByPrefix | accessCount | keys | detailedKeys | exportEntries | sweep
  | clear => rfl

theorem served_withStore (hs : Evicts node.app.store) (now : ν) (op : StoreOp ν)
    (hop : ∀ key value ttl, op ≠ .set key value ttl) :
    Served node (node.withStore (op.apply now node.app.store)) False := by
  have hcount := evictionCount_apply now node.app.store hop
  have h : Served node (node.withStore (op.apply now node.app.store)) (0 < 0 ∨ False) :=
    served_of_counts (hs.apply now op) rfl hcount.ge (iff_false_intro hcount.le.not_gt)
  simpa using h

/-- What a replication op makes of the evictions. -/
theorem applyReplicationOp_evicts {st : CacheStore ν} (hs : Evicts st) (now : ν)
    (op : ReplicationOp ν) : Evicts (applyReplicationOp now st op) ∧
      st.evictionCount ≤ (applyReplicationOp now st op).evictionCount ∧
      (st.evictionCount < (applyReplicationOp now st op).evictionCount ↔
        ∃ key value ttl, op = .set key value ttl ∧
          Overfills now st.maxEntries (st.liveKeys now) [{ key, value, ttl }]) := by
  cases op with
  | set key value ttl =>
    obtain ⟨hkeep, hle⟩ := hs.set now key value ttl
    refine ⟨hkeep, hle, (evictionCount_setAll now [{ key, value, ttl }] hs).trans ?_⟩
    simp
  | delete key =>
    refine ⟨hs.apply now (.delete key), le_rfl, ?_⟩
    simp [applyReplicationOp, CacheStore.delete]
  | invalidate pre =>
    refine ⟨hs.apply now (.deleteByPrefix pre), le_rfl, ?_⟩
    simp [applyReplicationOp, CacheStore.deleteByPrefix]
  | flush =>
    refine ⟨hs.apply now .clear, le_rfl, ?_⟩
    simp [applyReplicationOp, CacheStore.clear]

/-- A write that is acknowledged is counted if its route records an operation. -/
theorem handle_write (hs : Evicts node.app.store) (m : Moment ν) (r : WriteRequest ν) :
    ∃ counted, Served node (node.handle m (.write r)).1 counted ∧
      ((node.handle m (.write r)).2 = true → (counted ↔ node.Counts m.now (.write r))) := by
  have hspec := writeSpec m.now node.app r
  simp only [MeteredApp.handle]
  generalize node.app.write m.now r = answer at hspec
  cases hspec with
  | refused a ha =>
    refine ⟨0 < 0 ∨ False, served_of_counts hs ?_ le_rfl (iff_false_intro (lt_irrefl _)), ?_⟩
    · rcases r.recorded with _ | op <;> simp [ha]
    · intro h
      rw [ha] at h
      cases h
  | acknowledged op hop a ha =>
    obtain ⟨hkeep, hle, hlt⟩ := applyReplicationOp_evicts hs m.now op
    refine ⟨_, served_of_counts (n := if r.recorded = none then 0 else 1) hkeep ?_ hle hlt, ?_⟩
    · cases hop <;>
        simp [WriteRequest.recorded, ha, record_counts]
    · intro _
      cases hop <;> simp [WriteRequest.recorded, MeteredApp.Counts]

/-- A restore is refused and changes nothing, or loads the entries it was given. -/
inductive RestoreSpec (now : ν) (body : Option (Json ν)) (app : App ν) :
    App ν × AppResponse ν → Prop
  | refused (a : AppResponse ν) (ha : a.isOk = false) : RestoreSpec now body app (app, a)
  | accepted (loaded : ℕ) : RestoreSpec now body app
      ({ app with store := app.store.setAll now (app.restoredEntries now body) }, .restored loaded)

theorem restoreSpec (now : ν) (body : Option (Json ν)) (app : App ν) :
    RestoreSpec now body app (app.postRestore now body) := by
  by_cases hrole : app.leadership.role = .replica
  · rw [postRestore_replica hrole]
    exact .refused _ rfl
  by_cases hkeys : ∃ l, readField (orEmpty body) (js "keys") = .value (.arr l)
  · obtain ⟨l, hkeys⟩ := hkeys
    rcases hv : App.validateAll app.maxKeyLength now 0 l with message | es
    · have hanswer : app.postRestore now body = (app, .error 400 message) := by
        simp only [App.postRestore, if_neg hrole, hkeys, hv]
      rw [hanswer]
      exact .refused _ rfl
    · have hentries : app.restoredEntries now body = es := by
        simp only [App.restoredEntries, hkeys, hv]
        rfl
      have hanswer : app.postRestore now body = ({ app with
          store := app.store.setAll now (app.restoredEntries now body) },
          .restored es.length) := by
        simp only [App.postRestore, if_neg hrole, hkeys, hv, hentries]
        rfl
      rw [hanswer]
      exact .accepted _
  · rw [postRestore_noArray hrole fun l h => hkeys ⟨l, h⟩]
    exact .refused _ rfl

theorem handle_restore (hs : Evicts node.app.store) (m : Moment ν) (body : Option (Json ν)) :
    ∃ counted, Served node (node.handle m (.restore body)).1 counted ∧
      ((node.handle m (.restore body)).2 = true →
        (counted ↔ node.Counts m.now (.restore body))) := by
  have hspec := restoreSpec m.now body node.app
  simp only [MeteredApp.handle]
  generalize node.app.postRestore m.now body = answer at hspec
  cases hspec with
  | refused a ha =>
    refine ⟨0 < 0 ∨ False,
      served_of_counts hs rfl le_rfl (iff_false_intro (lt_irrefl _)), fun h => ?_⟩
    rw [ha] at h
    cases h
  | accepted loaded =>
    obtain ⟨hkeep, hle⟩ := hs.setAll m.now (node.app.restoredEntries m.now body)
    exact ⟨_, served_of_counts (n := 0) hkeep rfl hle
      (evictionCount_setAll m.now (node.app.restoredEntries m.now body) hs),
      fun _ => or_iff_right (lt_irrefl 0)⟩

/-- A request that succeeds raises the token just if it is counted. -/
theorem handle_served (hs : Evicts node.app.store) (m : Moment ν) (r : ServedRequest ν) :
    ∃ counted, Served node (node.handle m r).1 counted ∧
      ((node.handle m r).2 = true → (counted ↔ node.Counts m.now r)) := by
  cases r with
  | write r => exact handle_write hs m r
  | restore body => exact handle_restore hs m body
  | replicate op =>
    obtain ⟨hkeep, hle, hlt⟩ := applyReplicationOp_evicts hs m.now op
    refine ⟨_, served_of_counts (n := 0) hkeep rfl hle hlt, fun _ => ?_⟩
    cases op <;> simp [MeteredApp.Counts]
  | get key =>
    have hop : ∀ k v (t : Option ν), StoreOp.getWithTtl key ≠ .set k v t := fun _ _ _ => nofun
    have hcount := evictionCount_apply m.now node.app.store hop
    refine ⟨0 < 0 ∨ False, served_of_counts (hs.apply m.now (.getWithTtl key)) ?_ hcount.ge
      (iff_false_intro hcount.le.not_gt), fun _ => or_iff_right (lt_irrefl 0)⟩
    exact record_counts m.clock .get m.latencyUs _ _
  | keys => exact ⟨_, served_withStore hs m.now .keys (fun _ _ _ => nofun), fun _ => Iff.rfl⟩
  | keyStats =>
    exact ⟨_, served_withStore hs m.now .detailedKeys (fun _ _ _ => nofun), fun _ => Iff.rfl⟩
  | snapshot =>
    exact ⟨_, served_withStore hs m.now .exportEntries (fun _ _ _ => nofun), fun _ => Iff.rfl⟩

/-! ## Runs -/

omit [JsNumber ν] in
theorem evicts_start {opts : CacheStoreOptions} (hmax : 1 ≤ opts.maxEntries)
    (hsample : 1 ≤ opts.evictionSampleSize) :
    Evicts (CacheStore.new opts : CacheStore ν) :=
  ⟨capped_new opts, hmax, hsample⟩

/-- No action lowers the token. -/
theorem apply_served (hs : Evicts node.app.store) (a : ServerAction ν) :
    Evicts (a.apply node).app.store ∧ node.token ≤ (a.apply node).token := by
  cases a with
  | request m r =>
    obtain ⟨counted, h, -⟩ := handle_served hs m r
    exact ⟨h.evicts, h.le⟩
  | lead leadership => exact ⟨hs, le_rfl⟩
  | load now rows =>
    obtain ⟨hkeep, hle⟩ :=
      Evicts.foldl (fun row hs => hs.set now row.key row.value row.ttl) rows hs
    exact ⟨hkeep, Nat.add_le_add_left hle _⟩
  | sweep now =>
    have h := served_withStore hs now .sweep fun _ _ _ => nofun
    exact ⟨h.evicts, h.le⟩

theorem evicts_run {P : MeteredApp ν → ServerAction ν → Prop} {log : List Empty}
    (hs : Evicts node.app.store) (h : Run serverStep P node log node') :
    Evicts node'.app.store :=
  h.invariant (I := fun _ node => Evicts node.app.store) hs fun hs _ hstep => by
    obtain ⟨rfl, -⟩ := Prod.mk.inj (Option.some.inj hstep)
    exact (apply_served hs _).1

/-- A list that a change has outdated was fetched for a smaller token, unless it is being fetched
again. -/
structure Watching (d : Dashboard ν) : Prop where
  evicts : Evicts d.node.app.store
  le : d.token ≤ d.node.token
  behind : d.outdated → d.fetching = false → d.token < d.node.token

namespace Watching

variable {d : Dashboard ν}

theorem act (h : Watching d) {a : ServerAction ν} (hcount : ChangesCount d (.node a)) :
    Watching { d with node := a.apply d.node, outdated := d.outdated || a.changes d.node } := by
  obtain ⟨hkeep, hle⟩ := apply_served h.evicts a
  refine ⟨hkeep, h.le.trans hle, fun hout hfetch => ?_⟩
  by_cases hbefore : d.outdated
  · exact (h.behind hbefore hfetch).trans_le hle
  have hchange : a.changes d.node = true := by simpa [hbefore] using hout
  cases a with
  | request m r =>
    obtain ⟨counted, hserved, hiff⟩ := handle_served h.evicts m r
    have hok : (d.node.handle m r).2 = true := by
      simp only [ServerAction.changes, Bool.and_eq_true] at hchange
      exact hchange.1.2
    exact h.le.trans_lt (hserved.lt_iff.2 ((hiff hok).2 (hcount hchange)))
  | lead | load | sweep => cases hchange

omit [JsNumber ν] in
theorem poll (h : Watching d) (clock : ℤ) :
    Watching { d with
      token := keyRefreshToken (some (d.node.getMetrics clock))
      fetching := d.fetching || keyRefreshToken (some (d.node.getMetrics clock)) ≠ d.token } := by
  refine ⟨h.evicts, le_rfl, fun hout hfetch => ?_⟩
  obtain ⟨hfetch, htoken⟩ := Bool.or_eq_false_iff.1 hfetch
  exact absurd (h.behind hout hfetch).ne' (of_decide_eq_false htoken)

theorem listed (h : Watching d) (now : ν) :
    Watching { d with
      node := d.node.withStore (d.node.app.store.detailedKeys now).1
      fetching := false
      outdated := false } := by
  have hserved := served_withStore h.evicts now .detailedKeys fun _ _ _ => nofun
  exact ⟨hserved.evicts, h.le.trans hserved.le, fun hout => absurd hout Bool.false_ne_true⟩

theorem run {P : Dashboard ν → DashboardAction ν → Prop}
    (hP : ∀ d a, P d a → ChangesCount d a) {d d' : Dashboard ν} {log : List Empty}
    (h : Watching d) (hrun : Run dashboardStep P d log d') : Watching d' := by
  refine hrun.invariant (I := fun _ d => Watching d) h fun {log d a d' es} hd hallowed hstep => ?_
  have hcount := hP d a hallowed
  cases a with
  | node a =>
    obtain ⟨rfl, -⟩ := Prod.mk.inj (Option.some.inj hstep)
    exact hd.act hcount
  | poll clock =>
    obtain ⟨rfl, -⟩ := Prod.mk.inj (Option.some.inj hstep)
    exact hd.poll clock
  | listed now =>
    simp only [dashboardStep] at hstep
    split_ifs at hstep
    obtain ⟨rfl, -⟩ := Prod.mk.inj (Option.some.inj hstep)
    exact hd.listed now

end Watching

/-- In every state of a node, a request that succeeds raises the token just if it is counted: a set
and a delete are, an invalidation and a flush are not, and a restore or a replicated set is where
keys must be given up for it. In every run in which the requests that change something are counted,
a dashboard that has polled the node and has no fetch under way shows a list that no request has
changed since. -/
theorem token_counts (opts : CacheStoreOptions) (hmax : 1 ≤ opts.maxEntries)
    (hsample : 1 ≤ opts.evictionSampleSize) (maxKeyLength : ℕ) (leadership : Leadership) (t₀ : ℤ) :
    (∀ {log : List Empty} {node : MeteredApp ν},
      Run serverStep (fun _ _ => True) (.start opts maxKeyLength leadership t₀) log node →
      ∀ m r, (node.handle m r).2 = true → ∀ clock clock' : ℤ,
        (keyRefreshToken (some (node.getMetrics clock))
          < keyRefreshToken (some ((node.handle m r).1.getMetrics clock')) ↔
          node.Counts m.now r)) ∧
    ∀ {log : List Empty} {d : Dashboard ν},
      Run dashboardStep ChangesCount (.start (.start opts maxKeyLength leadership t₀)) log d →
      ∀ clock : ℤ, d.token = keyRefreshToken (some (d.node.getMetrics clock)) →
        d.fetching = false → d.outdated = false := by
  have hstart := evicts_start (ν := ν) hmax hsample
  refine ⟨fun hrun m r hok clock clock' => ?_, fun {log d} hrun clock htoken hfetch => ?_⟩
  · obtain ⟨counted, hserved, hiff⟩ := handle_served (evicts_run hstart hrun) m r
    rw [MeteredApp.keyRefreshToken_eq, MeteredApp.keyRefreshToken_eq]
    exact hserved.lt_iff.trans (hiff hok)
  · have hfresh : Watching (Dashboard.start (.start opts maxKeyLength leadership t₀ :
        MeteredApp ν)) :=
      ⟨hstart, Nat.zero_le _, fun hout => absurd hout Bool.false_ne_true⟩
    have hd : Watching d := hfresh.run (fun _ _ h => h) hrun
    rw [MeteredApp.keyRefreshToken_eq] at htoken
    rw [← Bool.not_eq_true]
    exact fun hout => absurd htoken (hd.behind hout hfetch).ne

/-- An entry of a restore. -/
def entryJson (key value : JsString) : Json ℚ :=
  .obj [(js "key", .str key), (js "value", .str value)]

/-- A restore of two keys where there is room for one. -/
theorem token_counts_restore :
    let node : MeteredApp ℚ := .start { maxEntries := 1 } 256 freshPair.primary.leadership 0
    let r : ServedRequest ℚ :=
      .restore (some (.obj [(js "keys", .arr [entryJson (js "a") [], entryJson (js "b") []])]))
    keyRefreshToken (some (node.getMetrics 0))
      < keyRefreshToken (some ((node.handle ⟨0, 0, 0⟩ r).1.getMetrics 0)) := by
  refine ((token_counts _ (by decide) (by decide) _ _ _).1 .start _ _ ?_ 0 0).2 ?_
  · rfl
  · exact .inr (.inl (by decide))

/-- A primary with the default capacity that has loaded one key. -/
def oneKeyNode : MeteredApp ℚ :=
  (ServerAction.load 0 [{ key := js "k", value := js "v", ttl := none }]).apply
    (.start {} 256 freshPair.primary.leadership 0)

/-- With one key stored, a flush, an invalidation of its prefix, a restore of another value and a
replicated set all succeed and change what is stored, and the token stays as it is. A dashboard that
has listed the key polls after the flush, fetches nothing, and keeps showing it. -/
theorem flush_unnoticed :
    (∃ log : List Empty, Run serverStep (fun _ _ => True)
      (.start {} 256 freshPair.primary.leadership 0) log oneKeyNode) ∧
    (∀ r ∈ ([.write .flush,
        .write (.invalidate (some (.obj [(js "prefix", .str (js "k"))]))),
        .restore (some (.obj [(js "keys", .arr [entryJson (js "k") (js "w")])])),
        .replicate (.set (js "k") (js "w") none)] : List (ServedRequest ℚ)),
      (ServerAction.request ⟨0, 0, 0⟩ r).changes oneKeyNode = true ∧
      ¬ (keyRefreshToken (some (oneKeyNode.getMetrics 0))
        < keyRefreshToken (some ((oneKeyNode.handle ⟨0, 0, 0⟩ r).1.getMetrics 0)))) ∧
    ∃ (log : List Empty) (d : Dashboard ℚ), Run dashboardStep (fun _ _ => True)
        (.start (.start {} 256 freshPair.primary.leadership 0)) log d ∧
      d.token = keyRefreshToken (some (d.node.getMetrics 0)) ∧ d.fetching = false ∧
        d.outdated = true := by
  refine ⟨⟨_, .next (.load 0 [{ key := js "k", value := js "v", ttl := none }]) .start trivial
    rfl⟩, ?_, ?_⟩
  · intro r hr
    simp only [List.mem_cons, List.not_mem_nil, or_false] at hr
    rcases hr with rfl | rfl | rfl | rfl
    · exact ⟨rfl, Nat.lt_irrefl _⟩
    · exact ⟨rfl, Nat.lt_irrefl _⟩
    · exact ⟨rfl, Nat.lt_irrefl _⟩
    · exact ⟨rfl, Nat.lt_irrefl _⟩
  · exact exists_run_of_exec
      [.node (.load 0 [{ key := js "k", value := js "v", ttl := none }]), .listed 0, .poll 0,
        .node (.request ⟨0, 0, 0⟩ (.write .flush)), .poll 0] (by decide)

end InkCache
