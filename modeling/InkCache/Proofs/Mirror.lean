import InkCache.Mirror
import InkCache.Proofs.LiveView
import InkCache.Proofs.Replication
import InkCache.Proofs.StoreHistory

/-!
# A replica mirrors its primary as long as they rank alike

The recency and the hits of the two stores part with the first read, as reads are not forwarded.
What they keep in common is the value and the deadline of every live key (`SameContent`): no read
or sweep changes these, and a write changes both alike unless the policies give up different keys
(`SameContent.spared`).
-/

namespace InkCache

open Lib

variable {ν : Type} {m m' m'' : Entries ν} {s s' : CacheStore ν} {key k : JsString}

/-! ## The lowest rank -/

theorem ranksLowest_unique {w w' : JsString} (h : s.RanksLowest m w) (h' : s.RanksLowest m w') :
    w = w' := by
  obtain ⟨l₁, e, l₂, hl, h₁, h₂⟩ := h
  obtain ⟨l₁', e', l₂', hl', h₁', h₂'⟩ := h'
  rw [hl] at hl'
  rcases List.append_eq_append_iff.1 hl' with ⟨l, rfl, hcons⟩ | ⟨l, rfl, hcons⟩
  · rcases l with _ | ⟨x, l⟩
    · simp only [List.nil_append, List.cons.injEq, Prod.mk.injEq] at hcons
      exact hcons.1.1
    · simp only [List.cons_append, List.cons.injEq] at hcons
      obtain ⟨rfl, rfl⟩ := hcons
      have hlt := h₁' (w, e) (by simp)
      have hle := h₂ (w', e') (by simp)
      simp only at hlt hle
      omega
  · rcases l with _ | ⟨x, l⟩
    · simp only [List.nil_append, List.cons.injEq, Prod.mk.injEq] at hcons
      exact hcons.1.1.symm
    · simp only [List.cons_append, List.cons.injEq] at hcons
      obtain ⟨rfl, rfl⟩ := hcons
      have hlt := h₁ (w', e') (by simp)
      have hle := h₂' (w, e) (by simp)
      simp only at hlt hle
      omega

/-- The policy gives up the entry it ranks lowest. -/
theorem ranksLowest_iff {w : JsString} : s.RanksLowest m w ↔ s.victim m = some w := by
  constructor
  · intro h
    have hne : m.entries.take (s.window m) ≠ [] := by
      obtain ⟨l₁, e, l₂, hl, -⟩ := h
      rw [hl]
      simp
    obtain ⟨hw, hm⟩ := not_or.1 (mt List.take_eq_nil_iff.2 hne)
    obtain ⟨l₁', e', l₂', hl', hv, h₁', h₂'⟩ := victim_spec (s := s) hm (Nat.pos_of_ne_zero hw)
    rw [hv, ranksLowest_unique h ⟨l₁', e'.2, l₂', hl', h₁', h₂'⟩]
  · intro h
    obtain ⟨e, he⟩ := OrderedMap.mem_keys.1 (victim_mem h)
    have hm : m.entries ≠ [] := List.ne_nil_of_mem he
    have hw : 1 ≤ s.window m := by
      by_contra hw
      have hzero : s.window m = 0 := by omega
      have hnone : s.victim m = none := by
        simp [CacheStore.victim, hzero, CacheStore.leastAccessed]
      rw [hnone] at h
      simp at h
    obtain ⟨l₁, e', l₂, hl, hv, h₁, h₂⟩ := victim_spec (s := s) hm hw
    rw [h, Option.some.injEq] at hv
    subst hv
    exact ⟨l₁, e'.2, l₂, hl, h₁, h₂⟩

/-! ## Equal content -/

/-- The same keys are held, with the same value and deadline. -/
def SameContent (m m' : Entries ν) : Prop :=
  ∀ k, (m.get? k).map CacheEntry.content = (m'.get? k).map CacheEntry.content

namespace SameContent

theorem refl (m : Entries ν) : SameContent m m := fun _ => rfl

theorem symm (h : SameContent m m') : SameContent m' m := fun k => (h k).symm

theorem trans (h : SameContent m m') (h' : SameContent m' m'') : SameContent m m'' :=
  fun k => (h k).trans (h' k)

theorem mem_keys (h : SameContent m m') : k ∈ m.keys ↔ k ∈ m'.keys := by
  rw [← not_iff_not, ← OrderedMap.get?_eq_none, ← OrderedMap.get?_eq_none]
  have hk := h k
  constructor
  · intro hn
    rw [hn, eq_comm, Option.map_none, Option.map_eq_none_iff] at hk
    exact hk
  · intro hn
    rw [hn, Option.map_none, Option.map_eq_none_iff] at hk
    exact hk

theorem size (h : SameContent m m') : m.size = m'.size := by
  have hperm : m.keys.Perm m'.keys :=
    (List.perm_ext_iff_of_nodup m.keys_nodup m'.keys_nodup).2 fun _ => h.mem_keys
  have hlen := hperm.length_eq
  rwa [OrderedMap.keys, OrderedMap.keys, List.length_map, List.length_map] at hlen

theorem filter (h : SameContent m m') (p : JsString → Bool) :
    SameContent (m.filter fun e => p e.1) (m'.filter fun e => p e.1) := by
  intro k
  simp only [OrderedMap.get?_filter]
  have htrue : ∀ o : Option (CacheEntry ν), o.filter (fun _ => true) = o := fun o => by
    cases o <;> rfl
  rcases p k
  · simp
  · rw [htrue, htrue]
    exact h k

theorem delete (h : SameContent m m') (key : JsString) :
    SameContent (m.delete key) (m'.delete key) := h.filter fun k => k ≠ key

theorem set (h : SameContent m m') (hm : key ∉ m.keys) (hm' : key ∉ m'.keys) (e : CacheEntry ν) :
    SameContent (m.set key e) (m'.set key e) := by
  intro k
  rw [OrderedMap.get?_set_new hm, OrderedMap.get?_set_new hm']
  split_ifs
  · rfl
  · exact h k

end SameContent

theorem victim_congr (h : s.options = s'.options) (m : Entries ν) : s.victim m = s'.victim m := by
  have hp : s.policy = s'.policy := congrArg CacheStoreOptions.policy h
  have hn : s.evictionSampleSize = s'.evictionSampleSize :=
    congrArg CacheStoreOptions.evictionSampleSize h
  rw [CacheStore.victim, CacheStore.victim, CacheStore.window, CacheStore.window, hp, hn]

theorem SameContent.spared (h : SameContent m m') (ho : s.options = s'.options)
    (hv : s.maxEntries ≤ m.size → s.victim m = s'.victim m') :
    SameContent (s.spared m).1 (s'.spared m').1 := by
  have hmax : s.maxEntries = s'.maxEntries := congrArg CacheStoreOptions.maxEntries ho
  by_cases hroom : m.size < s.maxEntries
  · have hroom' : m'.size < s'.maxEntries := by rwa [← h.size, ← hmax]
    rw [CacheStore.spared, CacheStore.spared, if_pos hroom, if_pos hroom']
    exact h
  · have hfull : s.maxEntries ≤ m.size := not_lt.1 hroom
    have hfull' : s'.maxEntries ≤ m'.size := by rwa [← h.size, ← hmax]
    have hvm := hv hfull
    rcases hw : s.victim m with _ | w <;> rw [hw, eq_comm] at hvm
    · rw [spared_of_none hw, spared_of_none hvm]
      exact h
    · rw [spared_of_some hfull hw, spared_of_some hfull' hvm]
      exact h.delete w

variable [JsNumber ν] {now now' : ν}

theorem get?_live_content (m : Entries ν) (k : JsString) :
    ((live now m).get? k).map CacheEntry.content =
      ((m.get? k).map CacheEntry.content).filter fun c => c.2.all fun d => decide (now < d) := by
  rcases lookup_cases now m k with h | ⟨e, h, hx⟩ | ⟨e, h, hx⟩
  · rw [get?_live_none h, h]
    rfl
  · obtain ⟨t, ht, hle⟩ := isExpired_iff.1 hx
    rw [get?_live_expired h hx, h]
    simp [CacheEntry.content, Option.filter, ht, hle]
  · rw [get?_live_eq_some.2 ⟨h, hx⟩, h]
    rcases hd : e.expiresAt with _ | t
    · simp [CacheEntry.content, Option.filter, hd]
    · simp [CacheEntry.content, Option.filter, hd, deadline_live.1 hx t hd]

theorem SameContent.live (h : SameContent m m') (now : ν) :
    SameContent (live now m) (live now m') := by
  intro k
  rw [get?_live_content, get?_live_content, h k]

theorem SameContent.live_of_le (h : SameContent (InkCache.live now m) (InkCache.live now m'))
    (hle : now ≤ now') : SameContent (InkCache.live now' m) (InkCache.live now' m') := by
  have hl := h.live now'
  rwa [InkCache.live_of_le hle, InkCache.live_of_le hle] at hl

theorem SameContent.liveValue (h : SameContent (InkCache.live now s.entries)
    (InkCache.live now s'.entries)) (k : JsString) : s.liveValue now k = s'.liveValue now k := by
  have hk := congrArg (Option.map Prod.fst) (h k)
  rwa [Option.map_map, Option.map_map] at hk

/-- The operation of the store that an op asks for. -/
def ReplicationOp.storeOp : ReplicationOp ν → StoreOp ν
  | set key value ttl => .set key value ttl
  | delete key => .delete key
  | invalidate pre => .deleteByPrefix pre
  | flush => .clear

theorem apply_storeOp (now : ν) (s : CacheStore ν) (op : ReplicationOp ν) :
    op.storeOp.apply now s = applyReplicationOp now s op := by
  cases op with
  | set | delete | invalidate | flush => rfl

/-! ## Two stores that match -/

/-- Two stores within their capacity, under equal options, whose live entries have equal content. -/
structure Matched (now : ν) (s s' : CacheStore ν) : Prop where
  left : Capped s
  right : Capped s'
  options : s.options = s'.options
  content : SameContent (live now s.entries) (live now s'.entries)

theorem not_mem_keys_others : key ∉ (s.others now key).keys := OrderedMap.not_mem_keys_delete

theorem live_set_others (hc : Capped s) (value : JsString) (ttl : Option ν) :
    live now (s.set now key value ttl).entries =
      live now ((s.spared (s.others now key)).1.set key (newEntry now value ttl)) :=
  live_set hc now key value ttl

theorem victim_of_sameRanking (h : SameRanking now key s s')
    (hfull : s.maxEntries ≤ (s.others now key).size) :
    s.victim (s.others now key) = s'.victim (s'.others now key) := by
  refine Option.ext fun w => ?_
  rw [← ranksLowest_iff, ← ranksLowest_iff]
  exact h hfull w

/-- An operation that reads, or that cleans up, leaves what is live as it is. -/
theorem sameContent_quiet {op : StoreOp ν}
    (hop : ∀ k, mostRecent k (op.events now s) = none) :
    SameContent (live now (op.apply now s).entries) (live now s.entries) := by
  intro k
  cases keyStep now s k op with
  | kept hes hm => rw [get?_live_content, get?_live_content, hm]
  | expired hes hm' hm hx => rw [get?_live_none hm', get?_live_expired hm hx]
  | written hes hm => simp [hop] at hes
  | removed hes hset hm' => simp [hop] at hes

theorem mostRecent_observation {op : StoreOp ν} (hop : op.isObservation = true) (k : JsString) :
    mostRecent k (op.events now s) = none := by
  cases op with
  | get key | getWithTtl key =>
    simp only [StoreOp.events]
    split_ifs <;> simp [mostRecent, StoreEvent.concerns]
  | has | ttl | accessCount | keys | detailedKeys | exportEntries => rfl
  | set | delete | deleteByPrefix | sweep | clear => simp [StoreOp.isObservation] at hop

namespace Matched

theorem symm (h : Matched now s s') : Matched now s' s :=
  ⟨h.right, h.left, h.options.symm, h.content.symm⟩

theorem later (h : Matched now s s') (hle : now ≤ now') : Matched now' s s' :=
  ⟨h.left, h.right, h.options, h.content.live_of_le hle⟩

theorem quiet (h : Matched now s s') (op : StoreOp ν)
    (hop : ∀ k, mostRecent k (op.events now s) = none) : Matched now (op.apply now s) s' :=
  ⟨capped_apply h.left now op, h.right, (options_apply s now op).trans h.options,
    (sameContent_quiet hop).trans h.content⟩

theorem content_set (h : Matched now s s') (hr : SameRanking now key s s') (value : JsString)
    (ttl : Option ν) : SameContent (InkCache.live now (s.set now key value ttl).entries)
      (InkCache.live now (s'.set now key value ttl).entries) := by
  rw [live_set_others h.left, live_set_others h.right]
  have hspared := (h.content.delete key).spared h.options (victim_of_sameRanking hr)
  exact (hspared.set (not_mem_keys_spared not_mem_keys_others)
    (not_mem_keys_spared not_mem_keys_others) _).live now

/-- An op that both are given at one clock reading leaves them matched. -/
theorem apply (h : Matched now s s') {op : ReplicationOp ν}
    (hr : ∀ key value ttl, op = .set key value ttl → SameRanking now key s s') :
    Matched now (applyReplicationOp now s op) (applyReplicationOp now s' op) := by
  have hleft := capped_apply h.left now op.storeOp
  have hright := capped_apply h.right now op.storeOp
  have hopts := (options_apply s now op.storeOp).trans
    (h.options.trans (options_apply s' now op.storeOp).symm)
  rw [apply_storeOp] at hleft hright
  rw [apply_storeOp, apply_storeOp] at hopts
  refine ⟨hleft, hright, hopts, ?_⟩
  cases op with
  | set key value ttl => exact h.content_set (hr key value ttl rfl) value ttl
  | delete key =>
    simp only [applyReplicationOp, CacheStore.delete, live_delete]
    exact h.content.delete key
  | invalidate pre =>
    simp only [applyReplicationOp, deleteByPrefix_fst, live_filter]
    exact h.content.filter fun k => !k.startsWith pre
  | flush => exact .refl _

end Matched

/-! ## Where the rankings differ -/

theorem sameRanking_iff : SameRanking now key s s' ↔
    (s.maxEntries ≤ (s.others now key).size →
      s.victim (s.others now key) = s'.victim (s'.others now key)) := by
  refine ⟨victim_of_sameRanking, fun h hfull w => ?_⟩
  rw [ranksLowest_iff, ranksLowest_iff, h hfull]

instance : Decidable (SameRanking now key s s') := decidable_of_iff _ sameRanking_iff.symm

instance (p : Mirror ν) (a : MirrorAction ν) : Decidable (ClockForward p a) :=
  inferInstanceAs (Decidable (p.clock ≤ a.now))

instance (p : Mirror ν) : ∀ a, Decidable (Concordant p a)
  | .request now (.set body) => inferInstanceAs (Decidable (∀ e ∈ (validateEntry
      p.primary.maxKeyLength now (some (orEmpty body))).toOption,
        SameRanking now e.key p.primary.store p.replica.store))
  | .restore now body => inferInstanceAs (Decidable (p.primary.restoredEntries now body = []))
  | .request _ (.delete _) | .request _ (.invalidate _) | .request _ .flush | .read _ _
  | .sweepPrimary _ | .sweepReplica _ => instDecidableTrue

theorem mem_others {w : JsString} (h : w ∈ (s.others now key).keys) :
    w ≠ key ∧ ∃ e, (s.others now key).get? w = some e ∧ e.isExpired now = false := by
  obtain ⟨e, he⟩ := OrderedMap.mem_keys.1 h
  have hlive := (OrderedMap.mem_delete.1 he).1
  exact ⟨(OrderedMap.mem_delete.1 he).2, e, OrderedMap.get?_eq_some.2 he, allLive_live _ _ hlive⟩

theorem liveValue_set_victim (hc : Capped s) (hfull : s.maxEntries ≤ (s.others now key).size)
    {w : JsString} (hw : s.victim (s.others now key) = some w) (value : JsString)
    (ttl : Option ν) : (s.set now key value ttl).liveValue now w = none := by
  have hne := (mem_others (victim_mem hw)).1
  have hkey : key ∉ ((s.others now key).delete w).keys := by
    rw [OrderedMap.keys_delete, List.mem_filter]
    exact fun hk => not_mem_keys_others hk.1
  rw [CacheStore.liveValue, live_set_others hc, spared_of_some hfull hw, get?_live_none,
    Option.map_none]
  rw [OrderedMap.get?_set_new hkey, if_neg hne, OrderedMap.get?_delete, if_pos rfl]

theorem liveValue_set_other (hc : Capped s) {w : JsString} (hw : w ∈ (s.others now key).keys)
    (hv : s.victim (s.others now key) ≠ some w) (value : JsString) (ttl : Option ν) :
    (s.set now key value ttl).liveValue now w ≠ none := by
  obtain ⟨hne, e, he, hx⟩ := mem_others hw
  have hspared : (s.spared (s.others now key)).1.get? w = some e := by
    unfold CacheStore.spared
    split_ifs
    · exact he
    · split
      · exact he
      · rename_i w' hw'
        have hww : w ≠ w' := by
          rintro rfl
          exact hv hw'
        rw [OrderedMap.get?_delete, if_neg hww, he]
  have hset : ((s.spared (s.others now key)).1.set key (newEntry now value ttl)).get? w =
      some e := by
    rw [OrderedMap.get?_set_new (not_mem_keys_spared not_mem_keys_others), if_neg hne, hspared]
  rw [CacheStore.liveValue, live_set_others hc, get?_live_eq_some.2 ⟨hset, hx⟩]
  simp

/-- If only the first store gives `w` up, only the second holds it afterwards. -/
theorem Matched.parts (h : Matched now s s') (hfull : s.maxEntries ≤ (s.others now key).size)
    {w : JsString} (hw : s.victim (s.others now key) = some w)
    (hw' : s'.victim (s'.others now key) ≠ some w) (value : JsString) (ttl : Option ν) :
    (s.set now key value ttl).liveValue now w ≠ (s'.set now key value ttl).liveValue now w := by
  have hmem : w ∈ (s'.others now key).keys := (h.content.delete key).mem_keys.1 (victim_mem hw)
  rw [liveValue_set_victim h.left hfull hw]
  exact (liveValue_set_other h.right hmem hw' value ttl).symm

theorem Matched.parts_of_ranking (h : Matched now s s') (hr : ¬ SameRanking now key s s')
    (value : JsString) (ttl : Option ν) : ∃ k, (s.set now key value ttl).liveValue now k ≠
      (s'.set now key value ttl).liveValue now k := by
  rw [sameRanking_iff, Classical.not_imp] at hr
  obtain ⟨hfull, hne⟩ := hr
  rcases hw : s.victim (s.others now key) with _ | w
  · rcases hw' : s'.victim (s'.others now key) with _ | w
    · exact absurd (hw.trans hw'.symm) hne
    · have hfull' : s'.maxEntries ≤ (s'.others now key).size := by
        have hmax : s.maxEntries = s'.maxEntries := congrArg CacheStoreOptions.maxEntries h.options
        have hsize : (s.others now key).size = (s'.others now key).size :=
          (h.content.delete key).size
        rwa [← hmax, ← hsize]
      exact ⟨w, (h.symm.parts hfull' hw' (by rw [hw]; simp) value ttl).symm⟩
  · exact ⟨w, h.parts hfull hw (fun hw' => hne (hw.trans hw'.symm)) value ttl⟩

/-! ## Runs -/

variable {p p₀ p' : Mirror ν} {log es : List (AppResponse ν)}

structure Mirroring (p : Mirror ν) : Prop where
  stores : Matched p.clock p.primary.store p.replica.store
  role : p.primary.leadership.role = .primary
  replicaUrl : p.primary.leadership.replicaUrls.count p.replicaUrl = 1

theorem capped_of_run {opts : CacheStoreOptions} {t₀ : ν} {log : List (StoreEvent ν)}
    {ts : TimedStore ν} (h : StoreRun opts t₀ log ts) : Capped ts.store := by
  refine h.invariant (I := fun _ ts => Capped ts.store) (capped_new opts) ?_
  intro log ts a ts' es hc _ hs
  simp only [storeStep, Option.some.injEq, Prod.mk.injEq] at hs
  obtain ⟨rfl, -⟩ := hs
  exact capped_apply hc a.1 a.2

theorem Mirrored.mirroring (h : Mirrored p) : Mirroring p := by
  obtain ⟨opts, t₀, log, hrun⟩ := h.used
  have hc : Capped p.primary.store := capped_of_run hrun
  have hmax : p.replica.store.maxEntries = p.primary.store.maxEntries :=
    congrArg CacheStoreOptions.maxEntries h.options
  refine ⟨⟨hc, ?_, h.options.symm, ?_⟩, h.role, h.replicaUrl⟩
  · rcases hc with hc | hc
    · refine .inl ?_
      rwa [CacheStore.size, h.entries, hmax]
    · exact .inr fun m => (victim_congr h.options m).trans (hc m)
  · rw [h.entries]
    exact .refl _

/-- A restore that loads nothing changes nothing. -/
theorem postRestore_of_nothing {app : App ν} {body : Option (Json ν)}
    (h : app.restoredEntries now body = []) : (app.postRestore now body).1 = app := by
  unfold App.restoredEntries at h
  unfold App.postRestore
  split_ifs
  · rfl
  · split
    · rename_i keys hkeys
      rw [hkeys] at h
      rcases hv : App.validateAll app.maxKeyLength now 0 keys with message | validated
      · rfl
      · obtain rfl : validated = [] := by simpa [hv, Except.toOption] using h
        rfl
    · rfl

namespace Mirroring

theorem request (h : Mirroring p) {r : WriteRequest ν} (hle : p.clock ≤ now)
    (hc : Concordant p (.request now r)) : Mirroring { p with
      clock := now
      primary := (p.primary.write now r).1
      replica := (sentTo p.replicaUrl (p.primary.write now r).2.2).foldl
        (fun app op => app.postReplicate now op) p.replica } := by
  have hstores := h.stores.later hle
  have hspec := writeSpec now p.primary r
  generalize p.primary.write now r = answer at hspec
  cases hspec with
  | refused a => exact ⟨hstores, h.role, h.replicaUrl⟩
  | acknowledged op hop a =>
    simp only [sentTo_forwardToReplicas, h.replicaUrl, List.replicate_one, List.foldl_cons,
      List.foldl_nil]
    refine ⟨hstores.apply fun key value ttl hset => ?_, h.role, h.replicaUrl⟩
    cases hop with
    | set he =>
      rw [ReplicationOp.set.injEq] at hset
      exact hset.1 ▸ hc _ (by rw [he]; rfl)
    | delete | invalidate | flush => simp at hset

theorem step {a : MirrorAction ν} (h : Mirroring p) (hle : ClockForward p a)
    (hc : Concordant p a) (hs : mirrorStep p a = some (p', es)) : Mirroring p' := by
  cases a with
  | request now r =>
    simp only [mirrorStep, Option.some.injEq, Prod.mk.injEq] at hs
    obtain ⟨rfl, -⟩ := hs
    exact h.request hle hc
  | restore now body =>
    simp only [mirrorStep, postRestore_of_nothing hc, Option.some.injEq, Prod.mk.injEq] at hs
    obtain ⟨rfl, -⟩ := hs
    exact ⟨h.stores.later hle, h.role, h.replicaUrl⟩
  | read now op =>
    simp only [mirrorStep] at hs
    split_ifs at hs with hop
    simp only [Option.some.injEq, Prod.mk.injEq] at hs
    obtain ⟨rfl, -⟩ := hs
    exact ⟨(h.stores.later hle).quiet op (mostRecent_observation hop), h.role, h.replicaUrl⟩
  | sweepPrimary now =>
    simp only [mirrorStep, Option.some.injEq, Prod.mk.injEq] at hs
    obtain ⟨rfl, -⟩ := hs
    exact ⟨(h.stores.later hle).quiet .sweep fun _ => rfl, h.role, h.replicaUrl⟩
  | sweepReplica now =>
    simp only [mirrorStep, Option.some.injEq, Prod.mk.injEq] at hs
    obtain ⟨rfl, -⟩ := hs
    exact ⟨((h.stores.later hle).symm.quiet .sweep fun _ => rfl).symm, h.role,
      h.replicaUrl⟩

/-- A set that finds the rankings different leaves a key that only one of the two stores holds. -/
theorem parts (h : Mirroring p) {body : Option (Json ν)} (hle : p.clock ≤ now)
    (hc : ¬ Concordant p (.request now (.set body)))
    (hs : mirrorStep p (.request now (.set body)) = some (p', es)) :
    ∃ k, p'.primary.store.liveValue now k ≠ p'.replica.store.liveValue now k := by
  simp only [Concordant] at hc
  rcases he : validateEntry p.primary.maxKeyLength now (some (orEmpty body)) with message | e
  · simp [he, Except.toOption] at hc
  have hrank : ¬ SameRanking now e.key p.primary.store p.replica.store := by
    simpa [he, Except.toOption] using hc
  have hrole : p.primary.leadership.role ≠ .replica := by rw [h.role]; decide
  simp only [mirrorStep, App.write, App.postSet, if_neg hrole, he, sentTo_forwardToReplicas,
    h.replicaUrl, List.replicate_one, List.foldl_cons, List.foldl_nil, Option.some.injEq,
    Prod.mk.injEq] at hs
  obtain ⟨rfl, -⟩ := hs
  exact (h.stores.later hle).parts_of_ranking hrank e.value e.ttl

end Mirroring

/-- In every run whose writes find the two stores ranking the same entry lowest, the live keys of
the primary and their values are those of the replica; and the first write that does not leaves
them different. -/
theorem replica_mirrors (h₀ : Mirrored p₀)
    (h : Run mirrorStep (fun p a => ClockForward p a ∧ Concordant p a) p₀ log p) :
    (∀ now, p.clock ≤ now →
      ∀ k, p.primary.store.liveValue now k = p.replica.store.liveValue now k) ∧
    ∀ now body p' es, p.clock ≤ now → ¬ Concordant p (.request now (.set body)) →
      mirrorStep p (.request now (.set body)) = some (p', es) →
      ∃ k, p'.primary.store.liveValue now k ≠ p'.replica.store.liveValue now k := by
  have hinv : Mirroring p := h.invariant (I := fun _ p => Mirroring p) h₀.mirroring
    fun hm hP hs => hm.step hP.1 hP.2 hs
  exact ⟨fun now hle k => (hinv.stores.later hle).content.liveValue k,
    fun now body p' es hle hc hs => hinv.parts hle hc hs⟩

theorem mirrored_freshMirror (maxEntries : ℕ) : Mirrored (freshMirror maxEntries) where
  used := ⟨_, 0, [], .start⟩
  entries := rfl
  options := rfl
  role := rfl
  replicaUrl := paired_freshPair.replicaUrl

/-- Both stores give the first of three keys up. -/
theorem replica_mirrors_evicting : ∃ (log : List (AppResponse ℚ)) (p : Mirror ℚ),
    Run mirrorStep (fun p a => ClockForward p a ∧ Concordant p a) (freshMirror 2) log p ∧
    p.primary.store.liveValue 0 (js "a") = p.replica.store.liveValue 0 (js "a") ∧
    p.primary.store.liveValue 0 (js "a") = none ∧
    p.primary.store.liveValue 0 (js "b") = some (js "2") := by
  have hrun : ∃ (log : List (AppResponse ℚ)) (p : Mirror ℚ),
      Run mirrorStep (fun p a => ClockForward p a ∧ Concordant p a) (freshMirror 2) log p ∧
      p.clock ≤ 0 ∧ p.primary.store.liveValue 0 (js "a") = none ∧
      p.primary.store.liveValue 0 (js "b") = some (js "2") :=
    exists_run_of_exec [
      .request 0 (setRequest (js "a") (js "1")),
      .request 0 (setRequest (js "b") (js "2")),
      .read 0 (.getWithTtl (js "b")),
      .request 0 (setRequest (js "c") (js "3"))] (by decide +kernel)
  obtain ⟨log, p, h, hc, ha, hb⟩ := hrun
  exact ⟨log, p, h, (replica_mirrors (mirrored_freshMirror 2) h).1 0 hc (js "a"), ha, hb⟩

/-- The primary has answered a read of `a`, so that it gives `b` up for `c` and the replica `a`. -/
theorem replica_does_not_mirror : Mirrored (freshMirror 2) ∧
    ∃ (log : List (AppResponse ℚ)) (p : Mirror ℚ),
      Run mirrorStep ClockForward (freshMirror 2) log p ∧
      p.primary.store.liveValue p.clock (js "a") = some (js "1") ∧
      p.replica.store.liveValue p.clock (js "a") = none :=
  ⟨mirrored_freshMirror 2, exists_run_of_exec [
    .request 0 (setRequest (js "a") (js "1")),
    .request 0 (setRequest (js "b") (js "2")),
    .read 0 (.getWithTtl (js "a")),
    .request 0 (setRequest (js "c") (js "3"))] (by decide +kernel)⟩

end InkCache
