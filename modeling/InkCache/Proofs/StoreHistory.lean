import InkCache.StoreHistory
import InkCache.Proofs.Cache

/-!
# The store refines a map with deadlines

`KeyStep` says what one operation does to one key: nothing but its hit count changes; an expired
entry is dropped; or an event on the key is reported, and the key is then held exactly if that
event is a write. So the store holds a key only under its most recent event, and drops it before
its deadline only with one (`tracks`).
-/

namespace InkCache

open Lib

variable {ν : Type} {log es : List (StoreEvent ν)} {key k : JsString}

/-! ## The most recent event -/

theorem mostRecent_append : mostRecent k (log ++ es) = (mostRecent k es).or (mostRecent k log) := by
  rw [mostRecent, List.filter_append, List.getLast?_append]
  rfl

theorem mostRecent_of_concerns {e : StoreEvent ν} (h : e.concerns k = true) :
    mostRecent k (log ++ [e]) = some e := by
  simp [mostRecent, List.filter_append, h]

theorem mostRecent_of_not_concerns {e : StoreEvent ν} (h : e.concerns k = false) :
    mostRecent k (log ++ [e]) = mostRecent k log := by
  simp [mostRecent, List.filter_append, h]

theorem mostRecent_evicted (out : List JsString) :
    mostRecent k (out.map StoreEvent.evicted : List (StoreEvent ν)) =
      if k ∈ out then some (.evicted k) else none := by
  induction out using List.reverseRecOn with
  | nil => simp [mostRecent]
  | append_singleton out w ih =>
    rw [List.map_append, List.map_singleton]
    by_cases hw : w = k
    · rw [mostRecent_of_concerns (by simp [StoreEvent.concerns, hw])]
      simp [hw]
    · rw [mostRecent_of_not_concerns (by simp [StoreEvent.concerns, hw]), ih]
      simp [Ne.symm hw]

/-- The most recent event, if it was acknowledged, is the most recent of what was. -/
theorem mostRecent_acknowledged {x : StoreEvent ν}
    (h : mostRecent k log = some x) (hx : x.isAcknowledged) :
    mostRecent k (log.filter (·.isAcknowledged)) = some x := by
  induction log using List.reverseRecOn with
  | nil => simp [mostRecent] at h
  | append_singleton log e ih =>
    rw [List.filter_append, List.filter_singleton, Bool.cond_eq_ite]
    rcases he : e.concerns k
    · rw [mostRecent_of_not_concerns he] at h
      split_ifs
      · rw [mostRecent_of_not_concerns he]
        exact ih h
      · rw [List.append_nil]
        exact ih h
    · rw [mostRecent_of_concerns he, Option.some.injEq] at h
      subst h
      rw [if_pos hx, mostRecent_of_concerns he]

/-- What was acknowledged last of a key is its most recent event, unless it was given up since. -/
theorem mostRecent_or_evicted {x : StoreEvent ν}
    (h : mostRecent k (log.filter (·.isAcknowledged)) = some x) :
    mostRecent k log = some x ∨ mostRecent k log = some (.evicted k) := by
  induction log using List.reverseRecOn with
  | nil => simp [mostRecent] at h
  | append_singleton log e ih =>
    rw [List.filter_append, List.filter_singleton, Bool.cond_eq_ite] at h
    rcases he : e.concerns k
    · rw [mostRecent_of_not_concerns he]
      refine ih ?_
      split_ifs at h
      · rwa [mostRecent_of_not_concerns he] at h
      · rwa [List.append_nil] at h
    · rw [mostRecent_of_concerns he]
      split_ifs at h with hack
      · rw [mostRecent_of_concerns he] at h
        exact .inl h
      · right
        cases e with
        | read key => simp [StoreEvent.concerns] at he
        | evicted key =>
          obtain rfl : key = k := by simpa [StoreEvent.concerns] using he
          rfl
        | set | delete | deleteByPrefix | clear => exact absurd rfl hack

/-! ## One step -/

/-- The part of an entry that a read does not change. -/
def CacheEntry.content (e : CacheEntry ν) : JsString × Option ν := (e.value, e.expiresAt)

theorem content_eq_some {o : Option (CacheEntry ν)} {v : JsString} {d : Option ν} :
    o.map CacheEntry.content = some (v, d) ↔ ∃ e, o = some e ∧ e.value = v ∧ e.expiresAt = d := by
  simp [CacheEntry.content]

variable [JsNumber ν] {now : ν} {s : CacheStore ν}

/-- What a step reporting `es` does to `k`. -/
inductive KeyStep (now : ν) (k : JsString) (m m' : Entries ν) (es : List (StoreEvent ν)) : Prop
  | kept (hes : mostRecent k es = none)
      (hm : (m'.get? k).map CacheEntry.content = (m.get? k).map CacheEntry.content)
  | expired (hes : mostRecent k es = none) (hm' : m'.get? k = none) {e : CacheEntry ν}
      (hm : m.get? k = some e) (hx : e.isExpired now = true)
  | written {v : JsString} {d : Option ν} (hes : mostRecent k es = some (.set k v d))
      (hm : (m'.get? k).map CacheEntry.content = some (v, d))
  | removed {e : StoreEvent ν} (hes : mostRecent k es = some e) (hset : ¬ ∃ k' v d, e = .set k' v d)
      (hm' : m'.get? k = none)

theorem KeyStep.refl {m : Entries ν} : KeyStep now k m m [] := .kept rfl rfl

/-- A step that only drops expired entries. -/
theorem KeyStep.of_live {m : Entries ν} : KeyStep now k m (live now m) [] := by
  rcases lookup_cases now m k with h | ⟨e, h, hx⟩ | ⟨e, h, hx⟩
  · exact .kept rfl (by rw [get?_live_none h, h])
  · exact .expired rfl (get?_live_expired h hx) h hx
  · exact .kept rfl (by rw [get?_live_eq_some.2 ⟨h, hx⟩, h])

/-- A step that deletes one expired entry. -/
theorem KeyStep.of_expired {m : Entries ν} {e : CacheEntry ν} (h : m.get? key = some e)
    (hx : e.isExpired now = true) : KeyStep now k m (m.delete key) [] := by
  by_cases hk : k = key
  · subst hk
    exact .expired rfl (by rw [OrderedMap.get?_delete, if_pos rfl]) h hx
  · exact .kept rfl (by rw [OrderedMap.get?_delete, if_neg hk])

theorem set_evicted {value : JsString} {ttl : Option ν} {kept : Entries ν} {out : List JsString}
    (h : s.set now key value ttl =
      { s with
        entries := kept.set key (newEntry now value ttl)
        evictionCount := s.evictionCount + out.length
        evicted := s.evicted ++ out }) :
    newlyEvicted s (s.set now key value ttl) = out := by
  rw [newlyEvicted, h, List.drop_left]

theorem keyStep_set (now : ν) (key value : JsString) (ttl : Option ν) (s : CacheStore ν) :
    KeyStep now k s.entries (s.set now key value ttl).entries
      ((StoreOp.set key value ttl).events now s) := by
  obtain ⟨kept, out, hout, hset⟩ := set_spec now key value ttl s
  simp only [StoreOp.events, set_evicted hset]
  rw [hset]
  by_cases hk : k = key
  · subst hk
    refine .written (mostRecent_of_concerns (by simp [StoreEvent.concerns])) ?_
    rw [OrderedMap.get?_set_new hout.not_mem, if_pos rfl]
    rfl
  have hes : mostRecent k (out.map StoreEvent.evicted ++ [.set key value (deadline now ttl)])
      = if k ∈ out then some (.evicted k) else none := by
    rw [mostRecent_of_not_concerns (by simp [StoreEvent.concerns, Ne.symm hk]), mostRecent_evicted]
  have hm : (kept.set key (newEntry now value ttl)).get? k = kept.get? k := by
    rw [OrderedMap.get?_set_new hout.not_mem, if_neg hk]
  have hd : (s.entries.delete key).get? k = s.entries.get? k := by
    rw [OrderedMap.get?_delete, if_neg hk]
  by_cases hko : k ∈ out
  · refine .removed (hes.trans (if_pos hko)) (by simp) (hm.trans ?_)
    rcases hg : kept.get? k with _ | e
    · rfl
    · exact absurd hko (hout.get?_of_kept hg).2.1
  rw [if_neg hko] at hes
  rcases hg : s.entries.get? k with _ | e
  · refine .kept hes ?_
    rcases hg' : kept.get? k with _ | e
    · simp only [hm, hg', hg]
    · have := (hout.get?_of_kept hg').2.2
      rw [hg] at this
      simp at this
  · rcases hout.get?_kept (hd.trans hg) with h | ⟨h, h' | hx⟩
    · exact .kept hes (by simp only [hm, h, hg])
    · exact absurd h' hko
    · exact .expired hes (hm.trans h) hg hx

theorem keyStep_touch : KeyStep now k s.entries (s.touch now key).1.entries
    (if (s.touch now key).2.isSome then [.read key] else []) := by
  rcases lookup_cases now s.entries key with h | ⟨e, h, hx⟩ | ⟨e, h, hx⟩
  · rw [touch_absent h]
    exact .refl
  · rw [touch_expired h hx]
    exact .of_expired h hx
  · rw [touch_live h hx]
    refine .kept rfl ?_
    rw [OrderedMap.get?_set_new OrderedMap.not_mem_keys_delete, OrderedMap.get?_delete]
    split_ifs with hk
    · rw [hk, h]
      rfl
    · rfl

theorem keyStep_peek : KeyStep now k s.entries (s.peek now key).1.entries [] := by
  rcases lookup_cases now s.entries key with h | ⟨e, h, hx⟩ | ⟨e, h, hx⟩
  · simp only [peek_eq, h, Option.any_none, Bool.false_eq_true, if_false]
    exact .refl
  · simp only [peek_eq, h, Option.any_some, hx, if_true]
    exact .of_expired h hx
  · simp only [peek_eq, h, Option.any_some, hx, Bool.false_eq_true, if_false]
    exact .refl

theorem keyStep_deletion {m : Entries ν} {p : JsString → Bool} {e : StoreEvent ν}
    (hp : ∀ k, e.concerns k = p k) (hset : ¬ ∃ k' v d, e = .set k' v d) :
    KeyStep now k m (m.filter fun x => !p x.1) [e] := by
  rcases hk : p k
  · refine .kept (by simp [mostRecent, hp, hk]) ?_
    simp only [OrderedMap.get?_filter, hk]
    cases m.get? k <;> rfl
  · refine .removed (by simp [mostRecent, hp, hk]) hset ?_
    simp only [OrderedMap.get?_filter, hk]
    cases m.get? k <;> rfl

theorem keyStep (now : ν) (s : CacheStore ν) (k : JsString) (op : StoreOp ν) :
    KeyStep now k s.entries (op.apply now s).entries (op.events now s) := by
  cases op with
  | set key value t => exact keyStep_set now key value t s
  | get key =>
    simpa only [StoreOp.apply, StoreOp.events, CacheStore.get, Option.isSome_map]
      using keyStep_touch
  | getWithTtl key =>
    simpa only [StoreOp.apply, StoreOp.events, CacheStore.getWithTtl, Option.isSome_map]
      using keyStep_touch
  | delete key =>
    have h : KeyStep now k s.entries (s.entries.filter fun x => !decide (key = x.1))
        [.delete key] := keyStep_deletion (p := fun k => key = k) (fun _ => rfl) (by simp)
    simpa only [StoreOp.apply, StoreOp.events, CacheStore.delete, OrderedMap.delete,
      eq_comm (a := key), ne_eq, decide_not] using h
  | deleteByPrefix pre =>
    rw [StoreOp.apply, deleteByPrefix_fst]
    exact keyStep_deletion (fun _ => rfl) (by simp)
  | has key => exact keyStep_peek
  | ttl key => exact keyStep_peek
  | accessCount key => exact .refl
  | keys => rw [StoreOp.apply, CacheStore.keys, listLive_eq]; exact .of_live
  | detailedKeys => rw [StoreOp.apply, CacheStore.detailedKeys, listLive_eq]; exact .of_live
  | exportEntries => rw [StoreOp.apply, CacheStore.exportEntries, listLive_eq]; exact .of_live
  | sweep => rw [StoreOp.apply, sweep_fst]; exact .of_live
  | clear => exact .removed (e := .clear) rfl (by simp) rfl

/-! ## The refinement -/

/-- A held key has the content of its most recent event; a key whose most recent event is a write
is not held only once its deadline has passed. -/
def Tracks (log : List (StoreEvent ν)) (ts : TimedStore ν) : Prop :=
  ∀ k, (∀ e, ts.store.entries.get? k = some e →
      mostRecent k log = some (.set k e.value e.expiresAt)) ∧
    (ts.store.entries.get? k = none → ∀ k' v d, mostRecent k log = some (.set k' v d) →
      ∃ t, d = some t ∧ t ≤ ts.clock)

theorem isExpired_iff {e : CacheEntry ν} :
    e.isExpired now = true ↔ ∃ t, e.expiresAt = some t ∧ t ≤ now := by
  unfold CacheEntry.isExpired
  rcases e.expiresAt with _ | t <;> simp

theorem tracks_step {ts ts' : TimedStore ν} {a : ν × StoreOp ν} (h : Tracks log ts)
    (hc : ClockOk ts a) (hs : storeStep ts a = some (ts', es)) : Tracks (log ++ es) ts' := by
  obtain ⟨now, op⟩ := a
  simp only [storeStep, Option.some.injEq, Prod.mk.injEq] at hs
  obtain ⟨rfl, rfl⟩ := hs
  intro k
  obtain ⟨hsome, hnone⟩ := h k
  simp only [mostRecent_append]
  cases keyStep now ts.store k op with
  | kept hes hm =>
    rw [hes, Option.none_or]
    refine ⟨fun e' he' => ?_, fun hg' k' v d hr => ?_⟩
    · rw [he', Option.map_some, eq_comm] at hm
      obtain ⟨e, he, hv, hd⟩ := content_eq_some.1 hm
      rw [hsome e he, hv, hd]
    · rw [hg', Option.map_none, eq_comm, Option.map_eq_none_iff] at hm
      obtain ⟨t, ht, hle⟩ := hnone hm k' v d hr
      exact ⟨t, ht, hle.trans hc⟩
  | expired hes hm' hm hx =>
    rw [hes, Option.none_or, hm']
    refine ⟨fun e he => by simp at he, fun _ k' v d hr => ?_⟩
    simp only [hsome _ hm, Option.some.injEq, StoreEvent.set.injEq] at hr
    exact hr.2.2 ▸ isExpired_iff.1 hx
  | written hes hm =>
    obtain ⟨e, he, rfl, rfl⟩ := content_eq_some.1 hm
    rw [he, hes, Option.some_or]
    refine ⟨fun e' he' => ?_, fun hn => by simp at hn⟩
    rw [Option.some.inj he']
  | removed hes hset hm' =>
    rw [hes, Option.some_or, hm']
    refine ⟨fun e he => by simp at he, fun _ k' v d hr => ?_⟩
    exact absurd ⟨k', v, d, Option.some.inj hr⟩ hset

theorem tracks {opts : CacheStoreOptions} {t₀ : ν} {ts : TimedStore ν}
    (h : StoreRun opts t₀ log ts) : Tracks log ts :=
  h.invariant (I := Tracks) (fun k => by simp [CacheStore.new, mostRecent]) tracks_step

theorem expected_eq {ts : TimedStore ν} (h : Tracks log ts) (hnow : ts.clock ≤ now)
    (k : JsString) :
    expected now k log = ((live now ts.store.entries).get? k).map CacheEntry.value := by
  obtain ⟨hsome, hnone⟩ := h k
  rcases lookup_cases now ts.store.entries k with hg | ⟨e, hg, hx⟩ | ⟨e, hg, hx⟩
  · rw [get?_live_none hg, Option.map_none, expected]
    split
    · rename_i hr
      obtain ⟨t, ht, -⟩ := hnone hg _ _ _ hr
      simp at ht
    · rename_i hr
      obtain ⟨t, ht, hle⟩ := hnone hg _ _ _ hr
      rw [Option.some.inj ht]
      exact if_neg (not_lt.2 (hle.trans hnow))
    · rfl
  · obtain ⟨t, ht, hle⟩ := isExpired_iff.1 hx
    rw [get?_live_expired hg hx, expected, hsome e hg, ht]
    exact if_neg (not_lt.2 hle)
  · rw [get?_live_eq_some.2 ⟨hg, hx⟩, expected, hsome e hg]
    rcases hd : e.expiresAt with _ | t
    · rfl
    · exact if_pos (deadline_live.1 hx t hd)

theorem touch_snd_value : (s.touch now key).2.map CacheEntry.value =
    ((live now s.entries).get? key).map CacheEntry.value := by
  rcases lookup_cases now s.entries key with h | ⟨e, h, hx⟩ | ⟨e, h, hx⟩
  · rw [touch_absent h, get?_live_none h]
  · rw [touch_expired h hx, get?_live_expired h hx]
  · rw [touch_live h hx, get?_live_eq_some.2 ⟨h, hx⟩]
    rfl

/-- After any history, a read of `k` finds what the log says it must; no key is held twice; and
an entry is gone after an operation only if the operation reports an event on its key or its
deadline has passed. -/
theorem store_refines_ttl_map (opts : CacheStoreOptions) (t₀ : ν) {log : List (StoreEvent ν)}
    {ts : TimedStore ν} (h : StoreRun opts t₀ log ts) :
    (∀ now k, ts.clock ≤ now → (ts.store.get now k).2 = expected now k log ∧
      ((ts.store.getWithTtl now k).2.map ValueWithTtl.value) = expected now k log) ∧
    ts.store.entries.keys.Nodup ∧
    ∀ (now : ν) (op : StoreOp ν) (k : JsString) (e : CacheEntry ν), ts.clock ≤ now →
      ts.store.entries.get? k = some e →
      (op.apply now ts.store).entries.get? k = none →
        (∃ ev ∈ op.events now ts.store, ev.concerns k = true) ∨ e.isExpired now = true := by
  refine ⟨fun now k hnow => ⟨?_, ?_⟩, ts.store.entries.keys_nodup, fun now op k e _ he hgone => ?_⟩
  · rw [expected_eq (tracks h) hnow, ← touch_snd_value]
    rfl
  · rw [expected_eq (tracks h) hnow, ← touch_snd_value, CacheStore.getWithTtl, Option.map_map]
    rfl
  · cases keyStep now ts.store k op with
    | kept hes hm => simp [he, hgone] at hm
    | expired hes hm' hm hx =>
      rw [he, Option.some.injEq] at hm
      exact .inr (hm ▸ hx)
    | written hes hm => simp [hgone] at hm
    | removed hes hset hm' =>
      have := List.mem_of_getLast? hes
      exact .inl ⟨_, (List.mem_filter.1 this).1, (List.mem_filter.1 this).2⟩

/-- A store of one entry that has given `a` up for `b`, which expires five seconds later. -/
theorem store_refines_ttl_map_evicting : ∃ (log : List (StoreEvent ℚ)) (ts : TimedStore ℚ),
    (ts.store.get 3000 (js "b")).2 = some (js "2") ∧
    (ts.store.get 3000 (js "a")).2 = none ∧ (ts.store.get 6000 (js "b")).2 = none ∧
    StoreRun { maxEntries := 1 } 0 log ts := by
  have hrun : ∃ (log : List (StoreEvent ℚ)) (ts : TimedStore ℚ),
      StoreRun { maxEntries := 1 } 0 log ts ∧ ts.clock ≤ 1000 ∧
        expected 3000 (js "b") log = some (js "2") ∧ expected 3000 (js "a") log = none ∧
        expected 6000 (js "b") log = none :=
    exists_run_of_exec [(0, .set (js "a") (js "1") none),
      (1000, .set (js "b") (js "2") (some 5))] (by decide +kernel)
  obtain ⟨log, ts, h, hc, hb, ha, hx⟩ := hrun
  have hget := (store_refines_ttl_map _ _ h).1
  refine ⟨log, ts, ?_, ?_, ?_, h⟩
  · rw [(hget 3000 (js "b") (hc.trans (by norm_num))).1, hb]
  · rw [(hget 3000 (js "a") (hc.trans (by norm_num))).1, ha]
  · rw [(hget 6000 (js "b") (hc.trans (by norm_num))).1, hx]

end InkCache
