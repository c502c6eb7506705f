import InkCache.TwinStores
import InkCache.Proofs.Eviction

/-!
# Only the live entries matter

An expired entry is in the store or not, depending on what was called since it expired. `purged` is
the store without any. As long as the store is within its capacity (`Capped`), `set` gives a key up
exactly if the live entries fill the capacity (`purged_set`), so every operation does to the purged
store what it does to the store (`purged_apply`), and every read answers the same (`result_purged`).
-/

namespace InkCache

open Lib

variable {ν : Type} {s : CacheStore ν} {key k : JsString} {m m' : Entries ν}

/-! ## Within the capacity -/

/-- The store is within its capacity, or its policy never gives a key up; a capacity of zero leaves
room for one entry. -/
def Capped (s : CacheStore ν) : Prop :=
  s.size ≤ max s.maxEntries 1 ∨ ∀ m : Entries ν, s.victim m = none

theorem victim_empty (s : CacheStore ν) (hm : m.entries = []) : s.victim m = none := by
  simp [CacheStore.victim, hm, CacheStore.leastAccessed]

/-- A policy that finds no victim in some entries finds none anywhere. -/
theorem victim_none (hm : m.entries ≠ []) (h : s.victim m = none) :
    ∀ m' : Entries ν, s.victim m' = none := by
  have hw : s.window m = 0 := by
    by_contra hw
    obtain ⟨-, e, -, -, hv, -⟩ := victim_spec (s := s) hm (by omega)
    rw [h] at hv
    simp at hv
  intro m'
  unfold CacheStore.window at hw
  rcases hp : s.policy <;> simp only [hp] at hw
  · omega
  · simp [CacheStore.victim, CacheStore.window, hp, hw, CacheStore.leastAccessed]
  · exact absurd (List.length_eq_zero_iff.1 hw) hm

theorem capped_new (opts : CacheStoreOptions) : Capped (CacheStore.new opts : CacheStore ν) :=
  .inl (Nat.zero_le _)

/-- What `set key` keeps of the live entries of the other keys, and what it gives up. -/
def CacheStore.spared (s : CacheStore ν) (others : Entries ν) : Entries ν × List JsString :=
  if others.size < s.maxEntries then (others, [])
  else
    match s.victim others with
    | none => (others, [])
    | some w => (others.delete w, [w])

theorem spared_of_none {others : Entries ν} (h : s.victim others = none) :
    s.spared others = (others, []) := by
  unfold CacheStore.spared
  split_ifs
  · rfl
  · rw [h]

theorem not_mem_keys_spared {others : Entries ν} (h : key ∉ others.keys) :
    key ∉ (s.spared others).1.keys := by
  unfold CacheStore.spared
  split_ifs
  · exact h
  · split
    · exact h
    · rw [OrderedMap.keys_delete, List.mem_filter]
      exact fun hk => h hk.1

theorem spared_of_some {others : Entries ν} {w : JsString} (hfull : s.maxEntries ≤ others.size)
    (h : s.victim others = some w) : s.spared others = (others.delete w, [w]) := by
  unfold CacheStore.spared
  rw [if_neg hfull.not_gt, h]

/-! ## The live entries -/

variable [JsNumber ν] {now now' : ν}

theorem isExpired_mono {e : CacheEntry ν} (h : now ≤ now') (hx : e.isExpired now = true) :
    e.isExpired now' = true := by
  unfold CacheEntry.isExpired at hx ⊢
  rcases hd : e.expiresAt with _ | d <;> rw [hd] at hx
  · simp at hx
  · exact decide_eq_true ((of_decide_eq_true hx).trans h)

/-- What has expired stays expired. -/
theorem live_of_le (h : now ≤ now') (m : Entries ν) : live now' (live now m) = live now' m := by
  refine OrderedMap.ext ?_
  simp only [live, OrderedMap.entries_filter, List.filter_filter]
  refine List.filter_congr fun e _ => ?_
  rcases hx : e.2.isExpired now
  · simp
  · simp [isExpired_mono h hx]

@[simp] theorem live_live (m : Entries ν) : live now (live now m) = live now m :=
  live_of_le le_rfl m

theorem live_filter (p : JsString × CacheEntry ν → Bool) (m : Entries ν) :
    live now (m.filter p) = (live now m).filter p := by
  refine OrderedMap.ext ?_
  simp only [live, OrderedMap.entries_filter, List.filter_filter, Bool.and_comm]

theorem live_delete (k : JsString) (m : Entries ν) :
    live now (m.delete k) = (live now m).delete k := live_filter _ m

theorem allLive_live (m : Entries ν) : AllLive now (live now m) := fun e he => by
  simpa using (OrderedMap.mem_filter.1 he).2

theorem live_delete_expired {e : CacheEntry ν} (h : m.get? k = some e)
    (hx : e.isExpired now = true) : live now (m.delete k) = live now m := by
  rw [live_delete]
  refine OrderedMap.delete_of_not_mem ?_
  rw [← OrderedMap.get?_eq_none]
  exact get?_live_expired h hx

/-- The new entry is at the back, unless it has expired at once. -/
theorem entries_live_set (h : k ∉ m.keys) (e : CacheEntry ν) :
    (live now (m.set k e)).entries =
      (live now m).entries ++ if e.isExpired now then [] else [(k, e)] := by
  simp only [live, OrderedMap.entries_filter, OrderedMap.entries_set_new h, List.filter_append,
    List.filter_cons, List.filter_nil, Bool.not_eq_true']
  rcases e.isExpired now <;> rfl

theorem not_mem_keys_live (h : k ∉ m.keys) : k ∉ (live now m).keys := by
  rw [← OrderedMap.get?_eq_none] at h ⊢
  exact get?_live_none h

theorem live_set_congr (h : k ∉ m.keys) (h' : k ∉ m'.keys) (hl : live now m = live now m')
    (e : CacheEntry ν) : live now (m.set k e) = live now (m'.set k e) :=
  OrderedMap.ext (by rw [entries_live_set h, entries_live_set h', hl])

theorem live_set_live (h : k ∉ m.keys) (e : CacheEntry ν) :
    live now ((live now m).set k e) = live now (m.set k e) :=
  live_set_congr (not_mem_keys_live h) h (live_live m) e

theorem size_live_le (m : Entries ν) : (live now m).size ≤ m.size := List.length_filter_le _ _

/-! ## The purged store -/

/-- The store without its expired entries. -/
def CacheStore.purged (now : ν) (s : CacheStore ν) : CacheStore ν :=
  { s with entries := live now s.entries }

theorem purged_purged (s : CacheStore ν) : (s.purged now).purged now = s.purged now := by
  simp [CacheStore.purged]

theorem purged_of_le (h : now ≤ now') (s : CacheStore ν) :
    (s.purged now).purged now' = s.purged now' := by
  simp [CacheStore.purged, live_of_le h]

theorem Capped.purged (h : Capped s) : Capped (s.purged now) := by
  rcases h with h | h
  · exact .inl ((size_live_le s.entries).trans h)
  · exact .inr h

/-- Of the entries that `set` keeps, the live ones are those that are spared. -/
theorem SetOutcome.spared {kept : Entries ν} {out : List JsString} (hc : Capped s)
    (h : SetOutcome now key s kept out) :
    s.spared ((live now s.entries).delete key) = (live now kept, out) := by
  rw [← live_delete]
  cases h with
  | room hroom =>
    unfold CacheStore.spared
    rw [if_pos ((size_live_le _).trans_lt hroom)]
  | reclaimed hfull hdead =>
    rw [live_live]
    have hlt := size_live_lt hdead
    rcases hc with hc | hc
    · by_cases hroom : (live now (s.entries.delete key)).size < s.maxEntries
      · unfold CacheStore.spared
        rw [if_pos hroom]
      · -- only where the capacity is zero, so that no entry is left
        have hle : (s.entries.delete key).size ≤ s.entries.size := List.length_filter_le _ _
        unfold CacheStore.size at hc
        have hzero : (live now (s.entries.delete key)).size = 0 := by omega
        exact spared_of_none (victim_empty s (List.length_eq_zero_iff.1 hzero))
    · exact spared_of_none (hc _)
  | evicted w hfull hlive hw =>
    rw [live_eq_self hlive, live_delete, live_eq_self hlive]
    exact spared_of_some hfull hw
  | noVictim hfull hlive hw =>
    rw [live_eq_self hlive]
    exact spared_of_none hw

/-- What `set` does to the purged store. -/
theorem purged_set (hc : Capped s) (now : ν) (key value : JsString) (ttl : Option ν) :
    (s.set now key value ttl).purged now =
      let spared := s.spared ((live now s.entries).delete key)
      { s with
        entries := live now (spared.1.set key (newEntry now value ttl))
        evictionCount := s.evictionCount + spared.2.length
        evicted := s.evicted ++ spared.2 } := by
  obtain ⟨kept, out, hout, hset⟩ := set_spec now key value ttl s
  rw [hset, hout.spared hc]
  simp only [CacheStore.purged, live_set_live hout.not_mem]

/-- The live entries after `set`. -/
theorem live_set (hc : Capped s) (now : ν) (key value : JsString) (ttl : Option ν) :
    live now (s.set now key value ttl).entries = live now
      ((s.spared ((live now s.entries).delete key)).1.set key (newEntry now value ttl)) :=
  congrArg CacheStore.entries (purged_set hc now key value ttl)

/-! ## The operations on the purged store -/

theorem purged_touch : (s.touch now key).1.purged now =
    ((s.purged now).touch now key).1.purged now := by
  rcases lookup_cases now s.entries key with h | ⟨e, h, hx⟩ | ⟨e, h, hx⟩
  · have h' : (s.purged now).entries.get? key = none := get?_live_none h
    rw [touch_absent h, touch_absent h', purged_purged]
  · have h' : (s.purged now).entries.get? key = none := get?_live_expired h hx
    rw [touch_expired h hx, touch_absent h', purged_purged]
    simp only [CacheStore.purged, live_delete_expired h hx]
  · have h' : (s.purged now).entries.get? key = some e := get?_live_eq_some.2 ⟨h, hx⟩
    rw [touch_live h hx, touch_live h' hx]
    simp only [CacheStore.purged]
    rw [live_set_congr OrderedMap.not_mem_keys_delete OrderedMap.not_mem_keys_delete]
    rw [live_delete, live_delete, live_live]

theorem purged_peek : (s.peek now key).1.purged now = s.purged now := by
  rw [peek_eq]
  rcases lookup_cases now s.entries key with h | ⟨e, h, hx⟩ | ⟨e, h, hx⟩
  · simp [h]
  · simp only [h, Option.any_some, hx, if_true]
    simp only [CacheStore.purged, live_delete_expired h hx]
  · simp [h, hx]

theorem purged_cleanup {op : StoreOp ν} (hop : op.isCleanup = true) (s : CacheStore ν) :
    (op.apply now s).purged now = s.purged now := by
  cases op with
  | has key | ttl key => exact purged_peek
  | keys => rw [StoreOp.apply, CacheStore.keys, listLive_eq]; exact purged_purged s
  | detailedKeys => rw [StoreOp.apply, CacheStore.detailedKeys, listLive_eq]; exact purged_purged s
  | exportEntries =>
    rw [StoreOp.apply, CacheStore.exportEntries, listLive_eq]; exact purged_purged s
  | sweep => rw [StoreOp.apply, sweep_fst]; exact purged_purged s
  | set | get | getWithTtl | delete | deleteByPrefix | accessCount | clear =>
    simp [StoreOp.isCleanup] at hop

/-- Every operation does to the purged store what it does to the store. -/
theorem purged_apply (hc : Capped s) (now : ν) (op : StoreOp ν) :
    (op.apply now s).purged now = (op.apply now (s.purged now)).purged now := by
  cases op with
  | set key value t =>
    simp only [StoreOp.apply]
    rw [purged_set hc, purged_set hc.purged]
    simp only [CacheStore.purged, live_live]
    rfl
  | get key | getWithTtl key => exact purged_touch
  | delete key =>
    simp only [StoreOp.apply, CacheStore.delete, CacheStore.purged, live_delete, live_live]
  | deleteByPrefix pre =>
    simp only [StoreOp.apply, deleteByPrefix_fst, CacheStore.purged, live_filter, live_live]
  | accessCount key => exact (purged_purged s).symm
  | clear => rfl
  | has key => rw [purged_cleanup rfl, purged_cleanup rfl, purged_purged]
  | ttl key => rw [purged_cleanup rfl, purged_cleanup rfl, purged_purged]
  | keys => rw [purged_cleanup rfl, purged_cleanup rfl, purged_purged]
  | detailedKeys => rw [purged_cleanup rfl, purged_cleanup rfl, purged_purged]
  | exportEntries => rw [purged_cleanup rfl, purged_cleanup rfl, purged_purged]
  | sweep => rw [purged_cleanup rfl, purged_cleanup rfl, purged_purged]

theorem touch_snd : (s.touch now key).2 =
    ((live now s.entries).get? key).map fun e => { e with hits := e.hits + 1 } := by
  rcases lookup_cases now s.entries key with h | ⟨e, h, hx⟩ | ⟨e, h, hx⟩
  · rw [touch_absent h, get?_live_none h]
    rfl
  · rw [touch_expired h hx, get?_live_expired h hx]
    rfl
  · rw [touch_live h hx, get?_live_eq_some.2 ⟨h, hx⟩]
    rfl

theorem accessCount_eq : s.accessCount now key =
    ((live now s.entries).get? key).map CacheEntry.hits := by
  unfold CacheStore.accessCount
  rcases lookup_cases now s.entries key with h | ⟨e, h, hx⟩ | ⟨e, h, hx⟩
  · rw [h, get?_live_none h]
    rfl
  · simp [h, hx, get?_live_expired h hx]
  · simp [h, hx, get?_live_eq_some.2 ⟨h, hx⟩]

/-- A read finds in the purged store what it finds in the store. -/
theorem result_purged {op : StoreOp ν} (hop : op.isObservation = true) (s : CacheStore ν) :
    op.result now s = op.result now (s.purged now) := by
  have hlive : live now (s.purged now).entries = live now s.entries := live_live s.entries
  cases op with
  | get key => simp only [StoreOp.result, CacheStore.get, touch_snd, hlive]
  | getWithTtl key => simp only [StoreOp.result, CacheStore.getWithTtl, touch_snd, hlive]
  | has key => simp only [StoreOp.result, CacheStore.has, peek_eq, hlive]
  | ttl key => simp only [StoreOp.result, CacheStore.ttl, peek_eq, hlive]
  | accessCount key => simp only [StoreOp.result, accessCount_eq, hlive]
  | keys => simp only [StoreOp.result, CacheStore.keys, listLive_eq, hlive]
  | detailedKeys => simp only [StoreOp.result, CacheStore.detailedKeys, listLive_eq, hlive]
  | exportEntries => simp only [StoreOp.result, CacheStore.exportEntries, listLive_eq, hlive]
  | set | delete | deleteByPrefix | sweep | clear => simp [StoreOp.isObservation] at hop

/-! ## The capacity is kept -/

theorem capped_effect {s' : CacheStore ν} {es : List (StoreEvent ν)} (hc : Capped s)
    (he : StoreEffect now s s' es) : Capped s' := by
  rcases hc with hc | hc
  swap
  · cases he with
    | shrink | read | set => exact .inr hc
  unfold CacheStore.size at hc
  cases he with
  | shrink m hsub hes => exact .inl (hsub.length_le.trans hc)
  | read key e he =>
    have hmem := OrderedMap.mem_keys_of_mem (OrderedMap.get?_eq_some.1 he)
    have hlt := OrderedMap.size_delete_lt hmem
    refine .inl ?_
    unfold CacheStore.size
    rw [OrderedMap.size_set_new OrderedMap.not_mem_keys_delete]
    exact hlt.trans_le hc
  | @set key value t kept out hout =>
    have hle : (s.entries.delete key).size ≤ s.entries.size := List.length_filter_le _ _
    have hsize : (kept.set key (newEntry now value t)).size = kept.size + 1 :=
      OrderedMap.size_set_new hout.not_mem
    have hstay : kept.size < max s.maxEntries 1 → Capped { s with
        entries := kept.set key (newEntry now value t)
        evictionCount := s.evictionCount + out.length
        evicted := s.evicted ++ out } := fun hlt => .inl (by
      unfold CacheStore.size
      rw [hsize]
      exact hlt)
    cases hout with
    | room hroom => exact hstay (hroom.trans_le (le_max_left _ _))
    | reclaimed hfull hdead => exact hstay ((size_live_lt hdead).trans_le (hle.trans hc))
    | evicted w hfull hlive hw =>
      exact hstay ((OrderedMap.size_delete_lt (victim_mem hw)).trans_le (hle.trans hc))
    | noVictim hfull hlive hw =>
      by_cases hnil : (s.entries.delete key).entries = []
      · have hzero : (s.entries.delete key).size = 0 := by rw [OrderedMap.size, hnil]; rfl
        exact hstay (by rw [hzero]; exact lt_max_of_lt_right Nat.one_pos)
      · exact .inr (victim_none hnil hw)

theorem options_apply (s : CacheStore ν) (now : ν) (op : StoreOp ν) :
    (op.apply now s).options = s.options := by
  have he := storeEffect now s op
  revert he
  generalize op.apply now s = s', op.events now s = es
  intro he
  cases he with
  | shrink | read | set => rfl

theorem capped_apply (hc : Capped s) (now : ν) (op : StoreOp ν) : Capped (op.apply now s) :=
  capped_effect hc (storeEffect now s op)

end InkCache
