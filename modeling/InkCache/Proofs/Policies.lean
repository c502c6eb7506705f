import InkCache.Proofs.LiveView

/-!
# Access-aware between lru and lfu

A policy shows only in the key that `set` gives up. A sample of one key at the front is that key,
and a sample as large as the capacity is the whole store, because a store is only ever asked for a
victim among at most `maxEntries` entries.
-/

namespace InkCache

open Lib

variable {ν : Type} {s : CacheStore ν} {policy : EvictionPolicy} {sample : ℕ}

/-- The store as it would be under another policy. -/
def CacheStore.withPolicy (policy : EvictionPolicy) (sample : ℕ) (s : CacheStore ν) :
    CacheStore ν :=
  { s with policy, evictionSampleSize := sample }

/-- Another policy gives up the same keys, whatever entries within the capacity it is asked for. -/
def SameVictims (policy : EvictionPolicy) (sample : ℕ) (s : CacheStore ν) : Prop :=
  ∀ m : Entries ν, m.size ≤ max s.maxEntries 1 → (s.withPolicy policy sample).victim m = s.victim m

/-! ## The victims -/

/-- The victim is a matter of the window alone. -/
theorem victim_withPolicy {m : Entries ν}
    (h : m.entries.take ((s.withPolicy policy sample).window m) =
      m.entries.take (s.window m)) : (s.withPolicy policy sample).victim m = s.victim m := by
  unfold CacheStore.victim
  rw [h]

theorem sameVictims_lru (hp : s.policy = .accessAware) (hs : s.evictionSampleSize = 1) :
    SameVictims .lru sample s := by
  intro m _
  refine victim_withPolicy ?_
  simp [CacheStore.window, CacheStore.withPolicy, hp, hs]

theorem sameVictims_lfu (hp : s.policy = .accessAware) (hcap : 1 ≤ s.maxEntries)
    (hs : s.maxEntries ≤ s.evictionSampleSize) : SameVictims .lfu sample s := by
  intro m hm
  rw [max_eq_left hcap] at hm
  refine victim_withPolicy ?_
  simp only [CacheStore.window, CacheStore.withPolicy, hp]
  unfold OrderedMap.size at hm ⊢
  rw [List.take_length, List.take_of_length_le (hm.trans hs)]

theorem capped_size (hc : Capped s) (hs : 1 ≤ s.evictionSampleSize) :
    s.size ≤ max s.maxEntries 1 := by
  rcases hc with hc | hc
  · exact hc
  · by_cases hnil : s.entries.entries = []
    · rw [CacheStore.size, OrderedMap.size, hnil]
      exact Nat.zero_le _
    · obtain ⟨w, hw⟩ := exists_victim hnil hs
      rw [hc] at hw
      simp at hw

/-! ## The operations -/

variable [JsNumber ν] {now : ν} {key : JsString}

theorem touch_withPolicy : (s.withPolicy policy sample).touch now key =
    ((s.touch now key).1.withPolicy policy sample, (s.touch now key).2) := by
  rcases lookup_cases now s.entries key with h | ⟨e, h, hx⟩ | ⟨e, h, hx⟩
  · rw [touch_absent h, touch_absent (s := s.withPolicy policy sample) h]
  · rw [touch_expired h hx, touch_expired (s := s.withPolicy policy sample) h hx]
    rfl
  · rw [touch_live h hx, touch_live (s := s.withPolicy policy sample) h hx]
    rfl

theorem peek_withPolicy : (s.withPolicy policy sample).peek now key =
    ((s.peek now key).1.withPolicy policy sample, (s.peek now key).2) := by
  rw [peek_eq, peek_eq]
  rw [show (s.withPolicy policy sample).entries = s.entries from rfl]
  by_cases hx : (s.entries.get? key).any (·.isExpired now) = true
  · rw [if_pos hx, if_pos hx]
    rfl
  · rw [if_neg hx, if_neg hx]

theorem evict_withPolicy (h : (s.withPolicy policy sample).victim s.entries = s.victim s.entries) :
    (s.withPolicy policy sample).evict now = (s.evict now).withPolicy policy sample := by
  by_cases hl : AllLive now s.entries
  · rw [evict_of_allLive hl, evict_of_allLive (s := s.withPolicy policy sample) hl]
    rw [show (s.withPolicy policy sample).entries = s.entries from rfl, h]
    rcases s.victim s.entries with _ | w
    · rfl
    · rfl
  · rw [evict_of_expired hl, evict_of_expired (s := s.withPolicy policy sample) hl]
    rfl

theorem set_withPolicy (hv : SameVictims policy sample s) (hsize : s.size ≤ max s.maxEntries 1)
    (now : ν) (key value : JsString) (ttl : Option ν) :
    (s.withPolicy policy sample).set now key value ttl =
      (s.set now key value ttl).withPolicy policy sample := by
  have hle : (s.entries.delete key).size ≤ max s.maxEntries 1 :=
    (List.length_filter_le _ _).trans hsize
  have hvictim : (({ s with entries := s.entries.delete key } : CacheStore ν).withPolicy policy
      sample).evict now = (({ s with entries := s.entries.delete key } : CacheStore ν).evict
        now).withPolicy policy sample := evict_withPolicy (hv _ hle)
  simp only [CacheStore.set]
  by_cases hfull : s.maxEntries ≤ (s.entries.delete key).size
  · rw [if_pos (by exact hfull), if_pos (by exact hfull)]
    have hstore : ({ s.withPolicy policy sample with
        entries := (s.withPolicy policy sample).entries.delete key } : CacheStore ν) =
        ({ s with entries := s.entries.delete key } : CacheStore ν).withPolicy policy sample := rfl
    rw [hstore, hvictim]
    rfl
  · rw [if_neg (by exact hfull), if_neg (by exact hfull)]
    rfl

/-- Every operation does the same under the other policy. -/
theorem apply_withPolicy (hv : SameVictims policy sample s) (hsize : s.size ≤ max s.maxEntries 1)
    (now : ν) (op : StoreOp ν) : op.apply now (s.withPolicy policy sample) =
      (op.apply now s).withPolicy policy sample := by
  cases op with
  | set key value ttl => exact set_withPolicy hv hsize now key value ttl
  | get key | getWithTtl key => exact congrArg Prod.fst touch_withPolicy
  | has key | ttl key => exact congrArg Prod.fst peek_withPolicy
  | keys | detailedKeys | exportEntries | sweep | delete | deleteByPrefix | accessCount | clear =>
    rfl

theorem result_withPolicy (now : ν) (op : StoreOp ν) :
    op.result now (s.withPolicy policy sample) = op.result now s := by
  cases op with
  | get key => simp only [StoreOp.result, CacheStore.get, touch_withPolicy]
  | getWithTtl key => simp only [StoreOp.result, CacheStore.getWithTtl, touch_withPolicy]
  | has key => simp only [StoreOp.result, CacheStore.has, peek_withPolicy]
  | ttl key => simp only [StoreOp.result, CacheStore.ttl, peek_withPolicy]
  | set | keys | detailedKeys | exportEntries | sweep | delete | deleteByPrefix | accessCount
  | clear => rfl

/-! ## Side by side -/

/-- Whether the second store is the first under another policy, which makes no difference. -/
structure InLockstep (policy : EvictionPolicy) (sample : ℕ) (opts : CacheStoreOptions)
    (p : TwinStores ν) : Prop where
  options : p.plain.options = opts
  capped : p.plain.size ≤ max p.plain.maxEntries 1
  same : p.other = p.plain.withPolicy policy sample

theorem inLockstep_run {opts : CacheStoreOptions} {t₀ : ν} {log : List Empty} {p : TwinStores ν}
    (hs : 1 ≤ opts.evictionSampleSize)
    (hv : ∀ s : CacheStore ν, s.options = opts → SameVictims policy sample s)
    (h : Run twinStep Together ⟨t₀, .new opts, (CacheStore.new opts).withPolicy policy sample⟩
      log p) : InLockstep policy sample opts p := by
  refine h.invariant (I := fun _ p => InLockstep policy sample opts p) ⟨rfl, Nat.zero_le _, rfl⟩ ?_
  intro log p a p' es hI ha he
  cases a with
  | extra now op => exact ha.elim
  | both now op =>
    simp only [twinStep, Option.some.injEq, Prod.mk.injEq] at he
    obtain ⟨rfl, -⟩ := he
    have hopts : (op.apply now p.plain).options = opts := (options_apply _ _ _).trans hI.options
    have hsample : (op.apply now p.plain).evictionSampleSize = opts.evictionSampleSize :=
      congrArg CacheStoreOptions.evictionSampleSize hopts
    refine ⟨hopts, capped_size (capped_apply (.inl hI.capped) now op) (hsample ▸ hs), ?_⟩
    rw [hI.same]
    exact apply_withPolicy (hv _ hI.options) hI.capped now op

/-- The two stores hold the same entries in the same order, gave up the same keys, and answer every
operation alike. -/
def TwinStores.Alike (p : TwinStores ν) : Prop :=
  p.plain.entries = p.other.entries ∧ p.plain.evicted = p.other.evicted ∧
    p.plain.evictionCount = p.other.evictionCount ∧
    ∀ (now : ν) (op : StoreOp ν), op.result now p.plain = op.result now p.other

theorem InLockstep.alike {opts : CacheStoreOptions} {p : TwinStores ν}
    (h : InLockstep policy sample opts p) : p.Alike := by
  unfold TwinStores.Alike
  rw [h.same]
  exact ⟨rfl, rfl, rfl, fun now op => (result_withPolicy now op).symm⟩

/-- An access-aware store that samples one key goes with an lru store, and one that samples as many
keys as it may hold goes with an lfu store. -/
theorem access_aware_spans (capacity : ℕ) (hcap : 1 ≤ capacity) (t₀ : ν) (unused : ℕ) :
    (∀ (log : List Empty) (p : TwinStores ν),
      Run twinStep Together ⟨t₀, .new ⟨capacity, .accessAware, 1⟩,
        .new ⟨capacity, .lru, unused⟩⟩ log p → p.Alike) ∧
    ∀ sample, capacity ≤ sample → ∀ (log : List Empty) (p : TwinStores ν),
      Run twinStep Together ⟨t₀, .new ⟨capacity, .accessAware, sample⟩,
        .new ⟨capacity, .lfu, unused⟩⟩ log p → p.Alike := by
  refine ⟨fun log p h => ?_, fun sample hs log p h => ?_⟩
  · have hv : ∀ s : CacheStore ν, s.options = ⟨capacity, .accessAware, 1⟩ →
        SameVictims .lru unused s := fun s ho =>
      sameVictims_lru (congrArg CacheStoreOptions.policy ho)
        (congrArg CacheStoreOptions.evictionSampleSize ho)
    exact (inLockstep_run le_rfl hv h).alike
  · have hv : ∀ s : CacheStore ν, s.options = ⟨capacity, .accessAware, sample⟩ →
        SameVictims .lfu unused s := by
      intro s ho
      have hmax : s.maxEntries = capacity := congrArg CacheStoreOptions.maxEntries ho
      have hsample : s.evictionSampleSize = sample :=
        congrArg CacheStoreOptions.evictionSampleSize ho
      refine sameVictims_lfu (congrArg CacheStoreOptions.policy ho) ?_ ?_
      · rw [hmax]
        exact hcap
      · rw [hmax, hsample]
        exact hs
    exact (inLockstep_run (hcap.trans hs) hv h).alike

/-- The least read of two keys is given up by both stores, though it was touched last. -/
theorem access_aware_spans_evicting : ∃ (log : List Empty) (p : TwinStores ℚ),
    Run twinStep Together ⟨0, .new ⟨2, .accessAware, 3⟩, .new ⟨2, .lfu, 5⟩⟩ log p ∧
      p.plain.evicted = [js "b"] ∧ p.other.evicted = [js "b"] := by
  have hrun : ∃ (log : List Empty) (p : TwinStores ℚ),
      Run twinStep Together ⟨0, .new ⟨2, .accessAware, 3⟩, .new ⟨2, .lfu, 5⟩⟩ log p ∧
        p.plain.evicted = [js "b"] :=
    exists_run_of_exec [.both 0 (.set (js "a") (js "1") none), .both 1 (.get (js "a")),
      .both 2 (.set (js "b") (js "2") none), .both 3 (.set (js "c") (js "3") (some 1))]
      (by decide +kernel)
  obtain ⟨log, p, h, hevicted⟩ := hrun
  have halike := (access_aware_spans 2 (by decide) 0 5).2 3 (by decide) log p h
  exact ⟨log, p, h, hevicted, halike.2.1.symm.trans hevicted⟩

end InkCache
