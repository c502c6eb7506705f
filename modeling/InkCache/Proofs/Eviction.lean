import InkCache.StoreHistory
import InkCache.Proofs.Cache

/-!
# What the policies give up

The store keeps no recency list and no timestamps. `Recency` is what stands in for them: the order
of the entries is the order of their last touch, and `hits` counts the reads since the last write.
Every operation shrinks the entries, or counts one and moves it to the back, or writes one at the
back (`StoreEffect`), so it is kept over whole histories; the victim of a policy is then read off
the log (`IsVictim`).
-/

namespace InkCache

open Lib

variable {ν : Type} {log es : List (StoreEvent ν)} {ev : StoreEvent ν} {key k : JsString}
  {m m' : Entries ν}

/-! ## Reading the log -/

theorem lastTouch_append_one : lastTouch k (log ++ [ev]) =
    if ev.touches k then log.length + 1 else lastTouch k log := by
  unfold lastTouch
  rw [List.reverse_append, List.reverse_singleton, List.singleton_append, List.findIdx_cons,
    List.length_append, List.length_singleton]
  rcases ev.touches k
  · simp
  · simp

theorem lastTouch_le : lastTouch k log ≤ log.length := Nat.sub_le _ _

theorem readsSinceSet_append_one : readsSinceSet k (log ++ [ev]) =
    if ev.isSet k then 0 else readsSinceSet k log + if ev.isRead k then 1 else 0 := by
  unfold readsSinceSet
  rw [List.reverse_append, List.reverse_singleton, List.singleton_append, List.takeWhile_cons]
  rcases ev.isSet k
  · simp [List.countP_cons]
  · simp

theorem isSet_of_touches_false (h : ev.touches k = false) : ev.isSet k = false := by
  cases ev <;> simp_all [StoreEvent.touches, StoreEvent.isSet]

theorem isRead_of_touches_false (h : ev.touches k = false) : ev.isRead k = false := by
  cases ev <;> simp_all [StoreEvent.touches, StoreEvent.isRead]

theorem lastTouch_append_one_of_not (h : ev.touches k = false) :
    lastTouch k (log ++ [ev]) = lastTouch k log := by
  rw [lastTouch_append_one, h]
  rfl

theorem readsSinceSet_append_one_of_not (h : ev.touches k = false) :
    readsSinceSet k (log ++ [ev]) = readsSinceSet k log := by
  rw [readsSinceSet_append_one, isSet_of_touches_false h, isRead_of_touches_false h]
  rfl

/-! ## Recency -/

structure Recency (log : List (StoreEvent ν)) (m : Entries ν) : Prop where
  ordered : m.keys.Pairwise fun a b => lastTouch a log < lastTouch b log
  counted : ∀ k e, (k, e) ∈ m.entries → e.hits = readsSinceSet k log

namespace Recency

theorem sublist (h : Recency log m) (hsub : m'.entries.Sublist m.entries) : Recency log m' where
  ordered := h.ordered.sublist (hsub.map _)
  counted k e he := h.counted k e (hsub.subset he)

/-- Events on keys that are not held change nothing. -/
theorem append_one (h : Recency log m) (hev : ∀ k ∈ m.keys, ev.touches k = false) :
    Recency (log ++ [ev]) m where
  ordered := h.ordered.imp_of_mem fun ha hb hab => by
    rwa [lastTouch_append_one_of_not (hev _ ha), lastTouch_append_one_of_not (hev _ hb)]
  counted k e he := by
    rw [readsSinceSet_append_one_of_not (hev k (OrderedMap.mem_keys_of_mem he))]
    exact h.counted k e he

theorem append (h : Recency log m) (hes : ∀ ev ∈ es, ∀ k, ev.touches k = false) :
    Recency (log ++ es) m := by
  induction es using List.reverseRecOn with
  | nil => rwa [List.append_nil]
  | append_singleton es ev ih =>
    rw [← List.append_assoc]
    have hpre : Recency (log ++ es) m := ih fun ev' hm => hes ev' (List.mem_append_left _ hm)
    exact hpre.append_one fun k _ => hes ev (by simp) k

/-- A touched key goes to the back. -/
theorem push (h : Recency log m) (hkey : key ∉ m.keys) {e : CacheEntry ν}
    (htouch : ev.touches key = true) (honly : ∀ k, k ≠ key → ev.touches k = false)
    (he : e.hits = readsSinceSet key (log ++ [ev])) : Recency (log ++ [ev]) (m.set key e) := by
  have hm : Recency (log ++ [ev]) m := h.append_one fun k hk => honly k fun hkk => hkey (hkk ▸ hk)
  constructor
  · rw [OrderedMap.keys_set_new hkey, List.pairwise_append]
    refine ⟨hm.ordered, List.pairwise_singleton _ _, fun a ha b hb => ?_⟩
    have hak : a ≠ key := fun hak => hkey (hak ▸ ha)
    rw [List.mem_singleton.1 hb, lastTouch_append_one_of_not (honly a hak), lastTouch_append_one,
      if_pos htouch]
    exact Nat.lt_succ_of_le lastTouch_le
  · intro k e' he'
    rw [OrderedMap.entries_set_new hkey, List.mem_append, List.mem_singleton] at he'
    rcases he' with he' | he'
    · exact hm.counted k e' he'
    · obtain ⟨rfl, rfl⟩ := Prod.mk.inj he'
      exact he

end Recency

/-! ## The victim -/

/-- In a strictly increasing list, the first `n` members are those with fewer than `n` below. -/
theorem filter_countP_lt_eq_take {α : Type*} (f : α → ℕ) : ∀ (l : List α) (n : ℕ),
    l.Pairwise (fun a b => f a < f b) →
      (l.filter fun a => l.countP (fun b => f b < f a) < n) = l.take n
  | [], n, _ => by simp
  | a :: l, n, h => by
    obtain ⟨ha, hl⟩ := List.pairwise_cons.1 h
    have hzero : l.countP (fun b => f b < f a) = 0 := by
      rw [List.countP_eq_zero]
      intro b hb
      have := ha b hb
      simp only [decide_eq_true_eq]
      omega
    have hsucc : ∀ b ∈ l,
        (a :: l).countP (fun c => f c < f b) = l.countP (fun c => f c < f b) + 1 :=
      fun b hb => by rw [List.countP_cons, if_pos (by simpa using ha b hb)]
    rcases n with _ | n
    · simp
    rw [List.filter_cons, List.countP_cons, hzero, List.take_succ_cons,
      ← filter_countP_lt_eq_take f l n hl]
    simp only [lt_self_iff_false, decide_false, Bool.false_eq_true, if_false, add_zero,
      Nat.zero_lt_succ, decide_true, if_true, List.cons.injEq, true_and]
    refine List.filter_congr fun b hb => ?_
    rw [hsucc b hb]
    simp

theorem oldest_eq_take (h : Recency log m) (n : ℕ) : oldest n log m.keys = m.keys.take n :=
  filter_countP_lt_eq_take _ _ n h.ordered

theorem leastRead_of_split {l₁ l₂ : List (JsString × CacheEntry ν)} {e : JsString × CacheEntry ν}
    {n : ℕ} (h : Recency log m) (hl : m.entries.take n = l₁ ++ e :: l₂)
    (h₁ : ∀ x ∈ l₁, e.2.hits < x.2.hits) (h₂ : ∀ x ∈ l₂, e.2.hits ≤ x.2.hits) :
    LeastRead log (m.keys.take n) e.1 := by
  have hkeys : m.keys.take n = (l₁ ++ e :: l₂).map Prod.fst := by
    rw [← hl, OrderedMap.keys, List.map_take]
  have hcounted : ∀ x ∈ l₁ ++ e :: l₂, x.2.hits = readsSinceSet x.1 log := fun x hx =>
    h.counted x.1 x.2 (List.mem_of_mem_take (hl ▸ hx))
  have hord := h.ordered.sublist (List.take_sublist n _)
  rw [hkeys, List.map_append, List.map_cons, List.pairwise_append, List.pairwise_cons] at hord
  rw [hkeys]
  refine ⟨by simp, fun k hk => ?_⟩
  obtain ⟨x, hx, rfl⟩ := List.mem_map.1 hk
  rw [← hcounted e (by simp), ← hcounted x hx]
  rcases List.mem_append.1 hx with hx | hx
  · exact .inl (h₁ x hx)
  rcases List.mem_cons.1 hx with rfl | hx
  · exact .inr ⟨rfl, le_rfl⟩
  · rcases (h₂ x hx).lt_or_eq with hlt | heq
    · exact .inl hlt
    · exact .inr ⟨heq, (hord.2.1.1 x.1 (List.mem_map.2 ⟨x, hx, rfl⟩)).le⟩

/-- What the policy picks is what the log says it may. -/
theorem isVictim_of_victim {opts : CacheStoreOptions} {s : CacheStore ν} {w : JsString}
    (h : Recency log m) (hp : s.policy = opts.policy)
    (hs : s.evictionSampleSize = opts.evictionSampleSize) (hw : 1 ≤ s.window m)
    (hv : s.victim m = some w) : IsVictim opts log m.keys w := by
  have hm : m.entries ≠ [] := by
    have hmem := victim_mem hv
    rintro hnil
    simp [OrderedMap.keys, hnil] at hmem
  obtain ⟨l₁, e, l₂, hl, hve, h₁, h₂⟩ := victim_spec hm hw
  rw [hve, Option.some.injEq] at hv
  have hleast : LeastRead log (m.keys.take (s.window m)) w := hv ▸ leastRead_of_split h hl h₁ h₂
  unfold IsVictim
  unfold CacheStore.window at hleast
  rw [hp] at hleast
  rcases hpol : opts.policy <;> rw [hpol] at hleast <;> simp only at hleast ⊢
  · have hord := h.ordered
    rcases hk : m.keys with _ | ⟨a, rest⟩ <;> rw [hk] at hleast hord
    · simp [LeastRead] at hleast
    · obtain rfl : w = a := by simpa using hleast.1
      refine ⟨by simp, fun k hk' => ?_⟩
      rcases List.mem_cons.1 hk' with rfl | hk'
      · exact le_rfl
      · exact ((List.pairwise_cons.1 hord).1 k hk').le
  · rwa [oldest_eq_take h, ← hs]
  · have hsize : m.keys.length = m.size := List.length_map _
    rwa [List.take_of_length_le hsize.le] at hleast

/-! ## The capacity -/

variable {s s' : CacheStore ν} {opts : CacheStoreOptions}

/-- The options do not change, the capacity is kept, and every eviction is counted. -/
structure Bounded (opts : CacheStoreOptions) (s : CacheStore ν) : Prop where
  maxEntries : s.maxEntries = opts.maxEntries
  policy : s.policy = opts.policy
  evictionSampleSize : s.evictionSampleSize = opts.evictionSampleSize
  size : s.size ≤ opts.maxEntries
  counted : s.evictionCount = s.evicted.length

theorem others_size_le (h : Bounded opts s) (key : JsString) :
    (s.entries.delete key).size ≤ opts.maxEntries :=
  (List.length_filter_le _ _).trans h.size

/-- At the capacity and with nothing expired, there is always a key to give up. -/
theorem exists_victim_of_full (hm : 1 ≤ opts.maxEntries) (hs : 1 ≤ opts.evictionSampleSize)
    (h : Bounded opts s) (hfull : s.maxEntries ≤ m.size) : ∃ w, s.victim m = some w := by
  refine exists_victim (fun hnil => ?_) (h.evictionSampleSize ▸ hs)
  rw [h.maxEntries, OrderedMap.size, hnil] at hfull
  simp only [List.length_nil] at hfull
  omega

/-- A key that is held leaves room for itself. -/
theorem others_eq_of_full (h : Bounded opts s)
    (hfull : (s.entries.delete key).size = opts.maxEntries) :
    s.entries.delete key = s.entries := by
  refine OrderedMap.delete_of_not_mem fun hk => ?_
  have hlt := OrderedMap.size_delete_lt hk
  have hle := h.size
  unfold CacheStore.size at hle
  omega

/-! ## The effect of an operation -/

variable [JsNumber ν] {now : ν}

/-- The three things an operation reporting `es` can do to the store. -/
inductive StoreEffect (now : ν) (s : CacheStore ν) : CacheStore ν → List (StoreEvent ν) → Prop
  | shrink (m : Entries ν) {es : List (StoreEvent ν)} (hsub : m.entries.Sublist s.entries.entries)
      (hes : ∀ ev ∈ es, ∀ k, ev.touches k = false) : StoreEffect now s { s with entries := m } es
  | read (key : JsString) (e : CacheEntry ν) (he : s.entries.get? key = some e) :
      StoreEffect now s { s with
        entries := (s.entries.delete key).set key { e with hits := e.hits + 1 } } [.read key]
  | set (key value : JsString) (ttl : Option ν) {kept : Entries ν} {out : List JsString}
      (hout : SetOutcome now key s kept out) :
      StoreEffect now s { s with
        entries := kept.set key (newEntry now value ttl)
        evictionCount := s.evictionCount + out.length
        evicted := s.evicted ++ out } (out.map .evicted ++ [.set key value (deadline now ttl)])

theorem StoreEffect.refl : StoreEffect now s s [] :=
  .shrink s.entries (List.Sublist.refl _) (by simp)

theorem storeEffect_touch : StoreEffect now s (s.touch now key).1
    (if (s.touch now key).2.isSome then [.read key] else []) := by
  rcases lookup_cases now s.entries key with h | ⟨e, h, hx⟩ | ⟨e, h, hx⟩
  · rw [touch_absent h]
    exact .refl
  · rw [touch_expired h hx]
    exact .shrink _ List.filter_sublist (by simp)
  · rw [touch_live h hx]
    exact .read key e h

theorem storeEffect_peek : StoreEffect now s (s.peek now key).1 [] := by
  rw [peek_eq]
  split_ifs
  · exact .shrink _ List.filter_sublist (by simp)
  · exact .refl

theorem storeEffect_live : StoreEffect now s { s with entries := live now s.entries } [] :=
  .shrink _ List.filter_sublist (by simp)

theorem storeEffect (now : ν) (s : CacheStore ν) (op : StoreOp ν) :
    StoreEffect now s (op.apply now s) (op.events now s) := by
  cases op with
  | set key value t =>
    obtain ⟨kept, out, hout, hset⟩ := set_spec now key value t s
    have hnew : newlyEvicted s (s.set now key value t) = out := by
      rw [newlyEvicted, hset, List.drop_left]
    simp only [StoreOp.events, StoreOp.apply, hnew]
    rw [hset]
    exact .set key value t hout
  | get key =>
    simpa only [StoreOp.apply, StoreOp.events, CacheStore.get, Option.isSome_map]
      using storeEffect_touch
  | getWithTtl key =>
    simpa only [StoreOp.apply, StoreOp.events, CacheStore.getWithTtl, Option.isSome_map]
      using storeEffect_touch
  | delete key => exact .shrink _ List.filter_sublist (by simp [StoreOp.events, StoreEvent.touches])
  | deleteByPrefix pre =>
    rw [StoreOp.apply, deleteByPrefix_fst]
    exact .shrink _ List.filter_sublist (by simp [StoreOp.events, StoreEvent.touches])
  | has key => exact storeEffect_peek
  | ttl key => exact storeEffect_peek
  | accessCount key => exact .refl
  | keys => rw [StoreOp.apply, CacheStore.keys, listLive_eq]; exact storeEffect_live
  | detailedKeys => rw [StoreOp.apply, CacheStore.detailedKeys, listLive_eq]; exact storeEffect_live
  | exportEntries =>
    rw [StoreOp.apply, CacheStore.exportEntries, listLive_eq]; exact storeEffect_live
  | sweep => rw [StoreOp.apply, sweep_fst]; exact storeEffect_live
  | clear =>
    exact .shrink _ (List.nil_sublist _) (by simp [StoreOp.events, StoreEvent.touches])

theorem recency_effect (h : Recency log s.entries) (he : StoreEffect now s s' es) :
    Recency (log ++ es) s'.entries := by
  cases he with
  | shrink m hsub hes => exact (h.sublist hsub).append hes
  | read key e he =>
    have hothers : Recency log (s.entries.delete key) := h.sublist List.filter_sublist
    refine hothers.push OrderedMap.not_mem_keys_delete (by simp [StoreEvent.touches])
      (fun k hk => by simp [StoreEvent.touches, hk.symm]) ?_
    have hread : readsSinceSet key (log ++ [.read key]) = readsSinceSet key log + 1 := by
      rw [readsSinceSet_append_one]
      simp [StoreEvent.isSet, StoreEvent.isRead]
    rw [hread, ← h.counted key e (OrderedMap.get?_eq_some.1 he)]
  | set key value t hout =>
    have hkept : Recency log s.entries := h
    rw [← List.append_assoc]
    refine ((hkept.sublist (hout.sublist.trans List.filter_sublist)).append ?_).push hout.not_mem
      (by simp [StoreEvent.touches]) (fun k hk => by simp [StoreEvent.touches, hk.symm]) ?_
    · simp [StoreEvent.touches]
    · rw [readsSinceSet_append_one]
      simp [StoreEvent.isSet, newEntry]

/-! ## The discipline -/

theorem size_live_lt (h : ¬ AllLive now m) : (live now m).size < m.size := by
  refine List.length_filter_lt_length_iff_exists.2 ?_
  simp only [AllLive, not_forall, Bool.not_eq_false] at h
  obtain ⟨e, he, hx⟩ := h
  exact ⟨e, he, by simp [hx]⟩

theorem kept_size_lt (hm : 1 ≤ opts.maxEntries) (hs : 1 ≤ opts.evictionSampleSize)
    (h : Bounded opts s) {kept : Entries ν} {out : List JsString}
    (hout : SetOutcome now key s kept out) : kept.size < opts.maxEntries := by
  have hle := others_size_le h key
  cases hout with
  | room hroom => exact hroom.trans_eq h.maxEntries
  | reclaimed _ hdead => exact (size_live_lt hdead).trans_le hle
  | evicted w _ _ hw => exact (OrderedMap.size_delete_lt (victim_mem hw)).trans_le hle
  | noVictim hfull _ hw =>
    obtain ⟨w, hw'⟩ := exists_victim_of_full hm hs h hfull
    rw [hw] at hw'
    simp at hw'

theorem bounded_effect (hm : 1 ≤ opts.maxEntries) (hs : 1 ≤ opts.evictionSampleSize)
    (h : Bounded opts s) (he : StoreEffect now s s' es) : Bounded opts s' := by
  obtain ⟨hmax, hpol, hsample, hsize, hcount⟩ := h
  cases he with
  | shrink m hsub hes => exact ⟨hmax, hpol, hsample, hsub.length_le.trans hsize, hcount⟩
  | read key e he =>
    refine ⟨hmax, hpol, hsample, ?_, hcount⟩
    have hkey : key ∈ s.entries.keys :=
      OrderedMap.mem_keys_of_mem (OrderedMap.get?_eq_some.1 he)
    unfold CacheStore.size at hsize ⊢
    rw [OrderedMap.size_set_new OrderedMap.not_mem_keys_delete]
    have := OrderedMap.size_delete_lt hkey
    omega
  | set key value t hout =>
    refine ⟨hmax, hpol, hsample, ?_, by simp [hcount]⟩
    have := kept_size_lt hm hs ⟨hmax, hpol, hsample, hsize, hcount⟩ hout
    unfold CacheStore.size
    rw [OrderedMap.size_set_new hout.not_mem]
    omega

theorem recency_bounded {t₀ : ν} {ts : TimedStore ν} (hm : 1 ≤ opts.maxEntries)
    (hs : 1 ≤ opts.evictionSampleSize) (h : StoreRun opts t₀ log ts) :
    Recency log ts.store.entries ∧ Bounded opts ts.store := by
  refine h.invariant (I := fun log ts => Recency log ts.store.entries ∧ Bounded opts ts.store)
    ⟨⟨List.Pairwise.nil, by simp [CacheStore.new, OrderedMap.empty]⟩,
      rfl, rfl, rfl, Nat.zero_le _, rfl⟩ ?_
  rintro log ts ⟨now, op⟩ ts' es ⟨hr, hb⟩ - hstep
  simp only [storeStep, Option.some.injEq, Prod.mk.injEq] at hstep
  obtain ⟨rfl, rfl⟩ := hstep
  have he := storeEffect now ts.store op
  exact ⟨recency_effect hr he, bounded_effect hm hs hb he⟩

theorem eq_set_of_mem_events {op : StoreOp ν} {v : JsString} {d : Option ν}
    (h : StoreEvent.set key v d ∈ op.events now s) :
    ∃ t, op = .set key v t ∧ d = deadline now t := by
  cases op with
  | set key' value t =>
    simp only [StoreOp.events, List.mem_append, List.mem_map, reduceCtorEq, and_false,
      exists_false, List.mem_singleton, StoreEvent.set.injEq, false_or] at h
    obtain ⟨rfl, rfl, rfl⟩ := h
    exact ⟨t, rfl, rfl⟩
  | get | getWithTtl =>
    simp only [StoreOp.events] at h
    split_ifs at h <;> simp at h
  | _ => simp [StoreOp.events] at h

theorem evicted_of_not_set {op : StoreOp ν} (hop : ∀ key value t, op ≠ .set key value t) :
    (op.apply now s).evicted = s.evicted ∧
      (op.apply now s).evictionCount = s.evictionCount := by
  have he := storeEffect now s op
  have hnot : ∀ key v d, StoreEvent.set key v d ∉ op.events now s := fun key v d hmem => by
    obtain ⟨t, rfl, -⟩ := eq_set_of_mem_events hmem
    exact hop key v t rfl
  revert he hnot
  generalize op.apply now s = s', op.events now s = es
  intro he hnot
  cases he with
  | shrink | read => exact ⟨rfl, rfl⟩
  | set key value t hout => exact absurd (by simp) (hnot key value (deadline now t))

/-- At the capacity with nothing expired, `set` gives up the key the log says, and no other. -/
theorem set_of_full (hm : 1 ≤ opts.maxEntries) (hs : 1 ≤ opts.evictionSampleSize)
    (hr : Recency log s.entries) (hb : Bounded opts s) (value : JsString) (ttl : Option ν)
    (hfull : (s.entries.delete key).size = opts.maxEntries)
    (hlive : AllLive now (s.entries.delete key)) :
    ∃ w, (s.set now key value ttl).evicted = s.evicted ++ [w] ∧
      (s.set now key value ttl).evictionCount = s.evictionCount + 1 ∧ w ≠ key ∧
      (s.set now key value ttl).entries.keys = (s.entries.keys.filter fun k => k ≠ w) ++ [key] ∧
      IsVictim opts log s.entries.keys w := by
  have hothers := others_eq_of_full hb hfull
  obtain ⟨kept, out, hout, hset⟩ := set_spec now key value ttl s
  have hle : s.maxEntries ≤ (s.entries.delete key).size := (hb.maxEntries.trans hfull.symm).le
  rw [hset]
  have hnotmem := hout.not_mem
  cases hout with
  | room hroom => exact absurd hroom hle.not_gt
  | reclaimed _ hdead => exact absurd hlive hdead
  | noVictim _ _ hw =>
    obtain ⟨w, hw'⟩ := exists_victim_of_full hm hs hb hle
    rw [hw] at hw'
    simp at hw'
  | evicted w _ _ hw =>
    have hne : (s.entries.delete key).entries ≠ [] := by
      rintro hnil
      rw [OrderedMap.size, hnil, List.length_nil] at hfull
      omega
    have hvict : IsVictim opts log (s.entries.delete key).keys w :=
      isVictim_of_victim (hr.sublist List.filter_sublist) hb.policy hb.evictionSampleSize
        (window_pos hne (hb.evictionSampleSize ▸ hs)) hw
    have hwmem := victim_mem hw
    rw [OrderedMap.keys_delete, List.mem_filter] at hwmem
    refine ⟨w, rfl, rfl, by simpa using hwmem.2, ?_, hothers ▸ hvict⟩
    rw [OrderedMap.keys_set_new hnotmem, OrderedMap.keys_delete, hothers]

/-- Otherwise it gives nothing up, and at most expired entries go. -/
theorem set_of_not_full (hb : Bounded opts s) (value : JsString) (ttl : Option ν)
    (hnot : ¬ ((s.entries.delete key).size = opts.maxEntries ∧
      AllLive now (s.entries.delete key))) :
    (s.set now key value ttl).evicted = s.evicted ∧
      (s.set now key value ttl).evictionCount = s.evictionCount ∧
      ∀ k e, k ≠ key → s.entries.get? k = some e → e.isExpired now = false →
        (s.set now key value ttl).entries.get? k = some e := by
  obtain ⟨kept, out, hout, hset⟩ := set_spec now key value ttl s
  have hnil : out = [] := by
    cases hout with
    | room | reclaimed | noVictim => rfl
    | evicted w hle hlive hw =>
      exact absurd ⟨le_antisymm (others_size_le hb key) (hb.maxEntries ▸ hle), hlive⟩ hnot
  rw [hset, hnil]
  refine ⟨List.append_nil _, rfl, fun k e hk he hx => ?_⟩
  rw [OrderedMap.get?_set_new hout.not_mem, if_neg hk]
  have hd : (s.entries.delete key).get? k = some e := by rw [OrderedMap.get?_delete, if_neg hk, he]
  rcases hout.get?_kept hd with h | ⟨-, h | h⟩
  · exact h
  · simp [hnil] at h
  · simp [hx] at h

/-- In every reachable state the store is within its capacity; writing `key` gives a live key up
exactly when the others fill the capacity and none has expired, then one only, which is not `key`
and is the one the log says; and nothing else gives a key up. -/
theorem eviction_discipline (hm : 1 ≤ opts.maxEntries) (hs : 1 ≤ opts.evictionSampleSize)
    {t₀ : ν} {ts : TimedStore ν} (h : StoreRun opts t₀ log ts) :
    ts.store.size ≤ opts.maxEntries ∧ ts.store.evictionCount = ts.store.evicted.length ∧
    (∀ (now : ν) (key value : JsString) (ttl : Option ν),
      let others := ts.store.entries.delete key
      let s' := ts.store.set now key value ttl
      (others.size = opts.maxEntries ∧ AllLive now others →
        ∃ w, s'.evicted = ts.store.evicted ++ [w] ∧
          s'.evictionCount = ts.store.evictionCount + 1 ∧ w ≠ key ∧
          s'.entries.keys = (ts.store.entries.keys.filter fun k => k ≠ w) ++ [key] ∧
          IsVictim opts log ts.store.entries.keys w) ∧
      (¬ (others.size = opts.maxEntries ∧ AllLive now others) →
        s'.evicted = ts.store.evicted ∧ s'.evictionCount = ts.store.evictionCount ∧
          ∀ k e, k ≠ key → ts.store.entries.get? k = some e → e.isExpired now = false →
            s'.entries.get? k = some e)) ∧
    ∀ (now : ν) (op : StoreOp ν), (∀ key value t, op ≠ .set key value t) →
      (op.apply now ts.store).evicted = ts.store.evicted ∧
        (op.apply now ts.store).evictionCount = ts.store.evictionCount := by
  obtain ⟨hr, hb⟩ := recency_bounded hm hs h
  refine ⟨hb.size, hb.counted, fun now key value ttl => ⟨?_, ?_⟩, fun now op => evicted_of_not_set⟩
  · rintro ⟨hfull, hlive⟩
    exact set_of_full hm hs hr hb value ttl hfull hlive
  · exact set_of_not_full hb value ttl

/-- With `a` read twice, `b` and `c` once, the access-aware policy of a full store looks at `b`
and `a`, the two oldest touches, and gives up `b`. -/
theorem eviction_discipline_sampled : ∃ (log : List (StoreEvent ℚ)) (ts : TimedStore ℚ)
    (w : JsString),
    StoreRun { maxEntries := 3, evictionSampleSize := 2 } 0 log ts ∧
      (ts.store.set 9 (js "d") (js "4") none).evicted = [w] ∧
      oldest 2 log ts.store.entries.keys = [js "b", js "a"] ∧
      LeastRead log (oldest 2 log ts.store.entries.keys) w := by
  have hrun : ∃ (log : List (StoreEvent ℚ)) (ts : TimedStore ℚ),
      StoreRun { maxEntries := 3, evictionSampleSize := 2 } 0 log ts ∧
        ts.store.evicted = [] ∧ (ts.store.entries.delete (js "d")).size = 3 ∧
        (∀ e ∈ (ts.store.entries.delete (js "d")).entries, e.2.isExpired 9 = false) ∧
        oldest 2 log ts.store.entries.keys = [js "b", js "a"] :=
    exists_run_of_exec [(0, .set (js "a") (js "1") none), (1, .set (js "b") (js "2") none),
      (2, .get (js "a")), (3, .set (js "c") (js "3") none), (4, .get (js "b")),
      (5, .getWithTtl (js "a")), (6, .get (js "c"))] (by decide +kernel)
  obtain ⟨log, ts, h, hnil, hfull, hlive, hold⟩ := hrun
  obtain ⟨w, hev, -, -, -, hw⟩ :=
    ((eviction_discipline (by decide) (by decide) h).2.2.1 9 (js "d") (js "4") none).1
      ⟨hfull, hlive⟩
  exact ⟨log, ts, w, h, by rw [hev, hnil, List.nil_append], hold, hw⟩

end InkCache
