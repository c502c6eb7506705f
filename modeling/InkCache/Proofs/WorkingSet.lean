import InkCache.Proofs.Eviction
import InkCache.Proofs.StoreHistory

/-!
# What is in use is kept

A policy chooses from the few oldest of the keys (`countP_lt_exposed`), and when it does, the store
is full: all the others it holds, and the key that is written, were touched since its victim was. So
a key that is used again before that many others have been is never given up.
-/

namespace InkCache

open Lib

variable {ν : Type} {log es : List (StoreEvent ν)} {opts : CacheStoreOptions} {m : Entries ν}
  {k w key : JsString}

/-! ## Touches -/

theorem mem_touched_of_lastTouch_pos (h : 0 < lastTouch k log) :
    k ∈ log.filterMap StoreEvent.touched := by
  by_contra hk
  have hnone : ∀ e ∈ log.reverse, e.touches k = false := by
    intro e he
    rw [← Bool.not_eq_true]
    intro htouch
    refine hk (List.mem_filterMap.2 ⟨e, List.mem_reverse.1 he, ?_⟩)
    cases e with
    | set key v d =>
      rw [show key = k by simpa [StoreEvent.touches] using htouch]
      rfl
    | read key =>
      rw [show key = k by simpa [StoreEvent.touches] using htouch]
      rfl
    | _ => simp [StoreEvent.touches] at htouch
  have hlength : log.reverse.findIdx (·.touches k) = log.length := by
    rw [List.findIdx_eq_length_of_false hnone, List.length_reverse]
  rw [lastTouch, hlength, Nat.sub_self] at h
  exact h.false

theorem mem_touchedSince : key ∈ touchedSince k log ↔ lastTouch k log < lastTouch key log := by
  rw [touchedSince, Finset.mem_filter, List.mem_toFinset]
  refine ⟨And.right, fun h => ⟨mem_touched_of_lastTouch_pos (Nat.zero_lt_of_lt h), h⟩⟩

/-! ## The victim is one of the oldest -/

theorem countP_lt_exposed (hm : m.size = opts.maxEntries)
    (hw : IsVictim opts log m.keys w) :
    w ∈ m.keys ∧ m.keys.countP (fun k => lastTouch k log < lastTouch w log) < opts.exposed := by
  unfold IsVictim at hw
  unfold CacheStoreOptions.exposed
  rcases hp : opts.policy <;> rw [hp] at hw <;> simp only at hw ⊢
  · obtain ⟨hmem, holdest⟩ := hw
    refine ⟨hmem, Nat.lt_one_iff.2 (List.countP_eq_zero.2 fun k hk => ?_)⟩
    simpa using holdest k hk
  · have hmem := hw.1
    rw [oldest, List.mem_filter] at hmem
    exact ⟨hmem.1, of_decide_eq_true hmem.2⟩
  · refine ⟨hw.1, ?_⟩
    rw [← hm, OrderedMap.size_eq_length_keys]
    refine lt_of_le_of_ne List.countP_le_length fun hall => ?_
    have := List.countP_eq_length.1 hall w hw.1
    simp at this

/-- In order of their touches, the keys before one and after it. -/
theorem length_after (hr : m.keys.Pairwise fun a b => lastTouch a log < lastTouch b log)
    (hw : w ∈ m.keys) :
    ∃ after : List JsString, after.Nodup ∧ (∀ k ∈ after, k ∈ m.keys) ∧
      (∀ k ∈ after, lastTouch w log < lastTouch k log) ∧
      m.size = m.keys.countP (fun k => lastTouch k log < lastTouch w log) + 1 + after.length := by
  obtain ⟨before, after, hsplit⟩ := List.append_of_mem hw
  have hnodup := m.keys_nodup
  rw [OrderedMap.size_eq_length_keys, hsplit]
  rw [hsplit] at hr hnodup
  rw [List.pairwise_append, List.pairwise_cons] at hr
  obtain ⟨-, ⟨hafter, -⟩, hbefore⟩ := hr
  refine ⟨after, (List.nodup_append.1 hnodup).2.1.of_cons, fun k hk => by simp [hk], hafter, ?_⟩
  have hall : before.countP (fun k => lastTouch k log < lastTouch w log) = before.length :=
    List.countP_eq_length.2 fun k hk => decide_eq_true (hbefore k hk w (by simp))
  have hnone : (w :: after).countP (fun k => lastTouch k log < lastTouch w log) = 0 := by
    rw [List.countP_eq_zero]
    intro k hk
    rcases List.mem_cons.1 hk with rfl | hk
    · simp
    · simpa using (hafter k hk).le
  rw [List.countP_append, hall, hnone]
  simp only [List.length_append, List.length_cons]
  omega

/-! ## Evictions -/

variable [JsNumber ν] {now : ν} {s : CacheStore ν}

/-- When a key is given up, more others have been touched since than the policy spares. -/
theorem lt_card_of_evicted (hm : 1 ≤ opts.maxEntries) (hs : 1 ≤ opts.evictionSampleSize)
    (hr : Recency log s.entries) (hb : Bounded opts s) {op : StoreOp ν}
    (hw : .evicted w ∈ op.events now s) :
    ∃ key value d, key ≠ w ∧ op.events now s = [.evicted w, .set key value d] ∧
      opts.maxEntries < (touchedSince w (log ++ op.events now s)).card + opts.exposed := by
  cases op with
  | set key value t =>
    rcases em ((s.entries.delete key).size = opts.maxEntries ∧
      AllLive now (s.entries.delete key)) with ⟨hfull, hlive⟩ | hnot
    swap
    · obtain ⟨hsame, -⟩ := set_of_not_full hb value t hnot
      simp [StoreOp.events, newlyEvicted, hsame] at hw
    obtain ⟨w', hevicted, -, hne, -, hvictim⟩ := set_of_full hm hs hr hb value t hfull hlive
    have hes : (StoreOp.set key value t).events now s =
        [.evicted w', .set key value (deadline now t)] := by
      simp only [StoreOp.events, newlyEvicted, hevicted, List.drop_left]
      rfl
    rw [hes] at hw ⊢
    obtain rfl : w = w' := by simpa using hw
    refine ⟨key, value, deadline now t, hne.symm, rfl, ?_⟩
    have hothers := others_eq_of_full hb hfull
    have hkey : key ∉ s.entries.keys := by
      rw [← hothers]
      exact OrderedMap.not_mem_keys_delete
    have hsize : s.entries.size = opts.maxEntries := by rw [← hfull, hothers]
    obtain ⟨hmem, hfew⟩ := countP_lt_exposed hsize hvictim
    obtain ⟨after, hnodup, hafter, hlater, hlength⟩ := length_after hr.ordered hmem
    have htouch : ∀ k, lastTouch k (log ++ [.evicted w, .set key value (deadline now t)]) =
        if k = key then log.length + 2 else lastTouch k log := by
      intro k
      rw [List.append_cons, lastTouch_append_one,
        lastTouch_append_one_of_not (by simp [StoreEvent.touches])]
      simp [StoreEvent.touches, eq_comm]
    have hkeyafter : key ∉ after := fun h => hkey (hafter key h)
    have hsub : (key :: after).toFinset ⊆
        touchedSince w (log ++ [.evicted w, .set key value (deadline now t)]) := by
      intro k hk
      rw [mem_touchedSince, htouch, htouch, if_neg hne]
      rcases List.mem_cons.1 (List.mem_toFinset.1 hk) with rfl | hk
      · rw [if_pos rfl]
        exact lastTouch_le.trans_lt (Nat.lt_add_of_pos_right Nat.two_pos)
      · rw [if_neg (ne_of_mem_of_not_mem hk hkeyafter)]
        exact hlater k hk
    have hcard := Finset.card_le_card hsub
    rw [List.toFinset_card_of_nodup (List.nodup_cons.2 ⟨hkeyafter, hnodup⟩),
      List.length_cons] at hcard
    omega
  | get | getWithTtl =>
    simp only [StoreOp.events] at hw
    split_ifs at hw <;> simp at hw
  | _ => simp [StoreOp.events] at hw

/-- A key in use is never given up. -/
theorem kept_of_inUse (hm : 1 ≤ opts.maxEntries) (hs : 1 ≤ opts.evictionSampleSize) {t₀ : ν}
    {ts : TimedStore ν} (h : StoreRun opts t₀ log ts) {v : JsString} {d : Option ν}
    (huse : InUse opts k log)
    (hset : mostRecent k (log.filter (·.isAcknowledged)) = some (.set k v d)) :
    mostRecent k log = some (.set k v d) := by
  refine h.invariant_reached (I := fun log _ => InUse opts k log →
    mostRecent k (log.filter (·.isAcknowledged)) = some (.set k v d) →
      mostRecent k log = some (.set k v d)) (fun _ hset => hset) ?_ huse hset
  rintro log ts ⟨now, op⟩ ts' es hrun ih - hstep huse hset
  obtain ⟨-, rfl⟩ := Prod.mk.inj (Option.some.inj hstep)
  rcases mostRecent_or_evicted hset with hkept | hgone
  · exact hkept
  exfalso
  rcases hes : mostRecent k (op.events now ts.store) with _ | e
  · -- nothing was said of the key, so it was given up before
    have hsilent : ∀ e ∈ op.events now ts.store, e.concerns k = false := by
      rw [mostRecent, List.getLast?_eq_none_iff, List.filter_eq_nil_iff] at hes
      exact fun e he => Bool.eq_false_of_not_eq_true (hes e he)
    have hnone : mostRecent k ((op.events now ts.store).filter (·.isAcknowledged)) = none := by
      rw [mostRecent, List.getLast?_eq_none_iff, List.filter_eq_nil_iff]
      intro e he
      rw [hsilent e (List.mem_of_mem_filter he)]
      exact Bool.false_ne_true
    have hearlier : InUse opts k log := by
      rintro before after rfl hafter
      refine huse before (after ++ op.events now ts.store) (List.append_assoc ..) ?_
      exact fun e he hack => (List.mem_append.1 he).elim (hafter e · hack) (hsilent e)
    rw [List.filter_append, mostRecent_append, hnone, Option.none_or] at hset
    rw [mostRecent_append, hes, Option.none_or] at hgone
    have hbefore := ih hearlier hset
    rw [hgone] at hbefore
    cases hbefore
  · rw [mostRecent_append, hes, Option.some_or, Option.some.injEq] at hgone
    subst hgone
    obtain ⟨hr, hb⟩ := recency_bounded hm hs hrun
    obtain ⟨-, -, -, -, -, hmany⟩ := lt_card_of_evicted hm hs hr hb
      (List.mem_of_mem_filter (List.mem_of_getLast? hes))
    exact (huse _ [] (List.append_nil _).symm (by simp)).not_gt hmany

/-- The working set is kept: whatever else is asked of the store, a key that was written, and not
written or deleted again since, is read with its value until its deadline, as long as it is used
again, by a read or a write, before more others are than the policy spares. -/
theorem working_set_kept (hm : 1 ≤ opts.maxEntries) (hs : 1 ≤ opts.evictionSampleSize) {t₀ : ν}
    {ts : TimedStore ν} (h : StoreRun opts t₀ log ts) {v : JsString} {d : Option ν}
    (hset : mostRecent k (log.filter (·.isAcknowledged)) = some (.set k v d))
    (huse : InUse opts k log) (hnow : ts.clock ≤ now) (hfresh : ∀ x ∈ d, now < x) :
    (ts.store.get now k).2 = some v ∧
      (ts.store.getWithTtl now k).2.map ValueWithTtl.value = some v := by
  have hlast := kept_of_inUse hm hs h huse hset
  have hexpected : expected now k log = some v := by
    rw [expected, hlast]
    rcases d with _ | x
    · rfl
    · exact if_pos (hfresh x rfl)
  rw [expected_eq (tracks h) hnow, ← touch_snd_value] at hexpected
  refine ⟨hexpected, ?_⟩
  rw [CacheStore.getWithTtl, Option.map_map]
  exact hexpected

deriving instance DecidableEq for StoreEvent

/-- With room for two, `a` is given up, written again, and outlives `c`, because it is read in
between. -/
theorem working_set_kept_lru : ∃ (log : List (StoreEvent ℚ)) (ts : TimedStore ℚ),
    StoreRun { maxEntries := 2, policy := .lru } 0 log ts ∧
      ts.store.evicted = [js "a", js "b", js "c"] ∧
      (ts.store.get 9 (js "a")).2 = some (js "1") := by
  have hrun : ∃ (log : List (StoreEvent ℚ)) (ts : TimedStore ℚ),
      StoreRun { maxEntries := 2, policy := .lru } 0 log ts ∧
        ts.store.evicted = [js "a", js "b", js "c"] ∧
        ts.clock ≤ 9 ∧ mostRecent (js "a") (log.filter (·.isAcknowledged)) =
          some (.set (js "a") (js "1") none) ∧
        ∀ n ∈ List.range (log.length + 1),
          (∀ e ∈ log.drop n, e.isAcknowledged = true → e.concerns (js "a") = false) →
            (touchedSince (js "a") (log.take n)).card + 1 ≤ 2 :=
    exists_run_of_exec [(0, .set (js "a") (js "1") none), (1, .set (js "b") (js "2") none),
      (2, .set (js "c") (js "3") none), (3, .set (js "a") (js "1") none), (4, .get (js "a")),
      (5, .set (js "d") (js "4") none)] (by decide +kernel)
  obtain ⟨log, ts, h, hevicted, hclock, hset, huse⟩ := hrun
  have hinuse : InUse { maxEntries := 2, policy := .lru } (js "a") log := by
    rintro before after rfl hafter
    have hn := huse before.length (List.mem_range.2 (by rw [List.length_append]; omega))
    rw [List.drop_left, List.take_left] at hn
    exact hn hafter
  have hget := working_set_kept (by decide) (by decide) h hset hinuse hclock (by simp)
  exact ⟨log, ts, h, hevicted, hget.1⟩

end InkCache
