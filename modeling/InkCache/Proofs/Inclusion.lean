import InkCache.Lib.Within
import InkCache.Proofs.LiveView

/-!
# More capacity never hurts under lru

The live entries of the smaller store are those of the larger, in the same order, with at most as
many missing as the capacities differ by (`Included`). So when the larger gives its oldest key up,
the smaller is full too and gives its own oldest up, which is no younger.
-/

namespace InkCache

open Lib

variable {ν : Type} {s : CacheStore ν} {key : JsString} {m n n' : ℕ}

/-- An lru store of capacity `m`; the sample size is not looked at. -/
def lruOptions (m n : ℕ) : CacheStoreOptions where
  maxEntries := m
  policy := .lru
  evictionSampleSize := n

/-- What lru spares: all but the oldest entry, if the others fill the capacity. -/
theorem spared_lru (hp : s.policy = .lru) (hm : 1 ≤ s.maxEntries) (others : Entries ν) :
    (s.spared others).1.entries = makeRoom s.maxEntries others.entries := by
  by_cases hroom : others.size < s.maxEntries
  · have hnot : ¬ s.maxEntries ≤ others.entries.length := hroom.not_ge
    rw [CacheStore.spared, if_pos hroom, makeRoom, if_neg hnot]
  · have hfull : s.maxEntries ≤ others.entries.length := not_lt.1 hroom
    rcases hl : others.entries with _ | ⟨e, rest⟩
    · rw [hl, List.length_nil] at hfull
      omega
    · have hw : s.victim others = some e.1 := by
        simp [CacheStore.victim, CacheStore.window, hp, hl, CacheStore.leastAccessed]
      rw [spared_of_some hfull hw, OrderedMap.entries_delete_head hl, ← hl, makeRoom,
        if_pos hfull, hl, List.tail_cons]

theorem Capped.size_le_of_lru (h : Capped s) (hp : s.policy = .lru) (hm : 1 ≤ s.maxEntries) :
    s.size ≤ s.maxEntries := by
  rcases h with h | h
  · rwa [max_eq_left hm] at h
  · have hnil : s.entries.entries = [] := by
      by_contra hne
      obtain ⟨-, e, -, -, hv, -⟩ := victim_spec (s := s) hne (by simp [CacheStore.window, hp])
      rw [h] at hv
      simp at hv
    rw [CacheStore.size, OrderedMap.size, hnil]
    exact Nat.zero_le _

variable [JsNumber ν] {now : ν}

/-- What a lookup makes of the live entries. -/
theorem live_touch (s : CacheStore ν) : (live now (s.touch now key).1.entries).entries =
    match (live now s.entries).get? key with
    | none => (live now s.entries).entries
    | some e => ((live now s.entries).delete key).entries ++
        [(key, { e with hits := e.hits + 1 })] := by
  rcases lookup_cases now s.entries key with h | ⟨e, h, hx⟩ | ⟨e, h, hx⟩
  · rw [touch_absent h, get?_live_none h]
  · rw [touch_expired h hx, get?_live_expired h hx]
    simp only [live_delete_expired h hx]
  · have hx' : ({ e with hits := e.hits + 1 } : CacheEntry ν).isExpired now = false := hx
    rw [touch_live h hx, get?_live_eq_some.2 ⟨h, hx⟩,
      entries_live_set OrderedMap.not_mem_keys_delete, live_delete, hx']
    rfl

/-! ## One store within the other -/

/-- An lru store within its capacity. -/
structure LruStore (m : ℕ) (s : CacheStore ν) : Prop where
  capped : Capped s
  policy : s.policy = .lru
  maxEntries : s.maxEntries = m

theorem LruStore.apply (h : LruStore m s) (now : ν) (op : StoreOp ν) :
    LruStore m (op.apply now s) := by
  have hopts := options_apply s now op
  exact ⟨capped_apply h.capped now op, (congrArg (·.policy) hopts).trans h.policy,
    (congrArg (·.maxEntries) hopts).trans h.maxEntries⟩

theorem LruStore.size_others_le (h : LruStore m s) (hm : 1 ≤ m) (now : ν) (key : JsString) :
    ((live now s.entries).delete key).entries.length ≤ m := by
  have hmax : 1 ≤ s.maxEntries := h.maxEntries.symm ▸ hm
  have hsize := h.capped.size_le_of_lru h.policy hmax
  rw [h.maxEntries] at hsize
  exact ((List.length_filter_le _ _).trans (size_live_le s.entries)).trans hsize

/-- The live entries after `set`. -/
theorem LruStore.entries_set (h : LruStore m s) (hm : 1 ≤ m) (now : ν) (key value : JsString)
    (ttl : Option ν) : (live now (s.set now key value ttl).entries).entries =
      (makeRoom m ((live now s.entries).delete key).entries ++
        [(key, newEntry now value ttl)]).filter fun e => !e.2.isExpired now := by
  rw [live_set h.capped, live, OrderedMap.entries_filter,
    OrderedMap.entries_set_new (not_mem_keys_spared OrderedMap.not_mem_keys_delete),
    spared_lru h.policy (h.maxEntries.symm ▸ hm), h.maxEntries]

variable {small large : CacheStore ν} {m' : ℕ}

theorem within_touch {d : ℕ} (h : Within d (live now small.entries).entries
      (live now large.entries).entries) (key : JsString) :
    Within d (live now (small.touch now key).1.entries).entries
      (live now (large.touch now key).1.entries).entries := by
  rw [live_touch, live_touch]
  rcases hs : (live now small.entries).get? key with _ | e
  · rcases hl : (live now large.entries).get? key with _ | e
    · exact h
    · -- only the larger store has the key, and moves it to the back
      refine h.replace (a := (key, e)) (fun x hx => ?_) (OrderedMap.get?_eq_some.1 hl) (by simp) _
      rw [OrderedMap.get?_eq_none] at hs
      simp only [ne_eq, decide_not, Bool.not_eq_true', decide_eq_false_iff_not]
      exact fun hk => hs (hk ▸ OrderedMap.mem_keys_of_mem hx)
  · have hl : (live now large.entries).get? key = some e :=
      OrderedMap.get?_eq_some.2 (h.1.subset (OrderedMap.get?_eq_some.1 hs))
    rw [hl]
    exact (h.filter _).append _

theorem within_apply (hm : 1 ≤ m) (hle : m ≤ m') (hs : LruStore m small) (hl : LruStore m' large)
    (h : Within (m' - m) (live now small.entries).entries (live now large.entries).entries)
    (op : StoreOp ν) : Within (m' - m) (live now (op.apply now small).entries).entries
      (live now (op.apply now large).entries).entries := by
  by_cases hop : op.isCleanup = true
  · have hclean : ∀ s : CacheStore ν, live now (op.apply now s).entries = live now s.entries :=
      fun s => congrArg CacheStore.entries (purged_cleanup hop s)
    rwa [hclean, hclean]
  cases op with
  | set key value t =>
    simp only [StoreOp.apply, hs.entries_set hm, hl.entries_set (hm.trans hle)]
    exact (((h.filter _).makeRoom hm hle (hs.size_others_le hm now key)
      (hl.size_others_le (hm.trans hle) now key)).append _).filter _
  | get key | getWithTtl key => exact within_touch h key
  | delete key =>
    simp only [StoreOp.apply, CacheStore.delete, live_delete]
    exact h.filter _
  | deleteByPrefix pre =>
    simp only [StoreOp.apply, deleteByPrefix_fst, live_filter]
    exact h.filter _
  | accessCount key => exact h
  | clear => exact ⟨List.nil_sublist _, Nat.zero_le _⟩
  | has | ttl | keys | detailedKeys | exportEntries | sweep => exact absurd rfl hop

/-! ## Runs -/

variable {p p' : TwinStores ν} {a : TwinAction ν} {log es : List Empty}

structure Included (m m' : ℕ) (p : TwinStores ν) : Prop where
  plain : LruStore m p.plain
  other : LruStore m' p.other
  within : Within (m' - m) (live p.clock p.plain.entries).entries
    (live p.clock p.other.entries).entries

theorem Included.within_of_le (h : Included m m' p) (hle : p.clock ≤ now) :
    Within (m' - m) (live now p.plain.entries).entries (live now p.other.entries).entries := by
  rw [← live_of_le hle p.plain.entries, ← live_of_le hle p.other.entries]
  exact h.within.filter _

theorem Included.step (hm : 1 ≤ m) (hle : m ≤ m') (h : Included m m' p) (hP : Together p a)
    (hs : twinStep p a = some (p', es)) : Included m m' p' := by
  cases a with
  | both now op =>
    simp only [twinStep, Option.some.injEq, Prod.mk.injEq] at hs
    obtain ⟨rfl, -⟩ := hs
    exact ⟨h.plain.apply now op, h.other.apply now op,
      within_apply hm hle h.plain h.other (h.within_of_le hP) op⟩
  | extra now op => exact hP.elim

/-- After the same operations, the store of capacity `m` has no live entry that the store of
capacity `m'` does not have, and no read hits in it that misses in the other. -/
theorem more_capacity (hm : 1 ≤ m) (hle : m ≤ m') (t₀ : ν)
    (h : Run twinStep Together
      ⟨t₀, CacheStore.new (lruOptions m n), CacheStore.new (lruOptions m' n')⟩ log p) :
    (∀ k e, (live p.clock p.plain.entries).get? k = some e →
      (live p.clock p.other.entries).get? k = some e) ∧
    ∀ (now : ν) (k : JsString), p.clock ≤ now →
      (∀ v, (p.plain.get now k).2 = some v → (p.other.get now k).2 = some v) ∧
      ∀ r, (p.plain.getWithTtl now k).2 = some r → (p.other.getWithTtl now k).2 = some r := by
  have hinv : Included m m' p :=
    h.invariant (I := fun _ p => Included m m' p)
      ⟨⟨capped_new _, rfl, rfl⟩, ⟨capped_new _, rfl, rfl⟩, .nil⟩
      fun hI hP hs => hI.step hm hle hP hs
  have hlive : ∀ now, p.clock ≤ now → ∀ k e, (live now p.plain.entries).get? k = some e →
      (live now p.other.entries).get? k = some e := fun now hnow k e he =>
    OrderedMap.get?_eq_some.2
      ((hinv.within_of_le hnow).1.subset (OrderedMap.get?_eq_some.1 he))
  refine ⟨hlive p.clock le_rfl, fun now k hnow => ⟨fun v hv => ?_, fun r hr => ?_⟩⟩
  · simp only [CacheStore.get, touch_snd, Option.map_map, Option.map_eq_some_iff] at hv ⊢
    obtain ⟨e, he, hv⟩ := hv
    exact ⟨e, hlive now hnow k e he, hv⟩
  · simp only [CacheStore.getWithTtl, touch_snd, Option.map_map, Option.map_eq_some_iff] at hr ⊢
    obtain ⟨e, he, hr⟩ := hr
    exact ⟨e, hlive now hnow k e he, hr⟩

/-- A read that hits only in the larger store keeps its key there. -/
theorem more_capacity_read : ∃ (log : List Empty) (p : TwinStores ℚ),
    Run twinStep Together
      ⟨0, CacheStore.new (lruOptions 1 5), CacheStore.new (lruOptions 2 5)⟩ log p ∧
    p.plain.entries.keys = [js "c"] ∧ p.other.entries.keys = [js "a", js "c"] ∧
    ∀ v, (p.plain.get 5 (js "c")).2 = some v → (p.other.get 5 (js "c")).2 = some v := by
  have hrun : ∃ (log : List Empty) (p : TwinStores ℚ),
      Run twinStep Together
        ⟨0, CacheStore.new (lruOptions 1 5), CacheStore.new (lruOptions 2 5)⟩ log p ∧
      p.plain.entries.keys = [js "c"] ∧ p.other.entries.keys = [js "a", js "c"] ∧ p.clock ≤ 5 :=
    exists_run_of_exec [.both 0 (.set (js "a") (js "1") none),
      .both 1 (.set (js "b") (js "2") none), .both 2 (.get (js "a")),
      .both 3 (.set (js "c") (js "3") none)] (by decide +kernel)
  obtain ⟨log, p, h, hplain, hother, hclock⟩ := hrun
  exact ⟨log, p, h, hplain, hother,
    ((more_capacity (by decide) (by decide) 0 h).2 5 (js "c") hclock).1⟩

end InkCache
