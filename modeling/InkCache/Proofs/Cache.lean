import InkCache.Cache

/-!
# What each store operation does

One lemma an operation. `set` is the one with cases (`SetOutcome`): there is room; some
expired entries make room; or the policy gives up one key. The victim of every policy is the least
read key of a window at the front (`victim_spec`): one entry for lru, `evictionSampleSize` for
access-aware, all of them for lfu.
-/

namespace InkCache

open Lib

variable {ν : Type} {s : CacheStore ν}

abbrev Entries (ν : Type) := OrderedMap JsString (CacheEntry ν)

/-- How far from the front a policy looks for its victim. -/
def CacheStore.window (s : CacheStore ν) (m : Entries ν) : ℕ :=
  match s.policy with
  | .lru => 1
  | .lfu => m.size
  | .accessAware => s.evictionSampleSize

/-- The key the policy gives up from `m`. -/
def CacheStore.victim (s : CacheStore ν) (m : Entries ν) : Option JsString :=
  (CacheStore.leastAccessed none (m.entries.take (s.window m))).map Prod.fst

/-! ## The loop for the least read key -/

theorem leastAccessed_some : ∀ (l : List (JsString × CacheEntry ν)) (k : JsString) (h : ℕ),
    (CacheStore.leastAccessed (some (k, h)) l = some (k, h) ∧ ∀ x ∈ l, h ≤ x.2.hits) ∨
      ∃ l₁ e l₂, l = l₁ ++ e :: l₂ ∧
        CacheStore.leastAccessed (some (k, h)) l = some (e.1, e.2.hits) ∧ e.2.hits < h ∧
        (∀ x ∈ l₁, e.2.hits < x.2.hits) ∧ ∀ x ∈ l₂, e.2.hits ≤ x.2.hits
  | [], k, h => .inl ⟨rfl, by simp⟩
  | (k', e') :: l, k, h => by
    simp only [CacheStore.leastAccessed]
    split_ifs with hlt
    · rcases leastAccessed_some l k' e'.hits with ⟨hr, hl⟩ | ⟨l₁, e, l₂, rfl, hr, he, h₁, h₂⟩
      · exact .inr ⟨[], (k', e'), l, rfl, hr, hlt, by simp, hl⟩
      · refine .inr ⟨(k', e') :: l₁, e, l₂, rfl, hr, he.trans hlt, ?_, h₂⟩
        simp only [List.mem_cons, forall_eq_or_imp]
        exact ⟨he, h₁⟩
    · rcases leastAccessed_some l k h with ⟨hr, hl⟩ | ⟨l₁, e, l₂, rfl, hr, he, h₁, h₂⟩
      · refine .inl ⟨hr, ?_⟩
        simp only [List.mem_cons, forall_eq_or_imp]
        exact ⟨not_lt.1 hlt, hl⟩
      · refine .inr ⟨(k', e') :: l₁, e, l₂, rfl, hr, he, ?_, h₂⟩
        simp only [List.mem_cons, forall_eq_or_imp]
        exact ⟨by omega, h₁⟩

/-- Over a list with an entry, the loop answers the first entry of fewest hits. -/
theorem leastAccessed_spec {l : List (JsString × CacheEntry ν)} (hl : l ≠ []) :
    ∃ l₁ e l₂, l = l₁ ++ e :: l₂ ∧ CacheStore.leastAccessed none l = some (e.1, e.2.hits) ∧
      (∀ x ∈ l₁, e.2.hits < x.2.hits) ∧ ∀ x ∈ l₂, e.2.hits ≤ x.2.hits := by
  obtain ⟨⟨k, e⟩, l, rfl⟩ := List.exists_cons_of_ne_nil hl
  rcases leastAccessed_some l k e.hits with ⟨hr, h⟩ | ⟨l₁, e', l₂, rfl, hr, he, h₁, h₂⟩
  · exact ⟨[], (k, e), l, rfl, hr, by simp, h⟩
  · refine ⟨(k, e) :: l₁, e', l₂, rfl, hr, ?_, h₂⟩
    simp only [List.mem_cons, forall_eq_or_imp]
    exact ⟨he, h₁⟩

/-- The victim is the first of the fewest hits in the window. -/
theorem victim_spec {m : Entries ν} (hm : m.entries ≠ []) (hw : 1 ≤ s.window m) :
    ∃ l₁ e l₂, m.entries.take (s.window m) = l₁ ++ e :: l₂ ∧ s.victim m = some e.1 ∧
      (∀ x ∈ l₁, e.2.hits < x.2.hits) ∧ ∀ x ∈ l₂, e.2.hits ≤ x.2.hits := by
  have hne : m.entries.take (s.window m) ≠ [] := by
    rw [Ne, List.take_eq_nil_iff]
    rintro (h | h)
    · omega
    · exact hm h
  obtain ⟨l₁, e, l₂, hl, hr, h₁, h₂⟩ := leastAccessed_spec hne
  exact ⟨l₁, e, l₂, hl, by rw [CacheStore.victim, hr]; rfl, h₁, h₂⟩

theorem victim_mem {m : Entries ν} {w : JsString} (h : s.victim m = some w) : w ∈ m.keys := by
  rcases hl : m.entries.take (s.window m) with _ | ⟨e, l⟩
  · simp [CacheStore.victim, hl, CacheStore.leastAccessed] at h
  · obtain ⟨l₁, e', l₂, hl', hr, -⟩ := leastAccessed_spec (l := e :: l) (by simp)
    rw [CacheStore.victim, hl, hr] at h
    have hm : e' ∈ m.entries.take (s.window m) := by rw [hl, hl']; simp
    obtain rfl : e'.1 = w := by simpa using h
    exact OrderedMap.mem_keys_of_mem (List.mem_of_mem_take hm)

theorem window_pos {m : Entries ν} (hm : m.entries ≠ []) (hs : 1 ≤ s.evictionSampleSize) :
    1 ≤ s.window m := by
  unfold CacheStore.window OrderedMap.size
  have := List.length_pos_iff.2 hm
  split <;> omega

theorem exists_victim {m : Entries ν} (hm : m.entries ≠ []) (hs : 1 ≤ s.evictionSampleSize) :
    ∃ w, s.victim m = some w := by
  obtain ⟨-, e, -, -, h, -⟩ := victim_spec (s := s) hm (window_pos hm hs)
  exact ⟨e.1, h⟩

theorem evictPolicy_eq (s : CacheStore ν) :
    (match s.policy with
      | .lru => s.evictOldest
      | .lfu => s.evictLFU
      | .accessAware => s.evictLeastAccessed)
      = match s.victim s.entries with
        | none => s
        | some w => s.doEvict w := by
  unfold CacheStore.victim CacheStore.window
  rcases hp : s.policy
  · rcases hl : s.entries.entries with _ | ⟨⟨k, e⟩, l⟩ <;>
      simp [CacheStore.evictOldest, OrderedMap.keys, hl, CacheStore.leastAccessed]
  · simp only [CacheStore.evictLeastAccessed]
    rcases CacheStore.leastAccessed none _ with _ | ⟨w, h⟩ <;> rfl
  · simp only [CacheStore.evictLFU, OrderedMap.size, List.take_length]
    rcases CacheStore.leastAccessed none _ with _ | ⟨w, h⟩ <;> rfl

theorem deleteByPrefix_fst {pre : JsString} : (s.deleteByPrefix pre).1 =
    { s with entries := s.entries.filter fun e => !e.1.startsWith pre } := by
  simp only [CacheStore.deleteByPrefix, OrderedMap.drain_fst]

/-! ## Expiry -/

variable [JsNumber ν] {now : ν} {key : JsString}

/-- The entries that have not expired. -/
def live (now : ν) (m : Entries ν) : Entries ν := m.filter fun e => !e.2.isExpired now

/-- Whether no entry has expired. -/
def AllLive (now : ν) (m : Entries ν) : Prop := ∀ e ∈ m.entries, e.2.isExpired now = false

theorem live_eq_self {m : Entries ν} (h : AllLive now m) : live now m = m :=
  OrderedMap.filter_eq_self fun e he => by simp [h e he]

theorem get?_live {m : Entries ν} {k : JsString} :
    (live now m).get? k = (m.get? k).filter fun e => !e.isExpired now :=
  OrderedMap.get?_filter _

theorem get?_live_eq_some {m : Entries ν} {k : JsString} {e : CacheEntry ν} :
    (live now m).get? k = some e ↔ m.get? k = some e ∧ e.isExpired now = false := by
  rw [get?_live, Option.filter_eq_some_iff, Bool.not_eq_true']

theorem get?_live_none {m : Entries ν} {k : JsString} (h : m.get? k = none) :
    (live now m).get? k = none := by
  rw [get?_live, h]
  rfl

theorem get?_live_expired {m : Entries ν} {k : JsString} {e : CacheEntry ν}
    (h : m.get? k = some e) (hx : e.isExpired now = true) : (live now m).get? k = none := by
  rw [get?_live, h]
  simp [hx]

theorem deadline_live {e : CacheEntry ν} :
    e.isExpired now = false ↔ ∀ d, e.expiresAt = some d → now < d := by
  unfold CacheEntry.isExpired
  rcases h : e.expiresAt with _ | d
  · simp
  · simp

/-- The entry `set` writes. -/
def newEntry (now : ν) (value : JsString) (ttl : Option ν) : CacheEntry ν :=
  { value, expiresAt := deadline now ttl, hits := 0 }

/-! ## Eviction -/

theorem foldl_count {α : Type*} (p : α → Bool) : ∀ (l : List α) (n : ℕ),
    l.foldl (fun n e => if p e then n + 1 else n) n = n + l.countP p
  | [], n => by simp
  | a :: l, n => by
    rw [List.foldl_cons, foldl_count p l, List.countP_cons]
    split_ifs <;> omega

theorem sweep_fst : (s.sweep now).1 = { s with entries := live now s.entries } := by
  simp only [CacheStore.sweep, OrderedMap.drain_fst]
  rfl

theorem sweep_snd : (s.sweep now).2 = s.entries.entries.countP fun e => e.2.isExpired now := by
  simp only [CacheStore.sweep, OrderedMap.drain_snd, foldl_count, zero_add]

theorem sweep_pos_iff : 0 < (s.sweep now).2 ↔ ¬ AllLive now s.entries := by
  rw [sweep_snd, List.countP_pos_iff, AllLive]
  push Not
  simp

theorem evict_of_expired (h : ¬ AllLive now s.entries) :
    s.evict now = { s with entries := live now s.entries } := by
  simp only [CacheStore.evict, if_pos (sweep_pos_iff.2 h), sweep_fst]

theorem evict_of_allLive (h : AllLive now s.entries) :
    s.evict now = match s.victim s.entries with
      | none => s
      | some w => s.doEvict w := by
  have hs : (s.sweep now).1 = s := by rw [sweep_fst, live_eq_self h]
  have h0 : ¬ 0 < (s.sweep now).2 := fun hp => sweep_pos_iff.1 hp h
  simp only [CacheStore.evict, if_neg h0, hs]
  exact evictPolicy_eq s

/-! ## `set` -/

/-- What `set key` inserts into, and the keys it hands to `onEvict` first. -/
inductive SetOutcome (now : ν) (key : JsString) (s : CacheStore ν) :
    Entries ν → List JsString → Prop
  | room (hroom : (s.entries.delete key).size < s.maxEntries) :
      SetOutcome now key s (s.entries.delete key) []
  | reclaimed (hfull : s.maxEntries ≤ (s.entries.delete key).size)
      (hdead : ¬ AllLive now (s.entries.delete key)) :
      SetOutcome now key s (live now (s.entries.delete key)) []
  | evicted (w : JsString) (hfull : s.maxEntries ≤ (s.entries.delete key).size)
      (hlive : AllLive now (s.entries.delete key))
      (hw : s.victim (s.entries.delete key) = some w) :
      SetOutcome now key s ((s.entries.delete key).delete w) [w]
  | noVictim (hfull : s.maxEntries ≤ (s.entries.delete key).size)
      (hlive : AllLive now (s.entries.delete key))
      (hw : s.victim (s.entries.delete key) = none) :
      SetOutcome now key s (s.entries.delete key) []

/-- `set` inserts at the back of what its outcome keeps. -/
theorem set_spec (now : ν) (key value : JsString) (ttl : Option ν) (s : CacheStore ν) :
    ∃ kept out, SetOutcome now key s kept out ∧ s.set now key value ttl =
      { s with
        entries := kept.set key (newEntry now value ttl)
        evictionCount := s.evictionCount + out.length
        evicted := s.evicted ++ out } := by
  set others := s.entries.delete key with ho
  by_cases hfull : s.maxEntries ≤ others.size
  · have hset : s.set now key value ttl = { ({ s with entries := others }).evict now with
        entries := (({ s with entries := others }).evict now).entries.set key
          (newEntry now value ttl) } := by
      simp only [CacheStore.set, CacheStore.size, ← ho, if_pos hfull]
      rfl
    by_cases hl : AllLive now others
    · rcases hv : s.victim others with _ | w
      · refine ⟨others, [], .noVictim hfull hl hv, ?_⟩
        have hv' : ({ s with entries := others }).victim others = none := hv
        rw [hset, evict_of_allLive hl, hv', List.append_nil]
        rfl
      · refine ⟨others.delete w, [w], .evicted w hfull hl hv, ?_⟩
        have hv' : ({ s with entries := others }).victim others = some w := hv
        rw [hset, evict_of_allLive hl, hv']
        rfl
    · refine ⟨live now others, [], .reclaimed hfull hl, ?_⟩
      rw [hset, evict_of_expired hl, List.append_nil]
      rfl
  · refine ⟨others, [], .room (not_le.1 hfull), ?_⟩
    simp only [CacheStore.set, CacheStore.size, ← ho, if_neg hfull, List.append_nil]
    rfl

namespace SetOutcome

variable {kept : Entries ν} {out : List JsString}

/-- What is kept was there before, in the same order, and is not the key being set. -/
theorem sublist (h : SetOutcome now key s kept out) :
    kept.entries.Sublist (s.entries.delete key).entries := by
  cases h with
  | room | noVictim => exact List.Sublist.refl _
  | reclaimed | evicted => exact List.filter_sublist

theorem not_mem (h : SetOutcome now key s kept out) : key ∉ kept.keys := fun hk =>
  OrderedMap.not_mem_keys_delete ((h.sublist.map Prod.fst).subset hk)

/-- An entry not kept was handed to `onEvict` or had expired. -/
theorem get?_kept (h : SetOutcome now key s kept out) {k : JsString} {e : CacheEntry ν}
    (he : (s.entries.delete key).get? k = some e) :
    kept.get? k = some e ∨ kept.get? k = none ∧ (k ∈ out ∨ e.isExpired now = true) := by
  cases h with
  | room | noVictim => exact .inl he
  | reclaimed =>
    rcases hx : e.isExpired now
    · exact .inl (get?_live_eq_some.2 ⟨he, hx⟩)
    · exact .inr ⟨get?_live_expired he hx, .inr rfl⟩
  | evicted w =>
    rw [OrderedMap.get?_delete]
    split_ifs with hk
    · exact .inr ⟨rfl, .inl (by simp [hk])⟩
    · exact .inl he

theorem get?_of_kept (h : SetOutcome now key s kept out) {k : JsString} {e : CacheEntry ν}
    (he : kept.get? k = some e) : k ≠ key ∧ k ∉ out ∧ s.entries.get? k = some e := by
  have hm := OrderedMap.mem_delete.1 (h.sublist.subset (OrderedMap.get?_eq_some.1 he))
  refine ⟨hm.2, fun ho => ?_, OrderedMap.get?_eq_some.2 hm.1⟩
  cases h with
  | room | reclaimed | noVictim => simp at ho
  | evicted w =>
    rw [List.mem_singleton] at ho
    rw [OrderedMap.get?_delete, if_pos ho] at he
    simp at he

end SetOutcome

/-! ## The reads -/

/-- A key that is absent, expired, or live. -/
theorem lookup_cases (now : ν) (m : Entries ν) (key : JsString) :
    m.get? key = none ∨ (∃ e, m.get? key = some e ∧ e.isExpired now = true) ∨
      ∃ e, m.get? key = some e ∧ e.isExpired now = false := by
  rcases m.get? key with _ | e
  · exact .inl rfl
  · rcases he : e.isExpired now
    · exact .inr (.inr ⟨e, rfl, he⟩)
    · exact .inr (.inl ⟨e, rfl, he⟩)

theorem touch_absent (h : s.entries.get? key = none) : s.touch now key = (s, none) := by
  simp [CacheStore.touch, h]

theorem touch_expired {e : CacheEntry ν} (h : s.entries.get? key = some e)
    (hx : e.isExpired now = true) :
    s.touch now key = ({ s with entries := s.entries.delete key }, none) := by
  simp [CacheStore.touch, h, hx]

/-- A successful read counts the entry and moves it to the back. -/
theorem touch_live {e : CacheEntry ν} (h : s.entries.get? key = some e)
    (hx : e.isExpired now = false) :
    s.touch now key = ({ s with
      entries := (s.entries.delete key).set key { e with hits := e.hits + 1 } },
      some { e with hits := e.hits + 1 }) := by
  simp [CacheStore.touch, h, hx]

theorem peek_eq (now : ν) (key : JsString) (s : CacheStore ν) :
    s.peek now key = (if (s.entries.get? key).any (·.isExpired now)
        then { s with entries := s.entries.delete key } else s,
      (live now s.entries).get? key) := by
  rcases lookup_cases now s.entries key with h | ⟨e, h, hx⟩ | ⟨e, h, hx⟩
  · simp [CacheStore.peek, h, get?_live_none h]
  · simp [CacheStore.peek, h, hx, get?_live_expired h hx]
  · simp [CacheStore.peek, h, hx, get?_live_eq_some.2 ⟨h, hx⟩]

/-! ## The loops -/

theorem foldl_unless {α β : Type*} (p : α → Bool) (row : α → β) :
    ∀ (l : List α) (acc : List β),
      l.foldl (fun acc e => if p e then acc else acc ++ [row e]) acc
        = acc ++ (l.filter fun e => !p e).map row
  | [], acc => by simp
  | a :: l, acc => by
    rw [List.foldl_cons, foldl_unless p row l]
    by_cases h : p a <;> simp [h]

/-- The listing loops drop the expired entries and list the live ones in order. -/
theorem listLive_eq {β : Type} (row : JsString → CacheEntry ν → β) :
    s.listLive now row = ({ s with entries := live now s.entries },
      (live now s.entries).entries.map fun e => row e.1 e.2) := by
  simp only [CacheStore.listLive, OrderedMap.drain_fst, OrderedMap.drain_snd,
    foldl_unless (fun e : JsString × CacheEntry ν => e.2.isExpired now) (fun e => row e.1 e.2),
    List.nil_append]
  rfl

end InkCache
