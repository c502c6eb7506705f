import InkCache.Proofs.Eviction
import InkCache.Proofs.Persistence

/-!
# A snapshot is loaded as it was saved

The rows of a snapshot have distinct keys and are all live, so that loading them into an empty
store of capacity `m` pushes out the rows at the front: nothing has been read, so every policy
gives up the front (`victim_of_unread`), and the store always holds the last `m` rows set
(`loadRows_entries`). What a valid write stores is valid again when it comes back as a row
(`exported_acceptable`).
-/

namespace InkCache

open Lib

variable {ν : Type} {s : CacheStore ν}

/-! ## Loading into an empty store -/

/-- Where nothing has been read, the victim of every policy is the front. -/
theorem victim_of_unread {m : Entries ν} {e : JsString × CacheEntry ν}
    {l : List (JsString × CacheEntry ν)} (hm : m.entries = e :: l)
    (h0 : ∀ x ∈ m.entries, x.2.hits = 0) (hs : 1 ≤ s.evictionSampleSize) :
    s.victim m = some e.1 := by
  have hne : m.entries ≠ [] := by simp [hm]
  have hw := window_pos (s := s) hne hs
  obtain ⟨l₁, e', l₂, htake, hv, hlt, -⟩ := victim_spec (s := s) hne hw
  rcases l₁ with _ | ⟨x, l₁⟩
  · obtain ⟨n, hn⟩ := Nat.exists_eq_add_of_le' hw
    rw [hn, hm, List.take_succ_cons, List.nil_append, List.cons.injEq] at htake
    rw [hv, htake.1]
  · have hx : x ∈ m.entries.take (s.window m) := by simp [htake]
    have hx := List.mem_of_mem_take hx
    have := hlt x (by simp)
    rw [h0 x hx] at this
    omega

theorem persistedEntry_toJson (row : SnapshotRow ν) :
    persistedEntry row.toJson = some ⟨row.key, row.value, .value (ttlJson row.ttl)⟩ := rfl

theorem snapshotRow_toJson (row : SnapshotRow ν) : snapshotRow row.toJson = some row := by
  have hkey : readField row.toJson (js "key") = .value (.str row.key) := rfl
  have hvalue : readField row.toJson (js "value") = .value (.str row.value) := rfl
  have httl : rowTtl (readField row.toJson (js "ttl")) = some row.ttl := by
    have hread : readField row.toJson (js "ttl") = .value (ttlJson row.ttl) := rfl
    rw [hread]
    cases row.ttl <;> rfl
  simp only [snapshotRow, hkey, hvalue, httl]

variable [JsNumber ν] {now : ν} {k : JsString}

/-- The entry a row is loaded as. -/
def SnapshotRow.toEntry (now : ν) (row : SnapshotRow ν) : JsString × CacheEntry ν :=
  (row.key, newEntry now row.value row.ttl)

/-- A store without reads and without dead entries that holds at most its capacity. -/
structure Unread (now : ν) (s : CacheStore ν) : Prop where
  unread : ∀ e ∈ s.entries.entries, e.2.hits = 0
  live : AllLive now s.entries
  size : s.size ≤ s.maxEntries

/-- A new key pushes out the front of a full store. -/
theorem set_unread (h : Unread now s) (hm : 1 ≤ s.maxEntries) (hs : 1 ≤ s.evictionSampleSize)
    {row : SnapshotRow ν} (hkey : row.key ∉ s.entries.keys) :
    (s.set now row.key row.value row.ttl).entries.entries
      = (s.entries.entries ++ [row.toEntry now]).rtake s.maxEntries := by
  obtain ⟨kept, out, hout, hset⟩ := set_spec now row.key row.value row.ttl s
  have hd : s.entries.delete row.key = s.entries := OrderedMap.delete_of_not_mem hkey
  have hsize : s.entries.entries.length ≤ s.maxEntries := h.size
  have hpush : (s.set now row.key row.value row.ttl).entries.entries
      = kept.entries ++ [row.toEntry now] := by
    rw [hset]
    exact OrderedMap.entries_set_new hout.not_mem
  rw [hpush]
  cases hout with
  | room hroom =>
    rw [hd, OrderedMap.size] at hroom
    rw [hd, List.rtake, List.length_append, List.length_singleton,
      Nat.sub_eq_zero_of_le hroom, List.drop_zero]
  | reclaimed _ hdead =>
    rw [hd] at hdead
    exact absurd h.live hdead
  | evicted w hfull _ hw =>
    rw [hd] at hfull hw ⊢
    rw [OrderedMap.size] at hfull
    obtain ⟨e, l, hl⟩ := List.exists_cons_of_length_pos (hm.trans hfull)
    rw [victim_of_unread hl h.unread hs, Option.some.injEq] at hw
    obtain rfl := hw
    rw [OrderedMap.entries_delete_head hl, ← hsize.antisymm hfull, hl]
    simp [List.rtake]
  | noVictim hfull _ hw =>
    rw [hd] at hfull hw
    rw [OrderedMap.size] at hfull
    obtain ⟨e, l, hl⟩ := List.exists_cons_of_length_pos (hm.trans hfull)
    rw [victim_of_unread hl h.unread hs] at hw
    simp at hw

/-- The options of a store, which no operation changes. -/
theorem set_options (now : ν) (key value : JsString) (ttl : Option ν) (s : CacheStore ν) :
    (s.set now key value ttl).maxEntries = s.maxEntries ∧
      (s.set now key value ttl).evictionSampleSize = s.evictionSampleSize := by
  obtain ⟨kept, out, -, hset⟩ := set_spec now key value ttl s
  rw [hset]
  exact ⟨rfl, rfl⟩

theorem rtake_rtake_concat {α : Type*} (l : List α) (x : α) {m : ℕ} (hm : 1 ≤ m) :
    (l.rtake m ++ [x]).rtake m = (l ++ [x]).rtake m := by
  obtain ⟨n, rfl⟩ := Nat.exists_eq_add_of_le' hm
  rw [List.rtake_concat_succ, List.rtake_concat_succ]
  simp [List.rtake_eq_reverse_take_reverse, List.take_take]

theorem mem_of_mem_rtake {α : Type*} {l : List α} {x : α} {m : ℕ} (h : x ∈ l.rtake m) : x ∈ l :=
  List.mem_of_mem_drop h

/-- Loading rows with distinct keys, all live, into an empty store leaves the last of them. -/
theorem loadRows_entries (hempty : s.entries = .empty) (hm : 1 ≤ s.maxEntries)
    (hs : 1 ≤ s.evictionSampleSize) (rows : List (SnapshotRow ν))
    (hnodup : (rows.map SnapshotRow.key).Nodup)
    (hlive : ∀ row ∈ rows, (row.toEntry now).2.isExpired now = false) :
    (loadRows now s rows).entries.entries
        = (rows.map (SnapshotRow.toEntry now)).rtake s.maxEntries ∧
      (loadRows now s rows).maxEntries = s.maxEntries ∧
      (loadRows now s rows).evictionSampleSize = s.evictionSampleSize := by
  induction rows using List.reverseRecOn with
  | nil => simp [loadRows, hempty, OrderedMap.empty]
  | append_singleton rows row ih =>
    rw [List.map_append, List.nodup_append] at hnodup
    obtain ⟨he, hmax, hsample⟩ := ih hnodup.1 fun r hr => hlive r (List.mem_append_left _ hr)
    have hload : loadRows now s (rows ++ [row])
        = (loadRows now s rows).set now row.key row.value row.ttl := by
      simp [loadRows]
    have hopts := set_options now row.key row.value row.ttl (loadRows now s rows)
    have hmem : ∀ e ∈ (loadRows now s rows).entries.entries, ∃ r ∈ rows, r.toEntry now = e :=
      fun e hr => List.mem_map.1 (mem_of_mem_rtake (he ▸ hr))
    have hunread : Unread now (loadRows now s rows) := by
      refine ⟨fun e he' => ?_, fun e he' => ?_, ?_⟩
      · obtain ⟨r, -, rfl⟩ := hmem e he'
        rfl
      · obtain ⟨r, hr, rfl⟩ := hmem e he'
        exact hlive r (List.mem_append_left _ hr)
      · rw [CacheStore.size, OrderedMap.size, he, hmax, List.rtake, List.length_drop]
        omega
    have hkey : row.key ∉ (loadRows now s rows).entries.keys := by
      intro hk
      obtain ⟨e, he', hke⟩ := List.mem_map.1 hk
      obtain ⟨r, hr, rfl⟩ := hmem e he'
      exact hnodup.2.2 r.key (List.mem_map_of_mem hr) row.key (by simp) hke
    rw [hload, hopts.1, hopts.2, hmax, hsample,
      set_unread hunread (hmax ▸ hm) (hsample ▸ hs) hkey, he, hmax, List.map_append]
    exact ⟨rtake_rtake_concat _ _ hm, rfl, rfl⟩

/-! ## The loaders -/

theorem loadEntries_toJson (T : NumberText ν) (exhausts : List (Json ν) → Bool) :
    ∀ (rows : List (SnapshotRow ν)) (loaded : ℕ) (s : CacheStore ν),
      loadEntries T exhausts now (rows.map SnapshotRow.toJson) loaded s
        = (loadRows now s rows, .ok (loaded + rows.length))
  | [], loaded, s => rfl
  | row :: rows, loaded, s => by
    have ht : ttlNumber T exhausts (.value (ttlJson row.ttl)) = .ok row.ttl := by
      cases row.ttl <;> rfl
    rw [List.map_cons, loadEntries, persistedEntry_toJson]
    simp only [ht, loadEntries_toJson T exhausts rows, loadRows, List.foldl_cons, List.length_cons,
      add_assoc, add_comm 1]

/-- `loadSnapshot` sets the rows of the snapshot that was saved. -/
theorem loadSnapshot_rows {parse : JsString → Option (Json ν)} {T : NumberText ν}
    {exhausts : List (Json ν) → Bool} {raw : JsString} {rows : List (SnapshotRow ν)}
    (h : parse raw = some (snapshotJson rows)) : loadSnapshot parse T exhausts now (.text raw) s
      = (loadRows now s rows, .ok (some rows.length)) := by
  have hkeys : keysArray (snapshotJson rows) = some (rows.map SnapshotRow.toJson) := rfl
  rw [loadSnapshot_keys h (by simp [snapshotJson]), hkeys]
  simp only [loadEntries_toJson, zero_add]
  rfl

theorem snapshotRows_body (rows : List (SnapshotRow ν)) :
    snapshotRows (snapshotBody rows) = some rows := by
  have hkeys : readField (snapshotBody rows) (js "keys")
      = .value (.arr (rows.map SnapshotRow.toJson)) := rfl
  have hrows : (rows.map SnapshotRow.toJson).mapM snapshotRow = some rows := by
    induction rows with
    | nil => rfl
    | cons row rows ih =>
      rw [List.map_cons, List.mapM_cons, snapshotRow_toJson, ih rfl]
      rfl
  simp only [snapshotRows, hkeys, hrows]

/-- `syncFromPrimary` sets the rows of the snapshot it is answered. -/
theorem loadBody_rows (rows : List (SnapshotRow ν)) :
    loadBody now s (snapshotBody rows) = some (loadRows now s rows, rows.length) := by
  rw [loadBody, snapshotRows_body]
  rfl

/-- What `validateEntry` asks of an entry. -/
def Acceptable (maxKeyLength : ℕ) (now : ν) (key : JsString) (ttl : Option ν) : Prop :=
  key.trim.length ≠ 0 ∧ key.length ≤ maxKeyLength ∧ ∀ t ∈ ttl, JsNumber.isFinite t = true ∧ 0 < t ∧
    JsNumber.isFinite (now + t * msPerSecond) = true

instance (maxKeyLength : ℕ) (now : ν) (key : JsString) (ttl : Option ν) :
    Decidable (Acceptable maxKeyLength now key ttl) :=
  inferInstanceAs (Decidable (_ ∧ _ ∧ ∀ t ∈ ttl, _ = true ∧ 0 < t ∧ _ = true))

variable {maxKeyLength : ℕ} {value : JsString} {ttl : Option ν}

theorem validateTtl_ok {given : PropertyValue ν} (h : validateTtl now given = .ok ttl) :
    ∀ t ∈ ttl, JsNumber.isFinite t = true ∧ 0 < t ∧
      JsNumber.isFinite (now + t * msPerSecond) = true := by
  unfold validateTtl at h
  split at h
  · simp [(Except.ok.inj h).symm]
  · simp [(Except.ok.inj h).symm]
  · split_ifs at h with hc
    rintro t rfl
    obtain rfl := Option.some.inj (Except.ok.inj h)
    exact hc
  · simp at h

theorem acceptable_of_validateEntry {body : Option (Json ν)}
    (h : validateEntry maxKeyLength now body = .ok ⟨k, value, ttl⟩) :
    Acceptable maxKeyLength now k ttl := by
  simp only [validateEntry] at h
  split at h
  · split_ifs at h with hblank hlong
    split at h
    · split at h
      · rename_i hv
        obtain ⟨rfl, rfl, rfl⟩ := ValidatedEntry.mk.inj (Except.ok.inj h)
        exact ⟨hblank, not_lt.1 hlong, validateTtl_ok hv⟩
      · simp at h
    · simp at h
  · simp at h

theorem validateEntry_toJson {row : SnapshotRow ν}
    (h : Acceptable maxKeyLength now row.key row.ttl) :
    validateEntry maxKeyLength now (some row.toJson) = .ok ⟨row.key, row.value, row.ttl⟩ := by
  obtain ⟨key, value, ttl⟩ := row
  obtain ⟨hblank, hlong, hfin⟩ := h
  have hkey : readField (orEmpty (some (SnapshotRow.toJson ⟨key, value, ttl⟩))) (js "key")
      = .value (.str key) := rfl
  have hvalue : readField (orEmpty (some (SnapshotRow.toJson ⟨key, value, ttl⟩))) (js "value")
      = .value (.str value) := rfl
  have hread : readField (orEmpty (some (SnapshotRow.toJson ⟨key, value, ttl⟩))) (js "ttl")
      = .value (ttlJson ttl) := by cases ttl <;> rfl
  have httl : validateTtl now (.value (ttlJson ttl)) = .ok ttl := by
    rcases ttl with _ | t
    · rfl
    · exact if_pos (hfin t rfl)
  simp only [validateEntry, hkey, hvalue, hread, httl, if_neg hblank, if_neg (not_lt.2 hlong)]

theorem validateEntry_iff : (∃ body, validateEntry maxKeyLength now body = .ok ⟨k, value, ttl⟩) ↔
    Acceptable maxKeyLength now k ttl :=
  ⟨fun ⟨_, h⟩ => acceptable_of_validateEntry h,
    fun h => ⟨some (SnapshotRow.toJson ⟨k, value, ttl⟩), validateEntry_toJson h⟩⟩

instance (ts : TimedStore ν) : ∀ a, Decidable (ValidWrite maxKeyLength ts a)
  | (now, .set key _ ttl) =>
    decidable_of_iff (ts.clock ≤ now ∧ Acceptable maxKeyLength now key ttl)
      (and_congr_right fun _ => validateEntry_iff.symm)
  | (now, .get _) | (now, .getWithTtl _) | (now, .delete _) | (now, .deleteByPrefix _)
  | (now, .has _) | (now, .ttl _) | (now, .accessCount _) | (now, .keys) | (now, .detailedKeys)
  | (now, .exportEntries) | (now, .sweep) | (now, .clear) =>
    inferInstanceAs (Decidable (ts.clock ≤ now ∧ True))

theorem validateAll_toJson : ∀ (rows : List (SnapshotRow ν)) (i : ℕ),
    (∀ row ∈ rows, Acceptable maxKeyLength now row.key row.ttl) →
      App.validateAll maxKeyLength now i (rows.map SnapshotRow.toJson)
        = .ok (rows.map fun row => ⟨row.key, row.value, row.ttl⟩)
  | [], _, _ => rfl
  | row :: rows, i, h => by
    rw [List.forall_mem_cons] at h
    simp only [List.map_cons, App.validateAll, validateEntry_toJson h.1,
      validateAll_toJson rows (i + 1) h.2]

/-- `POST /restore` sets the rows of the snapshot too, if all are accepted. -/
theorem postRestore_rows {app : App ν} {rows : List (SnapshotRow ν)}
    (hrole : app.leadership.role ≠ .replica)
    (h : ∀ row ∈ rows, Acceptable app.maxKeyLength now row.key row.ttl) :
    app.postRestore now (some (snapshotBody rows))
      = ({ app with store := loadRows now app.store rows }, .restored rows.length) := by
  have hkeys : readField (orEmpty (some (snapshotBody rows))) (js "keys")
      = .value (.arr (rows.map SnapshotRow.toJson)) := rfl
  simp only [App.postRestore, if_neg hrole, hkeys, validateAll_toJson rows 0 h, List.foldl_map,
    List.length_map]
  rfl

/-! ## What a valid history stores -/

/-- An entry after an operation was there before it, with the same deadline, or is the one set. -/
theorem deadline_after {op : StoreOp ν} {e' : CacheEntry ν}
    (h : (k, e') ∈ (op.apply now s).entries.entries) :
    (∃ e, (k, e) ∈ s.entries.entries ∧ e'.expiresAt = e.expiresAt) ∨
      ∃ v t, op = .set k v t ∧ e'.expiresAt = deadline now t := by
  have heff := storeEffect now s op
  have hset : ∀ v d, StoreEvent.set k v d ∈ op.events now s → ∃ t, op = .set k v t ∧
      d = deadline now t := fun v d => eq_set_of_mem_events
  revert heff hset h
  generalize op.apply now s = s', op.events now s = es
  intro h heff hset
  cases heff with
  | shrink m hsub => exact .inl ⟨e', hsub.subset h, rfl⟩
  | read key e he =>
    rw [OrderedMap.entries_set_new OrderedMap.not_mem_keys_delete, List.mem_append,
      List.mem_singleton, Prod.mk.injEq] at h
    rcases h with h | ⟨rfl, rfl⟩
    · exact .inl ⟨e', (OrderedMap.mem_delete.1 h).1, rfl⟩
    · exact .inl ⟨e, OrderedMap.get?_eq_some.1 he, rfl⟩
  | set key v t hout =>
    rw [OrderedMap.entries_set_new hout.not_mem, List.mem_append, List.mem_singleton,
      Prod.mk.injEq] at h
    rcases h with h | ⟨rfl, rfl⟩
    · exact .inl ⟨e', (OrderedMap.mem_delete.1 (hout.sublist.subset h)).1, rfl⟩
    · obtain ⟨t', hop, ht⟩ := hset v (deadline now t) (by simp)
      exact .inr ⟨v, t', hop, ht⟩

/-! ## The round trip -/

section RoundTrip

variable {t₀ t₁ t₂ : ℚ} {opts : CacheStoreOptions} {log : List (StoreEvent ℚ)} {ts : TimedStore ℚ}

theorem msPerSecond_eq : (msPerSecond : ℚ) = 1000 := by
  unfold msPerSecond
  norm_cast

/-- What a valid write leaves of itself: a key that is valid, and a deadline no further away than
the longest time to live. -/
def HeldValid (maxKeyLength : ℕ) (clock : ℚ) (s : CacheStore ℚ) : Prop :=
  ∀ k e, (k, e) ∈ s.entries.entries → k.trim.length ≠ 0 ∧ k.length ≤ maxKeyLength ∧
    ∀ d, e.expiresAt = some d → d ≤ clock + maxValue * msPerSecond

theorem deadline_le {t : ℚ} {ttl : Option ℚ} (h : ∀ x ∈ ttl, JsNumber.isFinite x = true ∧ 0 < x ∧
    JsNumber.isFinite (t₁ + x * msPerSecond) = true) (ht : deadline t₁ ttl = some t) :
    t ≤ t₁ + maxValue * msPerSecond := by
  rcases ttl with _ | x
  · simp [deadline] at ht
  · obtain ⟨hfin, hpos, -⟩ := h x rfl
    simp only [deadline, if_pos hpos, Option.some.injEq] at ht
    have hx : x ≤ maxValue := (le_abs_self x).trans (of_decide_eq_true hfin)
    rw [← ht, msPerSecond_eq]
    linarith

theorem heldValid_run (h : Run storeStep (ValidWrite maxKeyLength)
    (⟨t₀, CacheStore.new opts⟩ : TimedStore ℚ) log ts) :
    HeldValid maxKeyLength ts.clock ts.store := by
  refine h.invariant (I := fun _ ts => HeldValid maxKeyLength ts.clock ts.store) ?_ ?_
  · intro k e he
    simp [CacheStore.new, OrderedMap.empty] at he
  · rintro log ts ⟨now, op⟩ ts' es hv ⟨hclock, hvalid⟩ hstep
    simp only [storeStep, Option.some.injEq, Prod.mk.injEq] at hstep
    obtain ⟨rfl, -⟩ := hstep
    intro k e' he'
    rcases deadline_after he' with ⟨e, he, hd⟩ | ⟨v, t, rfl, hd⟩
    · obtain ⟨hblank, hlong, hle⟩ := hv k e he
      refine ⟨hblank, hlong, fun d hd' => (hle d (hd ▸ hd')).trans ?_⟩
      exact add_le_add_left hclock _
    · obtain ⟨body, hbody⟩ := hvalid
      obtain ⟨hblank, hlong, hfin⟩ := acceptable_of_validateEntry hbody
      exact ⟨hblank, hlong, fun d hd' => deadline_le hfin (hd ▸ hd')⟩

theorem remainingTtl_of_live {e : CacheEntry ℚ} {t : ℚ} (hlive : e.isExpired t₁ = false)
    (h : e.remainingTtl t₁ = some t) : 0 < t ∧ e.expiresAt = some (t₁ + t * msPerSecond) := by
  obtain ⟨d, hd, ht⟩ := Option.map_eq_some_iff.1 h
  have hlt : t₁ < d := deadline_live.1 hlive d hd
  rw [msPerSecond_eq] at ht ⊢
  have hpos : 0 < (d - t₁) / 1000 := div_pos (sub_pos.2 hlt) (by norm_num)
  rw [max_eq_right hpos.le] at ht
  refine ⟨ht ▸ hpos, ?_⟩
  rw [hd, ← ht]
  congr 1
  ring

/-- An entry loaded with a positive time to live has it left, and is live. -/
theorem toEntry_remaining (row : SnapshotRow ℚ) (hpos : ∀ t, row.ttl = some t → 0 < t) :
    (row.toEntry t₂).2.remainingTtl t₂ = row.ttl ∧ (row.toEntry t₂).2.isExpired t₂ = false := by
  obtain ⟨key, value, _ | t⟩ := row
  · exact ⟨rfl, rfl⟩
  · have ht : 0 < t := hpos t rfl
    have hd : (SnapshotRow.toEntry t₂ ⟨key, value, some t⟩).2.expiresAt
        = some (t₂ + t * 1000) := by
      simp only [SnapshotRow.toEntry, newEntry, deadline, if_pos ht, msPerSecond_eq]
    constructor
    · rw [CacheEntry.remainingTtl, hd, Option.map_some, msPerSecond_eq, add_sub_cancel_left,
        mul_div_cancel_right₀ t (by norm_num), max_eq_right ht.le]
    · refine deadline_live.2 fun d hd' => ?_
      obtain rfl := Option.some.inj (hd.symm.trans hd')
      linarith

section Exported

variable {s : CacheStore ℚ} {row : SnapshotRow ℚ}

theorem exportEntries_snd : (s.exportEntries t₁).2 =
    (live t₁ s.entries).entries.map fun e => ⟨e.1, e.2.value, e.2.remainingTtl t₁⟩ := by
  rw [CacheStore.exportEntries, listLive_eq]

theorem exported_nodup : ((s.exportEntries t₁).2.map SnapshotRow.key).Nodup := by
  rw [exportEntries_snd, List.map_map]
  exact (live t₁ s.entries).nodup

theorem exported_ttl_pos (h : row ∈ (s.exportEntries t₁).2) {t : ℚ} (ht : row.ttl = some t) :
    0 < t := by
  rw [exportEntries_snd, List.mem_map] at h
  obtain ⟨⟨k, e⟩, he, rfl⟩ := h
  have hlive := (OrderedMap.mem_filter.1 he).2
  rw [Bool.not_eq_true'] at hlive
  exact (remainingTtl_of_live hlive ht).1

/-- A row of a valid store is valid again. -/
theorem exported_acceptable {clock : ℚ} (hv : HeldValid maxKeyLength clock s) (hclock : clock ≤ t₁)
    (h : row ∈ (s.exportEntries t₁).2) (hfin : row.FiniteDeadline t₂) :
    Acceptable maxKeyLength t₂ row.key row.ttl := by
  have hpos := fun t => exported_ttl_pos (t := t) h
  rw [exportEntries_snd, List.mem_map] at h
  obtain ⟨⟨k, e⟩, he, rfl⟩ := h
  obtain ⟨he, hlive⟩ := OrderedMap.mem_filter.1 he
  rw [Bool.not_eq_true'] at hlive
  obtain ⟨hblank, hlong, hle⟩ := hv k e he
  refine ⟨hblank, hlong, fun t ht => ⟨?_, hpos t ht, hfin t ht⟩⟩
  have hd := hle _ (remainingTtl_of_live hlive ht).2
  rw [msPerSecond_eq] at hd
  refine decide_eq_true ?_
  rw [abs_of_pos (hpos t ht)]
  linarith

end Exported

/-- Loading what a store exports leaves the last rows, as many as there is room for. -/
theorem loaded_contents {s into : CacheStore ℚ} (hempty : into.entries = .empty)
    (hm : 1 ≤ into.maxEntries) (hs : 1 ≤ into.evictionSampleSize) :
    (loadRows t₂ into (s.exportEntries t₁).2).contents t₂
      = ((s.exportEntries t₁).2.rtake into.maxEntries).map (·, 0) := by
  have hback : ∀ row ∈ (s.exportEntries t₁).2, (row.toEntry t₂).2.remainingTtl t₂ = row.ttl ∧
      (row.toEntry t₂).2.isExpired t₂ = false := fun row hrow =>
    toEntry_remaining row fun t => exported_ttl_pos hrow
  obtain ⟨he, -⟩ := loadRows_entries hempty hm hs _ exported_nodup
    fun row hrow => (hback row hrow).2
  rw [CacheStore.contents, he, List.rtake, List.rtake, List.length_map, List.map_drop.symm,
    List.map_map]
  refine List.map_congr_left fun row hrow => ?_
  refine Prod.ext ?_ rfl
  have := (hback row (List.mem_of_mem_drop hrow)).1
  simp only [Function.comp_apply, this]
  rfl

/-- Every loader makes the same store of a snapshot: the last rows that there is room for, as they
were at the time of the snapshot. -/
theorem snapshot_round_trip (h : Run storeStep (ValidWrite maxKeyLength)
      (⟨t₀, CacheStore.new opts⟩ : TimedStore ℚ) log ts)
    (hclock : ts.clock ≤ t₁) {into : CacheStore ℚ} (hempty : into.entries = .empty)
    (hm : 1 ≤ into.maxEntries) (hs : 1 ≤ into.evictionSampleSize)
    (stringify : Json ℚ → JsString) (parse : JsString → Option (Json ℚ)) (T : NumberText ℚ)
    (exhausts : List (Json ℚ) → Bool)
    (hlossless : parse (stringify (snapshotJson (ts.store.exportEntries t₁).2))
      = some (snapshotJson (ts.store.exportEntries t₁).2)) (t₂ : ℚ) :
    let rows := (ts.store.exportEntries t₁).2
    let loaded := loadRows t₂ into rows
    loaded.contents t₂ = (rows.rtake into.maxEntries).map (·, 0) ∧
    loadSnapshot parse T exhausts t₂ (.text (saveSnapshot stringify t₁ ts.store).2) into
      = (loaded, .ok (some rows.length)) ∧
    loadBody t₂ into (snapshotBody rows) = some (loaded, rows.length) ∧
    (∀ row ∈ rows, row.FiniteDeadline t₂ →
      validateEntry maxKeyLength t₂ (some row.toJson) = .ok ⟨row.key, row.value, row.ttl⟩) ∧
    ((∀ row ∈ rows, row.FiniteDeadline t₂) → ∀ app : App ℚ, app.store = into →
      app.maxKeyLength = maxKeyLength → app.leadership.role ≠ .replica →
        app.postRestore t₂ (some (snapshotBody rows))
          = ({ app with store := loaded }, .restored rows.length)) := by
  have hv := heldValid_run h
  refine ⟨loaded_contents hempty hm hs, loadSnapshot_rows hlossless, loadBody_rows _,
    fun row hrow hfin => validateEntry_toJson (exported_acceptable hv hclock hrow hfin), ?_⟩
  rintro hfin app rfl rfl hrole
  exact postRestore_rows hrole fun row hrow => exported_acceptable hv hclock hrow (hfin row hrow)

/-- A key that never expires and two that do. -/
def threeRows : List (SnapshotRow ℚ) :=
  [⟨js "b", js "2", none⟩, ⟨js "c", js "3", some 18⟩, ⟨js "a", js "1", some 6⟩]

/-- The text that `JSON.stringify` makes of the snapshot of the three rows. -/
def threeRowsText : JsString :=
  js ("\x7b\"keys\":[\x7b\"key\":\"b\",\"value\":\"2\",\"ttl\":null\x7d," ++
    "\x7b\"key\":\"c\",\"value\":\"3\",\"ttl\":18\x7d," ++
    "\x7b\"key\":\"a\",\"value\":\"1\",\"ttl\":6\x7d]\x7d")

/-- `JSON.parse` on that text. -/
def parseThreeRows (raw : JsString) : Option (Json ℚ) :=
  if raw = threeRowsText then some (snapshotJson threeRows) else none

/-- Saved with three keys and loaded five seconds later where there is room for two. -/
theorem snapshot_round_trip_smaller : ∃ (log : List (StoreEvent ℚ)) (ts : TimedStore ℚ),
    Run storeStep (ValidWrite 256) (⟨0, CacheStore.new {}⟩ : TimedStore ℚ) log ts ∧
      (ts.store.exportEntries 4000).2 = threeRows ∧
      (loadSnapshot parseThreeRows noNumbers (fun _ => false) 9000
        (.text (saveSnapshot (fun _ => threeRowsText) 4000 ts.store).2)
        (CacheStore.new { maxEntries := 2, policy := .lfu })).1.contents 9000 =
          [(⟨js "c", js "3", some 18⟩, 0), (⟨js "a", js "1", some 6⟩, 0)] := by
  have hrun : ∃ (log : List (StoreEvent ℚ)) (ts : TimedStore ℚ),
      Run storeStep (ValidWrite 256) (⟨0, CacheStore.new {}⟩ : TimedStore ℚ) log ts ∧
        ts.clock ≤ 4000 ∧ (ts.store.exportEntries 4000).2 = threeRows :=
    exists_run_of_exec [(0, .set (js "a") (js "1") (some 10)), (1000, .set (js "b") (js "2") none),
      (2000, .set (js "c") (js "3") (some 20)), (3000, .get (js "a"))] (by decide +kernel)
  obtain ⟨log, ts, h, hclock, hrows⟩ := hrun
  refine ⟨log, ts, h, hrows, ?_⟩
  have hlossless : parseThreeRows threeRowsText
      = some (snapshotJson (ts.store.exportEntries 4000).2) := by rw [hrows]; exact if_pos rfl
  have hempty : (CacheStore.new { maxEntries := 2, policy := .lfu } : CacheStore ℚ).entries
      = .empty := rfl
  obtain ⟨hcontents, hload, -⟩ := snapshot_round_trip h hclock hempty (by decide) (by decide)
    (fun _ => threeRowsText) parseThreeRows noNumbers (fun _ => false) hlossless 9000
  rw [hload, hcontents, hrows]
  rfl

end RoundTrip

end InkCache
