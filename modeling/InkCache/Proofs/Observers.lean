import InkCache.Proofs.LiveView

/-!
# The reads agree

Every read is a function of the live entries: the lookups answer from the live entry of their key
(`touch_snd`, `peek_eq`, `accessCount_eq`), and the listings have a row for each live entry
(`listLive_eq`). So what one of them says of a key, the others say as well.
-/

namespace InkCache

open Lib

variable {ν : Type} [JsNumber ν] {s : CacheStore ν} {now : ν} {key : JsString}

theorem get_snd : (s.get now key).2 =
    ((live now s.entries).get? key).map CacheEntry.value := by
  simp only [CacheStore.get, touch_snd, Option.map_map]
  rfl

theorem getWithTtl_snd : (s.getWithTtl now key).2 = ((live now s.entries).get? key).map
    fun entry => { value := entry.value, ttl := entry.remainingTtl now } := by
  simp only [CacheStore.getWithTtl, touch_snd, Option.map_map]
  rfl

theorem has_snd : (s.has now key).2 = ((live now s.entries).get? key).isSome := by
  simp only [CacheStore.has, peek_eq]

theorem ttl_snd : (s.ttl now key).2 =
    ((live now s.entries).get? key).bind fun entry => entry.remainingTtl now := by
  simp only [CacheStore.ttl, peek_eq]

theorem mem_keys_iff : key ∈ (s.keys now).2 ↔ ∃ e, (live now s.entries).get? key = some e := by
  rw [CacheStore.keys, listLive_eq]
  exact OrderedMap.mem_keys.trans (exists_congr fun _ => OrderedMap.get?_eq_some.symm)

theorem keys_snd : (s.keys now).2 = (live now s.entries).keys := by
  rw [CacheStore.keys, listLive_eq]
  rfl

/-! ## The listings against each other -/

theorem detailedKeys_keys :
    (s.detailedKeys now).2.map DetailedKey.key = (s.keys now).2 := by
  rw [CacheStore.detailedKeys, CacheStore.keys, listLive_eq, listLive_eq, List.map_map]
  rfl

theorem exportEntries_keys :
    (s.exportEntries now).2.map SnapshotRow.key = (s.keys now).2 := by
  rw [CacheStore.exportEntries, CacheStore.keys, listLive_eq, listLive_eq, List.map_map]
  rfl

/-- A listing drops the expired entries, so what is left is what it lists. -/
theorem size_listLive {β : Type} (row : JsString → CacheEntry ν → β) :
    (s.listLive now row).1.size = (s.listLive now row).2.length := by
  rw [listLive_eq, List.length_map]
  rfl

/-! ## The rows against the lookups -/

theorem row_detailedKeys {row : DetailedKey ν} (h : row ∈ (s.detailedKeys now).2) :
    s.accessCount now row.key = some row.hits ∧ (s.ttl now row.key).2 = row.ttl := by
  rw [CacheStore.detailedKeys, listLive_eq] at h
  obtain ⟨⟨key, e⟩, he, rfl⟩ := List.mem_map.1 h
  have hget := OrderedMap.get?_eq_some.2 he
  refine ⟨?_, ?_⟩
  · rw [accessCount_eq, hget]
    rfl
  · rw [ttl_snd, hget]
    rfl

theorem row_exportEntries {row : SnapshotRow ν} (h : row ∈ (s.exportEntries now).2) :
    (s.get now row.key).2 = some row.value ∧ (s.ttl now row.key).2 = row.ttl := by
  rw [CacheStore.exportEntries, listLive_eq] at h
  obtain ⟨⟨key, e⟩, he, rfl⟩ := List.mem_map.1 h
  have hget := OrderedMap.get?_eq_some.2 he
  refine ⟨?_, ?_⟩
  · rw [get_snd, hget]
    rfl
  · rw [ttl_snd, hget]
    rfl

/-! ## All of them -/

/-- The lookups and the listings draw one line between live and expired, report the same of a live
key, and list the live keys once each in one order. -/
theorem observers_agree (s : CacheStore ν) (now : ν) :
    (∀ key, [(s.has now key).2 = true, (s.get now key).2 ≠ none,
      (s.getWithTtl now key).2 ≠ none, s.accessCount now key ≠ none, key ∈ (s.keys now).2,
      key ∈ (s.detailedKeys now).2.map DetailedKey.key,
      key ∈ (s.exportEntries now).2.map SnapshotRow.key].TFAE) ∧
    (s.keys now).2.Nodup ∧
    (s.detailedKeys now).2.map DetailedKey.key = (s.keys now).2 ∧
    (s.exportEntries now).2.map SnapshotRow.key = (s.keys now).2 ∧
    (s.keys now).1.size = (s.keys now).2.length ∧
    (s.detailedKeys now).1.size = (s.detailedKeys now).2.length ∧
    (s.exportEntries now).1.size = (s.exportEntries now).2.length ∧
    (∀ row ∈ (s.detailedKeys now).2,
      s.accessCount now row.key = some row.hits ∧ (s.ttl now row.key).2 = row.ttl) ∧
    (∀ row ∈ (s.exportEntries now).2,
      (s.get now row.key).2 = some row.value ∧ (s.ttl now row.key).2 = row.ttl) ∧
    ∀ key, (s.get now key).1 = (s.getWithTtl now key).1 ∧
      (s.getWithTtl now key).2.map ValueWithTtl.value = (s.get now key).2 ∧
      (s.getWithTtl now key).2.bind ValueWithTtl.ttl = (s.ttl now key).2 := by
  refine ⟨fun key => ?_, ?_, detailedKeys_keys, exportEntries_keys, size_listLive _,
    size_listLive _, size_listLive _, fun _ => row_detailedKeys, fun _ => row_exportEntries,
    fun key => ⟨rfl, ?_, ?_⟩⟩
  · rw [detailedKeys_keys, exportEntries_keys, mem_keys_iff, has_snd, get_snd, getWithTtl_snd,
      accessCount_eq]
    rcases (live now s.entries).get? key with _ | e <;> simp
  · rw [keys_snd]
    exact OrderedMap.keys_nodup _
  · rw [getWithTtl_snd, get_snd, Option.map_map]
    rfl
  · rw [getWithTtl_snd, ttl_snd]
    rcases (live now s.entries).get? key with _ | e <;> rfl

end InkCache
