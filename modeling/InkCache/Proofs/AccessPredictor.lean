import InkCache.AccessPredictor
import InkCache.Lib.Bigram

/-!
# The predictor against the stream

Unless it is evicted, a key has the candidates that its followers leave when they are observed in
order (`candidates_of_tracked`). As long as they are few these are the tally of the followers
(`observed_eq_tally`); each candidate that is dropped takes what was counted of it along, so from
then on the counts add up to less than there were followers (`tally_or_lt`).
-/

namespace InkCache

open Lib

/-- The keys that came right after one, other than itself. -/
def followers (key : JsString) (stream : List JsString) : List JsString :=
  (adjacent stream).filterMap fun e => if e.1 = key ∧ e.2 ≠ key then some e.2 else none

/-- The keys that another key came right after. -/
def sources (stream : List JsString) : List JsString :=
  ((adjacent stream).filter fun e => e.1 ≠ e.2).map Prod.fst

variable {key k x : JsString} {stream l : List JsString} {maxCandidates : ℕ} {c : Candidates}

theorem followers_concat (key : JsString) (stream : List JsString) (x : JsString) :
    followers key (stream ++ [x]) = followers key stream ++
      if stream.getLast? = some key ∧ x ≠ key then [x] else [] := by
  rw [followers, adjacent_concat, List.filterMap_append]
  congr 1
  rcases stream.getLast? with _ | last
  · simp
  · by_cases h : last = key ∧ x ≠ key
    · simp [h]
    · simp [h]

theorem sources_concat (stream : List JsString) (x : JsString) :
    sources (stream ++ [x]) = sources stream ++
      (stream.getLast?.filter (· ≠ x)).toList := by
  rw [sources, adjacent_concat, List.filter_append, List.map_append]
  congr 1
  rcases stream.getLast? with _ | last
  · rfl
  · by_cases h : last = x
    · simp [h]
    · simp [h, Option.filter]

/-! ## The candidates of one key -/

namespace Candidates

theorem worst_eq_argmin (c : Candidates) : worst c = c.entries.argmin Prod.snd := by
  unfold worst List.argmin
  congr 1
  funext w e
  rcases w with _ | w
  · rfl
  · rfl

/-- After the followers of a list have been observed. -/
def observed (maxCandidates : ℕ) (l : List JsString) : Candidates :=
  l.foldl (fun c x => c.observe maxCandidates x) .empty

theorem observed_concat (l : List JsString) (x : JsString) :
    observed maxCandidates (l ++ [x]) = (observed maxCandidates l).observe maxCandidates x := by
  rw [observed, List.foldl_append]
  rfl

/-- What can become of the candidates: a held one is counted; a new one is added if there is room;
else the least observed is dropped, which has been observed once since it was added. -/
inductive Observation (maxCandidates : ℕ) (x : JsString) (c : Candidates) : Candidates → Prop
  | counted (n : ℕ) (held : c.get? x = some n) : Observation maxCandidates x c (c.set x (n + 1))
  | added (new : x ∉ c.keys) (room : c.size < maxCandidates) :
    Observation maxCandidates x c (c.set x 1)
  | dropped (new : x ∉ c.keys) (full : c.size = maxCandidates) (w : JsString × ℕ)
    (mem : w ∈ (c.set x 1).entries) (least : ∀ e ∈ (c.set x 1).entries, w.2 ≤ e.2) :
    Observation maxCandidates x c ((c.set x 1).delete w.1)

theorem observation (hsize : c.size ≤ maxCandidates) (x : JsString) :
    Observation maxCandidates x c (c.observe maxCandidates x) := by
  unfold observe
  rcases hget : c.get? x with _ | n
  · have hnew : x ∉ c.keys := OrderedMap.get?_eq_none.1 hget
    have hset : (c.set x (Option.getD none 0 + 1)).size = c.size + 1 := OrderedMap.size_set_new hnew
    dsimp only
    rw [hset, Option.getD_none, zero_add]
    split_ifs with hfull
    · rcases hworst : worst (c.set x 1) with _ | w
      · rw [worst_eq_argmin, List.argmin_eq_none] at hworst
        rw [OrderedMap.size, Option.getD_none, zero_add, hworst] at hset
        simp at hset
      · rw [worst_eq_argmin] at hworst
        exact .dropped hnew (by omega) w (List.argmin_mem hworst)
          fun e he => List.le_of_mem_argmin he hworst
    · exact .added hnew (by omega)
  · have hheld : x ∈ c.keys := OrderedMap.mem_keys_of_mem (OrderedMap.get?_eq_some.1 hget)
    dsimp only
    rw [OrderedMap.size_set_of_mem hheld, if_neg (not_lt.2 hsize)]
    exact .counted n hget

theorem observe_size (hsize : c.size ≤ maxCandidates) (x : JsString) :
    (c.observe maxCandidates x).size ≤ maxCandidates := by
  have h := observation hsize x
  generalize c.observe maxCandidates x = c' at h ⊢
  cases h with
  | counted n held =>
    rw [OrderedMap.size_set_of_mem (OrderedMap.mem_keys_of_mem (OrderedMap.get?_eq_some.1 held))]
    exact hsize
  | added new room =>
    rw [OrderedMap.size_set_new new]
    exact room
  | dropped new full w mem least =>
    have hlt := OrderedMap.size_delete_lt (OrderedMap.mem_keys_of_mem (a := w.2) mem)
    rw [OrderedMap.size_set_new new] at hlt
    omega

theorem observed_size (maxCandidates : ℕ) (l : List JsString) :
    (observed maxCandidates l).size ≤ maxCandidates := by
  induction l using List.reverseRecOn with
  | nil => exact Nat.zero_le _
  | append_singleton l x ih =>
    rw [observed_concat]
    exact observe_size ih x

/-! ### Counts -/

theorem total_delete {e : JsString × ℕ} (he : e ∈ c.entries) :
    total (c.delete e.1) + e.2 = total c := by
  have hperm := (OrderedMap.perm_cons_delete he).map Prod.snd
  rw [total, total, hperm.sum_eq, List.map_cons, List.sum_cons, add_comm]

theorem total_set_new (h : x ∉ c.keys) (n : ℕ) : total (c.set x n) = total c + n := by
  rw [total, OrderedMap.entries_set_new h, List.map_append, List.sum_append, total]
  rfl

theorem total_set_held {n m : ℕ} (h : c.get? x = some n) :
    total (c.set x m) + n = total c + m := by
  have hmem : (x, m) ∈ (c.set x m).entries := by
    rw [← OrderedMap.get?_eq_some, OrderedMap.get?_set, if_pos rfl]
  have hset := total_delete hmem
  have hold := total_delete (OrderedMap.get?_eq_some.1 h)
  have hperm : total ((c.set x m).delete x) = total (c.delete x) :=
    ((OrderedMap.delete_set_perm c x m).map Prod.snd).sum_eq
  dsimp only at hset hold
  omega

theorem get?_of_tally (h : c.entries = tally l) {n : ℕ} :
    c.get? k = some n ↔ k ∈ l ∧ n = l.count k := by
  rw [OrderedMap.get?_eq_some, h, mem_tally]

theorem mem_keys_of_tally (h : c.entries = tally l) : k ∈ c.keys ↔ k ∈ l := by
  rw [OrderedMap.keys, h, map_fst_tally, List.mem_eraseDups]

theorem size_of_tally (h : c.entries = tally l) : c.size = l.toFinset.card := by
  rw [OrderedMap.size, h, length_tally]

theorem total_of_tally (h : c.entries = tally l) : total c = l.length := by
  rw [total, h, sum_tally]

/-- A tally stays one, unless a new follower finds it full; then something that was counted is
lost. -/
theorem observe_tally (h : c.entries = tally l) (hsize : c.size ≤ maxCandidates) (x : JsString) :
    (c.observe maxCandidates x).entries = tally (l ++ [x]) ∨
      x ∉ l ∧ c.size = maxCandidates ∧ total (c.observe maxCandidates x) < (l ++ [x]).length := by
  have hobs := observation hsize x
  generalize c.observe maxCandidates x = c' at hobs ⊢
  cases hobs with
  | counted n held =>
    obtain ⟨hmem, rfl⟩ := (get?_of_tally h).1 held
    refine .inl ?_
    rw [tally_concat_of_mem hmem, ← h, OrderedMap.set, dif_pos ((mem_keys_of_tally h).2 hmem)]
  | added new room =>
    refine .inl ?_
    rw [tally_concat_of_not_mem fun hmem => new ((mem_keys_of_tally h).2 hmem), ← h,
      OrderedMap.entries_set_new new]
  | dropped new full w mem least =>
    have hnew : x ∉ l := fun hmem => new ((mem_keys_of_tally h).2 hmem)
    have htotal := total_delete mem
    have hset := total_set_new new 1
    have hlen := total_of_tally h
    have hpos : 1 ≤ w.2 := by
      rw [OrderedMap.entries_set_new new, List.mem_append, List.mem_singleton] at mem
      rcases mem with mem | rfl
      · rw [h, mem_tally] at mem
        rw [mem.2]
        exact List.one_le_count_iff.2 mem.1
      · exact le_rfl
    refine .inr ⟨hnew, full, ?_⟩
    rw [List.length_append, List.length_singleton]
    omega

theorem total_observe_le (hsize : c.size ≤ maxCandidates) (x : JsString) :
    total (c.observe maxCandidates x) ≤ total c + 1 := by
  have hobs := observation hsize x
  generalize c.observe maxCandidates x = c' at hobs ⊢
  cases hobs with
  | counted n held =>
    have := total_set_held (m := n + 1) held
    omega
  | added new room => exact (total_set_new new 1).le
  | dropped new full w mem least =>
    have := total_delete mem
    have := total_set_new new 1
    omega

/-- The candidates are the tally of what was observed, or some of it is counted no more. -/
theorem tally_or_lt (maxCandidates : ℕ) (l : List JsString) :
    (observed maxCandidates l).entries = tally l ∨ total (observed maxCandidates l) < l.length := by
  induction l using List.reverseRecOn with
  | nil => exact .inl rfl
  | append_singleton l x ih =>
    rw [observed_concat]
    have hsize := observed_size maxCandidates l
    rcases ih with htally | hlt
    · exact (observe_tally htally hsize x).imp_right fun h => h.2.2
    · refine .inr ((total_observe_le hsize x).trans_lt ?_)
      rw [List.length_append, List.length_singleton]
      exact Nat.add_lt_add_right hlt 1

/-- Few enough followers are all counted. -/
theorem observed_eq_tally (l : List JsString) (h : l.toFinset.card ≤ maxCandidates) :
    (observed maxCandidates l).entries = tally l := by
  induction l using List.reverseRecOn with
  | nil => rfl
  | append_singleton l x ih =>
    have hinsert : (l ++ [x]).toFinset = insert x l.toFinset := by
      rw [List.toFinset_append, Finset.union_comm]
      rfl
    have hle : l.toFinset.card ≤ maxCandidates := by
      refine le_trans (Finset.card_le_card ?_) h
      rw [hinsert]
      exact Finset.subset_insert _ _
    rw [observed_concat]
    refine (observe_tally (ih hle) (observed_size maxCandidates l) x).resolve_right ?_
    rintro ⟨hnew, hfull, -⟩
    rw [hinsert, Finset.card_insert_of_notMem (by simpa using hnew), ← size_of_tally (ih hle),
      hfull] at h
    omega

/-! ### What was observed -/

/-- A candidate has been observed, at least as often as it was counted. -/
theorem observed_le (maxCandidates : ℕ) (l : List JsString) : ∀ k n,
    (observed maxCandidates l).get? k = some n → 1 ≤ n ∧ n ≤ l.count k := by
  induction l using List.reverseRecOn with
  | nil =>
    intro k n hn
    cases hn
  | append_singleton l x ih =>
    rw [observed_concat]
    have hobs := observation (observed_size maxCandidates l) x
    generalize observed maxCandidates l = c at hobs ih ⊢
    generalize c.observe maxCandidates x = c' at hobs ⊢
    have hset : ∀ m, 1 ≤ m → m ≤ l.count x + 1 → ∀ k n, (c.set x m).get? k = some n →
        1 ≤ n ∧ n ≤ (l ++ [x]).count k := by
      intro m hm hle k n hn
      rw [OrderedMap.get?_set] at hn
      rw [List.count_append]
      split_ifs at hn with hk
      · rw [hk, ← Option.some.inj hn, List.count_singleton_self]
        exact ⟨hm, hle⟩
      · obtain ⟨hpos, hcount⟩ := ih k n hn
        exact ⟨hpos, hcount.trans (Nat.le_add_right _ _)⟩
    cases hobs with
    | counted n held => exact hset (n + 1) (Nat.succ_pos n) (Nat.succ_le_succ (ih x n held).2)
    | added new room => exact hset 1 le_rfl (Nat.succ_pos _)
    | dropped new full w mem least =>
      intro k n hn
      rw [OrderedMap.get?_delete] at hn
      split_ifs at hn
      exact hset 1 le_rfl (Nat.succ_pos _) k n hn

theorem count_pos_of_mem_observed (h : k ∈ (observed maxCandidates l).keys) : 1 ≤ l.count k := by
  obtain ⟨n, hn⟩ := OrderedMap.mem_keys.1 h
  obtain ⟨hpos, hle⟩ := observed_le maxCandidates l k n (OrderedMap.get?_eq_some.2 hn)
  exact hpos.trans hle

/-- Once there was a follower there is a candidate. -/
theorem observed_size_pos (hcap : 1 ≤ maxCandidates) (hl : l ≠ []) :
    0 < (observed maxCandidates l).size := by
  obtain ⟨l', x, rfl⟩ := List.eq_nil_or_concat' l |>.resolve_left hl
  rw [observed_concat]
  have hobs := observation (observed_size maxCandidates l') x
  generalize observed maxCandidates l' = c at hobs ⊢
  generalize c.observe maxCandidates x = c' at hobs ⊢
  have hset : ∀ n, 0 < (c.set x n).size := by
    intro n
    have hmem : (x, n) ∈ (c.set x n).entries := by
      rw [← OrderedMap.get?_eq_some, OrderedMap.get?_set, if_pos rfl]
    exact List.length_pos_of_mem hmem
  cases hobs with
  | counted n held => exact hset (n + 1)
  | added new room => exact hset 1
  | dropped new full w mem least =>
    have hlen := (OrderedMap.perm_cons_delete mem).length_eq
    have hsize := OrderedMap.size_set_new (a := 1) new
    unfold OrderedMap.size at hsize full ⊢
    rw [List.length_cons] at hlen
    omega

/-- What was observed is counted in full, or was observed once and is not a candidate. -/
structure Lossless (l : List JsString) (c : Candidates) : Prop where
  exact : ∀ k n, c.get? k = some n → n = l.count k
  dropped : ∀ k ∈ l, k ∉ c.keys → l.count k = 1

theorem Lossless.set (h : Lossless l c) {n : ℕ} (hn : n = l.count x + 1) :
    Lossless (l ++ [x]) (c.set x n) := by
  have hcount : ∀ k, k ≠ x → (l ++ [x]).count k = l.count k := by
    intro k hk
    rw [List.count_append, List.count_singleton, if_neg (by simpa using Ne.symm hk), add_zero]
  refine ⟨fun k m hm => ?_, fun k hk hnot => ?_⟩
  · rw [OrderedMap.get?_set] at hm
    split_ifs at hm with hkx
    · rw [hkx, List.count_append, List.count_singleton_self, ← Option.some.inj hm, hn]
    · rw [hcount k hkx]
      exact h.exact k m hm
  · rw [OrderedMap.mem_keys_set, not_or] at hnot
    rw [hcount k hnot.1]
    refine h.dropped k ?_ hnot.2
    simpa [hnot.1] using hk

theorem Lossless.delete_once (h : Lossless l c) (hx : c.get? x = some 1) :
    Lossless l (c.delete x) := by
  refine ⟨fun k n hn => ?_, fun k hk hnot => ?_⟩
  · rw [OrderedMap.get?_delete] at hn
    split_ifs at hn
    exact h.exact k n hn
  · by_cases hkx : k = x
    · rw [hkx, ← h.exact x 1 hx]
    · refine h.dropped k hk fun hmem => hnot ?_
      rw [OrderedMap.keys_delete, List.mem_filter]
      exact ⟨hmem, by simpa using hkx⟩

/-- One that is observed is a candidate still, or has not been observed before. -/
theorem Lossless.observe (h : Lossless l c) (hsize : c.size ≤ maxCandidates)
    (hpos : ∀ k n, c.get? k = some n → 1 ≤ n) (hx : x ∈ l → x ∈ c.keys) :
    Lossless (l ++ [x]) (c.observe maxCandidates x) := by
  have hobs := observation hsize x
  generalize c.observe maxCandidates x = c' at hobs ⊢
  have hfirst : x ∉ c.keys → Lossless (l ++ [x]) (c.set x 1) := fun new =>
    h.set (by rw [List.count_eq_zero.2 fun hmem => new (hx hmem)])
  cases hobs with
  | counted n held => exact h.set (congrArg (· + 1) (h.exact x n held))
  | added new room => exact hfirst new
  | dropped new full w mem least =>
    have hw := OrderedMap.get?_eq_some.2 mem
    have hone : w.2 = 1 := by
      have hle : w.2 ≤ 1 := least (x, 1) (by
        rw [← OrderedMap.get?_eq_some, OrderedMap.get?_set, if_pos rfl])
      have hge : 1 ≤ w.2 := by
        rw [OrderedMap.get?_set] at hw
        split_ifs at hw
        · exact (Option.some.inj hw).le
        · exact hpos w.1 w.2 hw
      omega
    rw [hone] at hw
    exact (hfirst new).delete_once hw

theorem lossless_observed (l : List JsString)
    (hreturn : ∀ s x, s ++ [x] <+: l → x ∈ s → x ∈ (observed maxCandidates s).keys) :
    Lossless l (observed maxCandidates l) := by
  induction l using List.reverseRecOn with
  | nil => exact ⟨fun k n hn => (by cases hn), fun k hk => absurd hk List.not_mem_nil⟩
  | append_singleton l x ih =>
    rw [observed_concat]
    refine (ih fun s y hs => hreturn s y (hs.trans (List.prefix_append l [x]))).observe
      (observed_size maxCandidates l) (fun k n hn => (observed_le maxCandidates l k n hn).1)
      (hreturn l x (List.prefix_refl _))

end Candidates

/-! ## The predictor -/

namespace AccessPredictor

variable {p : AccessPredictor} {source : JsString} {maxKeys : ℕ}

/-- No key comes after another: nothing is counted. -/
theorem record_transitions_of_same (h : ∀ source, p.lastKey = some source → source = x) :
    (p.record x).transitions = p.transitions := by
  unfold record
  rcases hlast : p.lastKey with _ | source
  · rfl
  · dsimp only
    rw [if_pos (h source hlast)]

theorem record_transitions (hlast : p.lastKey = some source) (h : source ≠ x) :
    (p.record x).transitions = (p.candidatesFrom source).1.set source
      ((p.candidatesFrom source).2.observe p.maxCandidatesPerKey x) := by
  rw [record, hlast]
  dsimp only
  rw [if_neg h]

/-- A key comes after another, or nothing is counted. -/
theorem record_cases (p : AccessPredictor) (x : JsString) :
    (∃ source, p.lastKey = some source ∧ source ≠ x) ∨
      (∀ source, p.lastKey = some source → source = x) ∧
        (p.record x).transitions = p.transitions := by
  by_cases hcount : ∃ source, p.lastKey = some source ∧ source ≠ x
  · exact .inl hcount
  · have hsame : ∀ source, p.lastKey = some source → source = x := by
      intro source hsource
      by_contra hne
      exact hcount ⟨source, hsource, hne⟩
    exact .inr ⟨hsame, record_transitions_of_same hsame⟩

theorem candidatesFrom_snd (source : JsString) (p : AccessPredictor) :
    (p.candidatesFrom source).2 = p.candidates source := by
  unfold candidatesFrom candidates
  rcases p.transitions.get? source with _ | c
  · rfl
  · rfl

/-- The other keys have the candidates they had, unless one had to make room. -/
theorem candidatesFrom_get? (hk : k ≠ source) :
    (p.candidatesFrom source).1.get? k = p.transitions.get? k ∨
      source ∉ p.transitions.keys ∧ p.maxTrackedKeys ≤ p.transitions.size ∧
        (p.candidatesFrom source).1.get? k = none := by
  unfold candidatesFrom
  rcases hget : p.transitions.get? source with _ | c
  · exact (OrderedMap.get?_insertBounded hk).imp_right fun h =>
      ⟨OrderedMap.get?_eq_none.1 hget, h⟩
  · exact .inl rfl

theorem source_mem_candidatesFrom (source : JsString) (p : AccessPredictor) :
    source ∈ (p.candidatesFrom source).1.keys := by
  unfold candidatesFrom
  rcases hget : p.transitions.get? source with _ | c
  · exact OrderedMap.mem_keys_set.2 (.inl rfl)
  · exact OrderedMap.mem_keys_of_mem (OrderedMap.get?_eq_some.1 hget)

theorem candidatesFrom_size (hmax : 1 ≤ p.maxTrackedKeys)
    (hsize : p.transitions.size ≤ p.maxTrackedKeys) :
    (p.candidatesFrom source).1.size ≤ p.maxTrackedKeys := by
  unfold candidatesFrom
  rcases hget : p.transitions.get? source with _ | c
  · exact OrderedMap.size_insertBounded hmax hsize (OrderedMap.get?_eq_none.1 hget)
  · exact hsize

theorem record_get?_source (hlast : p.lastKey = some source) (h : source ≠ x) :
    (p.record x).transitions.get? source =
      some ((p.candidates source).observe p.maxCandidatesPerKey x) := by
  rw [record_transitions hlast h, OrderedMap.get?_set, if_pos rfl, candidatesFrom_snd]

theorem record_get?_of_ne (hlast : p.lastKey = some source) (h : source ≠ x) (hk : k ≠ source) :
    (p.record x).transitions.get? k = p.transitions.get? k ∨
      source ∉ p.transitions.keys ∧ p.maxTrackedKeys ≤ p.transitions.size ∧
        (p.record x).transitions.get? k = none := by
  rw [record_transitions hlast h, OrderedMap.get?_set, if_neg hk]
  exact candidatesFrom_get? hk

@[simp] theorem record_lastKey : (p.record x).lastKey = some x := by
  unfold record
  split
  · rfl
  · split_ifs <;> rfl

@[simp] theorem record_maxTrackedKeys : (p.record x).maxTrackedKeys = p.maxTrackedKeys := by
  unfold record
  split
  · rfl
  · split_ifs <;> rfl

@[simp] theorem record_maxCandidatesPerKey :
    (p.record x).maxCandidatesPerKey = p.maxCandidatesPerKey := by
  unfold record
  split
  · rfl
  · split_ifs <;> rfl

theorem recordAll_concat (stream : List JsString) (x : JsString) (p : AccessPredictor) :
    p.recordAll (stream ++ [x]) = (p.recordAll stream).record x := by
  rw [recordAll, List.foldl_append]
  rfl

/-- What a stream leaves as it was, and the key it ends with. -/
theorem recordAll_fields (maxKeys maxCandidates : ℕ) (stream : List JsString) :
    let p := (new maxKeys maxCandidates).recordAll stream
    p.lastKey = stream.getLast? ∧ p.maxTrackedKeys = maxKeys ∧
      p.maxCandidatesPerKey = maxCandidates := by
  induction stream using List.reverseRecOn with
  | nil => exact ⟨rfl, rfl, rfl⟩
  | append_singleton s x ih =>
    rw [recordAll_concat]
    simpa using ih.2

/-! ### Tracking -/

/-- Since it was first followed by another, the key has been in the map. -/
def TrackedSince (maxKeys maxCandidates : ℕ) (key : JsString) (stream : List JsString) : Prop :=
  ∀ s, s <+: stream → followers key s ≠ [] →
    key ∈ ((new maxKeys maxCandidates).recordAll s).transitions.keys

theorem TrackedSince.of_prefix {s : List JsString}
    (h : TrackedSince maxKeys maxCandidates key stream) (hs : s <+: stream) :
    TrackedSince maxKeys maxCandidates key s :=
  fun s' hs' => h s' (hs'.trans hs)

/-- A key that is tracked has the candidates that its own followers leave. -/
theorem get?_of_tracked (h : TrackedSince maxKeys maxCandidates key stream) :
    ((new maxKeys maxCandidates).recordAll stream).transitions.get? key =
      if followers key stream = [] then none
      else some (Candidates.observed maxCandidates (followers key stream)) := by
  induction stream using List.reverseRecOn with
  | nil => rfl
  | append_singleton s x ih =>
    have ih := ih (h.of_prefix (List.prefix_append s [x]))
    obtain ⟨hlast, -, hmax⟩ := recordAll_fields maxKeys maxCandidates s
    have htracked := h (s ++ [x]) (List.prefix_refl _)
    rw [recordAll_concat] at htracked ⊢
    rw [followers_concat] at htracked ⊢
    by_cases hfollows : s.getLast? = some key ∧ x ≠ key
    · rw [if_pos hfollows, if_neg (by simp),
        record_get?_source (hlast.trans hfollows.1) (Ne.symm hfollows.2), hmax, candidates, ih,
        Candidates.observed_concat]
      split_ifs with hnil
      · rw [hnil]
        rfl
      · rfl
    · rw [if_neg hfollows, List.append_nil] at htracked ⊢
      rcases record_cases ((new maxKeys maxCandidates).recordAll s) x with
        ⟨source, hsource, hne⟩ | ⟨-, hsame⟩
      · have hk : key ≠ source := by
          rintro rfl
          exact hfollows ⟨hlast.symm.trans hsource, hne.symm⟩
        rcases record_get?_of_ne hsource hne hk with heq | ⟨-, -, hnone⟩
        · rw [heq, ih]
        · rw [hnone, if_pos]
          by_contra hnil
          exact OrderedMap.get?_eq_none.1 hnone (htracked hnil)
      · rw [hsame, ih]

theorem candidates_of_tracked (h : TrackedSince maxKeys maxCandidates key stream) :
    ((new maxKeys maxCandidates).recordAll stream).candidates key =
      Candidates.observed maxCandidates (followers key stream) := by
  rw [candidates, get?_of_tracked h]
  split_ifs with hnil
  · rw [hnil]
    rfl
  · rfl

/-- Where there is room, only the source joins the keys. -/
theorem mem_keys_record (hlast : p.lastKey = some source) (h : source ≠ x)
    (hroom : source ∉ p.transitions.keys → p.transitions.size < p.maxTrackedKeys) :
    k ∈ (p.record x).transitions.keys ↔ k = source ∨ k ∈ p.transitions.keys := by
  by_cases hk : k = source
  · subst hk
    exact iff_of_true (OrderedMap.mem_keys_of_mem
      (OrderedMap.get?_eq_some.1 (record_get?_source hlast h))) (.inl rfl)
  · have hget : (p.record x).transitions.get? k = p.transitions.get? k :=
      (record_get?_of_ne hlast h hk).resolve_right fun ⟨hnew, hfull, _⟩ =>
        absurd hfull (not_le.2 (hroom hnew))
    rw [or_iff_right hk, ← not_iff_not, ← OrderedMap.get?_eq_none, hget, OrderedMap.get?_eq_none]

/-- With few enough sources no key has to make room. -/
theorem tracked_of_few {S : Finset JsString} (hS : S.card ≤ maxKeys) (stream : List JsString)
    (hsub : ∀ k ∈ sources stream, k ∈ S) :
    let p := (new maxKeys maxCandidates).recordAll stream
    (∀ k ∈ p.transitions.keys, k ∈ S) ∧ ∀ k, followers k stream ≠ [] → k ∈ p.transitions.keys := by
  induction stream using List.reverseRecOn with
  | nil => exact ⟨fun k hk => absurd hk List.not_mem_nil, fun k hk => absurd rfl hk⟩
  | append_singleton s x ih =>
    rw [sources_concat, List.forall_mem_append] at hsub
    obtain ⟨hkeys, htracked⟩ := ih hsub.1
    obtain ⟨hlast, hmaxKeys, -⟩ := recordAll_fields maxKeys maxCandidates s
    simp only [recordAll_concat, followers_concat]
    generalize (new maxKeys maxCandidates).recordAll s = p at hkeys htracked hlast hmaxKeys ⊢
    rcases record_cases p x with ⟨source, hsource, hne⟩ | ⟨hall, hsame⟩
    · have hends : s.getLast? = some source := hlast.symm.trans hsource
      have hmem : source ∈ S := hsub.2 source (by simp [hends, hne, Option.filter])
      have hiff : ∀ k, k ∈ (p.record x).transitions.keys ↔ k = source ∨ k ∈ p.transitions.keys :=
        fun k => mem_keys_record hsource hne fun hnew => by
          have := OrderedMap.size_lt_card hnew hmem hkeys
          omega
      refine ⟨fun k hk => ?_, fun k hk => ?_⟩
      · rcases (hiff k).1 hk with rfl | hk
        · exact hmem
        · exact hkeys k hk
      · rw [hiff, or_iff_not_imp_left]
        intro hksource
        refine htracked k ?_
        rwa [if_neg (by simp [hends, Ne.symm hksource]), List.append_nil] at hk
    · rw [hsame]
      refine ⟨hkeys, fun k hk => htracked k ?_⟩
      rwa [if_neg fun h => h.2 (hall k (hlast.trans h.1)).symm, List.append_nil] at hk

theorem TrackedSince.of_few (h : (sources stream).toFinset.card ≤ maxKeys) (key : JsString) :
    TrackedSince maxKeys maxCandidates key stream := by
  rintro s ⟨t, rfl⟩ hs
  refine (tracked_of_few h s fun k hk => ?_).2 key hs
  have hpre : sources s <+: sources (s ++ t) :=
    ((adjacent_prefix_append s t).filter _).map _
  exact List.mem_toFinset.2 (hpre.subset hk)

/-- The numbers of keys and of their candidates. -/
structure Bounded (maxKeys maxCandidates : ℕ) (p : AccessPredictor) : Prop where
  keys : p.transitions.size ≤ maxKeys
  candidates : ∀ k c, p.transitions.get? k = some c → OrderedMap.size c ≤ maxCandidates

theorem Bounded.record (hmax : 1 ≤ p.maxTrackedKeys)
    (h : Bounded p.maxTrackedKeys p.maxCandidatesPerKey p) (x : JsString) :
    Bounded p.maxTrackedKeys p.maxCandidatesPerKey (p.record x) := by
  rcases record_cases p x with ⟨source, hlast, hne⟩ | ⟨-, hsame⟩
  · refine ⟨?_, fun k c hc => ?_⟩
    · rw [record_transitions hlast hne,
        OrderedMap.size_set_of_mem (source_mem_candidatesFrom source p)]
      exact candidatesFrom_size hmax h.keys
    · by_cases hk : k = source
      · subst hk
        rw [record_get?_source hlast hne] at hc
        rw [← Option.some.inj hc]
        refine Candidates.observe_size ?_ x
        unfold AccessPredictor.candidates
        rcases hget : p.transitions.get? k with _ | c'
        · exact Nat.zero_le _
        · exact h.candidates k c' hget
      · rcases record_get?_of_ne hlast hne hk with heq | ⟨-, -, hnone⟩
        · exact h.candidates k c (heq ▸ hc)
        · rw [hnone] at hc
          cases hc
  · exact ⟨hsame ▸ h.keys, hsame ▸ h.candidates⟩

theorem bounded_recordAll (hmax : 1 ≤ maxKeys) (maxCandidates : ℕ) (stream : List JsString) :
    Bounded maxKeys maxCandidates ((new maxKeys maxCandidates).recordAll stream) := by
  induction stream using List.reverseRecOn with
  | nil => exact ⟨Nat.zero_le _, fun k c hc => by cases hc⟩
  | append_singleton s x ih =>
    obtain ⟨-, hkeys, hcands⟩ := recordAll_fields maxKeys maxCandidates s
    rw [recordAll_concat]
    have := Bounded.record (hkeys ▸ hmax) (hkeys.symm ▸ hcands.symm ▸ ih) x
    rwa [hkeys, hcands] at this

/-! ### Predictions -/

theorem predict_eq (key : JsString) (topN : ℕ) (p : AccessPredictor) : p.predict key topN =
    ((stableSort (fun e => OrderDual.toDual e.2) (p.candidates key).entries).take topN).map
      fun e => ⟨e.1, e.2, (e.2 : ℚ) / (p.candidates key).total⟩ := by
  unfold predict candidates
  rcases p.transitions.get? key with _ | c
  · simp [OrderedMap.empty, stableSort]
  · dsimp only
    split_ifs with hsize
    · have hnil : OrderedMap.entries c = [] := List.length_eq_zero_iff.1 hsize
      simp [hnil, stableSort]
    · rfl

/-- The first prediction is a candidate that none is counted more than. -/
theorem predict_head {topN : ℕ} (hne : (p.candidates key).entries ≠ []) (htop : 1 ≤ topN) :
    ∃ e ∈ (p.candidates key).entries, (∀ e' ∈ (p.candidates key).entries, e'.2 ≤ e.2) ∧
      ∃ rest, p.predict key topN = ⟨e.1, e.2, (e.2 : ℚ) / (p.candidates key).total⟩ :: rest := by
  have hsorted : SortedBy (fun e => OrderDual.toDual e.2)
      (stableSort (fun e => OrderDual.toDual e.2) (p.candidates key).entries) :=
    sortedBy_stableSort _
  have hperm : (stableSort (fun e => OrderDual.toDual e.2) (p.candidates key).entries).Perm
      (p.candidates key).entries :=
    stableSort_perm _
  rw [predict_eq]
  rcases hsort : stableSort (fun e => OrderDual.toDual e.2) (p.candidates key).entries with
    _ | ⟨e, rest⟩
  · rw [hsort] at hperm
    exact absurd hperm.nil_eq.symm hne
  · rw [hsort] at hsorted hperm
    obtain ⟨n, rfl⟩ := Nat.exists_eq_add_of_le' htop
    rw [hsort, List.take_succ_cons, List.map_cons]
    refine ⟨e, hperm.subset List.mem_cons_self, fun e' he' => ?_, _, rfl⟩
    rcases List.mem_cons.1 (hperm.mem_iff.2 he') with rfl | he'
    · exact le_rfl
    · exact (List.pairwise_cons.1 hsorted).1 e' he'

end AccessPredictor

/-- At every moment the predictor has no more keys than it may, each with no more candidates than
it may. Where the stream has no more keys and followers than that, a prediction is the first rows
of the tally of the followers, in descending order and in the order of the first observations. -/
theorem predictor_exact (maxKeys maxCandidates : ℕ) (hkeys : 1 ≤ maxKeys)
    (stream : List JsString) :
    let p := (AccessPredictor.new maxKeys maxCandidates).recordAll stream
    p.transitions.size ≤ maxKeys ∧
      (∀ key c, p.transitions.get? key = some c → OrderedMap.size c ≤ maxCandidates) ∧
      ((sources stream).toFinset.card ≤ maxKeys →
        (∀ key, (followers key stream).toFinset.card ≤ maxCandidates) → ∀ key topN,
        let table := tally (followers key stream)
        p.predict key topN = ((stableSort (fun e => OrderDual.toDual e.2) table).take topN).map
          fun e => ⟨e.1, e.2, (e.2 : ℚ) / (table.map Prod.snd).sum⟩) := by
  intro p
  obtain ⟨hsize, hcands⟩ := AccessPredictor.bounded_recordAll hkeys maxCandidates stream
  refine ⟨hsize, hcands, fun hsources hfollowers key topN => ?_⟩
  have htracked : AccessPredictor.TrackedSince maxKeys maxCandidates key stream :=
    .of_few hsources key
  have htally := Candidates.observed_eq_tally _ (hfollowers key)
  rw [AccessPredictor.predict_eq, AccessPredictor.candidates_of_tracked htracked, htally,
    Candidates.total, htally]

/-- Two keys, read in turn. -/
theorem predictor_exact_two :
    let stream : List JsString := [js "a", js "b", js "a"]
    let p := (AccessPredictor.new 2 2).recordAll stream
    p.transitions.size ≤ 2 ∧ p.predict (js "a") 3 = [⟨js "b", 1, (1 : ℕ) / (1 : ℕ)⟩] := by
  intro stream p
  obtain ⟨hsize, -, hexact⟩ := predictor_exact 2 2 (by decide) stream
  have hpredict := hexact (by decide)
    (fun key => (List.toFinset_card_le _).trans (List.length_filterMap_le _ _)) (js "a") 3
  exact ⟨hsize, hpredict.trans rfl⟩

/-! ## Dropped followers -/

theorem exists_of_prefix_followers {u : List JsString} (h : u ++ [x] <+: followers key stream) :
    ∃ s, s ++ [x] <+: stream ∧ s.getLast? = some key ∧ followers key s = u := by
  induction stream using List.reverseRecOn with
  | nil =>
    have := List.prefix_nil.1 h
    simp at this
  | append_singleton s y ih =>
    have hshorter : u ++ [x] <+: followers key s → ∃ s', s' ++ [x] <+: s ++ [y] ∧
        s'.getLast? = some key ∧ followers key s' = u := by
      intro h
      obtain ⟨s', hs', hlast, hu⟩ := ih h
      exact ⟨s', hs'.trans (List.prefix_append s [y]), hlast, hu⟩
    rw [followers_concat] at h
    split_ifs at h with hfollows
    · rcases List.prefix_concat_iff.1 h with heq | h
      · obtain ⟨rfl, hxy⟩ := List.append_inj' heq rfl
        obtain rfl : x = y := by simpa using hxy
        exact ⟨s, List.prefix_refl _, hfollows.1, rfl⟩
      · exact hshorter h
    · rw [List.append_nil] at h
      exact hshorter h

/-- While no follower comes back that was dropped, none that was dropped has been observed more
often than one that is kept, and a prediction begins with one that was observed most often. -/
theorem frequent_follower_kept (maxKeys maxCandidates : ℕ) (hcap : 1 ≤ maxCandidates)
    (stream : List JsString) (key : JsString)
    (htracked : AccessPredictor.TrackedSince maxKeys maxCandidates key stream)
    (hreturn : ∀ s next, s ++ [next] <+: stream → s.getLast? = some key →
      next ∈ followers key s →
        next ∈ (((AccessPredictor.new maxKeys maxCandidates).recordAll s).candidates key).keys) :
    let p := (AccessPredictor.new maxKeys maxCandidates).recordAll stream
    let l := followers key stream
    (∀ dropped ∈ l, dropped ∉ (p.candidates key).keys → ∀ kept ∈ (p.candidates key).keys,
      l.count dropped ≤ l.count kept) ∧
      (l ≠ [] → ∀ topN, 1 ≤ topN → ∃ best rest, p.predict key topN = best :: rest ∧
        ∀ follower, l.count follower ≤ l.count best.key) := by
  intro p l
  have hobserved : p.candidates key = Candidates.observed maxCandidates l :=
    AccessPredictor.candidates_of_tracked htracked
  have hlossless : Candidates.Lossless l (p.candidates key) := by
    rw [hobserved]
    refine Candidates.lossless_observed l fun u next hu hmem => ?_
    obtain ⟨s, hs, hlast, rfl⟩ := exists_of_prefix_followers hu
    have hpre : s <+: stream := (List.prefix_append s [next]).trans hs
    rw [← AccessPredictor.candidates_of_tracked (htracked.of_prefix hpre)]
    exact hreturn s next hs hlast hmem
  have hpos : ∀ k ∈ (p.candidates key).keys, 1 ≤ l.count k := by
    rw [hobserved]
    exact fun k hk => Candidates.count_pos_of_mem_observed hk
  refine ⟨fun dropped hdropped hnot kept hkept => ?_, fun hl topN htop => ?_⟩
  · rw [hlossless.dropped dropped hdropped hnot]
    exact hpos kept hkept
  · have hne : (p.candidates key).entries ≠ [] :=
      List.length_pos_iff.1 (hobserved ▸ Candidates.observed_size_pos hcap hl)
    obtain ⟨e, he, hmost, rest, hpredict⟩ := AccessPredictor.predict_head hne htop
    refine ⟨_, rest, hpredict, fun follower => ?_⟩
    have hcount : e.2 = l.count e.1 := hlossless.exact e.1 e.2 (OrderedMap.get?_eq_some.2 he)
    by_cases hkept : follower ∈ (p.candidates key).keys
    · obtain ⟨n, hn⟩ := OrderedMap.mem_keys.1 hkept
      rw [← hlossless.exact follower n (OrderedMap.get?_eq_some.2 hn), ← hcount]
      exact hmost _ hn
    · by_cases hmem : follower ∈ l
      · rw [hlossless.dropped follower hmem hkept]
        exact hpos e.1 (OrderedMap.mem_keys_of_mem he)
      · rw [List.count_eq_zero.2 hmem]
        exact Nat.zero_le _

/-- The second follower of two makes the first one drop, and that one does not come back. -/
theorem frequent_follower_kept_two :
    let stream : List JsString := [js "k", js "a", js "k", js "b"]
    let p := (AccessPredictor.new 2000 1).recordAll stream
    let l := followers (js "k") stream
    js "a" ∈ l ∧ js "a" ∉ (p.candidates (js "k")).keys ∧
      ∃ best rest, p.predict (js "k") 3 = best :: rest ∧
        ∀ follower, l.count follower ≤ l.count best.key := by
  intro stream p l
  have hinits : ∀ t ∈ stream.inits, ∀ h : t ≠ [], t.dropLast.getLast? = some (js "k") →
      t.getLast h ∈ followers (js "k") t.dropLast → t.getLast h ∈
        (((AccessPredictor.new 2000 1).recordAll t.dropLast).candidates (js "k")).keys := by
    decide
  have hkept := frequent_follower_kept 2000 1 (by decide) stream (js "k") (.of_few (by decide) _)
    fun s next hs => by
      have h := hinits (s ++ [next]) ((List.mem_inits _ _).2 hs) (by simp)
      simpa using h
  exact ⟨by decide, by decide, hkept.2 (by decide) 3 (by decide)⟩

/-- A follower that came twice is dropped for one that came once: it was counted afresh after it
had been dropped before. -/
theorem frequent_follower_lost :
    let stream : List JsString :=
      [js "k", js "a", js "k", js "b", js "k", js "a", js "k", js "c"]
    let p := (AccessPredictor.new 2000 1).recordAll stream
    let l := followers (js "k") stream
    AccessPredictor.TrackedSince 2000 1 (js "k") stream ∧
      js "a" ∈ l ∧ js "a" ∉ (p.candidates (js "k")).keys ∧
      js "c" ∈ (p.candidates (js "k")).keys ∧ l.count (js "c") < l.count (js "a") ∧
      (p.predict (js "k") 3).map (·.key) = [js "c"] :=
  ⟨.of_few (by decide) _, by decide, by decide, by decide, by decide, by decide⟩

/-- The predictions of a key report its followers, and their share of all of them, exactly as long
as it has had no more different followers than it may have candidates. -/
theorem prediction_share_iff (maxKeys maxCandidates : ℕ) (hcap : 1 ≤ maxCandidates)
    (stream : List JsString) (key : JsString)
    (htracked : AccessPredictor.TrackedSince maxKeys maxCandidates key stream) :
    let p := (AccessPredictor.new maxKeys maxCandidates).recordAll stream
    let l := followers key stream
    (∀ topN, ∀ q ∈ p.predict key topN,
      q.count = l.count q.key ∧ q.probability = (q.count : ℚ) / l.length) ↔
      l.toFinset.card ≤ maxCandidates := by
  intro p l
  have hobserved : p.candidates key = Candidates.observed maxCandidates l :=
    AccessPredictor.candidates_of_tracked htracked
  constructor
  · intro hall
    by_contra hmany
    rcases Candidates.tally_or_lt maxCandidates l with htally | hlt
    · exact hmany (Candidates.size_of_tally htally ▸ Candidates.observed_size maxCandidates l)
    · have hl : l ≠ [] := by
        rintro hnil
        rw [hnil] at hlt
        exact absurd hlt (Nat.not_lt_zero _)
      have hne : (p.candidates key).entries ≠ [] :=
        List.length_pos_iff.1 (hobserved ▸ Candidates.observed_size_pos hcap hl)
      obtain ⟨e, he, -, rest, hpredict⟩ := AccessPredictor.predict_head hne le_rfl
      have hshare := (hall 1 _ (hpredict ▸ List.mem_cons_self)).2
      have hpos : (e.2 : ℚ) ≠ 0 := by
        have hget := OrderedMap.get?_eq_some.2 he
        rw [hobserved] at hget
        have hpos := (Candidates.observed_le maxCandidates l _ _ hget).1
        exact_mod_cast Nat.one_le_iff_ne_zero.1 hpos
      have heq : ((p.candidates key).total : ℚ) = l.length := by
        rw [div_eq_mul_inv, div_eq_mul_inv] at hshare
        exact inv_injective (mul_left_cancel₀ hpos hshare)
      rw [← hobserved] at hlt
      exact hlt.ne (by exact_mod_cast heq)
  · intro hfew topN q hq
    have htally := Candidates.observed_eq_tally l hfew
    rw [← hobserved] at htally
    rw [AccessPredictor.predict_eq, List.mem_map] at hq
    obtain ⟨e, he, rfl⟩ := hq
    have hmem := mem_stableSort.1 (List.mem_of_mem_take he)
    rw [htally, mem_tally] at hmem
    exact ⟨hmem.2, by rw [Candidates.total_of_tally htally]⟩

/-- Two followers, and room for two: each is half of them. -/
theorem prediction_share_two :
    let stream : List JsString := [js "k", js "a", js "k", js "b"]
    let p := (AccessPredictor.new 2000 2).recordAll stream
    ∃ q ∈ p.predict (js "k") 3, q.key = js "a" ∧ q.count = 1 ∧
      q.probability = (q.count : ℚ) / (followers (js "k") stream).length := by
  intro stream p
  have hall := (prediction_share_iff 2000 2 (by decide) stream (js "k")
    (.of_few (by decide) _)).2 (by decide)
  have hpredict : p.predict (js "k") 3 =
      [⟨js "a", 1, (1 : ℕ) / (2 : ℕ)⟩, ⟨js "b", 1, (1 : ℕ) / (2 : ℕ)⟩] := rfl
  have hmem : ⟨js "a", 1, (1 : ℕ) / (2 : ℕ)⟩ ∈ p.predict (js "k") 3 := by
    rw [hpredict]
    exact List.mem_cons_self
  obtain ⟨hcount, hshare⟩ := hall 3 _ hmem
  exact ⟨_, hmem, rfl, rfl, hshare⟩

/-- With room for one, the one that is left is said to be certain. -/
theorem prediction_share_lost :
    let stream : List JsString := [js "k", js "a", js "k", js "b"]
    let p := (AccessPredictor.new 2000 1).recordAll stream
    let l := followers (js "k") stream
    AccessPredictor.TrackedSince 2000 1 (js "k") stream ∧
      ∃ q ∈ p.predict (js "k") 3, q.key = js "b" ∧ q.probability = 1 ∧
        q.probability ≠ (q.count : ℚ) / l.length := by
  intro stream p l
  have hpredict : p.predict (js "k") 3 = [⟨js "b", 1, (1 : ℕ) / (1 : ℕ)⟩] := rfl
  have hlen : l.length = 2 := rfl
  refine ⟨.of_few (by decide) _, ⟨js "b", 1, (1 : ℕ) / (1 : ℕ)⟩, ?_, rfl, ?_, ?_⟩
  · rw [hpredict]
    exact List.mem_singleton_self _
  · norm_num
  · rw [hlen]
    norm_num

end InkCache
