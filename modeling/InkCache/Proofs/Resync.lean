import InkCache.Resync
import InkCache.Proofs.Replication

/-!
# When a re-sync makes a replica equal to its leader

A key that some op in flight writes will have the leader's value once all have arrived, whatever
the replica holds now. For the others one asks where the leader's value comes from: until the
snapshot is loaded it is the value of the row, untouched since, or some op has written it that the
leader forwarded after it took the snapshot and that has arrived before the snapshot (`Taken`). An
undisturbed load keeps what those ops have written and finds the rows as they are on the leader,
and from then on all keys agree (`Follows`).
-/

namespace InkCache

open Lib

variable {ν L : Type} {k : JsString}

/-! ## Ops in flight -/

def ofEpoch (n : ℕ) (messages : List (Forwarded ν)) : List (ReplicationOp ν) :=
  (messages.filter fun m => m.epoch = n).map Forwarded.op

theorem ofEpoch_append {n : ℕ} {ms ms' : List (Forwarded ν)} :
    ofEpoch n (ms ++ ms') = ofEpoch n ms ++ ofEpoch n ms' := by
  rw [ofEpoch, List.filter_append, List.map_append]
  rfl

/-- The ops of an epoch around one of the messages. -/
theorem ofEpoch_split {n : ℕ} {ms : List (Forwarded ν)} {m : Forwarded ν} {i : ℕ}
    (hm : ms[i]? = some m) : ofEpoch n ms =
      ofEpoch n (ms.take i) ++ ofEpoch n [m] ++ ofEpoch n (ms.drop (i + 1)) := by
  obtain ⟨hlt, rfl⟩ := List.getElem?_eq_some_iff.1 hm
  rw [← ofEpoch_append, ← ofEpoch_append, List.append_assoc, List.singleton_append,
    ← List.drop_eq_getElem_cons hlt, List.take_append_drop]

theorem ofEpoch_eraseIdx {n : ℕ} {ms : List (Forwarded ν)} {i : ℕ} :
    ofEpoch n (ms.eraseIdx i) = ofEpoch n (ms.take i) ++ ofEpoch n (ms.drop (i + 1)) := by
  rw [List.eraseIdx_eq_take_drop_succ, ofEpoch_append]

theorem mem_ofEpoch {n : ℕ} {ms : List (Forwarded ν)} {op : ReplicationOp ν} :
    op ∈ ofEpoch n ms ↔ ∃ m ∈ ms, m.epoch = n ∧ m.op = op := by
  simp [ofEpoch, and_assoc]

theorem ofEpoch_eq_nil {n : ℕ} {ms : List (Forwarded ν)} (h : ∀ m ∈ ms, m.epoch < n) :
    ofEpoch n ms = [] := by
  rw [ofEpoch, List.filter_eq_nil_iff.2 fun m hm => by simpa using (h m hm).ne, List.map_nil]

/-! ## Loading rows -/

/-- The op that sets a row. -/
def SnapshotRow.op (row : SnapshotRow ν) : ReplicationOp ν := .set row.key row.value row.ttl

/-- A key is left as it was by rows that are not its own, and has the value of one that is. -/
theorem replay_rows : ∀ (rows : List (SnapshotRow ν)) (m : JsString → Option JsString),
    (k ∉ rows.map SnapshotRow.key ∧
        replay ReplicationOp.writes m (rows.map SnapshotRow.op) k = m k) ∨
      ∃ row ∈ rows, row.key = k ∧
        replay ReplicationOp.writes m (rows.map SnapshotRow.op) k = some row.value
  | [], m => .inl ⟨by simp, rfl⟩
  | row :: rows, m => by
    have hm : ∀ m, replay ReplicationOp.writes m ((row :: rows).map SnapshotRow.op) =
      replay ReplicationOp.writes (effect ReplicationOp.writes m row.op)
        (rows.map SnapshotRow.op) := fun m => rfl
    rw [hm]
    rcases replay_rows rows (effect ReplicationOp.writes m row.op) with ⟨hno, hv⟩ | ⟨r, hr, hk, hv⟩
    · by_cases hk : row.key = k
      · refine .inr ⟨row, List.mem_cons_self, hk, ?_⟩
        rw [hv]
        simp [effect, SnapshotRow.op, ReplicationOp.writes, hk]
      · refine .inl ⟨by simp [Ne.symm hk, hno], ?_⟩
        rw [hv]
        simp [effect, SnapshotRow.op, ReplicationOp.writes, hk]
    · exact .inr ⟨r, List.mem_cons_of_mem _ hr, hk, hv⟩

theorem values_eq_none {st : CacheStore ν} (h : k ∉ st.entries.keys) : st.values k = none := by
  rw [CacheStore.values, OrderedMap.get?_eq_none.2 h]
  rfl

/-! ## Where the values of the leader come from -/

section Attribution

variable {s : Following ν L} {op : ReplicationOp ν} {rows : List (SnapshotRow ν)} {number : ℕ}

/-- The rows give the key this value. -/
def Shows (rows : List (SnapshotRow ν)) (k : JsString) (v : Option JsString) : Prop :=
  (∀ row ∈ rows, row.key = k → v = some row.value) ∧ (k ∉ rows.map SnapshotRow.key → v = none)

/-- The adopted leader has forwarded the message after `number` requests. -/
structure Since (s : Following ν L) (number : ℕ) (m : Forwarded ν) : Prop where
  mem : m ∈ s.messages ∨ m ∈ s.arrived
  epoch : m.epoch = s.epoch
  number : number ≤ m.number

/-- A snapshot of the adopted leader, on its way to the replica: each value of the leader is that of
the rows, untouched since, or has been written since; and what the ops that overtook the snapshot
have written will be as on the leader. -/
structure Taken (s : Following ν L) (rows : List (SnapshotRow ν)) (number : ℕ) : Prop where
  number_le : number ≤ s.number
  source : ∀ k,
    (Shows rows k (s.leaderStore.values k) ∧ ∀ m, Since s number m → m.op.writes k = none) ∨
      ∃ m, Since s number m ∧ m.op.writes k = some (s.leaderStore.values k)
  written : ∀ op ∈ s.arrivedSince number, ∀ k, op.writes k ≠ none →
    replay ReplicationOp.writes s.replica.values s.inFlight k = s.leaderStore.values k

theorem mem_arrivedSince : op ∈ s.arrivedSince number ↔
    ∃ m ∈ s.arrived, m.epoch = s.epoch ∧ number ≤ m.number ∧ m.op = op := by
  simp [Following.arrivedSince, and_assoc]

theorem mem_overtaking : op ∈ s.overtaking ↔ ∃ c ∈ s.syncs, c.epoch = s.epoch ∧
    ∃ rows number, c.phase = .answered rows number ∧ op ∈ s.arrivedSince number := by
  simp only [Following.overtaking, List.mem_flatMap]
  refine exists_congr fun c => and_congr_right fun _ => ?_
  by_cases he : c.epoch = s.epoch
  · rw [if_pos he]
    rcases hp : c.phase with _ | ⟨rows, number⟩ | _ <;> simp [he]
  · simp [he]

theorem decided_iff : s.decided k = true ↔ ∃ op ∈ s.inFlight, op.writes k ≠ none := by
  simp [Following.decided, Option.isSome_iff_ne_none]

/-- Where no op in flight writes the key, it has on the replica the value it will have. -/
theorem replay_undecided (h : ¬ s.decided k = true) (m : JsString → Option JsString) :
    replay ReplicationOp.writes m s.inFlight k = m k := by
  refine replay_of_not_written _ m fun op hop => ?_
  by_contra hw
  exact h (decided_iff.2 ⟨op, hop, hw⟩)

/-- What has written a key that no op in flight will decide, has arrived. -/
theorem Since.arrived {m : Forwarded ν} (h : Since s number m) (hk : ¬ s.decided k = true)
    (hw : m.op.writes k ≠ none) : m.op ∈ s.arrivedSince number := by
  refine mem_arrivedSince.2 ⟨m, h.mem.resolve_left fun hmem => ?_, h.epoch, h.number, rfl⟩
  exact hk (decided_iff.2 ⟨m.op, mem_ofEpoch.2 ⟨m, hmem, h.epoch, rfl⟩, hw⟩)

/-- The last writer of a key that no op in flight will decide is among the ops that overtook the
snapshot, if any of them has written it. -/
theorem Taken.attributed (h : Taken s rows number) (hk : ¬ s.decided k = true)
    (hop : op ∈ s.arrivedSince number) (hw : op.writes k ≠ none) :
    ∃ op' ∈ s.arrivedSince number, op'.writes k = some (s.leaderStore.values k) := by
  rcases h.source k with ⟨-, hnone⟩ | ⟨m, hm, hmk⟩
  · obtain ⟨m, hm, he, hn, rfl⟩ := mem_arrivedSince.1 hop
    exact absurd (hnone m ⟨.inr hm, he, hn⟩) hw
  · exact ⟨m.op, hm.arrived hk (by simp [hmk]), hmk⟩

end Attribution

/-! ## The invariant -/

variable {url : JsString} {s s' s₀ : Following ν L} {log es : List Empty}

structure Follows (url : JsString) (s : Following ν L) : Prop where
  urls : ∀ l, (s.leaders l).leadership.replicaUrls.count url = 1
  tags : ∀ m ∈ s.messages, m.epoch ≤ s.epoch
  numbers : ∀ m, m ∈ s.messages ∨ m ∈ s.arrived → m.number < s.number
  syncTags : ∀ c ∈ s.syncs, c.epoch ≤ s.epoch ∧ (c.epoch = s.epoch → c.leader = s.leader)
  decided : ∀ k, s.decided k = true →
    ∀ m, replay ReplicationOp.writes m s.inFlight k = s.leaderStore.values k
  taken : ∀ c ∈ s.syncs, c.epoch = s.epoch →
    ∀ rows number, c.phase = .answered rows number → Taken s rows number
  synced : s.synced = true →
    replay ReplicationOp.writes s.replica.values s.inFlight = s.leaderStore.values

/-- What an op that overtook the snapshot has written, will be as on the leader. -/
theorem Follows.overtaken (h : Follows url s) {op : ReplicationOp ν} (hop : op ∈ s.overtaking)
    (hw : op.writes k ≠ none) :
    replay ReplicationOp.writes s.replica.values s.inFlight k = s.leaderStore.values k := by
  obtain ⟨c, hc, he, rows, number, hphase, harr⟩ := mem_overtaking.1 hop
  exact (h.taken c hc he rows number hphase).written op harr k hw

/-- What has been forwarded since the snapshot stays so, wherever the messages are. -/
theorem Taken.congr {rows : List (SnapshotRow ν)} {number : ℕ} (h : Taken s rows number)
    (hnumber : s.number ≤ s'.number) (he : s'.epoch = s.epoch)
    (hmem : ∀ m, (m ∈ s'.messages ∨ m ∈ s'.arrived) ↔ (m ∈ s.messages ∨ m ∈ s.arrived))
    (hleader : s'.leaderStore.values = s.leaderStore.values)
    (hwritten : ∀ op ∈ s'.arrivedSince number, ∀ k, op.writes k ≠ none →
      replay ReplicationOp.writes s'.replica.values s'.inFlight k = s'.leaderStore.values k) :
    Taken s' rows number := by
  have hsince : ∀ m, Since s' number m ↔ Since s number m := fun m =>
    ⟨fun hm => ⟨(hmem m).1 hm.mem, he ▸ hm.epoch, hm.number⟩,
      fun hm => ⟨(hmem m).2 hm.mem, he ▸ hm.epoch, hm.number⟩⟩
  refine ⟨h.number_le.trans hnumber, fun k => ?_, hwritten⟩
  simp only [hleader, hsince]
  exact h.source k

theorem inFlight_send {op : ReplicationOp ν} (he : s'.epoch = s.epoch)
    (hm : s'.messages = s.messages ++ [⟨s.epoch, s.number, op⟩]) :
    s'.inFlight = s.inFlight ++ [op] := by
  rw [Following.inFlight, hm, he, List.filter_append, List.map_append]
  simp [Following.inFlight]

/-- What the leader writes next has been written since. -/
theorem Taken.send {rows : List (SnapshotRow ν)} {number : ℕ} {op : ReplicationOp ν}
    (h : Taken s rows number) (he : s'.epoch = s.epoch)
    (hm : s'.messages = s.messages ++ [⟨s.epoch, s.number, op⟩]) (ha : s'.arrived = s.arrived)
    (hn : s.number ≤ s'.number) (hr : s'.replica = s.replica)
    (hleader : s'.leaderStore.values = effect ReplicationOp.writes s.leaderStore.values op) :
    Taken s' rows number := by
  have hsince : ∀ m, Since s' number m → Since s number m ∨ m.op = op := fun m hm' => by
    have hmem := hm'.mem
    rw [hm, ha, List.mem_append, List.mem_singleton, or_right_comm] at hmem
    exact hmem.imp (⟨·, he ▸ hm'.epoch, hm'.number⟩) (congrArg Forwarded.op)
  refine ⟨h.number_le.trans hn, fun k => ?_, fun o ho k hwo => ?_⟩
  · rw [hleader]
    rcases hw : op.writes k with _ | v
    · simp only [effect, hw, Option.getD_none]
      refine (h.source k).imp (And.imp_right fun hnone m hm' => ?_) ?_
      · rcases hsince m hm' with hm' | hop
        · exact hnone m hm'
        · rw [hop, hw]
      · rintro ⟨m, hm', hmk⟩
        refine ⟨m, ⟨?_, he ▸ hm'.epoch, hm'.number⟩, hmk⟩
        rw [hm, ha]
        exact hm'.mem.imp_left (List.mem_append_left _)
    · refine .inr ⟨⟨s.epoch, s.number, op⟩, ⟨.inl ?_, he.symm, h.number_le⟩, ?_⟩
      · rw [hm]
        exact List.mem_append_right _ (List.mem_singleton_self _)
      · simp [effect, hw]
  · have ho' : o ∈ s.arrivedSince number := by
      rw [Following.arrivedSince, ha, he] at ho
      exact ho
    rw [inFlight_send he hm, replay_concat, hleader, hr]
    simp only [effect]
    rw [h.written o ho' k hwo]

/-- The part of the state that most steps of a sync leave alone. -/
theorem Follows.congr (h : Follows url s) (hl : s'.leaders = s.leaders)
    (hleader : s'.leader = s.leader) (he : s'.epoch = s.epoch) (hm : s'.messages = s.messages)
    (ha : s'.arrived = s.arrived) (hn : s.number ≤ s'.number) (hr : s'.replica = s.replica)
    (hs : s'.synced = s.synced) (hsyncs : ∀ c ∈ s'.syncs, c ∈ s.syncs ∨
      (c.epoch ≤ s.epoch ∧ (c.epoch = s.epoch → c.leader = s.leader)) ∧
        (c.epoch = s.epoch → ∀ rows number, c.phase = .answered rows number →
          Taken s rows number)) : Follows url s' := by
  have hf : s'.inFlight = s.inFlight := by rw [Following.inFlight, hm, he]; rfl
  have hst : s'.leaderStore = s.leaderStore := by rw [Following.leaderStore, hl, hleader]; rfl
  have harr : ∀ number, s'.arrivedSince number = s.arrivedSince number := fun number => by
    rw [Following.arrivedSince, ha, he]; rfl
  have htaken : ∀ rows number, Taken s rows number → Taken s' rows number := by
    intro rows number ht
    refine ht.congr hn he (fun m => by rw [hm, ha]) (by rw [hst]) ?_
    rw [harr, hf, hst, hr]
    exact ht.written
  exact {
    urls := fun l => by rw [hl]; exact h.urls l
    tags := fun m hmem => he ▸ h.tags m (hm ▸ hmem)
    numbers := fun m hmem => (h.numbers m (by rw [← hm, ← ha]; exact hmem)).trans_le hn
    syncTags := fun c hc => by
      rw [he, hleader]
      exact (hsyncs c hc).elim (h.syncTags c) And.left
    decided := fun k hk m => by
      rw [hf, hst]
      refine h.decided k ?_ m
      rwa [decided_iff, hf, ← decided_iff] at hk
    taken := fun c hc hce rows number hphase => by
      refine htaken rows number ?_
      rw [he] at hce
      rcases hsyncs c hc with hc | ⟨-, hc⟩
      · exact h.taken c hc hce rows number hphase
      · exact hc hce rows number hphase
    synced := fun hsy => by
      rw [hf, hst, hr]
      exact h.synced (hs ▸ hsy) }

section Leaders

variable [DecidableEq L]

theorem urls_update (h : Follows url s) {l : L} {app : App ν}
    (happ : app.leadership.replicaUrls.count url = 1) (l' : L) :
    (Function.update s.leaders l app l').leadership.replicaUrls.count url = 1 := by
  by_cases hl : l' = l
  · rwa [hl, Function.update_self]
  · rw [Function.update_of_ne hl]
    exact h.urls l'

/-- Another node's store is no concern of the replica. -/
theorem Follows.other (h : Follows url s) {l : L} (hl : l ≠ s.leader) {app : App ν}
    (happ : app.leadership.replicaUrls.count url = 1) : Follows url (s.setLeader l app) := by
  have hst : (s.setLeader l app).leaderStore = s.leaderStore := by
    simp only [Following.leaderStore, Following.setLeader, Function.update_of_ne hl.symm]
  exact {
    urls := urls_update h happ
    tags := h.tags
    numbers := h.numbers
    syncTags := h.syncTags
    decided := fun k hk m => by rw [hst]; exact h.decided k hk m
    taken := fun c hc he rows number hphase => by
      have ht := h.taken c hc he rows number hphase
      refine ht.congr le_rfl rfl (fun m => Iff.rfl) (by rw [hst]) fun op hop k hw => ?_
      rw [hst]
      exact ht.written op hop k hw
    synced := fun hsy => by rw [hst]; exact h.synced hsy }

/-- The leader changes its store as the op it sends. -/
theorem Follows.send (h : Follows url s) {op : ReplicationOp ν} {app : App ν}
    (happ : app.leadership.replicaUrls.count url = 1)
    (hvalues : app.store.values = effect ReplicationOp.writes s.leaderStore.values op) :
    Follows url { s.setLeader s.leader app with
      messages := s.messages ++ [⟨s.epoch, s.number, op⟩]
      number := s.number + 1 } := by
  generalize hs' : ({ s.setLeader s.leader app with
    messages := s.messages ++ [⟨s.epoch, s.number, op⟩]
    number := s.number + 1 } : Following ν L) = s'
  have hm : s'.messages = s.messages ++ [⟨s.epoch, s.number, op⟩] := by rw [← hs']
  have ha : s'.arrived = s.arrived := by rw [← hs']; rfl
  have he : s'.epoch = s.epoch := by rw [← hs']; rfl
  have hr : s'.replica = s.replica := by rw [← hs']; rfl
  have hn : s'.number = s.number + 1 := by rw [← hs']
  have hsyncs : s'.syncs = s.syncs := by rw [← hs']; rfl
  have hleader' : s'.leader = s.leader := by rw [← hs']; rfl
  have hleader : s'.leaderStore.values = effect ReplicationOp.writes s.leaderStore.values op := by
    rw [← hs', ← hvalues]
    simp only [Following.leaderStore, Following.setLeader, Function.update_self]
  have hflight := inFlight_send he hm
  refine ⟨fun l => ?_, fun m hmem => ?_, fun m hmem => ?_, fun c hc => ?_, fun k hk m => ?_,
    fun c hc hce rows number hphase => ?_, fun hsy => ?_⟩
  · rw [← hs']
    exact urls_update h happ l
  · rw [hm, List.mem_append, List.mem_singleton] at hmem
    rw [he]
    rcases hmem with hmem | rfl
    · exact h.tags m hmem
    · rfl
  · rw [hm, ha, List.mem_append, List.mem_singleton, or_right_comm] at hmem
    rw [hn]
    rcases hmem with hmem | rfl
    · exact (h.numbers m hmem).trans (Nat.lt_succ_self _)
    · exact Nat.lt_succ_self _
  · rw [he, hleader']
    exact h.syncTags c (hsyncs ▸ hc)
  · rw [hflight, replay_concat, hleader]
    rcases hw : op.writes k with _ | v
    · obtain ⟨o, ho, hwo⟩ := decided_iff.1 hk
      rw [hflight, List.mem_append, List.mem_singleton] at ho
      rcases ho with ho | rfl
      · simp only [effect, hw, Option.getD_none]
        exact h.decided k (decided_iff.2 ⟨o, ho, hwo⟩) m
      · exact absurd hw hwo
    · simp [effect, hw]
  · rw [he] at hce
    exact (h.taken c (hsyncs ▸ hc) hce rows number hphase).send he hm ha (hn ▸ Nat.le_succ _) hr
      hleader
  · have hsy' : s.synced = true := by rw [← hs'] at hsy; exact hsy
    rw [hflight, replay_concat, hleader, hr, h.synced hsy']

end Leaders

/-! ## Loading a snapshot -/

variable [JsNumber ν] {now : ν}

/-- The rows of a snapshot give each key what the leader has. -/
theorem shows_getSnapshot {app : App ν} (h : AllLive now app.store.entries) (k : JsString) :
    Shows (app.getSnapshot now).2 k (app.store.values k) := by
  have hrows : (app.getSnapshot now).2 =
      app.store.entries.entries.map fun e => ⟨e.1, e.2.value, e.2.remainingTtl now⟩ := by
    rw [App.getSnapshot, CacheStore.exportEntries, listLive_eq, live_eq_self h]
  rw [hrows]
  refine ⟨fun row hrow hk => ?_, fun hk => ?_⟩
  · obtain ⟨⟨k', e⟩, he, rfl⟩ := List.mem_map.1 hrow
    obtain rfl : k' = k := hk
    rw [CacheStore.values, OrderedMap.get?_eq_some.2 he]
    rfl
  · refine values_eq_none fun hmem => hk ?_
    obtain ⟨e, he⟩ := OrderedMap.mem_keys.1 hmem
    exact List.mem_map.2 ⟨_, List.mem_map.2 ⟨_, he, rfl⟩, rfl⟩

/-- When the leader takes its snapshot, nothing has been forwarded since. -/
theorem Follows.taken_serve (h : Follows url s)
    (hlive : AllLive now s.leaderStore.entries) :
    Taken s ((s.leaders s.leader).getSnapshot now).2 s.number := by
  refine ⟨le_rfl, fun k => .inl ⟨shows_getSnapshot hlive k, fun m hm => ?_⟩, fun op hop => ?_⟩
  · exact absurd hm.number (h.numbers m hm.mem).not_ge
  · obtain ⟨m, hm, -, hnumber, -⟩ := mem_arrivedSince.1 hop
    exact absurd hnumber (h.numbers m (.inr hm)).not_ge

theorem values_loadRows : ∀ {st : CacheStore ν} {rows : List (SnapshotRow ν)},
    fits now st rows = true →
      (loadRows now st rows).values
        = replay ReplicationOp.writes st.values (rows.map SnapshotRow.op)
  | _, [], _ => rfl
  | st, row :: rows, h => by
    simp only [fits, Bool.and_eq_true, decide_eq_true_eq] at h
    have hrest := values_loadRows h.2
    rw [values_set h.1] at hrest
    exact hrest

/-- The snapshot of the adopted leader makes the replica as the leader is. -/
theorem Follows.load_current {attempt number : ℕ} {l : L} {rows : List (SnapshotRow ν)} {i : ℕ}
    (h : Follows url s) (hc : s.syncs[i]? = some ⟨l, s.epoch, attempt, .answered rows number⟩)
    (hfits : Unhindered s (.load now i)) (hD : Undisturbed s (.load now i)) :
    replay ReplicationOp.writes (loadRows now s.replica rows).values s.inFlight
      = s.leaderStore.values := by
  obtain ⟨hrows, hbeside⟩ := (if_pos rfl).mp (hD _ hc)
  have hvalues := values_loadRows (hfits _ hc)
  have hmem := List.mem_of_getElem? hc
  have ht := h.taken _ hmem rfl rows number rfl
  have hovertaking : ∀ op ∈ s.arrivedSince number, op ∈ s.overtaking := fun op hop =>
    mem_overtaking.2 ⟨_, hmem, rfl, rows, number, rfl, hop⟩
  funext k
  by_cases hk : s.decided k = true
  · exact h.decided k hk _
  refine (replay_undecided hk _).trans ?_
  rw [show (loadRows now s.replica rows).values k = _ from congrFun hvalues k]
  rcases replay_rows (k := k) rows s.replica.values with ⟨hno, hv⟩ | ⟨row, hrow, rfl, hv⟩
  · -- The key keeps what it has on the replica, which some op that overtook the rows has written.
    refine hv.trans ?_
    have hover : ∀ op ∈ s.overtaking, op.writes k ≠ none →
        s.replica.values k = s.leaderStore.values k := fun op hop hw =>
      (replay_undecided hk _).symm.trans (h.overtaken hop hw)
    rcases ht.source k with ⟨hshows, -⟩ | ⟨m, hm, hmk⟩
    · by_cases hkeys : k ∈ s.replica.entries.keys
      · obtain ⟨op, hop, hw⟩ := (hbeside k hkeys hno).resolve_left hk
        exact hover op hop (Option.isSome_iff_ne_none.1 hw)
      · rw [values_eq_none hkeys, hshows.2 hno]
    · exact hover m.op (hovertaking _ (hm.arrived hk (by simp [hmk]))) (by simp [hmk])
  · -- The key has the value of a row, and nothing has written it otherwise since.
    refine hv.trans ?_
    rcases ht.source row.key with ⟨hshows, -⟩ | ⟨m, hm, hmk⟩
    · exact (hshows.1 row hrow rfl).symm
    · have harr := hovertaking _ (hm.arrived hk (by simp [hmk]))
      exact ((hrows row hrow).resolve_left hk m.op harr _ hmk).symm

theorem Follows.load {n attempt number : ℕ} {l : L} {rows : List (SnapshotRow ν)} {i : ℕ}
    (h : Follows url s) (hc : s.syncs[i]? = some ⟨l, n, attempt, .answered rows number⟩)
    (hfits : Unhindered s (.load now i)) (hD : Undisturbed s (.load now i)) :
    Follows url { s with
      replica := loadRows now s.replica rows
      syncs := s.syncs.eraseIdx i
      synced := s.synced || decide (n = s.epoch) } := by
  have hsyncs : ∀ c ∈ s.syncs.eraseIdx i, c ∈ s.syncs := fun c => List.mem_of_mem_eraseIdx
  by_cases hn : n = s.epoch
  · subst hn
    have hall := h.load_current hc hfits hD
    refine ⟨h.urls, h.tags, h.numbers, fun c hcm => h.syncTags c (hsyncs c hcm), h.decided,
      fun c hcm he rows' number' hphase => ?_, fun _ => hall⟩
    exact (h.taken c (hsyncs c hcm) he rows' number' hphase).congr le_rfl rfl (fun m => Iff.rfl) rfl
      fun _ _ k _ => congrFun hall k
  · obtain ⟨hsynced, hrows⟩ := (if_neg hn).mp (hD _ hc)
    have hvalues := values_loadRows (hfits _ hc)
    refine ⟨h.urls, h.tags, h.numbers, fun c hcm => h.syncTags c (hsyncs c hcm), h.decided,
      fun c hcm he rows' number' hphase => ?_, fun hsy => by simp [hsynced, hn] at hsy⟩
    have ht := h.taken c (hsyncs c hcm) he rows' number' hphase
    refine ht.congr le_rfl rfl (fun m => Iff.rfl) rfl fun op hop k hw => ?_
    have hover : op ∈ s.overtaking :=
      mem_overtaking.2 ⟨c, hsyncs c hcm, he, rows', number', hphase, hop⟩
    refine Eq.trans (replay_of_written _ _ _ (.inr ?_)) (ht.written op hop k hw)
    rw [show (loadRows now s.replica rows).values k = _ from congrFun hvalues k]
    rcases replay_rows (k := k) rows s.replica.values with ⟨-, hv⟩ | ⟨row, hrow, rfl, -⟩
    · exact hv
    · exact absurd (hrows row hrow op hover) hw

/-! ## Delivering an op -/

omit [JsNumber ν] in
/-- A message that arrives is still one of those forwarded. -/
theorem forwarded_deliver {ms arrived : List (Forwarded ν)} {i : ℕ} {m : Forwarded ν}
    (hm : ms[i]? = some m) (m' : Forwarded ν) :
    (m' ∈ ms.eraseIdx i ∨ m' ∈ m :: arrived) ↔ (m' ∈ ms ∨ m' ∈ arrived) := by
  obtain ⟨hlt, rfl⟩ := List.getElem?_eq_some_iff.1 hm
  have hsplit : m' ∈ ms ↔ m' ∈ ms.take i ∨ m' = ms[i] ∨ m' ∈ ms.drop (i + 1) := by
    conv_lhs => rw [← List.take_append_drop i ms, List.drop_eq_getElem_cons hlt]
    rw [List.mem_append, List.mem_cons]
  rw [List.eraseIdx_eq_take_drop_succ, List.mem_append, List.mem_cons, hsplit]
  tauto

omit [JsNumber ν] in
/-- What a delivery keeps, once the queue and the keys that matter are seen to. -/
theorem Follows.arrive (h : Follows url s) {i : ℕ} {m : Forwarded ν} {store : CacheStore ν}
    (hm : s.messages[i]? = some m)
    (hdecided : ∀ k, (∃ op ∈ ofEpoch s.epoch (s.messages.eraseIdx i), op.writes k ≠ none) →
      ∀ v, replay ReplicationOp.writes v (ofEpoch s.epoch (s.messages.eraseIdx i)) k =
        s.leaderStore.values k)
    (hwritten : ∀ c ∈ s.syncs, c.epoch = s.epoch → ∀ rows number, c.phase = .answered rows number →
      Taken s rows number → ∀ op, op ∈ s.arrivedSince number ∨ m.epoch = s.epoch ∧ op = m.op →
        ∀ k, op.writes k ≠ none →
          replay ReplicationOp.writes store.values (ofEpoch s.epoch (s.messages.eraseIdx i)) k =
            s.leaderStore.values k)
    (hsynced : s.synced = true →
      replay ReplicationOp.writes store.values (ofEpoch s.epoch (s.messages.eraseIdx i)) =
        s.leaderStore.values) :
    Follows url { s with
      replica := store
      messages := s.messages.eraseIdx i
      arrived := m :: s.arrived } := by
  refine ⟨h.urls, fun m' hm' => h.tags m' (List.mem_of_mem_eraseIdx hm'),
    fun m' hm' => h.numbers m' ((forwarded_deliver hm m').1 hm'), h.syncTags,
    fun k hk => hdecided k (decided_iff.1 hk), fun c hc he rows number hphase => ?_, hsynced⟩
  have ht := h.taken c hc he rows number hphase
  refine ht.congr le_rfl rfl (forwarded_deliver hm) rfl fun op hop => ?_
  refine hwritten c hc he rows number hphase ht op ?_
  obtain ⟨m', hm', he', hnumber, rfl⟩ := mem_arrivedSince.1 hop
  rcases List.mem_cons.1 hm' with rfl | hm'
  · exact .inr ⟨he', rfl⟩
  · exact .inl (mem_arrivedSince.2 ⟨m', hm', he', hnumber, rfl⟩)

/-- An op of the leader arrives before none that it conflicts with. -/
theorem Follows.deliver_current {m : Forwarded ν} {i : ℕ} (h : Follows url s)
    (hm : s.messages[i]? = some m) (he : m.epoch = s.epoch) (hroom : m.op.hasRoom s.replica = true)
    (horder : ∀ m' ∈ s.messages.take i, m'.epoch = s.epoch → m'.op.conflicts m.op = false) :
    Follows url { s with
      replica := applyReplicationOp now s.replica m.op
      messages := s.messages.eraseIdx i
      arrived := m :: s.arrived } := by
  have hflight : s.inFlight = ofEpoch s.epoch (s.messages.take i) ++
      m.op :: ofEpoch s.epoch (s.messages.drop (i + 1)) := by
    refine (ofEpoch_split hm).trans ?_
    simp [ofEpoch, he]
  have hind : ∀ op' ∈ ofEpoch s.epoch (s.messages.take i),
      Independent ReplicationOp.writes op' m.op := fun op' hop' => by
    obtain ⟨m', hm', he', rfl⟩ := mem_ofEpoch.1 hop'
    exact independent_of_conflicts (horder m' hm' he')
  have hdeliver : ∀ v, replay ReplicationOp.writes v s.inFlight =
      replay ReplicationOp.writes (effect ReplicationOp.writes v m.op)
        (ofEpoch s.epoch (s.messages.eraseIdx i)) := fun v => by
    rw [hflight, ofEpoch_eraseIdx, replay_deliver hind]
  have hreplica : replay ReplicationOp.writes (applyReplicationOp now s.replica m.op).values
      (ofEpoch s.epoch (s.messages.eraseIdx i)) =
        replay ReplicationOp.writes s.replica.values s.inFlight := by
    rw [hdeliver, values_apply hroom]
  have hop : m.op ∈ s.inFlight := by
    rw [hflight]
    exact List.mem_append_right _ List.mem_cons_self
  refine h.arrive hm (fun k hk v => ?_) (fun c hc hce rows number hphase ht op hop' k hw => ?_)
    fun hsy => hreplica.trans (h.synced hsy)
  · obtain ⟨o, ho, hw⟩ := hk
    have ho' : o ∈ s.inFlight := by
      rw [ofEpoch_eraseIdx, List.mem_append] at ho
      rw [hflight, List.mem_append, List.mem_cons]
      tauto
    have hall := h.decided k (decided_iff.2 ⟨o, ho', hw⟩) v
    rw [hdeliver] at hall
    exact (replay_of_written _ _ _ (.inl ⟨o, ho, hw⟩)).trans hall
  · rw [hreplica]
    rcases hop' with hop' | ⟨-, rfl⟩
    · exact ht.written op hop' k hw
    · exact h.decided k (decided_iff.2 ⟨m.op, hop, hw⟩) _

/-- An op of an earlier leader arrives before the replica has synced, and writes nothing otherwise
that an op of the adopted leader has written. -/
theorem Follows.deliver_foreign {m : Forwarded ν} {i : ℕ} (h : Follows url s)
    (hm : s.messages[i]? = some m) (he : m.epoch ≠ s.epoch) (hroom : m.op.hasRoom s.replica = true)
    (hsynced : s.synced = false) (hover : ∀ op ∈ s.overtaking, op.conflicts m.op = false) :
    Follows url { s with
      replica := applyReplicationOp now s.replica m.op
      messages := s.messages.eraseIdx i
      arrived := m :: s.arrived } := by
  have hflight : ofEpoch s.epoch (s.messages.eraseIdx i) = s.inFlight := by
    refine ofEpoch_eraseIdx.trans (Eq.trans ?_ (ofEpoch_split hm).symm)
    simp [ofEpoch, he]
  refine h.arrive hm (fun k hk v => ?_) (fun c hc hce rows number hphase ht op hop' k hw => ?_)
    fun hsy => by simp [hsynced] at hsy
  · rw [hflight] at hk ⊢
    exact h.decided k (decided_iff.2 hk) v
  · rw [hflight, values_apply hroom]
    replace hop' := hop'.resolve_right fun hm' => he hm'.1
    by_cases hk : s.decided k = true
    · exact h.decided k hk _
    obtain ⟨op', hop', hw'⟩ := ht.attributed hk hop' hw
    have hind := independent_of_conflicts
      (hover op' (mem_overtaking.2 ⟨c, hc, hce, rows, number, hphase, hop'⟩)) k
    rw [replay_undecided hk]
    -- The op leaves the key alone, or writes what the leader has.
    rcases hind with hnone | hnone | heq
    · simp [hw'] at hnone
    · rw [effect, hnone, Option.getD_none, ← ht.written op' hop' k (by simp [hw']),
        replay_undecided hk]
    · rw [effect, ← heq, hw', Option.getD_some]

theorem Follows.deliver {m : Forwarded ν} {i : ℕ} (h : Follows url s)
    (hm : s.messages[i]? = some m) (hroom : Unhindered s (.deliver now i))
    (hD : Undisturbed s (.deliver now i)) :
    Follows url { s with
      replica := applyReplicationOp now s.replica m.op
      messages := s.messages.eraseIdx i
      arrived := m :: s.arrived } := by
  by_cases he : m.epoch = s.epoch
  · exact h.deliver_current hm he (hroom _ hm) ((if_pos he).mp (hD _ hm))
  · obtain ⟨hsynced, hover⟩ := (if_neg he).mp (hD _ hm)
    exact h.deliver_foreign hm he (hroom _ hm) hsynced hover

/-! ## The steps -/

omit [JsNumber ν] in
/-- Nothing in flight is of the leader that is adopted. -/
theorem Follows.adopt (h : Follows url s) (l : L) : Follows url { s with
    leader := l
    epoch := s.epoch + 1
    syncs := { leader := l, epoch := s.epoch + 1, attempt := 1, phase := .requested } :: s.syncs
    synced := false } := by
  have hnil : ofEpoch (s.epoch + 1) s.messages = [] :=
    ofEpoch_eq_nil fun m hm => Nat.lt_succ_of_le (h.tags m hm)
  refine ⟨h.urls, fun m hm => (h.tags m hm).trans (Nat.le_succ _), h.numbers, fun c hc => ?_,
    fun k hk => ?_, fun c hc he rows number hphase => ?_, fun hsy => by simp at hsy⟩
  · rcases List.mem_cons.1 hc with rfl | hc
    · exact ⟨le_rfl, fun _ => rfl⟩
    · have hle := (h.syncTags c hc).1
      exact ⟨hle.trans (Nat.le_succ _), fun he => absurd (he ▸ hle) (Nat.lt_succ_self _).not_ge⟩
  · obtain ⟨o, ho, -⟩ := decided_iff.1 hk
    change o ∈ ofEpoch (s.epoch + 1) s.messages at ho
    simp [hnil] at ho
  · rcases List.mem_cons.1 hc with rfl | hc
    · simp at hphase
    · exact absurd (h.syncTags c hc).1 (by rw [he]; exact (Nat.lt_succ_self _).not_ge)

omit [JsNumber ν] in
/-- A sync goes on, and neither takes a snapshot nor loads one. -/
theorem Follows.proceed {c : Sync ν L} {i attempt : ℕ} {phase : SyncPhase ν} (h : Follows url s)
    (hc : s.syncs[i]? = some c) (hphase : ∀ rows number, phase ≠ .answered rows number) :
    Follows url { s with syncs := s.syncs.set i ⟨c.leader, c.epoch, attempt, phase⟩ } := by
  refine h.congr rfl rfl rfl rfl rfl le_rfl rfl rfl fun c' hc' => ?_
  refine (List.mem_or_eq_of_mem_set hc').imp_right ?_
  rintro rfl
  exact ⟨h.syncTags c (List.mem_of_getElem? hc),
    fun _ rows number hp => absurd hp (hphase rows number)⟩

variable [DecidableEq L]

theorem Follows.request (h : Follows url s) {r : WriteRequest ν}
    (hroom : Unhindered s (.request now r)) :
    Follows url { s.setLeader s.leader ((s.leaders s.leader).write now r).1 with
      messages := s.messages ++
        (sentTo url ((s.leaders s.leader).write now r).2.2).map (⟨s.epoch, s.number, ·⟩)
      number := s.number + 1 } := by
  have hstep := writeStep now (s.leaders s.leader) r
  simp only [Unhindered] at hroom
  generalize (s.leaders s.leader).write now r = answer at hstep hroom
  cases hstep with
  | refused =>
    refine h.congr ?_ rfl rfl ?_ rfl (Nat.le_succ _) rfl rfl fun c hc => .inl hc
    · exact Function.update_eq_self _ _
    · simp [sentTo]
  | acknowledged op =>
    have hcount := h.urls s.leader
    have hop : op.hasRoom s.leaderStore = true := by
      have hurl : url ∈ (s.leaders s.leader).leadership.replicaUrls :=
        List.count_pos_iff.1 (by rw [hcount]; exact Nat.one_pos)
      exact hroom (url, op) (List.mem_map.2 ⟨_, hurl, rfl⟩)
    simp only [sentTo_forwardToReplicas, hcount, List.replicate_one, List.map_cons, List.map_nil]
    exact h.send hcount (values_apply hop)

theorem getSnapshot_fst {app : App ν} (h : AllLive now app.store.entries) :
    (app.getSnapshot now).1 = app := by
  simp only [App.getSnapshot, CacheStore.exportEntries, listLive_eq, live_eq_self h]

theorem Follows.serve {l : L} {n attempt i : ℕ} (h : Follows url s)
    (hc : s.syncs[i]? = some ⟨l, n, attempt, .requested⟩)
    (hlive : Unhindered s (.serve now i)) :
    Follows url { s.setLeader l ((s.leaders l).getSnapshot now).1 with
      syncs := s.syncs.set i
        ⟨l, n, attempt, .answered ((s.leaders l).getSnapshot now).2 s.number⟩ } := by
  have hmem := List.mem_of_getElem? hc
  have hlive' : AllLive now (s.leaders l).store.entries := hlive _ hc
  refine h.congr ?_ rfl rfl rfl rfl le_rfl rfl rfl fun c hcm => ?_
  · rw [getSnapshot_fst hlive']
    exact Function.update_eq_self _ _
  · refine (List.mem_or_eq_of_mem_set hcm).imp_right ?_
    rintro rfl
    have htags := h.syncTags _ hmem
    refine ⟨htags, fun hn rows number hphase => ?_⟩
    simp only [SyncPhase.answered.injEq] at hphase
    obtain ⟨rfl, rfl⟩ := hphase
    obtain rfl : l = s.leader := htags.2 hn
    exact h.taken_serve hlive'

theorem Follows.step {a : FollowAction ν L} (h : Follows url s) (hU : Unhindered s a)
    (hD : Undisturbed s a) (hs : s.step url a = some (s', es)) : Follows url s' := by
  cases a with
  | adopt l =>
    simp only [Following.step, Option.some.injEq, Prod.mk.injEq] at hs
    obtain ⟨rfl, -⟩ := hs
    exact h.adopt l
  | request now r =>
    simp only [Following.step, Option.some.injEq, Prod.mk.injEq] at hs
    obtain ⟨rfl, -⟩ := hs
    exact h.request hU
  | drift l store =>
    simp only [Following.step] at hs
    split_ifs at hs with hl
    simp only [Option.some.injEq, Prod.mk.injEq] at hs
    obtain ⟨rfl, -⟩ := hs
    exact h.other hl (h.urls l)
  | serve now i =>
    simp only [Following.step] at hs
    split at hs
    · rename_i l n attempt hc
      simp only [Option.some.injEq, Prod.mk.injEq] at hs
      obtain ⟨rfl, -⟩ := hs
      exact h.serve hc hU
    · simp at hs
  | load now i =>
    simp only [Following.step] at hs
    split at hs
    · rename_i hc
      simp only [Option.some.injEq, Prod.mk.injEq] at hs
      obtain ⟨rfl, -⟩ := hs
      exact h.load hc hU hD
    · simp at hs
  | fail i =>
    simp only [Following.step] at hs
    split at hs
    · simp at hs
    · simp at hs
    · rename_i hc
      split_ifs at hs <;> simp only [Option.some.injEq, Prod.mk.injEq] at hs <;>
        obtain ⟨rfl, -⟩ := hs
      · exact h.congr rfl rfl rfl rfl rfl le_rfl rfl rfl fun c hc =>
          .inl (List.mem_of_mem_eraseIdx hc)
      · exact h.proceed hc nofun
  | retry i =>
    simp only [Following.step] at hs
    split at hs
    · rename_i hc
      simp only [Option.some.injEq, Prod.mk.injEq] at hs
      obtain ⟨rfl, -⟩ := hs
      exact h.proceed hc nofun
    · simp at hs
  | deliver now i =>
    simp only [Following.step] at hs
    rcases hm : s.messages[i]? with _ | m
    · simp [hm] at hs
    · simp only [hm, Option.some.injEq, Prod.mk.injEq] at hs
      obtain ⟨rfl, -⟩ := hs
      exact h.deliver hm hU hD

/-! ## Agreement -/

/-- In every run that nothing disturbs: once the sync of the leader adopted last has returned and no
op is in flight, the replica answers every read as that leader does, at any time when neither holds
anything expired. -/
theorem resync_agrees (h₀ : Unled url s₀)
    (h : Run (Following.step url) (fun s a => Unhindered s a ∧ Undisturbed s a) s₀ log s)
    (hsynced : s.synced = true) (hmessages : s.messages = [])
    (hreplica : AllLive now s.replica.entries) (hleader : AllLive now s.leaderStore.entries)
    (k : JsString) : (s.replica.get now k).2 = (s.leaderStore.get now k).2 := by
  have hinv : Follows url s := by
    refine h.invariant (I := fun _ s => Follows url s) ?_ fun hf hP hs => hf.step hP.1 hP.2 hs
    refine ⟨h₀.urls, by simp [h₀.messages], by simp [h₀.messages, h₀.arrived], by simp [h₀.syncs],
      fun k hk => ?_, by simp [h₀.syncs], fun hsy => by simp [h₀.synced] at hsy⟩
    simp [Following.decided, Following.inFlight, h₀.messages] at hk
  have hvalues := hinv.synced hsynced
  rw [Following.inFlight, hmessages] at hvalues
  rw [get_of_allLive hreplica, get_of_allLive hleader, ← hvalues]
  rfl

theorem unled_restarted (key : JsString) : Unled (js "http://replica") (restarted key) where
  syncs := rfl
  messages := rfl
  arrived := rfl
  synced := rfl
  urls _ := by simp [restarted]

/-- The replica adopts a second leader while the answer of the first is on its way; of two writes
after the snapshot of the second was taken, one overtakes it. -/
theorem resync_agrees_twice : ∃ (log : List Empty) (s : Following ℚ Bool),
    Run (Following.step (js "http://replica")) (fun s a => Unhindered s a ∧ Undisturbed s a)
      (restarted (js "k")) log s ∧
    (s.replica.get 0 (js "i")).2 = (s.leaderStore.get 0 (js "i")).2 ∧
    (s.replica.get 0 (js "i")).2 = some (js "2") ∧
    (s.replica.get 0 (js "k")).2 = some (js "3") := by
  have hrun : ∃ (log : List Empty) (s : Following ℚ Bool),
      Run (Following.step (js "http://replica")) (fun s a => Unhindered s a ∧ Undisturbed s a)
        (restarted (js "k")) log s ∧
      s.synced = true ∧ s.messages.length = 0 ∧
      (∀ e ∈ s.replica.entries.entries, e.2.isExpired 0 = false) ∧
      (∀ e ∈ s.leaderStore.entries.entries, e.2.isExpired 0 = false) ∧
      (s.replica.get 0 (js "i")).2 = some (js "2") ∧
      (s.replica.get 0 (js "k")).2 = some (js "3") :=
    exists_run_of_exec [
      .adopt false,
      .serve 0 0,
      .adopt true,
      .serve 0 0,
      .request 0 (setRequest (js "i") (js "2")),
      .request 0 (setRequest (js "k") (js "3")),
      .deliver 0 0,
      .load 0 1,
      .load 0 0,
      .deliver 0 0] (by decide +kernel)
  obtain ⟨log, s, h, hsy, hm, hr, hl, hi, hk⟩ := hrun
  exact ⟨log, s, h,
    resync_agrees (unled_restarted _) h hsy (List.length_eq_zero_iff.1 hm) hr hl (js "i"), hi, hk⟩

/-- A key that the replica has from its file and the leader does not have outlives the sync. -/
theorem resync_keeps_leftover : Unled (js "http://replica") (restarted (js "x")) ∧
    ∃ (log : List Empty) (s : Following ℚ Bool),
      Run (Following.step (js "http://replica")) Unhindered (restarted (js "x")) log s ∧
      s.synced = true ∧ s.syncs.length = 0 ∧ s.messages.length = 0 ∧
      (s.replica.get 0 (js "x")).2 = some (js "0") ∧ (s.leaderStore.get 0 (js "x")).2 = none :=
  ⟨unled_restarted _, exists_run_of_exec [.adopt false, .serve 0 0, .load 0 0]
    (by decide +kernel)⟩

end InkCache
