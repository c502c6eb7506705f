import InkCache.Fencing
import InkCache.Proofs.Cluster
import InkCache.Proofs.Replication

/-!
# Fenced at the source, and only there

A node that was deposed stays a replica until it wins again (`Standing`), so it answers every write
409 and forwards nothing. Nothing stops what it forwarded before, nor what a primary forwards that
has not heard of its successor.
-/

namespace InkCache

open Lib

variable {N : Type} {C : ClusterConfig N} {log es : List (ClusterEvent N)} {i j : N} {t : ℤ}
  {a : ClusterAction N}

/-! ## Deposed nodes -/

theorem heard_append : Heard (log ++ es) i t ↔ Heard log i t ∨ Heard es i t := by
  simp only [Heard, List.mem_append, exists_or]
  tauto

theorem deposed_append (h : Deposed (log ++ es) i) :
    (Deposed log i ∧ ∀ t, .promoted i t ∉ es) ∨
      ∃ es₁ e es₂, es = es₁ ++ e :: es₂ ∧ Deposes (log ++ es₁) i e := by
  obtain ⟨log₁, e, log₂, heq, he, hno⟩ := h
  rcases List.append_eq_append_iff.1 heq with ⟨l, rfl, rfl⟩ | ⟨l, rfl, hl⟩
  · exact .inr ⟨l, e, log₂, rfl, he⟩
  · rcases l with _ | ⟨x, l⟩
    · rw [List.nil_append] at hl
      rw [← hl]
      refine .inr ⟨[], e, log₂, rfl, ?_⟩
      rwa [List.append_nil, List.append_nil]
    · rw [List.cons_append, List.cons.injEq] at hl
      obtain ⟨rfl, rfl⟩ := hl
      refine .inl ⟨⟨log₁, e, l, rfl, he, fun t ht => hno t (List.mem_append_left _ ht)⟩,
        fun t ht => hno t (List.mem_append_right _ ht)⟩

theorem deposed_append_one {e : ClusterEvent N} (h : Deposed (log ++ [e]) i) :
    (Deposed log i ∧ ∀ t, e ≠ .promoted i t) ∨ Deposes log i e := by
  rcases deposed_append h with ⟨hd, hno⟩ | ⟨es₁, e', es₂, heq, he⟩
  · exact .inl ⟨hd, fun t ht => hno t (by simp [ht])⟩
  · rcases es₁ with _ | ⟨x, es₁⟩
    · simp only [List.nil_append, List.cons.injEq] at heq
      rw [List.append_nil] at he
      exact .inr (heq.1 ▸ he)
    · simp at heq

theorem not_deposed_nil : ¬ Deposed ([] : List (ClusterEvent N)) i := by
  rintro ⟨log₁, e, log₂, heq, -⟩
  simp at heq

/-- The events of a step are those of its node. -/
theorem NodeStep.deposes {n l : Leadership} (h : NodeStep C a i n l es) {e : ClusterEvent N}
    (he : e ∈ es) (hd : Deposes log j e) : j = i := by
  cases h with
  | idle | manual => simp at he
  | stand | concluded =>
    rw [List.mem_singleton] at he
    subst he
    exact hd.elim
  | promoted =>
    simp only [List.mem_cons, List.not_mem_nil, or_false] at he
    rcases he with rfl | rfl
    · exact hd.elim
    · exact hd.elim
  | @request t c l b =>
    rcases b
    · simp at he
    · simp only [if_true, List.mem_singleton] at he
      subst he
      exact hd.1.symm
  | @leader t url l b =>
    rcases b
    · simp at he
    · simp only [if_true, List.mem_singleton] at he
      subst he
      exact hd.symm

theorem NodeStep.heard {n l : Leadership} (h : NodeStep C a i n l es) :
    l.election.currentTerm = n.election.currentTerm ∨ Heard es i l.election.currentTerm := by
  cases h with
  | idle | concluded | promoted => exact .inl rfl
  | stand => exact .inr (.inl (by simp [startElection_spec]))
  | request hl =>
    cases hl with
    | refused => exact .inl rfl
    | granted => exact .inr (.inr (.inl ⟨_, by simp; rfl⟩))
  | leader hl =>
    cases hl with
    | refused => exact .inl rfl
    | adopted hle => exact .inr (.inr (.inr ⟨_, by rw [observeTerm_term hle]; simp; rfl⟩))
  | manual => exact .inl (by rw [promoteToPrimary_election])

/-- A step that deposes its node, or finds it deposed and does not promote it, leaves a replica. -/
theorem NodeStep.deposed {n l : Leadership} (h : NodeStep C a i n l es)
    (ha : ∀ urls, a ≠ .promote i urls)
    (hheard : n.election.currentTerm = 0 ∨ Heard log i n.election.currentTerm)
    (hn : Deposed log i → n.role = .replica) (hd : Deposed (log ++ es) i) : l.role = .replica := by
  cases h with
  | idle => exact hn (by rwa [List.append_nil] at hd)
  | stand | concluded =>
    rcases deposed_append_one hd with ⟨hd, -⟩ | hd
    · exact hn hd
    · exact hd.elim
  | @request t c _ _ hl =>
    cases hl with
    | refused => exact hn (by simpa using hd)
    | granted hc hle hfree role hrole =>
      rcases hr : role
      swap
      · rfl
      obtain ⟨hp, ht⟩ := hrole hr
      rcases deposed_append_one hd with ⟨hd, -⟩ | ⟨-, hpos, hlater⟩
      · rw [hn hd] at hp
        simp at hp
      · -- the vote is of the node's own term, so it is no later than what the node has heard of
        rcases hheard with hz | hh
        · omega
        · exact absurd (hlater _ hh) (by omega)
  | promoted c =>
    rcases deposed_append hd with ⟨-, hno⟩ | ⟨es₁, e, es₂, heq, he⟩
    · exact absurd (by simp) (hno c.term)
    · have hmem : e ∈ es₁ ++ e :: es₂ := by simp
      rw [← heq] at hmem
      simp only [List.mem_cons, List.not_mem_nil, or_false] at hmem
      rcases hmem with rfl | rfl
      · exact he.elim
      · exact he.elim
  | leader hl =>
    cases hl with
    | refused => exact hn (by simpa using hd)
    | adopted => rfl
  | manual urls hm => exact absurd hm (ha urls)

/-! ## Standing -/

variable {s s' : ClusterState N}

/-- What the log says of each node's term and role. -/
structure Standing (log : List (ClusterEvent N)) (s : ClusterState N) : Prop where
  heard : ∀ i, (s.leadership i).election.currentTerm = 0 ∨
    Heard log i (s.leadership i).election.currentTerm
  deposed : ∀ i, Deposed log i → (s.leadership i).role = .replica

theorem standing_boot (role : N → Role) (primaryUrl : N → Option JsString)
    (replicaUrls : N → List JsString) :
    Standing [] (.boot C role primaryUrl replicaUrls) :=
  ⟨fun _ => .inl rfl, fun _ hd => absurd hd not_deposed_nil⟩

/-! ## Ops -/

variable {ν : Type} {f f' : FencingState N ν} {events new : List (FencingEvent N ν)}
  {m : ReplicationMessage N ν}

theorem clusterLog_append : clusterLog (events ++ new) = clusterLog events ++ clusterLog new :=
  List.filterMap_append

@[simp] theorem clusterLog_cluster (es : List (ClusterEvent N)) :
    clusterLog (es.map .cluster : List (FencingEvent N ν)) = es := by
  simp [clusterLog, List.filterMap_map]

@[simp] theorem clusterLog_issued (ms : List (ReplicationMessage N ν)) :
    clusterLog (ms.map .issued) = [] := by
  simp [clusterLog, List.filterMap_map]

/-- Every op was issued by a node that was not deposed then, and what is on its way was issued. -/
structure Fenced (events : List (FencingEvent N ν)) (f : FencingState N ν) : Prop where
  issued : ∀ events₁ m events₂, events = events₁ ++ .issued m :: events₂ →
    ¬ Deposed (clusterLog events₁) m.issuer
  messages : ∀ m ∈ f.messages, .issued m ∈ events

theorem Fenced.append (h : Fenced events f) (hnew : ∀ new₁ m new₂, new = new₁ ++ .issued m :: new₂ →
      ¬ Deposed (clusterLog (events ++ new₁)) m.issuer)
    (hm : ∀ m ∈ f'.messages, m ∈ f.messages ∨ .issued m ∈ new) : Fenced (events ++ new) f' := by
  refine ⟨fun events₁ m events₂ heq => ?_, fun m hmem => ?_⟩
  · rcases List.append_eq_append_iff.1 heq with ⟨l, rfl, rfl⟩ | ⟨l, rfl, hl⟩
    · exact hnew l m events₂ rfl
    · rcases l with _ | ⟨x, l⟩
      · rw [List.nil_append] at hl
        have hd := hnew [] m events₂ hl.symm
        rwa [List.append_nil, List.append_nil] at hd
      · rw [List.cons_append, List.cons.injEq] at hl
        exact h.issued events₁ m l (by rw [hl.1])
  · rcases hm m hmem with hmem | hmem
    · exact List.mem_append_left _ (h.messages m hmem)
    · exact List.mem_append_right _ hmem

/-! ## Runs -/

variable [DecidableEq N]

theorem Standing.step (h : Standing log s) (ha : ∀ i urls, a ≠ .promote i urls)
    (hs : ClusterStep C s a s' es) : Standing (log ++ es) s' := by
  obtain ⟨i, l, hl, hn⟩ := hs.node
  refine ⟨fun j => ?_, fun j hd => ?_⟩
  · rw [hl]
    by_cases hj : j = i
    · subst hj
      rw [Function.update_self]
      rcases hn.heard with he | he
      · rw [he]
        exact (h.heard j).imp_right fun hh => heard_append.2 (.inl hh)
      · exact .inr (heard_append.2 (.inr he))
    · rw [Function.update_of_ne hj]
      exact (h.heard j).imp_right fun hh => heard_append.2 (.inl hh)
  · rw [hl]
    by_cases hj : j = i
    · subst hj
      rw [Function.update_self]
      exact hn.deposed (ha j) (h.heard j) (h.deposed j) hd
    · rw [Function.update_of_ne hj]
      refine h.deposed j ?_
      rcases deposed_append hd with ⟨hd, -⟩ | ⟨es₁, e, es₂, heq, he⟩
      · exact hd
      · exact absurd (hn.deposes (by rw [heq]; simp) he) hj

theorem standing {role : N → Role} {primaryUrl : N → Option JsString}
    {replicaUrls : N → List JsString}
    (h : ClusterRun C (fun _ a => ∀ i urls, a ≠ .promote i urls)
      (.boot C role primaryUrl replicaUrls) log s) : Standing log s :=
  h.invariant (I := Standing) (standing_boot role primaryUrl replicaUrls)
    fun hst ha hs => hst.step ha (clusterStep hs)

variable [JsNumber ν]

theorem write_of_replica {app : App ν} (h : app.leadership.role = .replica) (now : ν)
    (r : WriteRequest ν) : app.write now r = (app, App.rejected, []) := by
  cases r with
  | set body => exact if_pos h
  | delete key => exact if_pos h
  | invalidate body => exact if_pos h
  | flush => exact if_pos h

theorem postRestore_of_replica {app : App ν} (h : app.leadership.role = .replica) (now : ν)
    (body : Option (Json ν)) : app.postRestore now body = (app, App.rejected) := if_pos h

/-- The cluster takes a step, or a store changes: by a client or the timer of its node, by an op
that was on its way, or with a snapshot. -/
inductive FencingStep (C : ClusterConfig N) (f : FencingState N ν) :
    FencingAction N ν → FencingState N ν → List (FencingEvent N ν) → Prop
  | cluster {a : ClusterAction N} {cluster : ClusterState N} {es : List (ClusterEvent N)}
      (hstep : f.cluster.step C a = some (cluster, es)) :
      FencingStep C f (.cluster a) { f with cluster } (es.map .cluster)
  | request {i : N} {now : ν} {r : WriteRequest ν} {issued : List (ReplicationMessage N ν)}
      (hissuer : ∀ m ∈ issued, m.issuer = i)
      (hreplica : (f.cluster.leadership i).role = .replica → issued = []) :
      FencingStep C f (.request i now r)
        { f.setStore i ((f.app i).write now r).1.store with messages := f.messages ++ issued }
        (issued.map .issued)
  | restore {i : N} {now : ν} {body : Option (Json ν)} :
      FencingStep C f (.restore i now body)
        (f.setStore i ((f.app i).postRestore now body).1.store) []
  | observe {i : N} {now : ν} {op : StoreOp ν} :
      FencingStep C f (.observe i now op) (f.setStore i (op.apply now (f.stores i))) []
  | replicate {m : ReplicationMessage N ν} {receiver : N} {now : ν} (hm : m ∈ f.messages)
      (hurl : C.url receiver = m.url) :
      FencingStep C f (.replicate m receiver now)
        { f.setStore receiver ((f.app receiver).postReplicate now m.op).store with
          messages := f.messages.erase m } []
  | resync {i : N} {now : ν} {rows : List (SnapshotRow ν)} :
      FencingStep C f (.resync i now rows)
        (f.setStore i (loadRows now (f.stores i) rows)) []

theorem fencingStep {a : FencingAction N ν} (hs : f.step C a = some (f', new)) :
    FencingStep C f a f' new := by
  cases a with
  | cluster a =>
    simp only [FencingState.step, Option.map_eq_some_iff, Prod.mk.injEq] at hs
    obtain ⟨⟨cluster, es⟩, hstep, rfl, rfl⟩ := hs
    exact .cluster hstep
  | request i now r =>
    simp only [FencingState.step, Option.some.injEq, Prod.mk.injEq] at hs
    obtain ⟨rfl, rfl⟩ := hs
    refine .request (fun m hm => ?_) fun hrole => ?_
    · obtain ⟨x, -, rfl⟩ := List.mem_map.1 hm
      rfl
    · rw [write_of_replica hrole, List.map_nil]
  | restore i now body =>
    simp only [FencingState.step, Option.some.injEq, Prod.mk.injEq] at hs
    obtain ⟨rfl, rfl⟩ := hs
    exact .restore
  | observe i now op =>
    simp only [FencingState.step] at hs
    split_ifs at hs
    simp only [Option.some.injEq, Prod.mk.injEq] at hs
    obtain ⟨rfl, rfl⟩ := hs
    exact .observe
  | replicate m receiver now =>
    simp only [FencingState.step] at hs
    split_ifs at hs with hm
    simp only [Option.some.injEq, Prod.mk.injEq] at hs
    obtain ⟨rfl, rfl⟩ := hs
    exact .replicate hm.1 hm.2
  | resync i now rows =>
    simp only [FencingState.step, Option.some.injEq, Prod.mk.injEq] at hs
    obtain ⟨rfl, rfl⟩ := hs
    exact .resync

/-- The election layer of a run is a run of the cluster. -/
theorem clusterRun {role : N → Role} {primaryUrl : N → Option JsString}
    {replicaUrls : N → List JsString} {stores : N → CacheStore ν}
    (h : Run (FencingState.step C) ByElection (.boot C role primaryUrl replicaUrls stores)
      events f) :
    ClusterRun C (fun _ a => ∀ i urls, a ≠ .promote i urls) (.boot C role primaryUrl replicaUrls)
      (clusterLog events) f.cluster := by
  refine h.invariant (I := fun events f => ClusterRun C (fun _ a => ∀ i urls, a ≠ .promote i urls)
    (.boot C role primaryUrl replicaUrls) (clusterLog events) f.cluster) .start ?_
  intro events f a f' new hrun hP hs
  rw [clusterLog_append]
  cases fencingStep hs with
  | cluster hstep =>
    rw [clusterLog_cluster]
    refine hrun.next _ ?_ hstep
    rintro i urls rfl
    exact hP
  | request =>
    rw [clusterLog_issued, List.append_nil]
    exact hrun
  | restore | observe | replicate | resync =>
    exact (List.append_nil (clusterLog events)).symm ▸ hrun

theorem Fenced.step {a : FencingAction N ν} (h : Fenced events f)
    (hst : Standing (clusterLog events) f.cluster) (hs : f.step C a = some (f', new)) :
    Fenced (events ++ new) f' := by
  cases fencingStep hs with
  | @cluster a s' es =>
    refine h.append (fun new₁ m new₂ heq => ?_) fun m hm => .inl hm
    have hmem : .issued m ∈ (es.map .cluster : List (FencingEvent N ν)) := by simp [heq]
    simp at hmem
  | @request i now r issued hissuer hreplica =>
    refine h.append (fun new₁ m new₂ heq hd => ?_) fun m hm => ?_
    · obtain ⟨ms₁, ms₂, hms, rfl, hm⟩ := List.map_eq_append_iff.1 heq
      obtain ⟨m', ms₂, rfl, hm', -⟩ := List.map_eq_cons_iff.1 hm
      rw [FencingEvent.issued.injEq] at hm'
      subst hm'
      have hmem : m' ∈ issued := by simp [hms]
      rw [clusterLog_append, clusterLog_issued, List.append_nil, hissuer m' hmem] at hd
      rw [hreplica (hst.deposed i hd)] at hmem
      simp at hmem
    · rcases List.mem_append.1 hm with hm | hm
      · exact .inl hm
      · exact .inr (List.mem_map_of_mem hm)
  | replicate => exact h.append (by simp) fun m' hm' => .inl (List.mem_of_mem_erase hm')
  | restore | observe | resync => exact h.append (by simp) fun m' hm' => .inl hm'

/-- A store changes with a request of the node's own clients or its timer, with a snapshot, or with
an op that was on its way. -/
theorem step_stores {a : FencingAction N ν} {v : N} (hs : f.step C a = some (f', new))
    (hne : f'.stores v ≠ f.stores v) (hreq : ∀ now r, a ≠ .request v now r)
    (hrestore : ∀ now body, a ≠ .restore v now body) (hobs : ∀ now op, a ≠ .observe v now op)
    (hsync : ∀ now rows, a ≠ .resync v now rows) :
    ∃ m now, a = .replicate m v now ∧ m ∈ f.messages := by
  have hother : ∀ i store, v ≠ i → (f.setStore i store).stores v = f.stores v :=
    fun i store hi => Function.update_of_ne hi _ _
  cases fencingStep hs with
  | cluster => exact absurd rfl hne
  | @request i now r issued =>
    refine absurd (hother i _ ?_) hne
    rintro rfl
    exact hreq now r rfl
  | @restore i now body =>
    refine absurd (hother i _ ?_) hne
    rintro rfl
    exact hrestore now body rfl
  | @observe i now op =>
    refine absurd (hother i _ ?_) hne
    rintro rfl
    exact hobs now op rfl
  | @replicate m receiver now hm =>
    have hv : v = receiver := by
      by_contra hv
      exact hne (hother receiver _ hv)
    exact ⟨m, now, hv ▸ rfl, hm⟩
  | @resync i now rows =>
    refine absurd (hother i _ ?_) hne
    rintro rfl
    exact hsync now rows rfl

/-- What changes the store of a node, besides the requests of its own clients, its timer and the
snapshot of a leader it adopts, is an op that was issued; and no op is issued by a node that was
deposed and has not won again: it answers every write 409. -/
theorem fenced_at_source (C : ClusterConfig N) (role : N → Role) (primaryUrl : N → Option JsString)
    (replicaUrls : N → List JsString) (stores : N → CacheStore ν)
    (h : Run (FencingState.step C) ByElection (.boot C role primaryUrl replicaUrls stores)
      events f) :
    (∀ a f' new v, f.step C a = some (f', new) → f'.stores v ≠ f.stores v →
      (∀ now r, a ≠ .request v now r) → (∀ now body, a ≠ .restore v now body) →
      (∀ now op, a ≠ .observe v now op) → (∀ now rows, a ≠ .resync v now rows) →
      ∃ m now, a = .replicate m v now ∧ .issued m ∈ events) ∧
    (∀ events₁ m events₂, events = events₁ ++ .issued m :: events₂ →
      ¬ Deposed (clusterLog events₁) m.issuer) ∧
    ∀ i, Deposed (clusterLog events) i →
      (∀ now r, (f.app i).write now r = (f.app i, App.rejected, [])) ∧
      ∀ now body, (f.app i).postRestore now body = (f.app i, App.rejected) := by
  have hfenced : Fenced events f := h.invariant_reached (I := Fenced)
    ⟨by simp, by simp [FencingState.boot]⟩
    fun hrun hf _ hs => hf.step (standing (clusterRun hrun)) hs
  refine ⟨fun a f' new v hs hne hreq hrestore hobs hsync => ?_, hfenced.issued, fun i hd =>
    ⟨write_of_replica ((standing (clusterRun h)).deposed i hd),
      postRestore_of_replica ((standing (clusterRun h)).deposed i hd)⟩⟩
  obtain ⟨m, now, rfl, hm⟩ := step_stores hs hne hreq hrestore hobs hsync
  exact ⟨m, now, rfl, hfenced.messages m hm⟩

/-- A primary that has adopted its successor. -/
theorem fenced_at_source_adopted : ∃ (events : List (FencingEvent (Fin 3) ℚ))
    (f : FencingState (Fin 3) ℚ),
    Run (FencingState.step threeNodes) ByElection
      (.boot threeNodes (fun _ => .replica) (fun _ => none) (fun _ => []) fun _ => .new {})
      events f ∧
    .cluster (.promoted 0 1) ∈ events ∧
    (f.app 0).write 0 (setRequest (js "k") (js "2")) = (f.app 0, App.rejected, []) := by
  have hrun : ∃ (events : List (FencingEvent (Fin 3) ℚ)) (f : FencingState (Fin 3) ℚ),
      Run (FencingState.step threeNodes) ByElection
        (.boot threeNodes (fun _ => .replica) (fun _ => none) (fun _ => []) fun _ => .new {})
        events f ∧
      .cluster (.promoted 0 1) ∈ events ∧
      (clusterLog events).getLast? = some (.adopted 0 2 (js "http://b")) :=
    exists_run_of_exec (takeover ++ [.cluster (.receiveLeader ⟨1, 0, 2, js "http://b"⟩)])
      (by decide +kernel)
  obtain ⟨events, f, h, hwon, hlast⟩ := hrun
  obtain ⟨log, hlog⟩ := List.getLast?_eq_some_iff.1 hlast
  exact ⟨events, f, h, hwon, ((fenced_at_source threeNodes _ _ _ _ h).2.2 0
    ⟨log, _, [], hlog, rfl, by simp⟩).1 0 _⟩

/-- An op of the primary of the first term arrives after its receiver has adopted the second. -/
theorem not_fenced_at_receiver : ∃ (events events₁ events₂ : List (FencingEvent (Fin 3) ℚ))
    (f : FencingState (Fin 3) ℚ),
    let m : ReplicationMessage (Fin 3) ℚ := ⟨0, js "http://c", .set (js "k") (js "1") none⟩
    Run (FencingState.step threeNodes) ByElection
      (.boot threeNodes (fun _ => .replica) (fun _ => none) (fun _ => []) fun _ => .new {})
      events f ∧
    events = events₁ ++ .issued m :: events₂ ∧
    (clusterLog events₁).getLast? = some (.promoted 0 1) ∧
    .cluster (.adopted 2 2 (js "http://b")) ∈ events₂ ∧
    (f.stores 2).values (js "k") = none ∧
    (f.step threeNodes (.replicate m 2 0)).map (fun r => (r.1.stores 2).values (js "k")) =
      some (some (js "1")) := by
  have hrun : ∃ (events : List (FencingEvent (Fin 3) ℚ)) (f : FencingState (Fin 3) ℚ),
      Run (FencingState.step threeNodes) ByElection
        (.boot threeNodes (fun _ => .replica) (fun _ => none) (fun _ => []) fun _ => .new {})
        events f ∧
      events = events.take 5 ++
        .issued ⟨0, js "http://c", .set (js "k") (js "1") none⟩ :: events.drop 6 ∧
      (clusterLog (events.take 5)).getLast? = some (.promoted 0 1) ∧
      .cluster (.adopted 2 2 (js "http://b")) ∈ events.drop 6 ∧
      (f.stores 2).values (js "k") = none ∧
      (f.step threeNodes (.replicate ⟨0, js "http://c", .set (js "k") (js "1") none⟩ 2 0)).map
        (fun r => (r.1.stores 2).values (js "k")) = some (some (js "1")) :=
    exists_run_of_exec (takeover ++ [.cluster (.receiveLeader ⟨1, 2, 2, js "http://b"⟩)])
      (by decide +kernel)
  obtain ⟨events, f, h, hm⟩ := hrun
  exact ⟨events, _, _, f, h, hm⟩

end InkCache
