import InkCache.OpDelivery
import InkCache.Proofs.Replication
import InkCache.Proofs.RequestBody

/-!
# Which ops reach a replica

What is forwarded is what was stored, so that a replica reads the op it is sent as the change that
the primary made (`readOp_op`), unless the text of the op is too long: it has the `op` that the
request had not, and the request may have been written shorter.
-/

namespace InkCache

open Lib JsString Json

variable {ν : Type} [JsNumber ν] {T : NumberText ν} {op : ReplicationOp ν}

/-! ## The encoding of an op -/

/-- The time to live of an op is a number that is printed. -/
def ReplicationOp.Prints (T : NumberText ν) (op : ReplicationOp ν) : Prop :=
  ∀ t ∈ op.ttl?, JsNumber.isFinite t = true ∧ T.Prints t

theorem printable_op (h : op.Prints T) : ∀ f ∈ (js "op", Json.str op.name) :: op.fields,
    Printable T f.2 := by
  rw [List.forall_mem_cons]
  refine ⟨.str _, ?_⟩
  cases op with
  | set key value ttl =>
    rcases ttl with _ | t
    · simp [ReplicationOp.fields, Printable.str]
    · have ht := h t rfl
      simp [ReplicationOp.fields, Printable.str, Printable.num ht.1 ht.2]
  | delete key => simp [ReplicationOp.fields, Printable.str]
  | invalidate pre => simp [ReplicationOp.fields, Printable.str]
  | flush => simp [ReplicationOp.fields]

theorem byteLength_op (h : op.Prints T) : byteLength (stringify T op.toJson) = op.bytes T := by
  have hnames : byteLength (quote (js "op")) = 4 ∧ byteLength (quote (js "key")) = 5 ∧
      byteLength (quote (js "value")) = 7 ∧ byteLength (quote (js "ttl")) = 5 ∧
      byteLength (quote (js "prefix")) = 8 := by decide
  have hops : byteLength (quote (js "set")) = 5 ∧ byteLength (quote (js "delete")) = 8 ∧
      byteLength (quote (js "invalidate")) = 12 ∧ byteLength (quote (js "flush")) = 7 := by
    decide
  rw [ReplicationOp.toJson, byteLength_stringify_obj (printable_op h)]
  cases op with
  | set key value ttl =>
    rcases ttl with _ | t
    · simp only [ReplicationOp.name, ReplicationOp.fields, ReplicationOp.bytes, List.map_cons,
        List.map_nil, List.sum_cons, List.sum_nil, List.length_cons, List.length_nil, stringify,
        hnames, hops]
      omega
    · have ht := h t rfl
      simp only [ReplicationOp.name, ReplicationOp.fields, ReplicationOp.bytes, List.map_cons,
        List.map_nil, List.sum_cons, List.sum_nil, List.length_cons, List.length_nil, stringify,
        hnames, hops, if_pos ht.1]
      omega
  | delete key | invalidate pre | flush =>
    simp only [ReplicationOp.name, ReplicationOp.fields, ReplicationOp.bytes, List.map_cons,
      List.map_nil, List.sum_cons, List.sum_nil, List.length_cons, List.length_nil, stringify,
      hnames, hops]
    try omega

omit [JsNumber ν] in
theorem opName_op (op : ReplicationOp ν) : opName (some op.toJson) = some op.name := by
  rcases op with ⟨key, value, _ | t⟩ | key | pre | _ <;> rfl

omit [JsNumber ν] in
/-- A replica reads the op that was sent. -/
theorem readOp_op (op : ReplicationOp ν) :
    readOp op.name (orEmpty (some op.toJson)) = some [op] := by
  rcases op with ⟨key, value, _ | t⟩ | key | pre | _ <;> rfl

/-! ## The delivery of an op -/

variable {app replica : App ν} {now : ν}

/-- What an acknowledged request forwards is the change it makes, and its numbers are finite. -/
theorem forwarded_spec {w : HttpWrite} (h : (app.receiveWrite T now w).2.1.isOk = true) :
    ∃ op, (app.receiveWrite T now w).2.2 = forwardToReplicas app.leadership.replicaUrls op ∧
      (app.receiveWrite T now w).1 = { app with store := applyReplicationOp now app.store op } ∧
      ∀ t ∈ op.ttl?, JsNumber.isFinite t = true := by
  simp only [App.receiveWrite] at h ⊢
  rcases hx : (expressJson T w.body : Except HttpError (Option (Json ν))) with err | body <;>
    simp only [hx] at h ⊢
  · simp [HttpError.response, AppResponse.isOk] at h
  generalize w.request body = request at h ⊢
  have hspec := writeSpec now app request
  generalize app.write now request = answer at h hspec
  cases hspec with
  | refused a ha => simp [ha] at h
  | acknowledged op hop a ha =>
    refine ⟨op, rfl, rfl, fun t ht => ?_⟩
    cases hop with
    | set he => exact ((acceptable_of_validateEntry he).2.2 t ht).1
    | delete | invalidate | flush => simp [ReplicationOp.ttl?] at ht

theorem receiveReplicate_op (h : op.Prints T) (stopped : Option HttpError) :
    replica.receiveReplicate T stopped now (some (op.requestBody T)) =
      match stopped with
      | some e => .error e
      | none =>
        if bodyLimit < op.bytes T then .error tooLarge
        else .ok (some (replica.postReplicate now op)) := by
  rcases stopped with _ | e
  · have hbody : (expressJson T (some (op.requestBody T)) : Except HttpError (Option (Json ν))) =
        if bodyLimit < op.bytes T then .error tooLarge else .ok (some op.toJson) := by
      rw [← byteLength_op h]
      exact expressJson_stringify (.obj (printable_op h))
    simp only [App.receiveReplicate, hbody]
    split_ifs with hlarge
    · rfl
    · simp only [opName_op, readOp_op, Option.map_some, List.foldl_cons, List.foldl_nil]
  · rfl

/-- The replica makes the change that an acknowledged write forwards to it, if and only if the text
of the op fits in a body and no middleware of the replica stops it. Any other answer is no success,
and is not reported. -/
theorem delivered_iff (T : NumberText ν) {w : HttpWrite}
    (h : (app.receiveWrite T now w).2.1.isOk = true) :
    ∃ op, (app.receiveWrite T now w).2.2 = forwardToReplicas app.leadership.replicaUrls op ∧
      (app.receiveWrite T now w).1 = { app with store := applyReplicationOp now app.store op } ∧
      ((∀ t ∈ op.ttl?, T.Prints t) →
        ∀ (url : JsString) (replica : App ν) (stopped : Option HttpError) (now' : ν),
          let answer := replica.receiveReplicate T stopped now' (some (op.requestBody T))
          (answer =
              .ok (some { replica with store := applyReplicationOp now' replica.store op }) ↔
            op.bytes T ≤ bodyLimit ∧ stopped = none) ∧
          ((statusOf answer < 200 ∨ 300 ≤ statusOf answer →
              replicationWarnings url op (.ok (statusOf answer)) ≠ []) ↔
            op.bytes T ≤ bodyLimit ∧ stopped = none)) := by
  obtain ⟨op, hforwarded, hchange, hfinite⟩ := forwarded_spec h
  refine ⟨op, hforwarded, hchange, ?_⟩
  intro hprints url replica stopped now' answer
  have hop : op.Prints T := fun t ht => ⟨hfinite t ht, hprints t ht⟩
  have hanswer : answer = _ := receiveReplicate_op hop stopped
  -- an error is no success, and `fetch` does not reject
  have hsilent : ∀ e, answer = .error e → ¬ (statusOf answer < 200 ∨ 300 ≤ statusOf answer →
      replicationWarnings url op (.ok (statusOf answer)) ≠ []) := by
    rintro e he hreport
    rw [he] at hreport
    exact hreport e.notOk rfl
  rcases stopped with _ | e
  · simp only at hanswer
    split_ifs at hanswer with hlarge
    · have hnot : ¬ op.bytes T ≤ bodyLimit := not_le.2 hlarge
      refine ⟨?_, iff_of_false (hsilent _ hanswer) fun hc => hnot hc.1⟩
      rw [hanswer]
      exact iff_of_false (by simp) fun hc => hnot hc.1
    · have hfits : op.bytes T ≤ bodyLimit ∧ (none : Option HttpError) = none :=
        ⟨not_lt.1 hlarge, rfl⟩
      refine ⟨iff_of_true hanswer hfits, iff_of_true (fun hstatus => ?_) hfits⟩
      rw [hanswer] at hstatus
      simp [statusOf] at hstatus
  · refine ⟨?_, iff_of_false (hsilent e hanswer) (by simp)⟩
    rw [hanswer]
    exact iff_of_false (by simp) (by simp)

/-! ## Two values, one too large to be forwarded -/

/-- The set that a request of a key and a value is forwarded as. -/
theorem forwarded_setBody {value : JsString} (hsize : 20 + byteLength (quote value) ≤ bodyLimit) :
    freshPair.primary.receiveWrite noNumbers 0
        (.set (some (setBody noNumbers (js "k") value))) =
      ({ freshPair.primary with store := freshPair.primary.store.set 0 (js "k") value none },
        .set (js "k") none, [(js "http://replica", .set (js "k") value none)]) := by
  have hkey : byteLength (quote (js "k")) = 3 := by decide
  exact receiveWrite_setBody rfl (by decide) (show (js "k").length ≤ 256 by decide)
    (by omega)

theorem bytes_set_k (value : JsString) :
    (ReplicationOp.set (js "k") value (none : Option ℚ)).bytes noNumbers =
      31 + byteLength (quote value) := by
  have hkey : byteLength (quote (js "k")) = 3 := by decide
  simp only [ReplicationOp.bytes, hkey]

/-- The request has 65532 bytes and is acknowledged; the op has 65543, the replica answers 413, and
nothing is logged. -/
theorem forwarded_too_large :
    let w := HttpWrite.set (some (setBody noNumbers (js "k") (letters 65510)))
    let op := ReplicationOp.set (js "k") (letters 65510) (none : Option ℚ)
    (freshPair.primary.receiveWrite noNumbers 0 w).2.1 = .set (js "k") none ∧
    (js "http://replica", op) ∈ (freshPair.primary.receiveWrite noNumbers 0 w).2.2 ∧
    freshPair.replica.receiveReplicate noNumbers none 0 (some (op.requestBody noNumbers)) =
      .error tooLarge ∧
    replicationWarnings (js "http://replica") op (.ok tooLarge.status) = [] := by
  intro w op
  have hletters := byteLength_quote_letters 65510
  have hsize : 20 + byteLength (quote (letters 65510)) ≤ bodyLimit := by
    rw [hletters]
    decide
  have hlarge : bodyLimit < op.bytes noNumbers := by
    rw [bytes_set_k, hletters]
    decide
  have hanswer := forwarded_setBody hsize
  have hprints : op.Prints noNumbers := by simp [ReplicationOp.Prints, op, ReplicationOp.ttl?]
  refine ⟨by rw [hanswer], by rw [hanswer]; exact List.mem_singleton_self _, ?_, rfl⟩
  rw [receiveReplicate_op hprints]
  exact if_pos hlarge

/-- A small value is forwarded and stored. -/
theorem delivered_small :
    let op := ReplicationOp.set (js "k") (js "1") (none : Option ℚ)
    freshPair.replica.receiveReplicate noNumbers none 5 (some (op.requestBody noNumbers)) =
      .ok (some { freshPair.replica with
        store := applyReplicationOp 5 freshPair.replica.store op }) := by
  intro op
  have hsize : 20 + byteLength (quote (js "1")) ≤ bodyLimit := by decide
  have hanswer := forwarded_setBody hsize
  have hok : (freshPair.primary.receiveWrite noNumbers 0
      (.set (some (setBody noNumbers (js "k") (js "1"))))).2.1.isOk = true := by
    rw [hanswer]
    rfl
  obtain ⟨op', hforwarded, -, h⟩ := delivered_iff noNumbers hok
  rw [hanswer] at hforwarded
  have hop : op = op' := congrArg Prod.snd (List.head_eq_of_cons_eq hforwarded)
  subst hop
  have hfits : op.bytes noNumbers ≤ bodyLimit := by
    rw [bytes_set_k]
    decide
  exact (h (by simp [op, ReplicationOp.ttl?]) (js "http://replica") freshPair.replica none
    5).1.2 ⟨hfits, rfl⟩

end InkCache
