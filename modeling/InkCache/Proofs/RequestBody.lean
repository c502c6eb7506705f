import InkCache.Proofs.JsonText
import InkCache.Proofs.Text
import InkCache.Proofs.Snapshot
import InkCache.Proofs.StoreHistory
import InkCache.RequestBody
import InkCache.ReplicaPair

/-!
# A snapshot is restored where it fits in a body

The bytes of a text that is stringified are those of its parts. A snapshot that a history of
accepted sets leaves is read back as it was sent, and every row of it is valid, so that the limit
is all that `POST /restore` can fail on: it holds for each set alone, not for what they leave.
-/

namespace InkCache

open Lib JsString Json

variable {ν : Type} [JsNumber ν] {T : NumberText ν} {j : Json ν}

/-! ## The bytes of a value -/

theorem startsWhole_stringify (h : Printable T j) : StartsWhole (stringify T j) := by
  obtain ⟨u, t, ht, hu⟩ := head_stringify h
  have hopener : ∀ u ∈ openers, u < 0x80 := forall_openers.2 (by decide)
  rw [ht]
  refine startsWhole_cons ?_
  rcases hu with hu | hu
  · exact hopener u hu
  · simp only [NumberToken.isUnit, NumberToken.isDigit, Bool.or_eq_true, Bool.and_eq_true,
      decide_eq_true_eq, List.mem_cons, List.not_mem_nil, or_false] at hu
    rcases hu with ⟨-, hu⟩ | rfl | rfl | rfl | rfl | rfl
    · exact UInt16.lt_of_le_of_lt hu (by decide)
    all_goals decide

theorem byteLength_stringify_arr {elems : List (Json ν)} (h : ∀ e ∈ elems, Printable T e) :
    byteLength (stringify T (arr elems)) =
      2 + (elems.map fun e => byteLength (stringify T e)).sum + (elems.length - 1) := by
  have hwhole : ∀ s ∈ elems.map (stringify T), StartsWhole s := by
    rintro s hs
    obtain ⟨e, he, rfl⟩ := List.mem_map.1 hs
    exact startsWhole_stringify (h e he)
  have hclose : StartsWhole [93] := startsWhole_cons (by decide)
  rw [stringify_arr, byteLength_cons (by decide) (startsWhole_intercalate hwhole hclose),
    byteLength_intercalate hwhole hclose, byteLength_cons (by decide) (by simp [StartsWhole]),
    List.length_map, List.map_map]
  have hnil : byteLength [] = 0 := rfl
  rw [hnil]
  show _ = 2 + (elems.map (byteLength ∘ stringify T)).sum + _
  omega

/-- The bytes of a member: of its name, the colon and its value. -/
theorem byteLength_stringifyMember {f : JsString × Json ν} (h : Printable T f.2) :
    byteLength (stringifyMember T f) =
      byteLength (quote f.1) + 1 + byteLength (stringify T f.2) := by
  rw [stringifyMember, byteLength_append (startsWhole_cons (by decide)),
    byteLength_cons (by decide) (startsWhole_stringify h), Nat.add_assoc]

theorem byteLength_stringify_obj {fields : List (JsString × Json ν)}
    (h : ∀ f ∈ fields, Printable T f.2) :
    byteLength (stringify T (obj fields)) =
      2 + (fields.map fun f => byteLength (quote f.1) + 1 + byteLength (stringify T f.2)).sum +
        (fields.length - 1) := by
  have hwhole : ∀ s ∈ fields.map (stringifyMember T), StartsWhole s := by
    rintro s hs
    obtain ⟨f, -, rfl⟩ := List.mem_map.1 hs
    exact (startsWhole_quote f.1).append (startsWhole_cons (by decide))
  have hclose : StartsWhole [125] := startsWhole_cons (by decide)
  have hmembers : (fields.map (stringifyMember T)).map byteLength =
      fields.map fun f => byteLength (quote f.1) + 1 + byteLength (stringify T f.2) := by
    rw [List.map_map]
    exact List.map_congr_left fun f hf => byteLength_stringifyMember (h f hf)
  rw [stringify_obj, byteLength_cons (by decide) (startsWhole_intercalate hwhole hclose),
    byteLength_intercalate hwhole hclose, byteLength_cons (by decide) (by simp [StartsWhole]),
    List.length_map, hmembers]
  have hnil : byteLength [] = 0 := rfl
  omega

/-! ## The bytes of a snapshot -/

theorem printable_ttlJson {ttl : Option ν}
    (h : ∀ t ∈ ttl, JsNumber.isFinite t = true ∧ T.Prints t) : Printable T (ttlJson ttl) := by
  rcases ttl with _ | t
  · exact .null
  · exact .num (h t rfl).1 (h t rfl).2

/-- Every time to live of a row is a number that is printed. -/
def SnapshotRow.Prints (T : NumberText ν) (row : SnapshotRow ν) : Prop :=
  ∀ t ∈ row.ttl, JsNumber.isFinite t = true ∧ T.Prints t

theorem printable_toJson {row : SnapshotRow ν} (h : row.Prints T) : Printable T row.toJson := by
  refine .obj ?_
  simp only [List.forall_mem_cons, List.not_mem_nil, false_implies, implies_true, and_true]
  exact ⟨.str _, .str _, printable_ttlJson h⟩

theorem printable_snapshotJson {rows : List (SnapshotRow ν)} (h : ∀ row ∈ rows, row.Prints T) :
    Printable T (snapshotJson rows) := by
  refine .obj ?_
  simp only [List.forall_mem_cons, List.not_mem_nil, false_implies, implies_true, and_true]
  refine .arr fun e he => ?_
  obtain ⟨row, hrow, rfl⟩ := List.mem_map.1 he
  exact printable_toJson (h row hrow)

theorem byteLength_ttlJson {ttl : Option ν}
    (h : ∀ t ∈ ttl, JsNumber.isFinite t = true ∧ T.Prints t) :
    byteLength (stringify T (ttlJson ttl)) = ttlBytes T ttl := by
  rcases ttl with _ | t
  · rw [ttlJson, stringify]
    rfl
  · rw [ttlJson, stringify_num (h t rfl).1]
    rfl

theorem byteLength_toJson {row : SnapshotRow ν} (h : row.Prints T) :
    byteLength (stringify T row.toJson) = row.bytes T := by
  have hnames : byteLength (quote (js "key")) = 5 ∧ byteLength (quote (js "value")) = 7 ∧
      byteLength (quote (js "ttl")) = 5 := by decide
  cases printable_toJson h with
  | obj hfields =>
    rw [SnapshotRow.toJson, byteLength_stringify_obj hfields]
    simp only [List.map_cons, List.map_nil, List.sum_cons, List.sum_nil, List.length_cons,
      List.length_nil, hnames, stringify, byteLength_ttlJson h, SnapshotRow.bytes]
    omega

theorem byteLength_snapshotJson {rows : List (SnapshotRow ν)} (h : ∀ row ∈ rows, row.Prints T) :
    byteLength (stringify T (snapshotJson rows)) = snapshotBytes T rows := by
  have hname : byteLength (quote (js "keys")) = 6 := by decide
  have hrows : ∀ e ∈ rows.map SnapshotRow.toJson, Printable T e := by
    rintro e he
    obtain ⟨row, hrow, rfl⟩ := List.mem_map.1 he
    exact printable_toJson (h row hrow)
  have hbytes : (rows.map SnapshotRow.toJson).map (fun e => byteLength (stringify T e)) =
      rows.map fun row => row.bytes T := by
    rw [List.map_map]
    exact List.map_congr_left fun row hrow => byteLength_toJson (h row hrow)
  cases printable_snapshotJson h with
  | obj hfields =>
    rw [snapshotJson, byteLength_stringify_obj hfields]
    simp only [List.map_cons, List.map_nil, List.sum_cons, List.sum_nil, List.length_cons,
      List.length_nil, hname, byteLength_stringify_arr hrows, hbytes, List.length_map,
      snapshotBytes]
    omega

/-! ## What `express.json` makes of a text that was stringified -/

theorem expressJson_stringify {fields : List (JsString × Json ν)} (h : Printable T (obj fields)) :
    expressJson T (some (.ofText (stringify T (obj fields)))) =
      if bodyLimit < byteLength (stringify T (obj fields)) then .error tooLarge
      else .ok (some (obj fields)) := by
  have hopen : ∃ t, stringify T (obj fields) = 123 :: t := ⟨_, stringify_obj T fields⟩
  obtain ⟨t, ht⟩ := hopen
  have hne : stringify T (obj fields) ≠ [] := by simp [ht]
  have hstrict : startsStrictly (stringify T (obj fields)) = true := by
    rw [startsStrictly, ht, List.dropWhile_cons_of_neg (by decide)]
    rfl
  simp only [expressJson, RequestBody.ofText, if_neg hne, hstrict, if_true, parse_stringify h]

theorem expressJson_restoreBody {rows : List (SnapshotRow ν)} (h : ∀ row ∈ rows, row.Prints T) :
    expressJson T (some (restoreBody T rows)) =
      if bodyLimit < snapshotBytes T rows then .error tooLarge
      else .ok (some (snapshotJson rows)) := by
  cases printable_snapshotJson h with
  | obj hfields =>
    rw [← byteLength_snapshotJson h]
    exact expressJson_stringify (.obj hfields)

/-! ## A history of accepted sets -/

section History

variable {s s' : TimedApp ν} {es : List (AppResponse ν)} {log : List (AppResponse ν)}
  {opts : CacheStoreOptions} {t₀ : ν} {app : App ν} {ts : TimedApp ν}

/-- A request that is accepted sets what it was validated as. -/
theorem setStep_spec {a : ν × Option RequestBody} (h : setStep T s a = some (s', es)) :
    s.clock ≤ a.1 ∧ ∃ body e, validateEntry s.app.maxKeyLength a.1 body = .ok e ∧
      s' = ⟨a.1, { s.app with store := s.app.store.set a.1 e.key e.value e.ttl }⟩ := by
  obtain ⟨now, sent⟩ := a
  simp only [setStep] at h
  split_ifs at h with hok
  obtain ⟨hclock, hok⟩ := hok
  simp only [Option.some.injEq, Prod.mk.injEq] at h
  obtain ⟨rfl, -⟩ := h
  refine ⟨hclock, ?_⟩
  simp only [App.receiveWrite, HttpWrite.body] at hok ⊢
  rcases hx : (expressJson T sent : Except HttpError (Option (Json ν))) with err | body <;>
    simp only [hx] at hok ⊢
  · simp [HttpError.response, AppResponse.isOk] at hok
  simp only [HttpWrite.request, App.write, App.postSet] at hok ⊢
  split_ifs at hok ⊢ with hrole
  · simp [App.rejected, AppResponse.isOk] at hok
  · rcases he : validateEntry s.app.maxKeyLength now (some (orEmpty body)) with m | e <;>
      simp only [he] at hok ⊢
    · simp [AppResponse.isOk] at hok
    · exact ⟨_, e, he, rfl⟩

theorem sets_of_run (h : Run (setStep T) (fun _ _ => True)
    (⟨t₀, { app with store := .new opts }⟩ : TimedApp ν) log ts) :
    ts.app.maxKeyLength = app.maxKeyLength ∧
      ∃ events, Run storeStep (ValidWrite app.maxKeyLength)
        (⟨t₀, CacheStore.new opts⟩ : TimedStore ν) events ⟨ts.clock, ts.app.store⟩ := by
  refine h.invariant (I := fun _ ts => ts.app.maxKeyLength = app.maxKeyLength ∧
    ∃ events, Run storeStep (ValidWrite app.maxKeyLength)
      (⟨t₀, CacheStore.new opts⟩ : TimedStore ν) events ⟨ts.clock, ts.app.store⟩)
    ⟨rfl, [], .start⟩ ?_
  rintro log ts ⟨now, sent⟩ ts' es ⟨hlen, events, hrun⟩ - hs
  obtain ⟨hclock, body, e, he, rfl⟩ := setStep_spec hs
  have hvalid : ValidWrite app.maxKeyLength ⟨ts.clock, ts.app.store⟩
      (now, .set e.key e.value e.ttl) := ⟨hclock, body, hlen ▸ he⟩
  exact ⟨hlen, _, hrun.next _ hvalid rfl⟩

end History

/-! ## The rows of such a history -/

section Rows

variable {t₀ t₁ : ℚ} {opts : CacheStoreOptions} {maxKeyLength : ℕ} {log : List (StoreEvent ℚ)}
  {ts : TimedStore ℚ} {row : SnapshotRow ℚ}

/-- Every deadline that a valid write leaves is a finite number. -/
def HeldFinite (s : CacheStore ℚ) : Prop :=
  ∀ k e, (k, e) ∈ s.entries.entries → ∀ d, e.expiresAt = some d → JsNumber.isFinite d = true

theorem deadline_finite {d : ℚ} {ttl : Option ℚ} (h : ∀ x ∈ ttl, JsNumber.isFinite x = true ∧
    0 < x ∧ JsNumber.isFinite (t₁ + x * msPerSecond) = true) (hd : deadline t₁ ttl = some d) :
    JsNumber.isFinite d = true := by
  rcases ttl with _ | x
  · simp [deadline] at hd
  · obtain ⟨-, hpos, hfin⟩ := h x rfl
    simp only [deadline, if_pos hpos, Option.some.injEq] at hd
    exact hd ▸ hfin

theorem heldFinite_run (h : Run storeStep (ValidWrite maxKeyLength)
    (⟨t₀, CacheStore.new opts⟩ : TimedStore ℚ) log ts) : HeldFinite ts.store := by
  refine h.invariant (I := fun _ ts => HeldFinite ts.store) ?_ ?_
  · intro k e he
    simp [CacheStore.new, OrderedMap.empty] at he
  · rintro log ts ⟨now, op⟩ ts' es hv ⟨-, hvalid⟩ hstep
    simp only [storeStep, Option.some.injEq, Prod.mk.injEq] at hstep
    obtain ⟨rfl, -⟩ := hstep
    intro k e' he' d hd
    rcases deadline_after he' with ⟨e, he, hold⟩ | ⟨v, t, rfl, hnew⟩
    · exact hv k e he d (hold ▸ hd)
    · obtain ⟨body, hbody⟩ := hvalid
      exact deadline_finite (acceptable_of_validateEntry hbody).2.2 (hnew ▸ hd)

/-- At the instant of the snapshot, a row has the deadline that its entry has. -/
theorem exported_finite {s : CacheStore ℚ} (hv : HeldFinite s)
    (h : row ∈ (s.exportEntries t₁).2) : row.FiniteDeadline t₁ := by
  intro t ht
  rw [exportEntries_snd, List.mem_map] at h
  obtain ⟨⟨k, e⟩, he, rfl⟩ := h
  obtain ⟨he, hlive⟩ := OrderedMap.mem_filter.1 he
  rw [Bool.not_eq_true'] at hlive
  exact hv k e he _ (remainingTtl_of_live hlive ht).2

/-- The rows of a snapshot are accepted where it was taken, and no more than the capacity. -/
theorem exported_of_run (h : Run storeStep (ValidWrite maxKeyLength)
      (⟨t₀, CacheStore.new opts⟩ : TimedStore ℚ) log ts)
    (hm : 1 ≤ opts.maxEntries) (hs : 1 ≤ opts.evictionSampleSize) (hclock : ts.clock ≤ t₁) :
    (∀ row ∈ (ts.store.exportEntries t₁).2, Acceptable maxKeyLength t₁ row.key row.ttl) ∧
      (ts.store.exportEntries t₁).2.length ≤ opts.maxEntries := by
  have hfinite := heldFinite_run h
  have hvalid := heldValid_run h
  have hbounded := (recency_bounded hm hs (h.mono fun _ _ => And.left)).2
  refine ⟨fun row hrow => exported_acceptable hvalid hclock hrow (exported_finite hfinite hrow), ?_⟩
  rw [exportEntries_snd, List.length_map]
  exact (List.length_filter_le _ _).trans hbounded.size

/-- Loading all rows of a snapshot into an empty store that has room for them makes a store with
exactly their keys and values. -/
theorem get_loadRows {into : CacheStore ℚ} {rows : List (SnapshotRow ℚ)}
    (hempty : into.entries = .empty) (hm : 1 ≤ into.maxEntries)
    (hs : 1 ≤ into.evictionSampleSize) (hnodup : (rows.map SnapshotRow.key).Nodup)
    (hpos : ∀ row ∈ rows, ∀ t, row.ttl = some t → 0 < t) (hroom : rows.length ≤ into.maxEntries)
    (k v : JsString) : ((loadRows t₁ into rows).get t₁ k).2 = some v ↔
      ∃ row ∈ rows, row.key = k ∧ row.value = v := by
  have hlive : ∀ row ∈ rows, (row.toEntry t₁).2.isExpired t₁ = false := fun row hrow =>
    (toEntry_remaining row (hpos row hrow)).2
  obtain ⟨he, -⟩ := loadRows_entries hempty hm hs rows hnodup hlive
  rw [List.rtake, List.length_map, Nat.sub_eq_zero_of_le hroom, List.drop_zero] at he
  rw [CacheStore.get, touch_snd_value, Option.map_eq_some_iff]
  constructor
  · rintro ⟨e, hget, rfl⟩
    have hmem := OrderedMap.get?_eq_some.1 (get?_live_eq_some.1 hget).1
    rw [he, List.mem_map] at hmem
    obtain ⟨row, hrow, heq⟩ := hmem
    simp only [SnapshotRow.toEntry, Prod.mk.injEq] at heq
    obtain ⟨rfl, rfl⟩ := heq
    exact ⟨row, hrow, rfl, rfl⟩
  · rintro ⟨row, hrow, rfl, rfl⟩
    refine ⟨(row.toEntry t₁).2, get?_live_eq_some.2 ⟨?_, hlive row hrow⟩, rfl⟩
    rw [OrderedMap.get?_eq_some, he]
    exact List.mem_map.2 ⟨row, hrow, rfl⟩

end Rows

/-! ## The round trip through a body -/

variable {log : List (AppResponse ℚ)} {ts : TimedApp ℚ}

/-- After every history of accepted sets, the `{ keys }` of a snapshot are restored by a primary
with the same settings and an empty store, which then holds exactly these keys with these values, if
and only if their text fits in a body. -/
theorem snapshot_restored_iff (T : NumberText ℚ) (t₀ : ℚ) (app : App ℚ) (opts : CacheStoreOptions)
    (hm : 1 ≤ opts.maxEntries) (hs : 1 ≤ opts.evictionSampleSize)
    (h : Run (setStep T) (fun _ _ => True) ⟨t₀, { app with store := .new opts }⟩ log ts)
    {t₁ : ℚ} (hclock : ts.clock ≤ t₁) {into : App ℚ} (hinto : into.store = .new opts)
    (hlen : into.maxKeyLength = app.maxKeyLength) (hrole : into.leadership.role = .primary)
    (hprints : ∀ row ∈ (ts.app.getSnapshot t₁).2, ∀ t ∈ row.ttl, T.Prints t) :
    let rows := (ts.app.getSnapshot t₁).2
    let answer := into.receiveRestore T t₁ (some (restoreBody T rows))
    (answer.2.isOk = true ∧ ∀ k v, (answer.1.store.get t₁ k).2 = some v ↔
      ∃ row ∈ rows, row.key = k ∧ row.value = v) ↔ snapshotBytes T rows ≤ bodyLimit := by
  intro rows answer
  obtain ⟨-, events, hrun⟩ := sets_of_run h
  obtain ⟨hacceptable, hroom⟩ := exported_of_run hrun hm hs hclock
  have hrows : ∀ row ∈ rows, row.Prints T := fun row hrow t ht =>
    ⟨((hacceptable row hrow).2.2 t ht).1, hprints row hrow t ht⟩
  have hanswer : answer = into.receiveRestore T t₁ (some (restoreBody T rows)) := rfl
  rw [hanswer, App.receiveRestore, expressJson_restoreBody hrows]
  split_ifs with hlarge
  · simp [HttpError.response, AppResponse.isOk, hlarge]
  · have hrestore : into.postRestore t₁ (some (snapshotJson rows)) =
        ({ into with store := loadRows t₁ into.store rows }, .restored rows.length) :=
      postRestore_rows (by simp [hrole]) (hlen.symm ▸ hacceptable)
    have hload : ∀ k v, ((loadRows t₁ into.store rows).get t₁ k).2 = some v ↔
        ∃ row ∈ rows, row.key = k ∧ row.value = v :=
      get_loadRows (by rw [hinto]; rfl) (by rw [hinto]; exact hm) (by rw [hinto]; exact hs)
        exported_nodup (fun row hrow t ht => exported_ttl_pos hrow ht)
        (by rw [hinto]; exact hroom)
    simp only [hrestore, AppResponse.isOk, true_and]
    exact ⟨fun _ => not_lt.1 hlarge, fun _ => hload⟩

/-! ## Two large values -/

theorem quoteUnits_plain {s : JsString} (h : ∀ u ∈ s, quoteUnit u = [u]) : quoteUnits s = s := by
  induction s using quoteUnits.induct with
  | case1 => rfl
  | case2 u => exact h u (by simp)
  | case3 u v s hpair ih =>
    rw [quoteUnits, if_pos hpair,
      ih fun w hw => h w (List.mem_cons_of_mem u (List.mem_cons_of_mem v hw))]
  | case4 u v s hpair ih =>
    rw [quoteUnits, if_neg hpair, h u (by simp), ih fun w hw => h w (List.mem_cons_of_mem u hw)]
    rfl

/-- So many times the letter a. -/
def letters (n : ℕ) : JsString := List.replicate n 97

theorem byteLength_quote_letters (n : ℕ) : byteLength (quote (letters n)) = n + 2 := by
  have hunit : ∀ u ∈ letters n, u = 97 := fun u hu => List.eq_of_mem_replicate hu
  have hplain : quoteUnits (letters n) = letters n :=
    quoteUnits_plain fun u hu => by rw [hunit u hu]; decide
  have hascii : ∀ u ∈ quote (letters n), u < 0x80 := by
    intro u hu
    rw [quote, hplain, List.mem_cons, List.mem_append, List.mem_singleton] at hu
    rcases hu with rfl | hu | rfl
    · decide
    · rw [hunit u hu]
      decide
    · decide
  rw [byteLength_ascii hascii, quote, hplain]
  simp [letters]

/-- `POST /set` of a key and a value, as a client sends it. -/
def setBody (T : NumberText ν) (key value : JsString) : RequestBody :=
  .ofText (stringify T (.obj [(js "key", .str key), (js "value", .str value)]))

theorem byteLength_setBody (T : NumberText ν) (key value : JsString) :
    byteLength (stringify T (.obj [(js "key", .str key), (js "value", .str value)])) =
      17 + byteLength (quote key) + byteLength (quote value) := by
  have hnames : byteLength (quote (js "key")) = 5 ∧ byteLength (quote (js "value")) = 7 := by
    decide
  rw [byteLength_stringify_obj (by simp [Printable.str])]
  simp only [List.map_cons, List.map_nil, List.sum_cons, List.sum_nil, List.length_cons,
    List.length_nil, hnames, stringify]
  omega

theorem receiveWrite_setBody {app : App ν} {now : ν} {key value : JsString}
    (hrole : app.leadership.role = .primary) (hblank : key.trim.length ≠ 0)
    (hlen : key.length ≤ app.maxKeyLength)
    (hsize : 17 + byteLength (quote key) + byteLength (quote value) ≤ bodyLimit) :
    app.receiveWrite T now (.set (some (setBody T key value))) =
      ({ app with store := app.store.set now key value none }, .set key none,
        forwardToReplicas app.leadership.replicaUrls (.set key value none)) := by
  have hbody : (expressJson T (some (setBody T key value)) : Except HttpError (Option (Json ν))) =
      .ok (some (.obj [(js "key", .str key), (js "value", .str value)])) := by
    rw [setBody, expressJson_stringify (.obj (by simp [Printable.str])), byteLength_setBody,
      if_neg (not_lt.2 hsize)]
  have hentry : validateEntry app.maxKeyLength now
      (some (orEmpty (some (.obj [(js "key", .str key), (js "value", .str value)])))) =
      .ok ⟨key, value, none⟩ := by
    have hkey : readField (orEmpty (some (orEmpty (some (.obj [(js "key", .str key),
        (js "value", .str value)] : Json ν))))) (js "key") = .value (.str key) := rfl
    have hvalue : readField (orEmpty (some (orEmpty (some (.obj [(js "key", .str key),
        (js "value", .str value)] : Json ν))))) (js "value") = .value (.str value) := rfl
    have httl : readField (orEmpty (some (orEmpty (some (.obj [(js "key", .str key),
        (js "value", .str value)] : Json ν))))) (js "ttl") = .undefined := rfl
    simp only [validateEntry, hkey, if_neg hblank, if_neg (not_lt.2 hlen), hvalue, httl,
      validateTtl]
  simp only [App.receiveWrite, HttpWrite.body, hbody, HttpWrite.request, App.write, App.postSet,
    if_neg (show ¬ app.leadership.role = .replica by simp [hrole]), hentry]

theorem setStep_setBody {s : TimedApp ν} {now : ν} {key value : JsString} (hclock : s.clock ≤ now)
    (hrole : s.app.leadership.role = .primary) (hblank : key.trim.length ≠ 0)
    (hlen : key.length ≤ s.app.maxKeyLength)
    (hsize : 17 + byteLength (quote key) + byteLength (quote value) ≤ bodyLimit) :
    setStep T s (now, some (setBody T key value)) =
      some (⟨now, { s.app with store := s.app.store.set now key value none }⟩,
        [.set key none]) := by
  simp [setStep, receiveWrite_setBody hrole hblank hlen hsize, AppResponse.isOk, hclock]

/-- A primary with the default options and nothing stored. -/
def emptyPrimary : App ℚ := { freshPair.primary with store := .new {} }

/-- Sets two keys to the same value, one second after the other. -/
theorem run_two {value : JsString} (hsize : 20 + byteLength (quote value) ≤ bodyLimit) :
    ∃ (log : List (AppResponse ℚ)) (ts : TimedApp ℚ),
      Run (setStep noNumbers) (fun _ _ => True) ⟨0, emptyPrimary⟩ log ts ∧ ts.clock = 1000 ∧
      (ts.app.getSnapshot 1000).2 = [⟨js "a", value, none⟩, ⟨js "b", value, none⟩] := by
  have hquote : byteLength (quote (js "a")) = 3 ∧ byteLength (quote (js "b")) = 3 := by
    decide
  have hfirst : setStep noNumbers ⟨0, emptyPrimary⟩ (0, some (setBody noNumbers (js "a") value)) =
      some (⟨0, { emptyPrimary with store := emptyPrimary.store.set 0 (js "a") value none }⟩,
        [.set (js "a") none]) :=
    setStep_setBody le_rfl rfl (by decide) (by decide) (by omega)
  have hsecond : setStep noNumbers
      ⟨0, { emptyPrimary with store := emptyPrimary.store.set 0 (js "a") value none }⟩
      (1000, some (setBody noNumbers (js "b") value)) =
      some (⟨1000, { emptyPrimary with
        store := (emptyPrimary.store.set 0 (js "a") value none).set 1000 (js "b") value none }⟩,
        [.set (js "b") none]) :=
    setStep_setBody (by norm_num) rfl (by decide)
      (show (js "b").length ≤ 256 by decide) (by omega)
  exact ⟨_, _, (Run.start.next _ trivial hfirst).next _ trivial hsecond, rfl, rfl⟩

theorem bytes_two (T : NumberText ℚ) (value : JsString) :
    snapshotBytes T [⟨js "a", value, none⟩, ⟨js "b", value, none⟩] =
      74 + 2 * byteLength (quote value) := by
  have hquote : byteLength (quote (js "a")) = 3 ∧ byteLength (quote (js "b")) = 3 := by
    decide
  simp only [snapshotBytes, SnapshotRow.bytes, ttlBytes, List.map_cons, List.map_nil,
    List.sum_cons, List.sum_nil, List.length_cons, List.length_nil, hquote]
  omega

/-- Two values of 40000 letters are accepted one by one, but not together. -/
theorem snapshot_too_large : ∃ (log : List (AppResponse ℚ)) (ts : TimedApp ℚ),
    Run (setStep noNumbers) (fun _ _ => True) ⟨0, emptyPrimary⟩ log ts ∧ ts.clock = 1000 ∧
    (emptyPrimary.receiveRestore noNumbers 1000
      (some (restoreBody noNumbers (ts.app.getSnapshot 1000).2))).2 =
        .error 413 (js "request body too large (max 64kb)") := by
  have hletters := byteLength_quote_letters 40000
  have hsize : 20 + byteLength (quote (letters 40000)) ≤ bodyLimit := by
    rw [hletters]
    decide
  obtain ⟨log, ts, h, hclock, hrows⟩ := run_two hsize
  have hprints : ∀ row ∈ (ts.app.getSnapshot 1000).2, row.Prints noNumbers := by
    rw [hrows]
    simp [SnapshotRow.Prints]
  have hlarge : bodyLimit < snapshotBytes noNumbers (ts.app.getSnapshot 1000).2 := by
    rw [hrows, bytes_two, hletters]
    decide
  refine ⟨log, ts, h, hclock, ?_⟩
  rw [App.receiveRestore, expressJson_restoreBody hprints, if_pos hlarge]
  rfl

/-- Two small values come back. -/
theorem snapshot_restored_two : ∃ (log : List (AppResponse ℚ)) (ts : TimedApp ℚ),
    Run (setStep noNumbers) (fun _ _ => True) ⟨0, emptyPrimary⟩ log ts ∧
    let answer := emptyPrimary.receiveRestore noNumbers 1000
      (some (restoreBody noNumbers (ts.app.getSnapshot 1000).2))
    answer.2.isOk = true ∧ (answer.1.store.get 1000 (js "a")).2 = some (js "1") := by
  have hsize : 20 + byteLength (quote (js "1")) ≤ bodyLimit := by decide
  obtain ⟨log, ts, h, hclock, hrows⟩ := run_two hsize
  have hprints : ∀ row ∈ (ts.app.getSnapshot 1000).2, ∀ t ∈ row.ttl, noNumbers.Prints t := by
    rw [hrows]
    simp
  have hfits : snapshotBytes noNumbers (ts.app.getSnapshot 1000).2 ≤ bodyLimit := by
    rw [hrows, bytes_two]
    decide
  obtain ⟨hok, hget⟩ := (snapshot_restored_iff noNumbers 0 emptyPrimary {} (by decide) (by decide)
    h hclock.le rfl rfl rfl hprints).2 hfits
  refine ⟨log, ts, h, hok, (hget _ _).2 ⟨⟨js "a", js "1", none⟩, ?_, rfl, rfl⟩⟩
  rw [hrows]
  exact List.mem_cons_self

end InkCache
