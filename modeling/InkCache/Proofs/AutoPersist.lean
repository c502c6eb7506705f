import InkCache.AutoPersist

/-!
# The file is whole while saves do not disturb each other

At any time the temporary file belongs to the save that opened it last (`LastOpened`): either it
holds what that save has written, or some save has renamed it and the file is that save's payload.
No other save is still writing, so what a rename puts in place is complete. The save in place was
opened no earlier than any that has completed (`InPlace`).
-/

namespace InkCache

open Lib

variable {path : JsString} {files files' : FileSystem JsString UInt8} {saves : List Save}
  {x y : Save} {i k o steps : ℕ}

theorem tmpPath_ne (path : JsString) : tmpPath path ≠ path := by
  intro h
  have hlen := congrArg List.length h
  rw [tmpPath, List.length_append, show (js ".tmp").length = 4 from rfl] at hlen
  omega

/-! ## What a step does -/

/-- What a step makes of the files and of the saves. -/
inductive PersistStep {ν : Type} (path : JsString) (files : FileSystem JsString UInt8)
    (saves : List Save) (steps : ℕ) :
    PersistAction ν → FileSystem JsString UInt8 → List Save → Prop
  | idle (a : PersistAction ν) : PersistStep path files saves steps a files saves
  | began (now : ν) (payload : List UInt8) :
      PersistStep path files saves steps (.saveSnapshot now) files
        (saves ++ [⟨payload, steps, .called⟩])
  | opened (i : ℕ) (payload : List UInt8) (beganAt : ℕ)
      (hi : saves[i]? = some ⟨payload, beganAt, .called⟩) :
      PersistStep path files saves steps (.openTmp i) (files.openTruncate (tmpPath path)).1
        (saves.set i ⟨payload, beganAt, .writing (files.openTruncate (tmpPath path)).2 0 steps⟩)
  | wrote (i n : ℕ) (payload : List UInt8) (beganAt inode written openedAt : ℕ)
      (hi : saves[i]? = some ⟨payload, beganAt, .writing inode written openedAt⟩)
      (hn : 0 < n) (hle : written + n ≤ payload.length) :
      PersistStep path files saves steps (.write i n)
        (files.writeAt inode written ((payload.drop written).take n))
        (saves.set i ⟨payload, beganAt, .writing inode (written + n) openedAt⟩)
  | renamed (i : ℕ) (payload : List UInt8) (beganAt inode openedAt : ℕ)
      (hi : saves[i]? = some ⟨payload, beganAt, .writing inode payload.length openedAt⟩)
      {files' : FileSystem JsString UInt8}
      (hfiles : files.rename (tmpPath path) path = some files') :
      PersistStep path files saves steps (.rename i) files'
        (saves.set i ⟨payload, beganAt, .completed openedAt steps⟩)
  | failed (i : ℕ) (payload : List UInt8) (beganAt inode openedAt : ℕ)
      (hi : saves[i]? = some ⟨payload, beganAt, .writing inode payload.length openedAt⟩)
      (hfiles : files.rename (tmpPath path) path = none) :
      PersistStep path files saves steps (.rename i) files
        (saves.set i ⟨payload, beganAt, .completed openedAt steps⟩)

section Steps

variable {ν : Type} [JsNumber ν] {stringify : Json ν → JsString} {encode : JsString → List UInt8}
  {s s' : Persister ν} {a : PersistAction ν} {es : List PersistEvent}

theorem persistStep_act {r : Persister ν × List PersistEvent}
    (h : s.act stringify encode path a = some r) :
    PersistStep path s.files s.saves s.steps a r.1.files r.1.saves := by
  unfold Persister.act at h
  cases a with
  | op now op | kill =>
    simp only [Option.some.injEq] at h
    subst h
    exact .idle _
  | saveSnapshot now =>
    simp only [Option.some.injEq] at h
    subst h
    exact .began now _
  | openTmp i =>
    simp only at h
    split at h
    · rename_i payload beganAt hi
      rw [Option.some.injEq] at h
      subst h
      exact .opened i payload beganAt hi
    · simp at h
  | write i n =>
    simp only at h
    split at h
    · rename_i payload beganAt inode written openedAt hi
      split_ifs at h with hn
      rw [Option.some.injEq] at h
      subst h
      exact .wrote i n payload beganAt inode written openedAt hi hn.1 hn.2
    · simp at h
  | rename i =>
    simp only at h
    split at h
    · rename_i payload beganAt inode written openedAt hi
      split_ifs at h with hw
      subst hw
      rcases hr : s.files.rename (tmpPath path) path with _ | files' <;> rw [hr] at h <;>
        simp only [Option.some.injEq] at h <;> subst h
      · exact .failed i payload beganAt inode openedAt hi hr
      · exact .renamed i payload beganAt inode openedAt hi hr
    · simp at h

theorem persistStep (h : s.step stringify encode path a = some (s', es)) :
    PersistStep path s.files s.saves s.steps a s'.files s'.saves ∧ s'.steps = s.steps + 1 := by
  unfold Persister.step at h
  split_ifs at h
  rw [Option.map_eq_some_iff] at h
  obtain ⟨r, hr, he⟩ := h
  rw [Prod.mk.injEq] at he
  obtain ⟨rfl, rfl⟩ := he
  exact ⟨persistStep_act hr, rfl⟩

end Steps

/-! ## The invariant -/

/-- The dates of a save are in order, and it has written no more than its payload. -/
def Save.Dated (steps : ℕ) (x : Save) : Prop :=
  match x.phase with
  | .called => x.beganAt < steps
  | .writing _ written openedAt =>
    x.beganAt < openedAt ∧ openedAt < steps ∧ written ≤ x.payload.length
  | .completed openedAt completedAt =>
    x.beganAt < openedAt ∧ openedAt < completedAt ∧ completedAt < steps

/-- The file is absent and no save has completed, or it is the payload of a save that was opened no
earlier than any that has. -/
def InPlace (path : JsString) (files : FileSystem JsString UInt8) (saves : List Save) : Prop :=
  (files.read path = none ∧ ∀ z ∈ saves, z.completedAt = none) ∨
    ∃ y ∈ saves, ∃ o, y.openedAt = some o ∧ files.read path = some y.payload ∧
      ∀ z ∈ saves, z.completedAt ≠ none → ∃ oz, z.openedAt = some oz ∧ oz ≤ o

/-- The temporary file holds what `x` has written, or it is gone and the file is the payload. -/
def Carries (path : JsString) (files : FileSystem JsString UInt8) (x : Save) : Prop :=
  (∃ inode written o, x.phase = .writing inode written o ∧
      files.names (tmpPath path) = some inode ∧ files.inodes inode = x.payload.take written) ∨
    (files.names (tmpPath path) = none ∧ files.read path = some x.payload ∧ x.isWriting = false)

/-- The save at `k` was the last to open the temporary file. -/
structure LastOpened (saves : List Save) (k : ℕ) (x : Save) (o : ℕ) : Prop where
  get : saves[k]? = some x
  opened : x.openedAt = some o
  others : ∀ j y, j ≠ k → saves[j]? = some y →
    y.isWriting = false ∧ ∀ o', y.openedAt = some o' → o' < o

structure PersistInv (path : JsString) (files : FileSystem JsString UInt8) (saves : List Save)
    (steps : ℕ) : Prop where
  dated : ∀ x ∈ saves, x.Dated steps
  inPlace : InPlace path files saves
  last : (∀ x ∈ saves, x.phase = .called) ∨
    ∃ k x o, LastOpened saves k x o ∧ Carries path files x

theorem LastOpened.le (h : LastOpened saves k x o) (hy : y ∈ saves) {o' : ℕ}
    (ho : y.openedAt = some o') : o' ≤ o := by
  obtain ⟨j, hj⟩ := List.getElem?_of_mem hy
  by_cases hjk : j = k
  · subst hjk
    rw [h.get, Option.some.injEq] at hj
    subst hj
    rw [h.opened, Option.some.injEq] at ho
    exact ho.ge
  · exact ((h.others j y hjk hj).2 o' ho).le

/-- A save that is still writing is the one that opened last. -/
theorem LastOpened.eq_of_isWriting (h : LastOpened saves k x o) (hi : saves[i]? = some y)
    (hy : y.isWriting = true) : i = k := by
  by_contra hik
  rw [(h.others i y hik hi).1] at hy
  simp at hy

/-- A save moves on; the last that opened is the same. -/
theorem LastOpened.set {y' : Save} (h : LastOpened saves k x o) (hi : saves[i]? = some y)
    (ho : y'.openedAt = y.openedAt) (hw : i ≠ k → y'.isWriting = false) :
    LastOpened (saves.set i y') k (if i = k then y' else x) o := by
  have hlt : i < saves.length := (List.getElem?_eq_some_iff.1 hi).1
  refine ⟨?_, ?_, fun j z hjk hj => ?_⟩
  · rw [List.getElem?_set]
    split_ifs with hik
    · rfl
    · exact h.get
  · split_ifs with hik
    · subst hik
      have hxy := hi.symm.trans h.get
      rw [Option.some.injEq] at hxy
      rw [ho, hxy, h.opened]
    · exact h.opened
  · rw [List.getElem?_set] at hj
    split_ifs at hj with hij
    · subst hij
      rw [Option.some.injEq] at hj
      subst hj
      exact ⟨hw hjk, fun o' ho' => (h.others i y hjk hi).2 o' (ho ▸ ho')⟩
    · exact h.others j z hjk hj

theorem LastOpened.append (h : LastOpened saves k x o) (hy : y.phase = .called) :
    LastOpened (saves ++ [y]) k x o := by
  have hlt : k < saves.length := (List.getElem?_eq_some_iff.1 h.get).1
  refine ⟨(List.getElem?_append_left hlt).trans h.get, h.opened, fun j z hjk hj => ?_⟩
  rcases List.mem_append.1 (List.mem_of_getElem? hj) with hz | hz
  · by_cases hlj : j < saves.length
    · rw [List.getElem?_append_left hlj] at hj
      exact h.others j z hjk hj
    · rw [List.getElem?_append_right (not_lt.1 hlj)] at hj
      obtain rfl := List.mem_singleton.1 (List.mem_of_getElem? hj)
      simp [Save.isWriting, Save.openedAt, hy]
  · obtain rfl := List.mem_singleton.1 hz
    simp [Save.isWriting, Save.openedAt, hy]

/-- The last to open has its payload in place. -/
theorem LastOpened.inPlace (h : LastOpened saves k x o) (hread : files.read path = some x.payload) :
    InPlace path files saves := by
  refine .inr ⟨x, List.mem_of_getElem? h.get, o, h.opened, hread, fun z hz hc => ?_⟩
  rcases hp : z.phase with _ | ⟨inode, written, oz⟩ | ⟨oz, tz⟩
  · simp [Save.completedAt, hp] at hc
  · simp [Save.completedAt, hp] at hc
  · have hoz : z.openedAt = some oz := by rw [Save.openedAt, hp]
    exact ⟨oz, hoz, h.le hz hoz⟩

/-- What is in place stays while no save completes. -/
theorem InPlace.set {y' : Save} (h : InPlace path files saves) (hi : saves[i]? = some y)
    (hp : y'.payload = y.payload) (ho : ∀ o, y.openedAt = some o → y'.openedAt = some o)
    (hc : y'.completedAt = none) (hread : files'.read path = files.read path) :
    InPlace path files' (saves.set i y') := by
  have hmem : ∀ z ∈ saves.set i y', z.completedAt ≠ none → z ∈ saves := fun z hz hzc => by
    rcases List.mem_or_eq_of_mem_set hz with hz | rfl
    · exact hz
    · exact absurd hc hzc
  rcases h with ⟨hnone, hcalled⟩ | ⟨x, hx, o, hxo, hxr, hle⟩
  · refine .inl ⟨hread.trans hnone, fun z hz => ?_⟩
    by_contra hzc
    exact hzc (hcalled z (hmem z hz hzc))
  · have hnew : ∃ x' ∈ saves.set i y', x'.openedAt = some o ∧ x'.payload = x.payload := by
      obtain ⟨j, hj⟩ := List.getElem?_of_mem hx
      by_cases hij : i = j
      · subst hij
        obtain rfl := Option.some.inj (hi.symm.trans hj)
        exact ⟨y', List.mem_of_getElem? (List.getElem?_set_self
          (List.getElem?_eq_some_iff.1 hi).1), ho o hxo, hp⟩
      · exact ⟨x, List.mem_of_getElem? ((List.getElem?_set_ne hij).trans hj), hxo, rfl⟩
    obtain ⟨x', hx', hxo', hpx⟩ := hnew
    exact .inr ⟨x', hx', o, hxo', by rw [hread, hxr, hpx],
      fun z hz hzc => hle z (hmem z hz hzc) hzc⟩

theorem Save.Dated.mono (h : x.Dated steps) : x.Dated (steps + 1) := by
  unfold Save.Dated at h ⊢
  split at h <;> omega

theorem dated_set {y' : Save} (h : ∀ x ∈ saves, x.Dated steps) (hy : y'.Dated (steps + 1)) :
    ∀ x ∈ saves.set i y', x.Dated (steps + 1) := fun x hx => by
  rcases List.mem_or_eq_of_mem_set hx with hx | rfl
  · exact (h x hx).mono
  · exact hy

theorem Save.Dated.openedAt_lt (h : x.Dated steps) (ho : x.openedAt = some o) : o < steps := by
  unfold Save.Dated at h
  unfold Save.openedAt at ho
  split at ho <;> rename_i hp <;> rw [hp] at h <;> simp only [reduceCtorEq, Option.some.injEq] at ho
  · omega
  · omega

/-! ## The steps keep it -/

namespace PersistInv

variable {payload : List UInt8} {beganAt inode written openedAt n : ℕ}

theorem began (h : PersistInv path files saves steps) :
    PersistInv path files (saves ++ [⟨payload, steps, .called⟩]) (steps + 1) := by
  refine ⟨fun x hx => ?_, ?_, ?_⟩
  · rcases List.mem_append.1 hx with hx | hx
    · exact (h.dated x hx).mono
    · rw [List.mem_singleton.1 hx]
      exact Nat.lt_succ_self steps
  · rcases h.inPlace with ⟨hnone, hcalled⟩ | ⟨y, hy, o, ho, hread, hle⟩
    · refine .inl ⟨hnone, fun z hz => ?_⟩
      rcases List.mem_append.1 hz with hz | hz
      · exact hcalled z hz
      · rw [List.mem_singleton.1 hz]
        rfl
    · refine .inr ⟨y, List.mem_append_left _ hy, o, ho, hread, fun z hz hzc => ?_⟩
      rcases List.mem_append.1 hz with hz | hz
      · exact hle z hz hzc
      · rw [List.mem_singleton.1 hz] at hzc
        exact absurd rfl hzc
  · rcases h.last with hcalled | ⟨k, x, o, hlast, hcarries⟩
    · refine .inl fun x hx => ?_
      rcases List.mem_append.1 hx with hx | hx
      · exact hcalled x hx
      · rw [List.mem_singleton.1 hx]
    · exact .inr ⟨k, x, o, hlast.append rfl, hcarries⟩

theorem opened (h : PersistInv path files saves steps)
    (hi : saves[i]? = some ⟨payload, beganAt, .called⟩)
    (hP : ∀ x ∈ saves.eraseIdx i, x.isWriting = false) :
    PersistInv path (files.openTruncate (tmpPath path)).1
      (saves.set i ⟨payload, beganAt, .writing (files.openTruncate (tmpPath path)).2 0 steps⟩)
      (steps + 1) := by
  have hlt : i < saves.length := (List.getElem?_eq_some_iff.1 hi).1
  have hbegan : beganAt < steps := h.dated _ (List.mem_of_getElem? hi)
  obtain ⟨hname, hcontents⟩ := FileSystem.openTruncate_spec (tmpPath path) files
  refine ⟨dated_set h.dated ⟨hbegan, Nat.lt_succ_self _, Nat.zero_le _⟩,
    h.inPlace.set hi rfl (by simp [Save.openedAt]) rfl
      (FileSystem.read_openTruncate_of_ne (tmpPath_ne path).symm),
    .inr ⟨i, _, steps, ⟨List.getElem?_set_self hlt, rfl, fun j y hji hj => ?_⟩,
      .inl ⟨_, 0, steps, rfl, hname, hcontents⟩⟩⟩
  rw [List.getElem?_set_ne (Ne.symm hji)] at hj
  exact ⟨hP y (List.mem_eraseIdx_iff_getElem?.2 ⟨j, hji, hj⟩),
    fun o' ho' => (h.dated y (List.mem_of_getElem? hj)).openedAt_lt ho'⟩

theorem wrote (h : PersistInv path files saves steps)
    (hi : saves[i]? = some ⟨payload, beganAt, .writing inode written openedAt⟩) (hn : 0 < n)
    (hle : written + n ≤ payload.length) :
    PersistInv path (files.writeAt inode written ((payload.drop written).take n))
      (saves.set i ⟨payload, beganAt, .writing inode (written + n) openedAt⟩) (steps + 1) := by
  obtain ⟨hbegan, hopened, -⟩ := h.dated _ (List.mem_of_getElem? hi)
  have hwriting :
      (⟨payload, beganAt, .writing inode written openedAt⟩ : Save).isWriting = true := by
    refine decide_eq_true ?_
    show written < payload.length
    omega
  rcases h.last with hcalled | ⟨k, x, o, hlast, hcarries⟩
  · simpa using hcalled _ (List.mem_of_getElem? hi)
  obtain rfl := hlast.eq_of_isWriting hi hwriting
  obtain rfl := Option.some.inj (hi.symm.trans hlast.get)
  rcases hcarries with ⟨inode', written', o', hphase, hname, hcontents⟩ | ⟨-, -, hno⟩
  swap
  · rw [hwriting] at hno
    simp at hno
  simp only [SavePhase.writing.injEq] at hphase
  obtain ⟨rfl, rfl, rfl⟩ := hphase
  have hlen : (files.inodes inode).length = written := by
    rw [hcontents, List.length_take]
    exact min_eq_left ((Nat.le_add_right written n).trans hle)
  have hwrite : files.writeAt inode written ((payload.drop written).take n) =
      files.setContents inode (payload.take (written + n)) := by
    conv_lhs => rw [← hlen]
    rw [FileSystem.writeAt_end, hlen, hcontents, List.take_add]
  rw [hwrite]
  have hpath : files.names path ≠ some inode := fun hp =>
    tmpPath_ne path (files.linked.single _ _ _ hname hp)
  refine ⟨dated_set h.dated ⟨hbegan, hopened.trans (Nat.lt_succ_self _), hle⟩,
    h.inPlace.set hi rfl (fun _ ho => ho) rfl (FileSystem.read_setContents_of_ne hpath),
    .inr ⟨i, _, o, hlast.set hi rfl (fun hne => absurd rfl hne), ?_⟩⟩
  rw [if_pos rfl]
  exact .inl ⟨inode, written + n, openedAt, rfl, hname, FileSystem.inodes_setContents⟩

/-- What a rename puts in place, or finds there, is the payload of the last to open. -/
theorem completed (h : PersistInv path files saves steps)
    (hi : saves[i]? = some ⟨payload, beganAt, .writing inode payload.length openedAt⟩)
    {k : ℕ} {x : Save} {o : ℕ} (hlast : LastOpened saves k x o)
    (hname : files'.names (tmpPath path) = none) (hread : files'.read path = some x.payload)
    (hx : x.isWriting = false) :
    PersistInv path files' (saves.set i ⟨payload, beganAt, .completed openedAt steps⟩)
      (steps + 1) := by
  obtain ⟨hbegan, hopened, -⟩ := h.dated _ (List.mem_of_getElem? hi)
  set completed : Save := ⟨payload, beganAt, .completed openedAt steps⟩
  have hlast' : LastOpened (saves.set i completed) k (if i = k then completed else x) o :=
    hlast.set hi rfl fun _ => rfl
  have hcarried : files'.read path = some (if i = k then completed else x).payload ∧
      (if i = k then completed else x).isWriting = false := by
    split_ifs with hik
    · subst hik
      obtain rfl := Option.some.inj (hi.symm.trans hlast.get)
      exact ⟨hread, rfl⟩
    · exact ⟨hread, hx⟩
  exact ⟨dated_set h.dated ⟨hbegan, hopened, Nat.lt_succ_self _⟩, hlast'.inPlace hcarried.1,
    .inr ⟨k, _, o, hlast', .inr ⟨hname, hcarried⟩⟩⟩

theorem renamed (h : PersistInv path files saves steps)
    (hi : saves[i]? = some ⟨payload, beganAt, .writing inode payload.length openedAt⟩)
    (hP : ∀ x ∈ saves.eraseIdx i, x.isWriting = false)
    (hfiles : files.rename (tmpPath path) path = some files') :
    PersistInv path files' (saves.set i ⟨payload, beganAt, .completed openedAt steps⟩)
      (steps + 1) := by
  rcases h.last with hcalled | ⟨k, x, o, hlast, hcarries⟩
  · simpa using hcalled _ (List.mem_of_getElem? hi)
  have hidle : x.isWriting = false := by
    by_cases hik : i = k
    · subst hik
      obtain rfl := Option.some.inj (hi.symm.trans hlast.get)
      simp [Save.isWriting]
    · exact hP x (List.mem_eraseIdx_iff_getElem?.2 ⟨k, Ne.symm hik, hlast.get⟩)
  rcases hcarries with ⟨inode', written, o', hphase, hname, hcontents⟩ | ⟨hname, -, -⟩
  swap
  · rw [FileSystem.rename_eq_none hname] at hfiles
    simp at hfiles
  obtain ⟨fs, hfs, hnone, hread, -⟩ := FileSystem.rename_of_names hname (tmpPath_ne path)
  obtain rfl := Option.some.inj (hfs.symm.trans hfiles)
  have hall : x.payload.length ≤ written := by
    simpa [Save.isWriting, hphase] using hidle
  rw [hcontents, List.take_of_length_le hall] at hread
  exact h.completed hi hlast hnone hread hidle

theorem failed (h : PersistInv path files saves steps)
    (hi : saves[i]? = some ⟨payload, beganAt, .writing inode payload.length openedAt⟩)
    (hfiles : files.rename (tmpPath path) path = none) :
    PersistInv path files (saves.set i ⟨payload, beganAt, .completed openedAt steps⟩)
      (steps + 1) := by
  rcases h.last with hcalled | ⟨k, x, o, hlast, hcarries⟩
  · simpa using hcalled _ (List.mem_of_getElem? hi)
  rcases hcarries with ⟨inode', written, o', -, hname, -⟩ | ⟨hname, hread, hx⟩
  · obtain ⟨fs, hfs, -⟩ := FileSystem.rename_of_names hname (tmpPath_ne path)
    rw [hfiles] at hfs
    simp at hfs
  · exact h.completed hi hlast hname hread hx

end PersistInv

/-! ## Runs -/

section Runs

variable {ν : Type} {stringify : Json ν → JsString} {encode : JsString → List UInt8}
  {s s' : Persister ν} {a : PersistAction ν} {es log : List PersistEvent} {store : CacheStore ν}

theorem PersistInv.intact (h : PersistInv path s.files s.saves s.steps) : s.Intact path := by
  rcases h.inPlace with ⟨hnone, -⟩ | ⟨y, hy, -, -, hread, -⟩
  · exact .inl hnone
  · exact .inr ⟨y, hy, hread⟩

theorem Save.Dated.of_completedAt {t : ℕ} (h : x.Dated steps) (ht : x.completedAt = some t) :
    ∃ o, x.openedAt = some o ∧ x.beganAt < o ∧ o < t := by
  unfold Save.Dated at h
  unfold Save.completedAt at ht
  unfold Save.openedAt
  split at ht
  · rename_i openedAt completedAt hp
    rw [hp] at h ⊢
    rw [Option.some.injEq] at ht
    exact ⟨openedAt, rfl, h.1, ht ▸ h.2.1⟩
  · simp at ht

theorem PersistInv.upToDate (h : PersistInv path s.files s.saves s.steps) (hdone : s.Done)
    (hne : s.saves ≠ []) : s.UpToDate path := by
  have hcompleted : ∀ z ∈ s.saves, ∃ t, z.completedAt = some t := fun z hz =>
    Option.isSome_iff_exists.1 (hdone.2 z hz)
  rcases h.inPlace with ⟨-, hnone⟩ | ⟨y, hy, o, ho, hread, hle⟩
  · obtain ⟨x, hx⟩ := List.exists_mem_of_ne_nil _ hne
    obtain ⟨t, ht⟩ := hcompleted x hx
    rw [hnone x hx] at ht
    simp at ht
  refine ⟨y, hy, hread, fun z hz hbefore => ?_, fun z hz hbefore => ?_⟩
  · obtain ⟨t, ht, hlt⟩ := hbefore
    obtain ⟨oz, -, hbegan, hopened⟩ := (h.dated z hz).of_completedAt ht
    omega
  · obtain ⟨t, ht, hlt⟩ := hbefore
    obtain ⟨oy, hoy, -, hopened⟩ := (h.dated y hy).of_completedAt ht
    obtain ⟨tz, htz⟩ := hcompleted z hz
    obtain ⟨oz, hoz, hbegan, -⟩ := (h.dated z hz).of_completedAt htz
    obtain ⟨oz', hoz', hle'⟩ := hle z hz (by simp [htz])
    rw [hoz, Option.some.injEq] at hoz'
    rw [ho, Option.some.injEq] at hoy
    omega

variable [JsNumber ν]

theorem PersistInv.step (h : PersistInv path s.files s.saves s.steps) (hP : s.Undisturbed a)
    (hs : s.step stringify encode path a = some (s', es)) :
    PersistInv path s'.files s'.saves s'.steps := by
  obtain ⟨hstep, hsteps⟩ := persistStep hs
  rw [hsteps]
  generalize s'.files = files' at hstep ⊢
  generalize s'.saves = saves' at hstep ⊢
  cases hstep with
  | idle => exact ⟨fun x hx => (h.dated x hx).mono, h.inPlace, h.last⟩
  | began now payload => exact h.began
  | opened i payload beganAt hi => exact h.opened hi hP
  | wrote i n payload beganAt inode written openedAt hi hn hle => exact h.wrote hi hn hle
  | renamed i payload beganAt inode openedAt hi hfiles => exact h.renamed hi hP hfiles
  | failed i payload beganAt inode openedAt hi hfiles => exact h.failed hi hfiles

/-- In every run where no save opens or renames the temporary file while another is writing it, the
file is absent or the whole payload of a save; and once every save has run to completion it is that
of a save that none began after. -/
theorem saves_intact (stringify : Json ν → JsString) (encode : JsString → List UInt8)
    (hpath : files.names path = none)
    (h : Run (Persister.step stringify encode path) Persister.Undisturbed (.boot store files) log
      s) :
    s.Intact path ∧ (s.Done → s.saves ≠ [] → s.UpToDate path) := by
  have hinv : PersistInv path s.files s.saves s.steps := by
    refine h.invariant (I := fun _ s => PersistInv path s.files s.saves s.steps) ?_
      fun hI hP hs => hI.step hP hs
    exact ⟨by simp [Persister.boot], .inl ⟨FileSystem.read_eq_none.2 hpath,
      by simp [Persister.boot]⟩, .inl (by simp [Persister.boot])⟩
  exact ⟨hinv.intact, hinv.upToDate⟩

end Runs

/-- The text that `JSON.stringify` makes of the snapshot of an empty store. -/
def emptyText : JsString := js "\x7b\"keys\":[]\x7d"

/-- UTF-8, on characters of one byte. -/
def asciiBytes (s : JsString) : List UInt8 := s.map (·.toUInt8)

def snapshotPath : JsString := js "/data/inkcache.json"

/-- A node that has just started, empty, and found no file. -/
def freshPersister : Persister ℚ := .boot (.new {}) .empty

/-- Two saves take turns; the second is under way when the process is killed. -/
theorem saves_intact_killed : ∃ (log : List PersistEvent) (s : Persister ℚ),
    Run (Persister.step (fun _ => emptyText) asciiBytes snapshotPath) Persister.Undisturbed
      freshPersister log s ∧ s.killed = true ∧ s.files.read (tmpPath snapshotPath) = some [123] ∧
    s.Intact snapshotPath := by
  have hrun : ∃ (log : List PersistEvent) (s : Persister ℚ),
      Run (Persister.step (fun _ => emptyText) asciiBytes snapshotPath) Persister.Undisturbed
        freshPersister log s ∧ s.killed = true ∧
        s.files.read (tmpPath snapshotPath) = some [123] :=
    exists_run_of_exec [.saveSnapshot 0, .openTmp 0, .write 0 4, .saveSnapshot 0, .write 0 7,
      .rename 0, .openTmp 1, .write 1 1, .kill] (by decide +kernel)
  obtain ⟨log, s, h, hkilled, htmp⟩ := hrun
  exact ⟨log, s, h, hkilled, htmp, (saves_intact _ _ rfl h).1⟩

/-- The timer's save has written everything when the save of the shutdown opens the same temporary
file; its rename puts an empty file in place. -/
theorem save_truncated : ∃ (log : List PersistEvent) (s : Persister ℚ),
    Run (Persister.step (fun _ => emptyText) asciiBytes snapshotPath) (fun _ _ => True)
      freshPersister log s ∧ s.killed = true ∧ ¬ s.Intact snapshotPath := by
  have hrun : ∃ (log : List PersistEvent) (s : Persister ℚ),
      Run (Persister.step (fun _ => emptyText) asciiBytes snapshotPath) (fun _ _ => True)
        freshPersister log s ∧ s.killed = true ∧ s.files.read snapshotPath = some [] ∧
        ∀ x ∈ s.saves, x.payload ≠ [] :=
    exists_run_of_exec [.saveSnapshot 0, .openTmp 0, .write 0 11, .saveSnapshot 0, .openTmp 1,
      .rename 0, .kill] (by decide +kernel)
  obtain ⟨log, s, h, hkilled, hread, hpayload⟩ := hrun
  refine ⟨log, s, h, hkilled, ?_⟩
  rintro (hnone | ⟨x, hx, hfull⟩)
  · rw [hread] at hnone
    simp at hnone
  · rw [hread, Option.some.injEq] at hfull
    exact hpayload x hx hfull.symm

end InkCache
