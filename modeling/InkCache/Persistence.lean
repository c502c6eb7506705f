import InkCache.App
import InkCache.StoreHistory

/-!
# Persistence (`src/network/persistence.ts`)

`parse` and `stringify` stand for `JSON.parse` and `JSON.stringify`, the first of which throws where
it is `none`. `T` is how numbers are read from text and written, and `exhausts` says for which
arrays that takes more stack than there is.
-/

namespace InkCache

variable {ν : Type} [JsNumber ν]

/-- What reading the file comes to. -/
inductive FileContent where
  | absent
  | unreadable
  | text (raw : JsString)

/-- An object of the `keys` array with a string `key` and a string `value`. -/
structure PersistedEntry (ν : Type) where
  key : JsString
  value : JsString
  ttl : PropertyValue ν

/-- `{ keys }`, the snapshot that is written to the file. -/
def snapshotJson (rows : List (SnapshotRow ν)) : Json ν :=
  .obj [(js "keys", .arr (rows.map SnapshotRow.toJson))]

/-- The store, which drops its expired entries, and the text of the file. -/
def saveSnapshot (stringify : Json ν → JsString) (now : ν) (s : CacheStore ν) :
    CacheStore ν × JsString :=
  let r := s.exportEntries now
  (r.1, stringify (snapshotJson r.2))

/-- The row, unless it is malformed. -/
def persistedEntry (entry : Json ν) : Option (PersistedEntry ν) :=
  match entry with
  | .obj _ | .arr _ =>
    match readField entry (js "key"), readField entry (js "value") with
    | .value (.str key), .value (.str value) =>
      some { key, value, ttl := readField entry (js "ttl") }
    | _, _ => none
  | _ => none

/-- The number that `set` compares with zero, where a `ttl` is given; `none` also for `NaN`. -/
def ttlNumber (T : NumberText ν) (exhausts : List (Json ν) → Bool) :
    PropertyValue ν → Except JsError (Option ν)
  | .undefined | .method | .value .null => .ok none
  | .value j => j.toNumber T exhausts

/-- The loop of `loadSnapshot`, which keeps what it has set when a `set` throws. -/
def loadEntries (T : NumberText ν) (exhausts : List (Json ν) → Bool) (now : ν) :
    List (Json ν) → ℕ → CacheStore ν → CacheStore ν × Except JsError ℕ
  | [], loaded, s => (s, .ok loaded)
  | entry :: rest, loaded, s =>
    match persistedEntry entry with
    | none => loadEntries T exhausts now rest loaded s
    | some e =>
      match ttlNumber T exhausts e.ttl with
      | .error err => (s, .error err)
      | .ok ttl => loadEntries T exhausts now rest (loaded + 1) (s.set now e.key e.value ttl)

/-- The store, and the number of rows loaded, `none` for `undefined`; or the error it throws. -/
def loadSnapshot (parse : JsString → Option (Json ν)) (T : NumberText ν)
    (exhausts : List (Json ν) → Bool) (now : ν) (file : FileContent) (s : CacheStore ν) :
    CacheStore ν × Except JsError (Option ℕ) :=
  match file with
  | .absent | .unreadable => (s, .ok none)
  | .text raw =>
    match parse raw with
    | none => (s, .ok none)
    | some parsed =>
      match parsed.property (js "keys") with
      | .error err => (s, .error err)
      | .ok (.value (.arr keys)) =>
        let r := loadEntries T exhausts now keys 0 s
        (r.1, r.2.map some)
      | .ok _ => (s, .ok none)

/-! ## What loading is to do -/

/-- The `keys` array of a snapshot. -/
def keysArray : Json ν → Option (List (Json ν))
  | .obj fields =>
    match Json.field fields (js "keys") with
    | .value (.arr rows) => some rows
    | _ => none
  | _ => none

/-- A number is honoured as the time to live; `null` and nothing mean none. -/
def Honours (given : PropertyValue ν) (ttl : Option ν) : Prop :=
  (given = .undefined ∨ given = .value .null → ttl = none) ∧
    ∀ t, given = .value (.num t) → ttl = some t

/-- What a well-formed row may be set as. -/
def LoadedAs (e : PersistedEntry ν) (row : SnapshotRow ν) : Prop :=
  row.key = e.key ∧ row.value = e.value ∧ Honours e.ttl row.ttl

/-- The result is that of setting the well-formed rows in order; without a `keys` array it is that
of doing nothing. -/
def Salvages (parse : JsString → Option (Json ν)) (now : ν) (file : FileContent)
    (s : CacheStore ν) (result : CacheStore ν × Except JsError (Option ℕ)) : Prop :=
  match file with
  | .absent | .unreadable => result = (s, .ok none)
  | .text raw =>
    match (parse raw).bind keysArray with
    | none => result = (s, .ok none)
    | some keys => ∃ rows : List (SnapshotRow ν),
        List.Forall₂ LoadedAs (keys.filterMap persistedEntry) rows ∧
        result = (loadRows now s rows, .ok (some rows.length))

mutual

/-- Whether writing the value as text throws: it is an object that has a field `toString` of its
own, or an array with such an object in it. -/
def Json.unprintable : Json ν → Bool
  | .arr elems => anyUnprintable elems
  | .obj fields => shadowsToString fields
  | _ => false

def Json.anyUnprintable : List (Json ν) → Bool
  | [] => false
  | e :: es => e.unprintable || anyUnprintable es

end

/-- Whether a `ttl` is nothing, or a value that can be written as text within the stack. -/
def Comparable (exhausts : List (Json ν) → Bool) (given : PropertyValue ν) : Prop :=
  (∀ j, given = .value j → j.unprintable = false) ∧
    ∀ elems, given = .value (.arr elems) → exhausts elems = false

/-- The text is not JSON `null`, and the `ttl` of every well-formed row can be written as text. -/
def Loadable (parse : JsString → Option (Json ν)) (exhausts : List (Json ν) → Bool) :
    FileContent → Prop
  | .absent | .unreadable => True
  | .text raw => ∀ parsed, parse raw = some parsed → parsed ≠ .null ∧
      ∀ keys, keysArray parsed = some keys →
        ∀ e ∈ keys.filterMap persistedEntry, Comparable exhausts e.ttl

/-! ## What saving is to keep -/

/-- The clock does not run backwards, and what is set has passed `validateEntry`. -/
def ValidWrite (maxKeyLength : ℕ) (ts : TimedStore ν) (a : ν × StoreOp ν) : Prop :=
  ClockOk ts a ∧ match a.2 with
    | .set key value ttl => ∃ body, validateEntry maxKeyLength a.1 body = .ok ⟨key, value, ttl⟩
    | _ => True

/-- The whole store from front to back, each entry as a row with its hits. -/
def CacheStore.contents (now : ν) (s : CacheStore ν) : List (SnapshotRow ν × ℕ) :=
  s.entries.entries.map fun e => (⟨e.1, e.2.value, e.2.remainingTtl now⟩, e.2.hits)

/-- The deadline a row would get is a finite number. -/
def SnapshotRow.FiniteDeadline (now : ν) (row : SnapshotRow ν) : Prop :=
  ∀ t, row.ttl = some t → JsNumber.isFinite (now + t * msPerSecond) = true

end InkCache
