import InkCache.Persistence
import InkCache.Lib.Run
import InkCache.Lib.FileSystem

/-!
# Saves that overlap (`src/network/persistence.ts`)

The timer of `startAutoPersist` and `shutdown` of `src/network/server.ts` call `saveSnapshot`
without waiting for the calls before. A call has its payload at once; its `writeFile` opens the
temporary file and writes it piece by piece, and its `rename` comes after. `steps` counts the steps
taken, and dates what a save does. `encode` is how a string is written as bytes.
-/

namespace InkCache

open Lib

variable {ν : Type} [JsNumber ν]

/-- How far a call of `saveSnapshot` has come. -/
inductive SavePhase where
  | called
  | writing (inode written openedAt : ℕ)
  | completed (openedAt completedAt : ℕ)
  deriving DecidableEq

structure Save where
  payload : List UInt8
  beganAt : ℕ
  phase : SavePhase
  deriving DecidableEq

namespace Save

def openedAt (x : Save) : Option ℕ :=
  match x.phase with
  | .called => none
  | .writing _ _ openedAt => some openedAt
  | .completed openedAt _ => some openedAt

def completedAt (x : Save) : Option ℕ :=
  match x.phase with
  | .completed _ completedAt => some completedAt
  | _ => none

/-- Whether `writeFile` has opened the temporary file and not written all of it. -/
def isWriting (x : Save) : Bool :=
  match x.phase with
  | .writing _ written _ => written < x.payload.length
  | _ => false

/-- Whether the first had completed before the second began. -/
def Before (x y : Save) : Prop := ∃ t, x.completedAt = some t ∧ t < y.beganAt

end Save

structure Persister (ν : Type) where
  store : CacheStore ν
  files : FileSystem JsString UInt8
  saves : List Save
  steps : ℕ
  killed : Bool

inductive PersistAction (ν : Type) where
  | op (now : ν) (op : StoreOp ν)
  /-- The timer fires, or the node shuts down. -/
  | saveSnapshot (now : ν)
  | openTmp (i : ℕ)
  /-- The next `n` bytes of the payload are written. -/
  | write (i n : ℕ)
  | rename (i : ℕ)
  | kill

/-- What the node logs. -/
inductive PersistEvent where
  | failedToPersist (i : ℕ)
  deriving DecidableEq

def tmpPath (path : JsString) : JsString := path ++ js ".tmp"

namespace Persister

variable (stringify : Json ν → JsString) (encode : JsString → List UInt8) (path : JsString)

/-- A step of the process while it is alive. -/
def act (s : Persister ν) : PersistAction ν → Option (Persister ν × List PersistEvent)
  | .op now op => some ({ s with store := op.apply now s.store }, [])
  | .saveSnapshot now =>
    let r := InkCache.saveSnapshot stringify now s.store
    some ({ s with
        store := r.1
        saves := s.saves ++
          [{ payload := encode r.2, beganAt := s.steps, phase := .called }] }, [])
  | .openTmp i =>
    match s.saves[i]? with
    | some ⟨payload, beganAt, .called⟩ =>
      let r := s.files.openTruncate (tmpPath path)
      some ({ s with
          files := r.1
          saves := s.saves.set i ⟨payload, beganAt, .writing r.2 0 s.steps⟩ }, [])
    | _ => none
  | .write i n =>
    match s.saves[i]? with
    | some ⟨payload, beganAt, .writing inode written openedAt⟩ =>
      if 0 < n ∧ written + n ≤ payload.length then
        some ({ s with
            files := s.files.writeAt inode written ((payload.drop written).take n)
            saves := s.saves.set i
              ⟨payload, beganAt, .writing inode (written + n) openedAt⟩ }, [])
      else none
    | _ => none
  | .rename i =>
    match s.saves[i]? with
    | some ⟨payload, beganAt, .writing _ written openedAt⟩ =>
      if written = payload.length then
        let saves := s.saves.set i ⟨payload, beganAt, .completed openedAt s.steps⟩
        match s.files.rename (tmpPath path) path with
        | some files => some ({ s with files, saves }, [])
        | none => some ({ s with saves }, [.failedToPersist i])
      else none
    | _ => none
  | .kill => some ({ s with killed := true }, [])

/-- Nothing happens in a process that was killed. -/
def step (s : Persister ν) (a : PersistAction ν) :
    Option (Persister ν × List PersistEvent) :=
  if s.killed then none
  else (s.act stringify encode path a).map fun r => ({ r.1 with steps := s.steps + 1 }, r.2)

/-- The node has started; a process before it may have left other files. -/
def boot (store : CacheStore ν) (files : FileSystem JsString UInt8) : Persister ν where
  store := store
  files := files
  saves := []
  steps := 0
  killed := false

/-- The file is absent, or the whole payload of one of the saves. -/
def Intact (s : Persister ν) : Prop :=
  s.files.read path = none ∨ ∃ x ∈ s.saves, s.files.read path = some x.payload

/-- Every save has run to completion. -/
def Done (s : Persister ν) : Prop := s.killed = false ∧ ∀ x ∈ s.saves, x.completedAt.isSome

/-- The file is the payload of a save that is no older than those completed before it, and that
none began after. -/
def UpToDate (s : Persister ν) : Prop :=
  ∃ x ∈ s.saves, s.files.read path = some x.payload ∧
    (∀ y ∈ s.saves, y.Before x → y.beganAt ≤ x.beganAt) ∧ ∀ y ∈ s.saves, ¬ x.Before y

/-- No save opens the temporary file, or renames it, while another is still writing it. -/
def Undisturbed (s : Persister ν) : PersistAction ν → Prop
  | .openTmp i | .rename i => ∀ x ∈ s.saves.eraseIdx i, x.isWriting = false
  | _ => True

instance (s : Persister ν) : ∀ a, Decidable (Undisturbed s a)
  | .openTmp i | .rename i =>
    inferInstanceAs (Decidable (∀ x ∈ s.saves.eraseIdx i, x.isWriting = false))
  | .op _ _ | .saveSnapshot _ | .write _ _ | .kill => instDecidableTrue

end Persister

end InkCache
