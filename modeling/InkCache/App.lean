import InkCache.Election
import InkCache.Replication

/-!
# The routes that change the store (`src/network/app.ts`)

A request is answered in one piece. A body is what `express.json` makes of the request, or `none`
if there was none. What a route forwards it forwards to `REPLICA_URLS`.
-/

namespace InkCache

variable {ν : Type} [JsNumber ν]

structure App (ν : Type) where
  store : CacheStore ν
  leadership : Leadership
  maxKeyLength : ℕ := 256

structure ValidatedEntry (ν : Type) where
  key : JsString
  value : JsString
  ttl : Option ν
  deriving DecidableEq

inductive AppResponse (ν : Type) where
  | error (status : ℕ) (message : JsString)
  | set (key : JsString) (ttl : Option ν)
  | deleted (key : JsString) (deleted : Bool)
  | invalidated (pre : JsString) (dropped : ℕ)
  | flushed (dropped : ℕ)
  | restored (loaded : ℕ)
  deriving DecidableEq

/-- Whether the request was acknowledged. -/
def AppResponse.isOk : AppResponse ν → Bool
  | error _ _ => false
  | _ => true

/-- `input ?? {}` -/
def orEmpty : Option (Json ν) → Json ν
  | none | some .null => .obj []
  | some j => j

/-- Whether the `ttl` of an entry is absent, `null`, or a number that gives a finite deadline. -/
def validateTtl (now : ν) : PropertyValue ν → Except JsString (Option ν)
  | .undefined | .value .null => .ok none
  | .value (.num ttl) =>
    if JsNumber.isFinite ttl = true ∧ 0 < ttl ∧ JsNumber.isFinite (now + ttl * msPerSecond) = true
    then .ok (some ttl)
    else .error (js "ttl must be a positive number of seconds")
  | _ => .error (js "ttl must be a positive number of seconds")

def validateEntry (maxKeyLength : ℕ) (now : ν) (input : Option (Json ν)) :
    Except JsString (ValidatedEntry ν) :=
  let raw := orEmpty input
  match readField raw (js "key") with
  | .value (.str key) =>
    if key.trim.length = 0 then .error (js "key must be a non-empty string")
    else if maxKeyLength < key.length then
      .error (js "key must be at most " ++ JsString.ofNat maxKeyLength ++ js " characters")
    else
      match readField raw (js "value") with
      | .value (.str value) =>
        match validateTtl now (readField raw (js "ttl")) with
        | .ok ttl => .ok { key, value, ttl }
        | .error message => .error message
      | _ => .error (js "value must be a string")
  | _ => .error (js "key must be a non-empty string")

/-- The requests that write, with what each route reads of them. -/
inductive WriteRequest (ν : Type) where
  | set (body : Option (Json ν))
  | delete (key : JsString)
  | invalidate (body : Option (Json ν))
  | flush

namespace App

def rejected : AppResponse ν :=
  .error 409 (js "this node is a read-only replica -- write to the primary")

def postSet (now : ν) (body : Option (Json ν)) (app : App ν) :
    App ν × AppResponse ν × List (JsString × ReplicationOp ν) :=
  if app.leadership.role = .replica then (app, rejected, [])
  else
    match validateEntry app.maxKeyLength now (some (orEmpty body)) with
    | .error message => (app, .error 400 message, [])
    | .ok { key, value, ttl } =>
      ({ app with store := app.store.set now key value ttl }, .set key ttl,
        forwardToReplicas app.leadership.replicaUrls (.set key value ttl))

def deleteKey (key : JsString) (app : App ν) :
    App ν × AppResponse ν × List (JsString × ReplicationOp ν) :=
  if app.leadership.role = .replica then (app, rejected, [])
  else
    let r := app.store.delete key
    ({ app with store := r.1 }, .deleted key r.2,
      forwardToReplicas app.leadership.replicaUrls (.delete key))

def postInvalidate (body : Option (Json ν)) (app : App ν) :
    App ν × AppResponse ν × List (JsString × ReplicationOp ν) :=
  if app.leadership.role = .replica then (app, rejected, [])
  else
    match readField (orEmpty body) (js "prefix") with
    | .value (.str pre) =>
      if app.maxKeyLength < pre.length then
        (app, .error 400 (js "prefix must be at most " ++ JsString.ofNat app.maxKeyLength ++
          js " characters"), [])
      else
        let r := app.store.deleteByPrefix pre
        ({ app with store := r.1 }, .invalidated pre r.2,
          forwardToReplicas app.leadership.replicaUrls (.invalidate pre))
    | _ => (app, .error 400 (js "prefix must be a string"), [])

def postFlush (app : App ν) : App ν × AppResponse ν × List (JsString × ReplicationOp ν) :=
  if app.leadership.role = .replica then (app, rejected, [])
  else
    ({ app with store := app.store.clear }, .flushed app.store.size,
      forwardToReplicas app.leadership.replicaUrls .flush)

def write (now : ν) (app : App ν) :
    WriteRequest ν → App ν × AppResponse ν × List (JsString × ReplicationOp ν)
  | .set body => app.postSet now body
  | .delete key => app.deleteKey key
  | .invalidate body => app.postInvalidate body
  | .flush => app.postFlush

/-- The first loop of `POST /restore`: every entry is validated before any is loaded. -/
def validateAll (maxKeyLength : ℕ) (now : ν) (i : ℕ) :
    List (Json ν) → Except JsString (List (ValidatedEntry ν))
  | [] => .ok []
  | j :: js' =>
    match validateEntry maxKeyLength now (some j) with
    | .error message => .error (js "keys[" ++ JsString.ofNat i ++ js "]: " ++ message)
    | .ok e =>
      match validateAll maxKeyLength now (i + 1) js' with
      | .error message => .error message
      | .ok es => .ok (e :: es)

def postRestore (now : ν) (body : Option (Json ν)) (app : App ν) : App ν × AppResponse ν :=
  if app.leadership.role = .replica then (app, rejected)
  else
    match readField (orEmpty body) (js "keys") with
    | .value (.arr keys) =>
      match validateAll app.maxKeyLength now 0 keys with
      | .error message => (app, .error 400 message)
      | .ok validated =>
        ({ app with
            store := validated.foldl (fun s e => s.set now e.key e.value e.ttl) app.store },
          .restored validated.length)
    | _ => (app, .error 400 (js "keys must be an array"))

/-- `GET /snapshot`; the `count` of the answer is the length of the rows. -/
def getSnapshot (now : ν) (app : App ν) : App ν × List (SnapshotRow ν) :=
  let r := app.store.exportEntries now
  ({ app with store := r.1 }, r.2)

/-- `POST /internal/replicate` with a well-formed op. -/
def postReplicate (now : ν) (op : ReplicationOp ν) (app : App ν) : App ν :=
  { app with store := applyReplicationOp now app.store op }

end App

end InkCache
