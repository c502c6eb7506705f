import InkCache.RequestBody

/-!
# A replication op on its way (`src/network/replication.ts`)

How a primary encodes an op, what `POST /internal/replicate` makes of the bytes, and what the
primary logs once `fetch` has settled: it rejects where there is no answer, and resolves with any
status.
-/

namespace InkCache

variable {ν : Type}

namespace ReplicationOp

/-- The `op` of an op. -/
def name : ReplicationOp ν → JsString
  | set _ _ _ => js "set"
  | delete _ => js "delete"
  | invalidate _ => js "invalidate"
  | flush => js "flush"

/-- What an op has besides its name; a `ttl` that is `undefined` is left out. -/
def fields : ReplicationOp ν → List (JsString × Json ν)
  | set key value none => [(js "key", .str key), (js "value", .str value)]
  | set key value (some t) => [(js "key", .str key), (js "value", .str value), (js "ttl", .num t)]
  | delete key => [(js "key", .str key)]
  | invalidate pre => [(js "prefix", .str pre)]
  | flush => []

/-- An op as `JSON.stringify` sees it. -/
def toJson (op : ReplicationOp ν) : Json ν := .obj ((js "op", .str op.name) :: op.fields)

def ttl? : ReplicationOp ν → Option ν
  | set _ _ ttl => ttl
  | _ => none

end ReplicationOp

/-- What `forwardToReplicas` logs of a message to `url`: the `catch` sees a rejection only. -/
def replicationWarnings (url : JsString) (op : ReplicationOp ν) :
    Except JsString ℕ → List JsString
  | .ok _ => []
  | .error message =>
    [js "[inkcache] failed to replicate " ++ op.name ++ js " to " ++ url ++ js ": " ++ message]

/-! ## The replica -/

def malformedOp : HttpError := .badRequest (js "malformed replication op")

/-- The `op` of a body that is an object with a string there. -/
def opName (body : Option (Json ν)) : Option JsString := stringField (orEmpty body) (js "op")

/-- The ops that a name stands for, with the fields of the body; an unknown name stands for none.
`none` where a field is not of the type that is declared for it. -/
def readOp (name : JsString) (raw : Json ν) : Option (List (ReplicationOp ν)) :=
  if name = js "set" then
    match stringField raw (js "key"), stringField raw (js "value"),
      rowTtl (readField raw (js "ttl")) with
    | some key, some value, some ttl => some [.set key value ttl]
    | _, _, _ => none
  else if name = js "delete" then (stringField raw (js "key")).map fun key => [.delete key]
  else if name = js "invalidate" then
    (stringField raw (js "prefix")).map fun pre => [.invalidate pre]
  else if name = js "flush" then some [.flush]
  else some []

variable [JsNumber ν]

/-- The body a primary sends for an op. -/
def ReplicationOp.requestBody (T : NumberText ν) (op : ReplicationOp ν) : RequestBody :=
  .ofText (Json.stringify T op.toJson)

/-- `POST /internal/replicate`: the replica as the op leaves it, or the error it answers. `stopped`
is the answer of a middleware before `express.json` that does not let the request pass, and the
result is `.ok none` where a field of the op is not of its declared type. -/
def App.receiveReplicate (T : NumberText ν) (stopped : Option HttpError) (now : ν)
    (body : Option RequestBody) (app : App ν) : Except HttpError (Option (App ν)) :=
  match stopped with
  | some e => .error e
  | none =>
    match expressJson T body with
    | .error e => .error e
    | .ok body =>
      match opName body with
      | none => .error malformedOp
      | some name =>
        .ok ((readOp name (orEmpty body)).map fun ops =>
          ops.foldl (fun app op => app.postReplicate now op) app)

/-- The status of an answer. -/
def statusOf {α : Type} : Except HttpError α → ℕ
  | .ok _ => 200
  | .error e => e.status

/-! ## The size of what is sent -/

/-- The bytes of an op: of its names and marks, and of what is quoted. -/
def ReplicationOp.bytes (T : NumberText ν) : ReplicationOp ν → ℕ
  | .set key value none => 28 + key.quote.byteLength + value.quote.byteLength
  | .set key value (some t) =>
    35 + key.quote.byteLength + value.quote.byteLength + (T.toString t).byteLength
  | .delete key => 22 + key.quote.byteLength
  | .invalidate pre => 29 + pre.quote.byteLength
  | .flush => 14

end InkCache
