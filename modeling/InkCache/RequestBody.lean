import InkCache.JsonText
import InkCache.Persistence

/-!
# Requests from their bytes on (`src/network/app.ts`)

What `express.json` makes of the body of a request, and the error handler behind it. A body is
limited in bytes, not in what they decode to.
-/

namespace InkCache

open Lib

/-- A body as it arrives: how many bytes it has, and the text that they decode to. -/
structure RequestBody where
  size : ℕ
  text : JsString

/-- The body a text is sent as. -/
def RequestBody.ofText (text : JsString) : RequestBody := { size := text.byteLength, text }

/-- An answer that is no success. -/
structure HttpError where
  status : ℕ
  message : JsString
  notOk : status < 200 ∨ 300 ≤ status := by decide

/-- The bytes of `64kb`. -/
def bodyLimit : ℕ := 65536

def tooLarge : HttpError where
  status := 413
  message := js "request body too large (max 64kb)"

def HttpError.badRequest (message : JsString) : HttpError where
  status := 400
  message := message

def malformedBody : HttpError := .badRequest (js "malformed JSON body")

variable {ν : Type} [JsNumber ν]

def HttpError.response (e : HttpError) : AppResponse ν := .error e.status e.message

/-- Whether a text starts like an array or an object, as the strict mode asks. -/
def startsStrictly (text : JsString) : Bool :=
  match (text.dropWhile Json.isBlank).head? with
  | none => false
  | some u => u = 91 || u = 123

/-- `express.json({ limit: "64kb" })`: the body that the routes see, `none` for `undefined`. -/
def expressJson (T : NumberText ν) (body : Option RequestBody) :
    Except HttpError (Option (Json ν)) :=
  match body with
  | none => .ok none
  | some body =>
    if bodyLimit < body.size then .error tooLarge
    else if body.text = [] then .ok (some (.obj []))
    else if startsStrictly body.text then
      match Json.parse T body.text with
      | none => .error malformedBody
      | some j => .ok (some j)
    else .error malformedBody

/-- The requests that write, as they arrive; all may have a body. -/
inductive HttpWrite where
  | set (body : Option RequestBody)
  | delete (key : JsString) (body : Option RequestBody)
  | invalidate (body : Option RequestBody)
  | flush (body : Option RequestBody)

def HttpWrite.body : HttpWrite → Option RequestBody
  | set body | delete _ body | invalidate body | flush body => body

/-- What its route reads of a request. -/
def HttpWrite.request (w : HttpWrite) (body : Option (Json ν)) : WriteRequest ν :=
  match w with
  | set _ => .set body
  | delete key _ => .delete key
  | invalidate _ => .invalidate body
  | flush _ => .flush

namespace App

def receiveWrite (T : NumberText ν) (now : ν) (w : HttpWrite) (app : App ν) :
    App ν × AppResponse ν × List (JsString × ReplicationOp ν) :=
  match expressJson T w.body with
  | .error e => (app, e.response, [])
  | .ok body => app.write now (w.request body)

def receiveRestore (T : NumberText ν) (now : ν) (body : Option RequestBody) (app : App ν) :
    App ν × AppResponse ν :=
  match expressJson T body with
  | .error e => (app, e.response)
  | .ok body => app.postRestore now body

end App

/-! ## A history of accepted sets -/

structure TimedApp (ν : Type) where
  clock : ν
  app : App ν

/-- `POST /set` at a clock reading that is not before the last, and accepted. -/
def setStep (T : NumberText ν) (s : TimedApp ν) (a : ν × Option RequestBody) :
    Option (TimedApp ν × List (AppResponse ν)) :=
  let r := s.app.receiveWrite T a.1 (.set a.2)
  if s.clock ≤ a.1 ∧ r.2.1.isOk then some (⟨a.1, r.1⟩, [r.2.1]) else none

/-- `{ keys }`, as a client posts it that was answered the rows by `GET /snapshot`. -/
def restoreBody (T : NumberText ν) (rows : List (SnapshotRow ν)) : RequestBody :=
  .ofText (Json.stringify T (snapshotJson rows))

/-! ## The size of what is sent -/

def ttlBytes (T : NumberText ν) : Option ν → ℕ
  | none => 4
  | some t => (T.toString t).byteLength

/-- The bytes of a row in the text of a snapshot: of its names and marks, and of what is quoted. -/
def SnapshotRow.bytes (T : NumberText ν) (row : SnapshotRow ν) : ℕ :=
  24 + row.key.quote.byteLength + row.value.quote.byteLength + ttlBytes T row.ttl

/-- The bytes of `{ keys }`, with a comma between any two rows. -/
def snapshotBytes (T : NumberText ν) (rows : List (SnapshotRow ν)) : ℕ :=
  11 + (rows.map fun row => row.bytes T).sum + (rows.length - 1)

end InkCache
