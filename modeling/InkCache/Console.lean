import InkCache.KVConsole
import InkCache.Router

/-!
# From a typed line to a request and back to a printed line

The dashboard's console (`KVConsole.tsx`) reads a line, calls the client of the REST API (`api.ts`),
and prints what came of the call; the client stringifies and encodes what it is called with, and
makes of an answer a result or an error. `toFixed` is `x.toFixed(1)`. `api.ts` sends no key.
-/

namespace InkCache

variable {ν : Type} [JsNumber ν]

/-! ## The client -/

/-- The calls of the client that the console makes. -/
inductive ApiCall (ν : Type) where
  | setKey (key value : JsString) (ttl : Option ν)
  | getKey (key : JsString)
  | deleteKey (key : JsString)
  | flush
  | invalidatePrefix (pre : JsString)
  deriving DecidableEq

/-- What a call answers; a field that is not in the answer is `none`. -/
inductive ApiResult (ν : Type) where
  | stored
  | hit (value : Option JsString) (ttl : Option ν)
  | miss
  | deleted (deleted : Bool)
  | dropped (dropped : Option ℕ)

/-- `VITE_API_BASE` without a slash at its end. -/
def apiBase (env : JsString) : JsString := if env.getLast? = some 47 then env.dropLast else env

namespace NodeResponse

/-- `res.ok` -/
def isOk (r : NodeResponse ν) : Bool := decide (200 ≤ r.status ∧ r.status < 300)

/-- The `error` of the body. -/
def error? : NodeResponse ν → Option JsString
  | throttled _ e | failed e => some e.message
  | write (.error _ message) => some message
  | vote (.badRequest message) | leader (.badRequest message) => some message
  | _ => none

def deleted? : NodeResponse ν → Bool
  | write (.deleted _ deleted) => deleted
  | _ => false

def dropped? : NodeResponse ν → Option ℕ
  | write (.invalidated _ dropped) | write (.flushed dropped) => some dropped
  | _ => none

end NodeResponse

namespace ApiCall

def method : ApiCall ν → HttpMethod
  | setKey _ _ _ | flush | invalidatePrefix _ => .post
  | getKey _ => .get
  | deleteKey _ => .delete

/-- `none` where `encodeURIComponent` throws. -/
def path : ApiCall ν → Option JsString
  | setKey _ _ _ => some (js "/set")
  | getKey key => key.encodeURIComponent.map (js "/get/" ++ ·)
  | deleteKey key => key.encodeURIComponent.map (js "/delete/" ++ ·)
  | flush => some (js "/flush")
  | invalidatePrefix _ => some (js "/invalidate")

/-- What is stringified. -/
def json : ApiCall ν → Option (Json ν)
  | setKey key value none => some (.obj [(js "key", .str key), (js "value", .str value)])
  | setKey key value (some ttl) =>
    some (.obj [(js "key", .str key), (js "value", .str value), (js "ttl", .num ttl)])
  | invalidatePrefix pre => some (.obj [(js "prefix", .str pre)])
  | getKey _ | deleteKey _ | flush => none

def ttl? : ApiCall ν → Option ν
  | setKey _ _ ttl => ttl
  | _ => none

def isWrite : ApiCall ν → Bool
  | getKey _ => false
  | _ => true

/-- The request of a call, if it gets that far. -/
def request (T : NumberText ν) (router : Express) (isAuthority : JsString → Bool)
    (base : JsString) (ip : Option JsString) (c : ApiCall ν) : Option HttpRequest :=
  c.path.bind fun path =>
    (JsString.fetchPath isAuthority (base ++ path)).map fun path =>
      .fetched router c.method path ip (c.json.map fun j => .ofText (j.stringify T))

/-- The message of a request that failed. -/
def failure (what : JsString) (r : NodeResponse ν) : JsString :=
  what ++ js " failed (" ++ JsString.ofNat r.status ++ js ")"

/-- What the client makes of the answer, or the message of the error that it throws. -/
def result (r : NodeResponse ν) : ApiCall ν → Except JsString (ApiResult ν)
  | setKey _ _ _ =>
    if r.isOk then .ok .stored else .error (r.error?.getD (failure (js "set") r))
  | getKey _ =>
    if r.status = 404 then .ok .miss
    else if r.isOk then
      match r with
      | .hit _ value ttl => .ok (.hit (some value) ttl)
      | _ => .ok (.hit none none)
    else .error (failure (js "get") r)
  | deleteKey _ =>
    if r.isOk then .ok (.deleted r.deleted?) else .error (failure (js "delete") r)
  | flush => if r.isOk then .ok (.dropped r.dropped?) else .error (failure (js "flush") r)
  | invalidatePrefix _ =>
    if r.isOk then .ok (.dropped r.dropped?)
    else .error (r.error?.getD (failure (js "invalidate") r))

end ApiCall

/-! ## The console -/

inductive Tone where
  | plain
  | ok
  | hit
  | miss
  | err
  deriving DecidableEq

/-- A line of the console's output. -/
structure ConsoleLine where
  text : JsString
  tone : Tone
  deriving DecidableEq

/-- What a typed line comes to: nothing, lines to print, an empty console or a call. -/
inductive Typed (ν : Type) where
  | nothing
  | print (lines : List ConsoleLine)
  | clear
  | call (c : ApiCall ν)
  deriving DecidableEq

namespace KVConsole

/-- `HELP` -/
def help : List JsString :=
  [js "set <key> <value> [ttlSec]   store a value (quote values with spaces)",
    js "get <key>                    read a value",
    js "del <key>                    remove a key (alias: delete)",
    js "invalidate <prefix>          remove every key starting with prefix",
    js "flush                        clear every key in the store",
    js "clear                        clear this console"]

def usage (text : JsString) : Typed ν := .print [⟨text, .err⟩]

/-- `set`: the time to live is a number above zero, if there is one. -/
def readSet (T : NumberText ν) : List JsString → Typed ν
  | [] | [_] => usage (js "usage: set <key> <value> [ttlSec]")
  | key :: value :: rest =>
    if key = [] then usage (js "usage: set <key> <value> [ttlSec]")
    else
      match rest.head? with
      | none => .call (.setKey key value none)
      | some ttl =>
        match T.ofString ttl with
        | none => usage (js "ttl must be a positive number of seconds")
        | some ttl =>
          if JsNumber.isFinite ttl = false ∨ ttl ≤ 0 then
            usage (js "ttl must be a positive number of seconds")
          else .call (.setKey key value (some ttl))

/-- A command with one argument that is not empty. -/
def readKey (text : JsString) (call : JsString → ApiCall ν) : List JsString → Typed ν
  | [] | [] :: _ => usage text
  | key :: _ => .call (call key)

/-- Of a typed line, up to the call; no other letter than an ASCII one is lowered to a letter of a
command. -/
def read (T : NumberText ν) (raw : JsString) : Typed ν :=
  match tokenize raw with
  | [] | [] :: _ => .nothing
  | cmd :: args =>
    let cmd' := cmd.map JsString.asciiLower
    if cmd' = js "help" then .print (help.map fun text => ⟨text, .plain⟩)
    else if cmd' = js "clear" then .clear
    else if cmd' = js "set" then readSet T args
    else if cmd' = js "get" then readKey (js "usage: get <key>") .getKey args
    else if cmd' = js "flush" then .call .flush
    else if cmd' = js "invalidate" then
      match args with
      | [] => usage (js "usage: invalidate <prefix>")
      | pre :: _ => .call (.invalidatePrefix pre)
    else if cmd' = js "del" ∨ cmd' = js "delete" then
      readKey (js "usage: del <key>") .deleteKey args
    else usage (js "unknown command: " ++ cmd ++ js " — try `help`")

/-- `"key"`, with no escapes. -/
def inQuotes (key : JsString) : JsString := js "\"" ++ key ++ js "\""

def droppedText (dropped : Option ℕ) : JsString :=
  js " — dropped " ++ (dropped.map JsString.ofNat).getD (js "undefined") ++
    (if dropped = some 1 then js " key" else js " keys")

/-- The line that is printed for a call. -/
def line (T : NumberText ν) (toFixed : ν → JsString) (c : ApiCall ν) :
    Except JsString (ApiResult ν) → ConsoleLine
  | .error message => ⟨js "ERR  " ++ message, .err⟩
  | .ok r =>
    match c, r with
    | .setKey key _ none, _ => ⟨js "OK  stored " ++ inQuotes key, .ok⟩
    | .setKey key _ (some ttl), _ =>
      ⟨js "OK  stored " ++ inQuotes key ++ js " (ttl " ++ T.toString ttl ++ js "s)", .ok⟩
    | .getKey key, .hit value ttl =>
      ⟨js "HIT  " ++ inQuotes key ++ js " = " ++
        (value.map JsString.quote).getD (js "undefined") ++
        (ttl.map fun ttl => js "  (ttl " ++ toFixed ttl ++ js "s)").getD [], .hit⟩
    | .getKey key, _ => ⟨js "MISS " ++ inQuotes key, .miss⟩
    | .deleteKey key, .deleted true => ⟨js "OK  deleted " ++ inQuotes key, .ok⟩
    | .deleteKey key, _ => ⟨js "NOOP " ++ inQuotes key ++ js " not present", .plain⟩
    | .flush, .dropped dropped => ⟨js "OK  flushed store" ++ droppedText dropped, .ok⟩
    | .flush, _ => ⟨js "OK  flushed store" ++ droppedText none, .ok⟩
    | .invalidatePrefix pre, .dropped dropped =>
      ⟨js "OK  invalidated " ++ inQuotes pre ++ droppedText dropped, .ok⟩
    | .invalidatePrefix pre, _ =>
      ⟨js "OK  invalidated " ++ inQuotes pre ++ droppedText none, .ok⟩

end KVConsole

/-- What a call asks of the store, as read off what was typed. -/
def ApiCall.asks : ApiCall ν → List (StoreOp ν)
  | setKey key value ttl => [.set key value ttl]
  | getKey key => [.getWithTtl key]
  | deleteKey key => [.delete key]
  | flush => [.clear]
  | invalidatePrefix pre => [.deleteByPrefix pre]

/-- What the console makes sure of before it calls. -/
def ApiCall.Typable : ApiCall ν → Prop
  | setKey key _ ttl => key ≠ [] ∧ ∀ t ∈ ttl, JsNumber.isFinite t = true ∧ 0 < t
  | getKey key | deleteKey key => key ≠ []
  | flush | invalidatePrefix _ => True

end InkCache
