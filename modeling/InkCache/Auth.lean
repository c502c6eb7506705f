import InkCache.RequestBody

/-!
# Shared-secret authentication (`src/network/auth.ts`)

A configured key is a string of its own; what a request presents is read from its headers.
-/

namespace InkCache

/-- The value of a header as it is received: one unit for each byte. -/
structure HeaderValue where
  units : JsString
  isByte : ∀ u ∈ units, u < 0x100

/-- What the middleware reads of a request. -/
structure AuthRequest where
  path : JsString
  xApiKey : Option HeaderValue
  authorization : Option HeaderValue

/-- `EXEMPT_PATHS` -/
def authExemptPaths : List JsString := [js "/health"]

/-- `timingSafeEqual` throws on bytes of different lengths, which are told apart before. -/
def safeEqual (a b : JsString) : Bool :=
  let bufA := a.utf8
  let bufB := b.utf8
  if bufA.length ≠ bufB.length then false else bufA = bufB

/-- What is between the first two spaces, behind `Bearer`. -/
def bearerToken (auth : JsString) : Option JsString :=
  match auth.splitOn 32 with
  | scheme :: token :: _ => if scheme = js "Bearer" ∧ token ≠ [] then some token else none
  | _ => none

namespace AuthRequest

/-- The `X-API-Key` header, which is empty where there is none. -/
def apiKeyHeader (req : AuthRequest) : JsString := (req.xApiKey.map HeaderValue.units).getD []

def authorizationHeader (req : AuthRequest) : JsString :=
  (req.authorization.map HeaderValue.units).getD []

/-- An empty header is passed over, as one that is not there. -/
def presentedKey (req : AuthRequest) : Option JsString :=
  if req.apiKeyHeader ≠ [] then some req.apiKeyHeader
  else if req.authorizationHeader = [] then none
  else bearerToken req.authorizationHeader

end AuthRequest

def unauthorized : HttpError where
  status := 401
  message := js "missing or invalid API key"

inductive AuthOutcome where
  | next
  | reject (error : HttpError)

/-- The middleware that `createAuthMiddleware` returns; an empty key is no key. -/
def authMiddleware (apiKey : Option JsString) (req : AuthRequest) : AuthOutcome :=
  match apiKey with
  | none | some [] => .next
  | some apiKey =>
    if req.path ∈ authExemptPaths then .next
    else
      match req.presentedKey with
      | none | some [] => .reject unauthorized
      | some presented => if safeEqual presented apiKey then .next else .reject unauthorized

/-! ## What a request should have to pass -/

namespace AuthRequest

/-- `Authorization: Bearer <key>` -/
def bearer (key : JsString) : JsString := js "Bearer " ++ key

/-- One of the two headers is the one that the key is presented in. -/
def HoldsKey (key : JsString) (req : AuthRequest) : Prop :=
  req.apiKeyHeader = key ∨ req.authorizationHeader = bearer key

/-- The header that is read is the right one, and is read to its end: beside another `X-API-Key`,
and where the key has a space in it, the right `Authorization` is not there; and else the key is not
followed by a space in it. -/
def ReadInFull (key : JsString) (req : AuthRequest) : Prop :=
  if req.apiKeyHeader ≠ [] then
    req.apiKeyHeader = key ∨ req.authorizationHeader ≠ bearer key
  else if 32 ∈ key then req.authorizationHeader ≠ bearer key
  else ∀ rest, req.authorizationHeader ≠ bearer key ++ 32 :: rest

end AuthRequest

end InkCache
