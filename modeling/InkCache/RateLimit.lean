import InkCache.Lib.FixedWindow
import InkCache.Lib.OrderedMap
import InkCache.RequestBody

/-!
# The rate limiter (`src/network/rate-limit.ts`)

`now` is what `Date.now()` answers. A bucket is a window with the number of requests it has counted.
-/

namespace InkCache

open Lib

/-- `DEFAULT_MAX_TRACKED_CLIENTS` -/
def defaultMaxTrackedClients : ℕ := 10000

structure RateLimitOptions where
  limit : ℕ
  windowMs : ℚ
  maxTrackedClients : ℕ := defaultMaxTrackedClients

/-- `EXEMPT_PATHS` -/
def exemptPaths : List JsString := [js "/health"]

/-- What the middleware reads of a request, and the clock at it. -/
structure LimitedRequest where
  path : JsString
  ip : Option JsString
  now : ℚ

/-- The key of the buckets. -/
def LimitedRequest.client (req : LimitedRequest) : JsString := req.ip.getD (js "unknown")

def rateLimitExceeded : HttpError where
  status := 429
  message := js "rate limit exceeded"

inductive RateLimitOutcome where
  | next
  | reject (retryAfter : ℤ) (error : HttpError)

/-- The `Retry-After` header. -/
def RateLimitOutcome.retryAfter : RateLimitOutcome → Option ℤ
  | .next => none
  | .reject retryAfter _ => some retryAfter

def RateLimitOutcome.admitted (outcome : RateLimitOutcome) : Bool := outcome.retryAfter.isNone

abbrev Buckets := OrderedMap JsString (Window ℚ)

namespace RateLimitOptions

variable (o : RateLimitOptions)

/-- The bucket of a client, a fresh one if it has none or its window has ended. -/
def bucketOf (key : JsString) (now : ℚ) (buckets : Buckets) : Buckets × Window ℚ :=
  let fresh : Window ℚ := { count := 0, resetAt := now + o.windowMs }
  match buckets.get? key with
  | none => (buckets.insertBounded o.maxTrackedClients key fresh, fresh)
  | some bucket =>
    if bucket.resetAt ≤ now then (buckets.set key fresh, fresh) else (buckets, bucket)

/-- The middleware that `createRateLimiter` returns. -/
def rateLimiter (req : LimitedRequest) (buckets : Buckets) : Buckets × RateLimitOutcome :=
  if req.path ∈ exemptPaths then (buckets, .next)
  else
    let (buckets, bucket) := o.bucketOf req.client req.now buckets
    let bucket := { bucket with count := bucket.count + 1 }
    (buckets.set req.client bucket,
      if o.limit < bucket.count then
        .reject ⌈(bucket.resetAt - req.now) / 1000⌉ rateLimitExceeded
      else .next)

end RateLimitOptions

/-! ## Streams of requests -/

/-- What came of a request; `resetAt` is the end of the window that its client is left with. -/
structure RateLimitEvent where
  client : JsString
  now : ℚ
  resetAt : Option ℚ
  outcome : RateLimitOutcome

def RateLimitEvent.admitted (e : RateLimitEvent) : Bool := e.outcome.admitted

/-- The buckets after a stream of requests, and what came of each of them. -/
def RateLimitOptions.serve (o : RateLimitOptions) :
    Buckets → List LimitedRequest → Buckets × List RateLimitEvent
  | buckets, [] => (buckets, [])
  | buckets, req :: reqs =>
    let (buckets, outcome) := o.rateLimiter req buckets
    let event : RateLimitEvent :=
      { client := req.client
        now := req.now
        resetAt := (buckets.get? req.client).map Window.resetAt
        outcome }
    let (buckets, events) := o.serve buckets reqs
    (buckets, event :: events)

end InkCache
