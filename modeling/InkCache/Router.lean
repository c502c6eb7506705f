import InkCache.GatewayRoutes
import InkCache.NodeServer
import InkCache.NodeUrl

/-!
# The router of a node (`src/network/app.ts`)

Express is not part of the repository. Which route a request takes is a parameter here, of which a
few documented facts are used: a path without parameters is matched as it is; `:key` is one segment
that is not empty, and is decoded; what matches no path of `app.ts` is of no route.
-/

namespace InkCache

/-- Express with the routes of `app.ts`. -/
structure Express where
  /-- The route of a method and a path without a query. -/
  route : HttpMethod → JsString → Route
  set : route .post (js "/set") = .set
  invalidate : route .post (js "/invalidate") = .invalidate
  flush : route .post (js "/flush") = .flush
  get : ∀ path key, JsString.routeKey (js "get") path = some key → route .get path = .get key
  delete : ∀ path key,
    JsString.routeKey (js "delete") path = some key → route .delete path = .delete key
  /-- A path that has no segment for the key. -/
  keyless : ∀ method, ∀ path ∈ [js "/get/", js "/delete/", js "/"], route method path = .unknown
  /-- What is open to all is of no route that does anything. -/
  exempt : ∀ method, ∀ path ∈ authExemptPaths,
    route method path = .health ∨ route method path = .unknown

/-- A request without the headers that present a key. -/
def HttpRequest.fetched (router : Express) (method : HttpMethod) (path : JsString)
    (ip : Option JsString) (body : Option RequestBody) : HttpRequest where
  isPreflight := false
  path := path
  route := router.route method path
  ip := ip
  xApiKey := none
  authorization := none
  body := body
  exempt h := router.exempt method path h

end InkCache
