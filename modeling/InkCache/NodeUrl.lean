import InkCache.Uri

/-!
# Urls and the routes they reach

`fetch` parses a url by the rules of the URL standard, as far as `http` and `https` go; which
authorities are well-formed is left open. The path is normalized on the way: a segment that is a dot
or two, or one of their escapes, is taken out of it. A router matches what is left with the segments
of a route and decodes the one that is a parameter.
-/

namespace InkCache

namespace JsString

def asciiLower (u : UInt16) : UInt16 := if 65 ≤ u ∧ u ≤ 90 then u + 32 else u

/-! ## Parsing a url -/

def isSlash (u : UInt16) : Bool := u = 47 || u = 92

/-- A tab or a line feed, which a url is parsed without. -/
def isTabOrNewline (u : UInt16) : Bool := u = 9 || u = 10 || u = 13

/-- A control character or a space, which does not stand around a url. -/
def isControlOrSpace (u : UInt16) : Bool := u ≤ 32

/-- Where a path ends: at the query or at the fragment. -/
def isPathEnd (u : UInt16) : Bool := u = 63 || u = 35

def isSingleDot (segment : JsString) : Bool := segment.map asciiLower ∈ [js ".", js "%2e"]

def isDoubleDot (segment : JsString) : Bool :=
  segment.map asciiLower ∈ [js "..", js ".%2e", js "%2e.", js "%2e%2e"]

/-- The path percent-encode set. -/
def isPathEncoded (c : ℕ) : Bool :=
  c ≤ 0x1F || 0x7E < c || c ∈ [32, 34, 35, 60, 62, 63, 94, 96, 123, 125]

def encodeSegment (segment : JsString) : JsString :=
  (codePoints segment).flatMap fun c =>
    if isPathEncoded c then (utf8Point c).flatMap percentEncode else [c.toUInt16]

/-- What a segment makes of the path; behind the last one there is no slash. -/
def pushSegment (path : List JsString) (segment : JsString) (last : Bool) : List JsString :=
  if isDoubleDot segment then path.dropLast ++ (if last then [[]] else [])
  else if isSingleDot segment then path ++ (if last then [[]] else [])
  else path ++ [segment]

def pushSegments : List JsString → List JsString → List JsString
  | path, [] => path
  | path, [segment] => pushSegment path segment true
  | path, segment :: segments => pushSegments (pushSegment path segment false) segments

/-- `pathname`, from what follows the authority. -/
def pathname (s : JsString) : JsString :=
  let s := s.takeWhile fun u => !isPathEnd u
  let s := if s.head?.any isSlash then s.tail else s
  (pushSegments [] ((s.splitOnP isSlash).map encodeSegment)).flatMap (47 :: ·)

/-- What follows the scheme, for the two schemes that are fetched over the network. -/
def afterScheme (s : JsString) : Option JsString :=
  if (s.take 5).map asciiLower = js "http:" then some (s.drop 5)
  else if (s.take 6).map asciiLower = js "https:" then some (s.drop 6)
  else none

/-- The path that a url is fetched at, if it is one. -/
def fetchPath (isAuthority : JsString → Bool) (url : JsString) : Option JsString :=
  let s := ((url.dropWhile isControlOrSpace).reverse.dropWhile isControlOrSpace).reverse
  match afterScheme (s.filter fun u => !isTabOrNewline u) with
  | none => none
  | some s =>
    let s := s.dropWhile isSlash
    let inAuthority := fun u => !isSlash u && !isPathEnd u
    if isAuthority (s.takeWhile inAuthority) then some (pathname (s.dropWhile inAuthority))
    else none

/-- The url of a server, with nothing behind the authority. -/
def IsOrigin (isAuthority : JsString → Bool) (url : JsString) : Prop :=
  ∃ scheme ∈ [js "http://", js "https://"], ∃ authority, url = scheme ++ authority ∧
    authority ≠ [] ∧ isAuthority authority = true ∧
      ∀ u ∈ authority, isControlOrSpace u = false ∧ isSlash u = false ∧ isPathEnd u = false

/-! ## Matching a route -/

/-- The segments of a path; a slash behind the last one makes no difference. -/
def routeSegments : JsString → List JsString
  | [] => []
  | u :: s =>
    if u = 47 then
      let segments := s.splitOn 47
      if 1 < segments.length ∧ segments.getLast? = some [] then segments.dropLast else segments
    else []

/-- Whether a segment is the one of a route, which is lower-case. -/
def isRoute (name : JsString) (segment : JsString) : Bool := segment.map asciiLower = name

/-- The `:key` of a path that matches `/name/:key`, where it can be decoded. -/
def routeKey (name path : JsString) : Option JsString :=
  match routeSegments path with
  | [segment, key] =>
    if isRoute name segment && key ≠ [] then key.decodeURIComponent else none
  | _ => none

/-- Whether a path matches `/name`. -/
def matchesRoute (name path : JsString) : Bool :=
  match routeSegments path with
  | [segment] => isRoute name segment
  | _ => false

/-- The key that a node reads from the path of `/name/:key` that a key is put into. -/
def keyAtNode (name key : JsString) : Option JsString :=
  key.encodeURIComponent.bind fun encoded =>
    routeKey name (pathname (js "/" ++ name ++ js "/" ++ encoded))

end JsString

/-- A slash is read back from its escape. -/
example : JsString.keyAtNode (js "get") (js "a/b") = some (js "a/b") := by
  decide

end InkCache
