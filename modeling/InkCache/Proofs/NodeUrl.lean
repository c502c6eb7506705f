import InkCache.Proofs.GatewayRoutes
import InkCache.Proofs.Uri
import InkCache.ShardedStore

/-!
# The key that is addressed at a node

A key is put into a path as units that mean nothing in a url (`PathUnit`), so the path is parsed
into the segments it is made of, and the key is read back from the last. What a key is encoded as is
a dot segment only where the key is one (`isSingleDot_encoded`, `isDoubleDot_encoded`): there the
path collapses, and reaches no route of a key.
-/

namespace InkCache

namespace JsString

variable {u : UInt16} {s name key encoded : JsString}

/-! ## The units of an encoded key -/

/-- A unit that an encoded text is made of. -/
def PathUnit (u : UInt16) : Prop := u = 37 ∨ isUnreserved u.toNat = true

instance : DecidablePred PathUnit := fun u =>
  inferInstanceAs (Decidable (u = 37 ∨ isUnreserved u.toNat = true))

theorem PathUnit.lt (h : PathUnit u) : u.toNat < 0x80 := by
  rcases h with rfl | h
  · decide
  · exact (isUnreserved_lt h).1

/-- None of the units that mean something to the parser of a url. -/
theorem PathUnit.plain (h : PathUnit u) : isControlOrSpace u = false ∧
    isTabOrNewline u = false ∧ isSlash u = false ∧ isPathEnd u = false ∧
      isPathEncoded u.toNat = false := by
  have hall : ∀ n < 0x80, PathUnit (UInt16.ofNat n) → isControlOrSpace (UInt16.ofNat n) = false ∧
      isTabOrNewline (UInt16.ofNat n) = false ∧ isSlash (UInt16.ofNat n) = false ∧
      isPathEnd (UInt16.ofNat n) = false ∧ isPathEncoded n = false := by
    decide
  have hu := hall u.toNat h.lt
  rw [UInt16.ofNat_toNat] at hu
  exact hu h

theorem pathUnit_hexDigit : ∀ n < 16, PathUnit (hexDigit n) := by
  decide

theorem pathUnit_escaped {c : ℕ} (hc : c ≤ 0x10FFFF) : ∀ u ∈ escaped c, PathUnit u := by
  unfold escaped
  intro u hu
  split_ifs at hu with h
  · have hlt := (isUnreserved_lt h).1
    rw [List.mem_singleton] at hu
    have hnat : u.toNat = c := by
      rw [hu, Nat.toUInt16_eq, UInt16.toNat_ofNat']
      omega
    exact .inr (hnat ▸ h)
  · obtain ⟨b, hb, hu⟩ := List.mem_flatMap.1 hu
    have hlt := utf8Point_lt hc b hb
    simp only [percentEncode, List.mem_cons, List.not_mem_nil, or_false] at hu
    rcases hu with rfl | rfl | rfl
    · exact .inl rfl
    · exact pathUnit_hexDigit (b / 16) (by omega)
    · exact pathUnit_hexDigit (b % 16) (by omega)

theorem pathUnit_encoded (hk : key.WellFormed) (he : key.encodeURIComponent = some encoded) :
    ∀ u ∈ encoded, PathUnit u := by
  rw [encodeURIComponent_eq hk, Option.some.injEq] at he
  subst he
  intro u hu
  obtain ⟨c, hc, hu⟩ := List.mem_flatMap.1 hu
  exact pathUnit_escaped (codePoints_le c hc) u hu

theorem decode_encoded (hk : key.WellFormed) (he : key.encodeURIComponent = some encoded) :
    encoded.decodeURIComponent = some key := by
  have h := decodeURIComponent_encodeURIComponent hk
  rwa [he, Option.bind_some] at h

theorem encodeSegment_eq (h : ∀ u ∈ s, PathUnit u) : encodeSegment s = s := by
  have hpoints : codePoints s = s.map UInt16.toNat :=
    codePoints_of_lt fun u hu => UInt16.lt_iff_toNat_lt.2 ((h u hu).lt.trans (by decide))
  rw [encodeSegment, hpoints, List.flatMap_map]
  calc s.flatMap _ = s.flatMap fun u => [u] := by
        refine List.flatMap_congr fun u hu => ?_
        rw [(h u hu).plain.2.2.2.2, if_neg Bool.false_ne_true, Nat.toUInt16_eq, UInt16.ofNat_toNat]
    _ = s := List.flatMap_singleton' s

/-! ## Dots -/

theorem asciiLower_eq_iff {v : UInt16} (hv : v < 97) (hv' : v < 65 ∨ 90 < v) :
    asciiLower u = v ↔ u = v := by
  simp only [UInt16.lt_iff_toNat_lt, UInt16.reduceToNat] at hv hv'
  unfold asciiLower
  split_ifs with hu
  · simp only [UInt16.le_iff_toNat_le, UInt16.reduceToNat] at hu
    simp only [← UInt16.toNat_inj, UInt16.toNat_add, UInt16.reduceToNat]
    omega
  · rfl

theorem asciiLower_eq_e : asciiLower u = 101 ↔ u = 101 ∨ u = 69 := by
  unfold asciiLower
  split_ifs with hu
  · simp only [UInt16.le_iff_toNat_le, UInt16.reduceToNat] at hu
    simp only [← UInt16.toNat_inj, UInt16.toNat_add, UInt16.reduceToNat]
    omega
  · have hne : u ≠ 69 := by
      rintro rfl
      exact hu (by decide)
    simp [hne]

theorem asciiLower_dot : asciiLower u = 46 ↔ u = 46 :=
  asciiLower_eq_iff (by decide) (by decide)

theorem asciiLower_percent : asciiLower u = 37 ↔ u = 37 :=
  asciiLower_eq_iff (by decide) (by decide)

theorem asciiLower_two : asciiLower u = 50 ↔ u = 50 :=
  asciiLower_eq_iff (by decide) (by decide)

theorem decode_singleDot (h : isSingleDot s = true) : s.decodeURIComponent = some (js ".") := by
  simp [isSingleDot, js, codeUnits, List.map_eq_cons_iff, asciiLower_dot, asciiLower_percent,
    asciiLower_two, asciiLower_eq_e] at h
  rcases h with rfl | ⟨a, rfl, rfl | rfl⟩ <;> decide

theorem decode_doubleDot (h : isDoubleDot s = true) : s.decodeURIComponent = some (js "..") := by
  simp [isDoubleDot, js, codeUnits, List.map_eq_cons_iff, asciiLower_dot, asciiLower_percent,
    asciiLower_two, asciiLower_eq_e] at h
  rcases h with rfl | ⟨a, rfl, rfl | rfl⟩ | ⟨a, rfl, rfl | rfl⟩ |
    ⟨a, b, rfl, rfl | rfl, rfl | rfl⟩ <;> decide

theorem isSingleDot_encoded (hk : key.WellFormed) (he : key.encodeURIComponent = some encoded) :
    isSingleDot encoded = true ↔ key = js "." := by
  constructor
  · intro h
    have hdec := decode_encoded hk he
    rw [decode_singleDot h] at hdec
    exact (Option.some.inj hdec).symm
  · rintro rfl
    have hdot : (js ".").encodeURIComponent = some (js ".") := by decide
    rw [hdot, Option.some.injEq] at he
    subst he
    decide

theorem isDoubleDot_encoded (hk : key.WellFormed) (he : key.encodeURIComponent = some encoded) :
    isDoubleDot encoded = true ↔ key = js ".." := by
  constructor
  · intro h
    have hdec := decode_encoded hk he
    rw [decode_doubleDot h] at hdec
    exact (Option.some.inj hdec).symm
  · rintro rfl
    have hdots : (js "..").encodeURIComponent = some (js "..") := by decide
    rw [hdots, Option.some.injEq] at he
    subst he
    decide

/-! ## The path of a key -/

/-- The lower-case segment of a route. -/
structure RouteName (name : JsString) : Prop where
  unit : ∀ u ∈ name, PathUnit u
  lower : isRoute name name = true
  notDot : isSingleDot name = false
  notDots : isDoubleDot name = false

theorem routeName_get : RouteName (js "get") where
  unit := by simp [js, codeUnits, PathUnit, isUnreserved]
  lower := rfl
  notDot := rfl
  notDots := rfl

theorem routeName_delete : RouteName (js "delete") where
  unit := by simp [js, codeUnits, PathUnit, isUnreserved]
  lower := rfl
  notDot := rfl
  notDots := rfl

theorem not_mem_slash (h : ∀ u ∈ s, PathUnit u) : 47 ∉ s := by
  intro hs
  have := (h 47 hs).plain.2.2.1
  cases this

/-- The second segment is put behind the first. -/
theorem pathname_two (hname : RouteName name) (hs : ∀ u ∈ s, PathUnit u) :
    pathname (47 :: (name ++ 47 :: s)) = (pushSegment [name] s true).flatMap (47 :: ·) := by
  have hend : ∀ u ∈ 47 :: (name ++ 47 :: s), (!isPathEnd u) = true := by
    intro u hu
    simp only [List.mem_cons, List.mem_append] at hu
    rcases hu with rfl | hu | rfl | hu
    · rfl
    · rw [(hname.unit u hu).plain.2.2.2.1, Bool.not_false]
    · rfl
    · rw [(hs u hu).plain.2.2.2.1, Bool.not_false]
  have hslash : (47 :: (name ++ 47 :: s)).head?.any isSlash = true := rfl
  have hpieces : (name ++ 47 :: s).splitOnP isSlash = [name, s] := by
    rw [List.splitOnP_append_cons_of_forall_mem (fun u hu => (hname.unit u hu).plain.2.2.1) 47 rfl,
      List.splitOnP_eq_singleton fun u hu => (hs u hu).plain.2.2.1]
  have hpush : pushSegment [] name false = [name] := by
    rw [pushSegment, hname.notDots, hname.notDot]
    rfl
  rw [pathname, List.takeWhile_eq_self_iff.2 hend, if_pos hslash, List.tail_cons, hpieces,
    List.map_cons, List.map_singleton, encodeSegment_eq hname.unit, encodeSegment_eq hs]
  simp only [pushSegments, hpush]

/-- A route of two segments reads the second one, if there is something in it. -/
theorem routeKey_two (hname : RouteName name) (hs : ∀ u ∈ s, PathUnit u) :
    routeKey name (47 :: (name ++ 47 :: s)) = if s = [] then none else s.decodeURIComponent := by
  have hpieces : (name ++ 47 :: s).splitOn 47 = [name, s] := by
    rw [List.splitOn_append_cons_self_of_not_mem (not_mem_slash hname.unit),
      List.splitOn_eq_singleton (not_mem_slash hs)]
  rw [routeKey, routeSegments, if_pos rfl, hpieces]
  rcases s with _ | ⟨u, s⟩
  · rfl
  · simp [hname.lower]

theorem routeKey_root (name : JsString) : routeKey name [47] = none := rfl

theorem keyAtNode_eq (hname : RouteName name) (hne : key ≠ []) (hk : key.WellFormed) :
    keyAtNode name key = if key = js "." ∨ key = js ".." then none else some key := by
  obtain ⟨encoded, he⟩ : ∃ encoded, key.encodeURIComponent = some encoded :=
    ⟨_, encodeURIComponent_eq hk⟩
  have hunit := pathUnit_encoded hk he
  have hdec := decode_encoded hk he
  have hpath : js "/" ++ name ++ js "/" ++ encoded = 47 :: (name ++ 47 :: encoded) := by
    rw [List.append_assoc, List.append_assoc]
    rfl
  rw [keyAtNode, he, Option.bind_some, hpath, pathname_two hname hunit, pushSegment]
  by_cases hdots : isDoubleDot encoded = true
  · have hkey : key = js "." ∨ key = js ".." := .inr ((isDoubleDot_encoded hk he).1 hdots)
    rw [if_pos hdots, if_pos hkey]
    exact routeKey_root name
  rw [if_neg hdots]
  by_cases hdot : isSingleDot encoded = true
  · have hkey : key = js "." ∨ key = js ".." := .inl ((isSingleDot_encoded hk he).1 hdot)
    have hempty := routeKey_two hname (s := []) (by simp)
    rw [if_pos rfl] at hempty
    rw [if_pos hdot, if_pos hkey]
    simpa using hempty
  · have hkey : ¬(key = js "." ∨ key = js "..") := by
      rw [← isSingleDot_encoded hk he, ← isDoubleDot_encoded hk he]
      exact not_or.2 ⟨hdot, hdots⟩
    have hencoded : encoded ≠ [] := by
      rintro rfl
      exact hne (Option.some.inj hdec).symm
    have hkeyed := routeKey_two hname hunit
    rw [if_neg hencoded, hdec] at hkeyed
    rw [if_neg hdot, if_neg hkey]
    simpa using hkeyed

/-! ## The url of a key -/

variable {isAuthority : JsString → Bool} {url : JsString}

theorem dropWhile_eq_self {p : UInt16 → Bool} (h : ∀ u ∈ s, p u = false) : s.dropWhile p = s := by
  rw [List.dropWhile_eq_self_iff]
  intro hl
  rw [h _ (List.getElem_mem hl)]
  exact Bool.false_ne_true

theorem isTabOrNewline_of (h : isControlOrSpace u = false) : isTabOrNewline u = false := by
  simp only [isControlOrSpace, decide_eq_false_iff_not] at h
  simp only [isTabOrNewline, Bool.or_eq_false_iff, decide_eq_false_iff_not]
  refine ⟨⟨?_, ?_⟩, ?_⟩ <;> rintro rfl <;> exact h (by decide)

theorem origin_plain (horigin : IsOrigin isAuthority url) :
    ∀ u ∈ url, isControlOrSpace u = false := by
  obtain ⟨scheme, hscheme, authority, rfl, -, -, hunit⟩ := horigin
  intro u hu
  rcases List.mem_append.1 hu with hu | hu
  · have hall : ∀ u ∈ js "http://" ++ js "https://", isControlOrSpace u = false := by
      simp [js, codeUnits, isControlOrSpace]
    simp only [List.mem_cons, List.not_mem_nil, or_false] at hscheme
    rcases hscheme with rfl | rfl
    · exact hall u (List.mem_append_left _ hu)
    · exact hall u (List.mem_append_right _ hu)
  · exact (hunit u hu).1

/-- What follows the authority is the path. -/
theorem fetchPath_origin (horigin : IsOrigin isAuthority url)
    (hs : ∀ u ∈ s, isControlOrSpace u = false) :
    fetchPath isAuthority (url ++ 47 :: s) = some (pathname (47 :: s)) := by
  have hplain : ∀ u ∈ url ++ 47 :: s, isControlOrSpace u = false := by
    intro u hu
    rcases List.mem_append.1 hu with hu | hu
    · exact origin_plain horigin u hu
    · rcases List.mem_cons.1 hu with rfl | hu
      · rfl
      · exact hs u hu
  have htrim := dropWhile_eq_self hplain
  have htrim' := dropWhile_eq_self fun u hu => hplain u (List.mem_reverse.1 hu)
  have hfilter : (url ++ 47 :: s).filter (fun u => !isTabOrNewline u) = url ++ 47 :: s :=
    List.filter_eq_self.2 fun u hu => by rw [isTabOrNewline_of (hplain u hu), Bool.not_false]
  obtain ⟨scheme, hscheme, authority, rfl, hne, hauth, hunit⟩ := horigin
  have hafter : afterScheme (scheme ++ authority ++ 47 :: s) =
      some (47 :: 47 :: (authority ++ 47 :: s)) := by
    simp only [List.mem_cons, List.not_mem_nil, or_false] at hscheme
    rcases hscheme with rfl | rfl <;> rfl
  have hslashes : (47 :: 47 :: (authority ++ 47 :: s)).dropWhile isSlash =
      authority ++ 47 :: s := by
    obtain ⟨u, rest, rfl⟩ := List.exists_cons_of_ne_nil hne
    have hu : isSlash u = false := (hunit u List.mem_cons_self).2.1
    rw [List.dropWhile_cons_of_pos rfl, List.dropWhile_cons_of_pos rfl, List.cons_append,
      List.dropWhile_cons_of_neg (by rw [hu]; exact Bool.false_ne_true)]
  have hin : ∀ u ∈ authority, (!isSlash u && !isPathEnd u) = true := by
    intro u hu
    rw [(hunit u hu).2.1, (hunit u hu).2.2]
    rfl
  rw [fetchPath, htrim, htrim', List.reverse_reverse, hfilter, hafter]
  simp only [hslashes, List.takeWhile_append_of_pos hin, List.dropWhile_append_of_pos hin]
  rw [List.takeWhile_cons_of_neg (by decide), List.dropWhile_cons_of_neg (by decide),
    List.append_nil, if_pos hauth]

end JsString

open JsString

variable {ν : Type} {hashToUint32 : JsString → Hash} {apiKey : Option JsString}
  {stringifies : Json ν → Bool} {g : Gateway} {nodeUrl key name : JsString}
  {isAuthority : JsString → Bool}

/-! ## The request for a key -/

theorem withNode_proxyKey (hnodes : g.router.nodeSet ≠ [])
    (howner : g.nodeFor hashToUint32 key = some nodeUrl) (hurl : nodeUrl ≠ [])
    (hk : key.WellFormed) (name : JsString) (method : HttpMethod) (fetch : Fetch ν) :
    g.withNode hashToUint32 key
        (Gateway.proxyKey fetch apiKey stringifies (js "/" ++ name ++ js "/") method key) =
      [relay stringifies nodeUrl (fetch (keyRequest apiKey nodeUrl name key method))] := by
  rw [withNode_node hnodes howner hurl, Gateway.proxyKey, keyRequest, encodeURIComponent_eq hk]
  simp only [Option.getD_some, Gateway.proxy, List.nil_append]

/-- The node fetches the key out of the path that it was put into. -/
theorem fetchPath_keyRequest (hname : RouteName name) (hk : key.WellFormed)
    (horigin : IsOrigin isAuthority nodeUrl) (method : HttpMethod) :
    (fetchPath isAuthority (keyRequest (ν := ν) apiKey nodeUrl name key method).url).bind
      (routeKey name) = keyAtNode name key := by
  obtain ⟨encoded, he⟩ : ∃ encoded, key.encodeURIComponent = some encoded :=
    ⟨_, encodeURIComponent_eq hk⟩
  have hpath : js "/" ++ name ++ js "/" ++ encoded = 47 :: (name ++ 47 :: encoded) := by
    rw [List.append_assoc, List.append_assoc]
    rfl
  have hunits : ∀ u ∈ name ++ 47 :: encoded, isControlOrSpace u = false := by
    intro u hu
    simp only [List.mem_append, List.mem_cons] at hu
    rcases hu with hu | rfl | hu
    · exact (hname.unit u hu).plain.1
    · rfl
    · exact (pathUnit_encoded hk he u hu).plain.1
  rw [keyRequest, keyAtNode, he, Option.getD_some, Option.bind_some, hpath,
    fetchPath_origin horigin hunits, Option.bind_some]

theorem origin_ne_nil (horigin : IsOrigin isAuthority nodeUrl) : nodeUrl ≠ [] := by
  obtain ⟨scheme, -, authority, rfl, hne, -⟩ := horigin
  exact List.append_ne_nil_of_right_ne_nil scheme hne

/-- The two routes read the key in the same way. -/
theorem toNode_eq (sent : ProxyRequest ν) (isAuthority : JsString → Bool) :
    (sent.method = .get → sent.toNode isAuthority =
      ((fetchPath isAuthority sent.url).bind (routeKey (js "get"))).map .get) ∧
    (sent.method = .delete → sent.toNode isAuthority =
      ((fetchPath isAuthority sent.url).bind (routeKey (js "delete"))).map .delete) := by
  unfold ProxyRequest.toNode
  constructor <;> intro h <;> rw [h] <;> cases fetchPath isAuthority sent.url <;> rfl

theorem keyAtNode_map {α : Type} (f : JsString → α) (hname : RouteName name) (hne : key ≠ [])
    (hk : key.WellFormed) :
    (keyAtNode name key).map f = some (f key) ↔ key ≠ js "." ∧ key ≠ js ".." := by
  rw [keyAtNode_eq hname hne hk, ← not_or]
  split_ifs with h <;> simp [h]

/-! ## The request that sets a key -/

theorem sends_set {body : Json ν} (hnodes : g.router.nodeSet ≠ [])
    (howner : g.nodeFor hashToUint32 key = some nodeUrl) (hurl : nodeUrl ≠ []) (hne : key ≠ [])
    (hbody : stringField body (js "key") = some key) (hstring : stringifies body = true) :
    g.Sends hashToUint32 apiKey stringifies (.set (some body)) nodeUrl
      (bodyRequest apiKey nodeUrl body) := by
  have hself : orEmpty (some body) = body := by
    cases body with
    | null => cases hbody
    | bool | num | str | arr | obj => rfl
  have hkey : readField body (js "key") = .value (.str key) := by
    unfold stringField at hbody
    split at hbody
    · rename_i s hs
      rw [hs, Option.some.inj hbody]
    · cases hbody
  intro fetch
  rw [Gateway.routed, Gateway.postSet, hself, hkey]
  simp only [List.length_eq_zero_iff, if_neg hne, hstring, if_true]
  rw [withNode_node hnodes howner hurl, Gateway.proxy, bodyRequest]

theorem toNode_set (horigin : IsOrigin isAuthority nodeUrl) (body : Json ν) :
    (bodyRequest apiKey nodeUrl body).toNode isAuthority = some (.set body) := by
  have hplain : ∀ u ∈ js "set", isControlOrSpace u = false := by
    simp [js, codeUnits, isControlOrSpace]
  have hpath : fetchPath isAuthority (nodeUrl ++ js "/set") = some (js "/set") :=
    fetchPath_origin horigin hplain
  rw [ProxyRequest.toNode, bodyRequest, hpath]
  rfl

/-- Whatever key `POST /set` is given, in a body that can be stringified, the gateway asks the node
that owns the key to set it. At the routes that have a key in the path it asks this node for the
same key, at the same route, if and only if the key is neither one dot nor two. -/
theorem key_addressed_iff (hashToUint32 : JsString → Hash) (apiKey : Option JsString)
    (stringifies : Json ν → Bool) (isAuthority : JsString → Bool) (g : Gateway)
    (nodeUrl key : JsString) (hne : key ≠ [])
    (hkey : key.WellFormed) (hnodes : g.router.nodeSet ≠ [])
    (howner : g.nodeFor hashToUint32 key = some nodeUrl) (horigin : IsOrigin isAuthority nodeUrl) :
    (∀ body : Json ν, stringField body (js "key") = some key → stringifies body = true →
      ∃ set, g.Sends hashToUint32 apiKey stringifies (.set (some body)) nodeUrl set ∧
        set.toNode isAuthority = some (.set body)) ∧
    ∃ get delete : ProxyRequest ν,
      g.Sends hashToUint32 apiKey stringifies (.get key) nodeUrl get ∧
      g.Sends hashToUint32 apiKey stringifies (.delete key) nodeUrl delete ∧
      (get.toNode isAuthority = some (.get key) ↔ key ≠ js "." ∧ key ≠ js "..") ∧
      (delete.toNode isAuthority = some (.delete key) ↔ key ≠ js "." ∧ key ≠ js "..") := by
  have hurl := origin_ne_nil horigin
  refine ⟨fun body hbody hstring => ⟨bodyRequest apiKey nodeUrl body,
      sends_set hnodes howner hurl hne hbody hstring, toNode_set horigin body⟩,
    keyRequest apiKey nodeUrl (js "get") key .get,
    keyRequest apiKey nodeUrl (js "delete") key .delete,
    withNode_proxyKey hnodes howner hurl hkey (js "get") .get,
    withNode_proxyKey hnodes howner hurl hkey (js "delete") .delete, ?_, ?_⟩
  · rw [(toNode_eq _ isAuthority).1 rfl, fetchPath_keyRequest routeName_get hkey horigin]
    exact keyAtNode_map NodeRequest.get routeName_get hne hkey
  · rw [(toNode_eq _ isAuthority).2 rfl, fetchPath_keyRequest routeName_delete hkey horigin]
    exact keyAtNode_map NodeRequest.delete routeName_delete hne hkey

/-- A gateway with one node, whatever the hash. -/
def oneNode : Gateway := .start (fun _ => 0) 1 [js "http://node-1:3000"]

def isNode1 (authority : JsString) : Bool := authority = js "node-1:3000"

theorem isOrigin_node1 : IsOrigin isNode1 (js "http://node-1:3000") := by
  refine ⟨js "http://", by decide, js "node-1:3000", by decide, by decide, by decide, ?_⟩
  simp [js, codeUnits, isControlOrSpace, isSlash, isPathEnd]

theorem oneNode_owner (key : JsString) :
    oneNode.nodeFor (fun _ => 0) key = some (js "http://node-1:3000") := by
  have hring : oneNode.router.ring = [{ hash := 0, node := js "http://node-1:3000" }] := rfl
  rw [Gateway.nodeFor, HashRing.getNode, hring]
  simp [HashRing.search]

/-- A key with a slash in it. -/
theorem key_addressed_slash : ∃ get : ProxyRequest ℚ,
    oneNode.Sends (fun _ => 0) none (fun _ => true) (.get (js "a/b")) (js "http://node-1:3000")
      get ∧ get.toNode isNode1 = some (.get (js "a/b")) := by
  obtain ⟨-, get, -, hget, -, hkey, -⟩ := key_addressed_iff (ν := ℚ) (fun _ => 0) none
    (fun _ => true) isNode1 oneNode (js "http://node-1:3000") (js "a/b") (by decide) (by decide)
    (by decide) (oneNode_owner _) isOrigin_node1
  exact ⟨get, hget, hkey.2 (by decide)⟩

/-- What is sent for these keys reaches no route of a key. -/
theorem dots_collapsed :
    (∃ get : ProxyRequest ℚ,
      oneNode.Sends (fun _ => 0) none (fun _ => true) (.get (js ".")) (js "http://node-1:3000")
        get ∧ get.toNode isNode1 = none) ∧
    ∃ delete : ProxyRequest ℚ,
      oneNode.Sends (fun _ => 0) none (fun _ => true) (.delete (js ".."))
        (js "http://node-1:3000") delete ∧ delete.toNode isNode1 = none :=
  ⟨⟨keyRequest none (js "http://node-1:3000") (js "get") (js ".") .get,
      withNode_proxyKey (by decide) (oneNode_owner _) (by decide) (by decide) (js "get") .get,
      by decide⟩,
    keyRequest none (js "http://node-1:3000") (js "delete") (js "..") .delete,
    withNode_proxyKey (by decide) (oneNode_owner _) (by decide) (by decide) (js "delete") .delete,
    by decide⟩

end InkCache
