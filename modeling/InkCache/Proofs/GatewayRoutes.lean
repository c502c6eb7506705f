import InkCache.GatewayRoutes
import InkCache.Proofs.GatewaySync
import InkCache.Proofs.RingLookup

/-!
# Every routed request is answered

A handler returns silently where `requireNode` gives it a url that is falsy although there are
nodes, and only the empty url is (`withNode_silent`). No ring holds it unless it was registered, so
whatever registers no empty url leaves no request unanswered (`named_run`). What is sent is the
response that is due unless the body of a set cannot be stringified (`routed_thrown`).
-/

namespace InkCache

open Lib

variable {ν : Type} {hashToUint32 : JsString → Hash} {g g' : Gateway} {fetch : Fetch ν}
  {apiKey : Option JsString} {stringifies : Json ν → Bool} {key url : JsString}
  {answer : JsString → RoutedResponse ν}

/-! ## One request -/

theorem withNode_noNodes (h : g.router.nodeSet = []) :
    g.withNode hashToUint32 key answer = [Gateway.noNodes] := by
  simp [Gateway.withNode, Gateway.requireNode, h]

theorem withNode_node (h : g.router.nodeSet ≠ []) (hk : g.nodeFor hashToUint32 key = some url)
    (hurl : url ≠ []) : g.withNode hashToUint32 key answer = [answer url] := by
  obtain ⟨u, l, rfl⟩ := List.exists_cons_of_ne_nil hurl
  simp [Gateway.withNode, Gateway.requireNode, h, hk]

/-- The silent return. -/
theorem withNode_silent (h : g.router.nodeSet ≠ [])
    (hk : g.nodeFor hashToUint32 key = some []) : g.withNode hashToUint32 key answer = [] := by
  simp [Gateway.withNode, Gateway.requireNode, h, hk]

/-- Every handler refuses a malformed set, and leaves the rest to `requireNode`. -/
theorem routed_eq (g : Gateway) (req : RoutedRequest ν) :
    g.routed hashToUint32 fetch apiKey stringifies req =
      match req.key? with
      | none => [Gateway.badKey]
      | some key => g.withNode hashToUint32 key fun nodeUrl =>
        if req.stringified stringifies then req.answer fetch apiKey stringifies nodeUrl
        else Gateway.unhandled := by
  cases req with
  | get key | delete key | route key => rfl
  | set body =>
    simp only [Gateway.routed, Gateway.postSet, RoutedRequest.key?, RoutedRequest.answer,
      RoutedRequest.stringified]
    rcases readField (orEmpty body) (js "key") with _ | _ | j
    · rfl
    · rfl
    · cases j with
      | str key =>
        by_cases hk : key.length = 0
        · simp only [if_pos hk]
        · simp only [if_neg hk]
          rfl
      | null | bool | num | arr | obj => rfl

/-! ## The ring of a gateway -/

theorem virtualNodes_add (r : HashRing) (d : JsString) :
    (r.add hashToUint32 d).virtualNodes = r.virtualNodes := by
  unfold HashRing.add
  split_ifs <;> rfl

theorem virtualNodes_remove (r : HashRing) (d : JsString) :
    (r.remove d).virtualNodes = r.virtualNodes := by
  unfold HashRing.remove
  split_ifs <;> rfl

theorem virtualNodes_addNode (g : Gateway) (url : JsString) :
    (g.addNode hashToUint32 url).router.virtualNodes = g.router.virtualNodes := by
  unfold Gateway.addNode
  split_ifs
  · rfl
  · exact virtualNodes_add g.router url

theorem virtualNodes_removeNode (g : Gateway) (url : JsString) :
    (g.removeNode url).router.virtualNodes = g.router.virtualNodes := by
  unfold Gateway.removeNode
  split_ifs
  · rfl
  · exact virtualNodes_remove g.router url

theorem virtualNodes_checked (g : Gateway) (url : JsString) (healthy : Bool) :
    (g.checked hashToUint32 url healthy).router.virtualNodes = g.router.virtualNodes := by
  unfold Gateway.checked
  rcases g.health.get? url with _ | wasHealthy
  · rfl
  · simp only
    split_ifs
    · rfl
    · exact virtualNodes_add g.router url
    · exact virtualNodes_remove g.router url

theorem virtualNodes_start (n : ℕ) (nodes : List JsString) :
    (Gateway.start hashToUint32 n nodes).router.virtualNodes = n := by
  have hfold : ∀ (nodes : List JsString) (r : HashRing),
      (nodes.foldl (fun r node => r.add hashToUint32 node) r).virtualNodes = r.virtualNodes := by
    intro nodes
    induction nodes with
    | nil => exact fun _ => rfl
    | cons d nodes ih => exact fun r => (ih _).trans (virtualNodes_add r d)
  exact hfold nodes (.empty n)

theorem virtualNodes_step {a : GatewayAction ν} {es : List GatewayResponse}
    (hs : gatewayStep hashToUint32 g a = some (g', es)) :
    g'.router.virtualNodes = g.router.virtualNodes := by
  refine kept_step (I := fun g' => g'.router.virtualNodes = g.router.virtualNodes)
    (fun _ _ h => h) (fun url _ g h => ?_) (fun url g h => ?_) (fun url healthy g h => ?_) hs rfl
  · exact (virtualNodes_addNode g url).trans h
  · exact (virtualNodes_removeNode g url).trans h
  · exact (virtualNodes_checked g url healthy).trans h

/-! ## The urls that are known -/

theorem named_start (n : ℕ) (env : Option JsString) :
    [] ∉ (Gateway.start hashToUint32 n (resolveClusterNodes env)).known := by
  have hknown : ∀ (nodes : List JsString) (m : OrderedMap JsString Bool) (u : JsString),
      u ∈ (nodes.foldl (fun health url => health.set url true) m).keys →
        u ∈ m.keys ∨ u ∈ nodes := by
    intro nodes
    induction nodes with
    | nil => exact fun _ _ hu => .inl hu
    | cons d nodes ih =>
      intro m u hu
      rcases ih _ u hu with hu | hu
      · rw [← not_not (a := u ∈ (m.set d true).keys), ← OrderedMap.get?_eq_none,
          OrderedMap.get?_set] at hu
        by_cases hud : u = d
        · exact .inr (hud ▸ List.mem_cons_self)
        · rw [if_neg hud, OrderedMap.get?_eq_none, not_not] at hu
          exact .inl hu
      · exact .inr (List.mem_cons_of_mem _ hu)
  rw [known_eq]
  intro hmem
  rcases hknown _ _ _ hmem with hu | hu
  · simp [OrderedMap.empty, OrderedMap.keys] at hu
  · unfold resolveClusterNodes at hu
    rcases env with _ | _ | ⟨c, s⟩ <;> simp at hu

theorem named_of_namesNodes {a : GatewayAction ν} (h : NamesNodes g a) : [] ∉ a.named := by
  cases a with
  | checkAll | checked | deleteNodes => exact List.not_mem_nil
  | postNodes body =>
    simp only [GatewayAction.named, List.mem_map, Option.mem_toList]
    rintro ⟨url, hb, hurl⟩
    exact h url hb hurl
  | postSync body =>
    rcases hb : Gateway.bodyNodes (orEmpty body) with _ | nodes
    · simp [GatewayAction.named, hb]
    · simp only [GatewayAction.named, hb, Option.getD_some, List.mem_map]
      rintro ⟨url, hmem, hurl⟩
      exact h nodes hb url hmem hurl
  | receiveSync body =>
    rcases hb : Gateway.bodyNodes body with _ | nodes
    · simp [GatewayAction.named, hb]
    · simp only [GatewayAction.named, hb, Option.getD_some]
      exact fun hmem => h nodes hb [] hmem rfl

/-- An action that brings in no empty url leaves none known. -/
theorem named_step {a : GatewayAction ν} {es : List GatewayResponse} (h : [] ∉ g.known)
    (ha : NamesNodes g a) (hs : gatewayStep hashToUint32 g a = some (g', es)) :
    [] ∉ g'.known := by
  refine kept_step (I := fun g => [] ∉ g.known) (fun _ _ h => h) (fun url hurl g h => ?_)
    (fun url g h => ?_) (fun url healthy g h => ?_) hs h
  · rw [mem_known_addNode]
    rintro (hk | rfl)
    · exact h hk
    · exact named_of_namesNodes ha hurl
  · rw [mem_known_removeNode]
    exact fun hk => h hk.1
  · rw [known_checked]
    exact h

/-! ## Runs -/

/-- The gateway as its process starts it: 150 points for each of the nodes of the environment. -/
def startGateway (hashToUint32 : JsString → Hash) (env : Option JsString) : Gateway :=
  .start hashToUint32 150 (resolveClusterNodes env)

/-- The router is in step with the health checks and has points for every node. -/
structure Routes (hashToUint32 : JsString → Hash) (g : Gateway) : Prop where
  inStep : InStep hashToUint32 g
  virtualNodes : g.router.virtualNodes = 150

theorem routes_run {P : Gateway → GatewayAction ν → Prop} {env : Option JsString}
    {log : List GatewayResponse}
    (h : Run (gatewayStep hashToUint32) P (startGateway hashToUint32 env) log g) :
    Routes hashToUint32 g := by
  refine h.invariant (I := fun _ g => Routes hashToUint32 g) ?_ ?_
  · exact ⟨InStep.start hashToUint32 150 _, virtualNodes_start 150 _⟩
  · intro log g a g' es hI _ hs
    exact ⟨hI.inStep.step hs, (virtualNodes_step hs).trans hI.virtualNodes⟩

/-- As long as there are nodes, the router has one of them for every key. -/
theorem exists_nodeFor (h : Routes hashToUint32 g)
    (hnodes : g.router.nodeSet ≠ []) (key : JsString) :
    ∃ url ∈ g.router.nodeSet, g.nodeFor hashToUint32 key = some url := by
  rcases hk : g.nodeFor hashToUint32 key with _ | url
  · rw [Gateway.nodeFor, h.inStep.placed.getNode_isNone (by rw [h.virtualNodes]; decide)] at hk
    exact absurd hk hnodes
  · exact ⟨url, (h.inStep.mem_iff url).2 (h.inStep.nodeFor hk), rfl⟩

theorem named_run {env : Option JsString} {log : List GatewayResponse}
    (h : Run (gatewayStep hashToUint32) (NamesNodes (ν := ν)) (startGateway hashToUint32 env)
      log g) : [] ∉ g.known :=
  h.invariant (I := fun _ g => [] ∉ g.known) (named_start 150 env)
    fun hI ha hs => named_step hI ha hs

/-- The router gives the key to the empty url, or the body of a set that has a node cannot be
stringified. -/
def Unanswerable (hashToUint32 : JsString → Hash) (stringifies : Json ν → Bool) (g : Gateway)
    (req : RoutedRequest ν) : Prop :=
  ∃ key url, req.key? = some key ∧ g.nodeFor hashToUint32 key = some url ∧
    (url = [] ∨ req.stringified stringifies = false)

/-- Any other request gets the one response that is due. -/
theorem routed_answered (h : Routes hashToUint32 g)
    {req : RoutedRequest ν} (hreq : ¬ Unanswerable hashToUint32 stringifies g req) :
    ∃ r, g.routed hashToUint32 fetch apiKey stringifies req = [r] ∧
      req.IsDue hashToUint32 fetch apiKey stringifies g r := by
  rw [routed_eq]
  unfold RoutedRequest.IsDue
  rcases hkey : req.key? with _ | key
  · exact ⟨Gateway.badKey, rfl, rfl⟩
  simp only
  by_cases hnodes : g.router.nodeSet = []
  · exact ⟨_, withNode_noNodes hnodes, (if_pos hnodes).mpr rfl⟩
  · obtain ⟨url, hmem, hk⟩ := exists_nodeFor h hnodes key
    have hurl : url ≠ [] := fun he => hreq ⟨key, url, hkey, hk, .inl he⟩
    have hbody : req.stringified stringifies = true := by
      by_contra hno
      exact hreq ⟨key, url, hkey, hk, .inr (Bool.eq_false_of_not_eq_true hno)⟩
    exact ⟨_, withNode_node hnodes hk hurl,
      (if_neg hnodes).mpr ⟨url, hmem, hk, if_pos hbody⟩⟩

theorem routed_unanswered (h : InStep hashToUint32 g) {req : RoutedRequest ν}
    (hkey : req.key? = some key) (hk : g.nodeFor hashToUint32 key = some []) :
    g.routed hashToUint32 fetch apiKey stringifies req = [] := by
  have hmem : [] ∈ g.router.nodeSet := (h.mem_iff []).2 (h.nodeFor hk)
  rw [routed_eq, hkey]
  exact withNode_silent (List.ne_nil_of_mem hmem) hk

theorem proxy_ne_unhandled {nodeUrl path : JsString} {method : HttpMethod}
    {headers : List (JsString × JsString)} {body : Option (Json ν)} :
    Gateway.proxy fetch apiKey stringifies nodeUrl path method headers body ≠
      Gateway.unhandled := by
  unfold Gateway.proxy relay unreachable Gateway.unhandled
  rcases fetch _ with message | ⟨status, answer⟩
  · simp
  · by_cases hbody : stringifies (answer.getD (.obj [])) = true <;> simp [hbody]

/-- What `JSON.stringify` throws is answered 500, which no node has been asked for. -/
theorem routed_thrown (h : InStep hashToUint32 g) {req : RoutedRequest ν}
    (hkey : req.key? = some key) (hk : g.nodeFor hashToUint32 key = some url) (hurl : url ≠ [])
    (hbody : req.stringified stringifies = false) :
    g.routed hashToUint32 fetch apiKey stringifies req = [Gateway.unhandled] ∧
      ¬ req.IsDue hashToUint32 fetch apiKey stringifies g Gateway.unhandled := by
  have hnodes : g.router.nodeSet ≠ [] := List.ne_nil_of_mem ((h.mem_iff url).2 (h.nodeFor hk))
  constructor
  · rw [routed_eq, hkey]
    simp only [hbody, Bool.false_eq_true, if_false]
    exact withNode_node hnodes hk hurl
  · simp only [RoutedRequest.IsDue, hkey, if_neg hnodes]
    rintro ⟨nodeUrl, -, -, hdue⟩
    cases req with
    | get | delete | route => simp [RoutedRequest.stringified] at hbody
    | set body => exact proxy_ne_unhandled hdue.symm

/-- If no empty url is ever registered, every routed request whose body can be stringified gets
exactly the response that is due. In any run, those that do not are those that the router gives to
the empty url, and the sets that have a node and a body that cannot be stringified. -/
theorem routed_exactly_once (hashToUint32 : JsString → Hash) (env : Option JsString)
    (fetch : Fetch ν) (apiKey : Option JsString) (stringifies : Json ν → Bool) :
    (∀ log g, Run (gatewayStep hashToUint32) (NamesNodes (ν := ν)) (startGateway hashToUint32 env)
        log g →
      ∀ req : RoutedRequest ν, req.stringified stringifies = true →
        ∃ r, g.routed hashToUint32 fetch apiKey stringifies req = [r] ∧
          req.IsDue hashToUint32 fetch apiKey stringifies g r) ∧
    ∀ log g, Run (gatewayStep hashToUint32) (fun _ (_ : GatewayAction ν) => True)
        (startGateway hashToUint32 env) log g →
      ∀ req : RoutedRequest ν, (∃ r, g.routed hashToUint32 fetch apiKey stringifies req = [r] ∧
        req.IsDue hashToUint32 fetch apiKey stringifies g r) ↔
          ¬ Unanswerable hashToUint32 stringifies g req := by
  refine ⟨fun log g h req hbody => ?_, fun log g h req => ⟨?_, routed_answered (routes_run h)⟩⟩
  · have hstep := routes_run h
    refine routed_answered hstep ?_
    rintro ⟨key, url, -, hk, rfl | hno⟩
    · refine named_run h (mem_known.2 ?_)
      rw [hstep.inStep.nodeFor hk]
      rfl
    · simp [hbody] at hno
  · have hstep := (routes_run h).inStep
    rintro ⟨r, hr, hdue⟩ ⟨key, url, hkey, hk, hun⟩
    by_cases hurl : url = []
    · rw [routed_unanswered hstep hkey (hurl ▸ hk)] at hr
      simp at hr
    · have hbody := hun.resolve_left hurl
      obtain rfl : Gateway.unhandled = r := by
        rw [(routed_thrown hstep hkey hk hurl hbody).1] at hr
        simpa using hr
      exact (routed_thrown hstep hkey hk hurl hbody).2 hdue

/-- A registered node is asked. -/
theorem routed_exactly_once_registered : ∃ (log : List GatewayResponse) (g : Gateway),
    Run (gatewayStep fun _ => 0) (NamesNodes (ν := ℚ)) (startGateway (fun _ => 0) none) log g ∧
    g.routed (fun _ => 0) (fun _ => .ok (404, none)) none (fun _ => true)
      (.get (js "user:1") : RoutedRequest ℚ) = [.relayed 404 (.obj [])] := by
  have hrun : ∃ (log : List GatewayResponse) (g : Gateway),
      Run (gatewayStep fun _ => 0) (NamesNodes (ν := ℚ)) (startGateway (fun _ => 0) none) log g ∧
      g.router.nodeSet = [js "http://node-1:3000"] :=
    exists_run_of_exec [.postNodes (urlBody (js "http://node-1:3000/"))] (by decide +kernel)
  obtain ⟨log, g, h, hset⟩ := hrun
  obtain ⟨r, hr, hdue⟩ := (routed_exactly_once (fun _ => 0) none (fun _ => .ok (404, none)) none
    fun _ => true).1 log g h (.get (js "user:1")) rfl
  refine ⟨log, g, h, hr.trans ?_⟩
  simp only [RoutedRequest.IsDue, RoutedRequest.key?, hset] at hdue
  obtain ⟨url, -, -, rfl⟩ := hdue
  rfl

/-- The gateway after a url of a single blank was registered. -/
theorem postNodes_blank (hashToUint32 : JsString → Hash) :
    gatewayStep hashToUint32 (startGateway hashToUint32 none) (.postNodes (urlBody (js " "))) =
      some ((startGateway hashToUint32 none).addNode hashToUint32 [], [.node [] 1]) := by
  have hurl : Gateway.bodyUrl (urlBody (js " ")) = some (js " ") := rfl
  have hblank : normalized (js " ") = [] := rfl
  have hknown : [] ∉ (startGateway hashToUint32 none).known := List.not_mem_nil
  have hcount : ((startGateway hashToUint32 none).addNode hashToUint32 []).router.nodeSet.length =
      1 := rfl
  simp only [gatewayStep, Gateway.postNodes, hurl, hblank, if_neg hknown, hcount]

/-- A url of a single blank is registered, and from then on every key is routed to the empty url:
a read is left without a response. -/
theorem routed_never_answered : ∃ (log : List GatewayResponse) (g : Gateway),
    Run (gatewayStep fun _ => 0) (fun _ (_ : GatewayAction ℚ) => True)
      (startGateway (fun _ => 0) none) log g ∧
    log = [.node [] 1] ∧
    ∀ (fetch : Fetch ℚ) (apiKey : Option JsString),
      g.routed (fun _ => 0) fetch apiKey (fun _ => true) (.get (js "user:1")) = [] := by
  have hrun := Run.next (P := fun _ (_ : GatewayAction ℚ) => True) _ .start trivial
    (postNodes_blank fun _ => 0)
  have hroutes := routes_run hrun
  have hset : ((startGateway (fun _ => 0) none).addNode (fun _ => 0) []).router.nodeSet = [[]] :=
    rfl
  refine ⟨_, _, hrun, List.nil_append _, fun fetch apiKey =>
    routed_unanswered hroutes.inStep rfl ?_⟩
  obtain ⟨url, hmem, hk⟩ := exists_nodeFor hroutes (by rw [hset]; simp) (js "user:1")
  rw [hset, List.mem_singleton] at hmem
  subst hmem
  exact hk

end InkCache
