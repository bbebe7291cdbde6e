import ZeroTrustLab.Lib.Url
import ZeroTrustLab.Controller.Ownership
import ZeroTrustLab.Controller.Replay

/-!
# Routes and URLs

The route table of `app/main.py` and Starlette's way through it: the first
route whose method and template match takes the request; a path that only
matches routes of other methods is answered 405, a path that matches after its
trailing `/` is taken away (or one is put there) is redirected, any other is
not found. Templates match the percent-decoded path, in which a line feed after
all that a template asks for goes unnoticed: `GET /api/v1/whoami%0A` is
answered as `GET /api/v1/whoami` is. What FastAPI adds on its own (`/docs`,
`/openapi.json`, `/metrics`) lies outside `/api/v1` and is left out.

`NodeCreate` bounds the length of a `node_id` and nothing else, while
`{node_id}` matches one or more characters other than `/`. `addressable_iff`
says what comes of it: a registered node can be reached through its URLs just
when its `node_id` is such a text (`IsParam`).

The agent does not quote the `node_id` that it puts into its URL, and `quote`
is what a careful client would do; the URLs here are those of a careful client.
A text with a `/` in it cannot be reached even so, since the path is decoded
before it is matched.
-/

namespace ZeroTrustLab.Controller

open Lib (Record)
open Lib.Url

/-! ## The router -/

inductive Method where
  | get
  | post
  deriving DecidableEq, Repr

/-- A route with its path parameter. -/
inductive Route where
  | health
  | whoami
  | listNodes
  | registerNode
  | getNode (nodeId : String)
  | heartbeat (nodeId : String)
  | listAuditEvents
  deriving DecidableEq, Repr

/-- One line of the route table. -/
structure RouteEntry where
  method : Method
  template : List Piece
  route : List (List Char) → Route

/-- `app.include_router`, in order. -/
def routes : List RouteEntry :=
  [⟨.get, [.lit "/api/v1/health".toList], fun _ => .health⟩,
    ⟨.get, [.lit "/api/v1/whoami".toList], fun _ => .whoami⟩,
    ⟨.get, [.lit "/api/v1/nodes".toList], fun _ => .listNodes⟩,
    ⟨.post, [.lit "/api/v1/nodes".toList], fun _ => .registerNode⟩,
    ⟨.get, [.lit "/api/v1/nodes/".toList, .param],
      fun vs => .getNode (String.ofList (vs.headD []))⟩,
    ⟨.post, [.lit "/api/v1/nodes/".toList, .param, .lit "/heartbeat".toList],
      fun vs => .heartbeat (String.ofList (vs.headD []))⟩,
    ⟨.get, [.lit "/api/v1/audit".toList], fun _ => .listAuditEvents⟩]

def RouteEntry.match? (entry : RouteEntry) (path : List Char) : Option Route :=
  (matchPath entry.template path).map entry.route

inductive Resolution where
  | found (route : Route)
  | methodNotAllowed
  | redirect
  | notFound
  deriving DecidableEq, Repr

/-- The path with its trailing `/` taken away, or put there. -/
def slashed (path : List Char) : List Char :=
  if path.getLast? = some '/' then path.rdropWhile (· == '/') else path ++ ['/']

/-- The routes that take the path, of one method. -/
def candidates (method : Method) (path : List Char) : List Route :=
  (routes.filter fun entry => decide (entry.method = method)).filterMap fun entry => entry.match? path

def resolve (method : Method) (path : List Char) : Resolution :=
  match (candidates method path).head? with
  | some route => .found route
  | none =>
    if routes.any fun entry => (entry.match? path).isSome then .methodNotAllowed
    else if path ≠ ['/'] ∧ routes.any fun entry => (entry.match? (slashed path)).isSome then .redirect
    else .notFound

/-- What a request carries besides its path; there is no query string. -/
structure Content where
  registration : Option NodeBase := none
  beat : Option NodeHeartbeat := none

def Route.endpoint (content : Content) : Route → Endpoint
  | .health => .health
  | .whoami => .whoami
  | .listNodes => .listNodes
  | .registerNode => .registerNode content.registration
  | .getNode nodeId => .getNode nodeId
  | .heartbeat nodeId => .heartbeat nodeId content.beat
  | .listAuditEvents => .listAuditEvents 100 0 none none none

/-- What the application answers to a URL; `none` for what the router answers
itself. -/
def fetch (settings : Settings) (w : World) (method : Method) (url : List Char) (headers : Headers)
    (content : Content) : Option (Except Exc Response) :=
  match (unquote url).map (resolve method) with
  | some (.found route) =>
    some (respond settings ⟨headers, route.endpoint content⟩ w.revokedSerials w.clock w.db).1
  | _ => none

/-! ## The URLs of a node -/

/-- `/api/v1/nodes/<node_id>`, encoded. -/
def nodeUrl (nodeId : String) : List Char := "/api/v1/nodes/".toList ++ quote nodeId.toList

/-- `/api/v1/nodes/<node_id>/heartbeat`, encoded. -/
def heartbeatUrl (nodeId : String) : List Char := nodeUrl nodeId ++ "/heartbeat".toList

/-- The URL of a node is decoded to the path that holds its `node_id`. -/
theorem unquote_nodeUrl (nodeId : String) :
    unquote (nodeUrl nodeId) = some ("/api/v1/nodes/".toList ++ nodeId.toList) := by
  have hfront : Lib.Url.Plain "/api/v1/nodes/".toList := by decide
  have h := unquote_url hfront (show Lib.Url.Plain [] by decide) nodeId.toList
  rw [List.append_nil, List.append_nil] at h
  exact h

/-- The URL of a heartbeat is decoded to the path that holds its `node_id`. -/
theorem unquote_heartbeatUrl (nodeId : String) :
    unquote (heartbeatUrl nodeId)
      = some ("/api/v1/nodes/".toList ++ (nodeId.toList ++ "/heartbeat".toList)) := by
  unfold heartbeatUrl nodeUrl
  rw [unquote_url (by decide) (by decide), List.append_assoc]

/-- No literal route takes a path under `/api/v1/nodes/`. -/
private theorem literal_none (path : List Char) :
    matchPath [.lit "/api/v1/health".toList] ("/api/v1/nodes/".toList ++ path) = none ∧
    matchPath [.lit "/api/v1/whoami".toList] ("/api/v1/nodes/".toList ++ path) = none ∧
    matchPath [.lit "/api/v1/nodes".toList] ("/api/v1/nodes/".toList ++ path) = none ∧
    matchPath [.lit "/api/v1/audit".toList] ("/api/v1/nodes/".toList ++ path) = none :=
  ⟨rfl, rfl, rfl, rfl⟩

/-- Under `/api/v1/nodes/` a `GET` can only mean one node. -/
theorem candidates_get (path : List Char) :
    (candidates .get ("/api/v1/nodes/".toList ++ path)).head?
      = (matchPath [.param] path).map fun vs => .getNode (String.ofList (vs.headD [])) := by
  obtain ⟨hhealth, hwhoami, hnodes, haudit⟩ := literal_none path
  have hnode := match_lit "/api/v1/nodes/".toList [.param] path
  unfold candidates
  rw [show routes.filter (fun entry => decide (entry.method = .get))
    = [routes[0], routes[1], routes[2], routes[4], routes[6]] from rfl]
  simp only [List.filterMap_cons, List.filterMap_nil, RouteEntry.match?, routes, List.getElem_cons_zero,
    List.getElem_cons_succ, hhealth, hwhoami, hnodes, haudit, hnode, Option.map_none]
  rcases matchPath [.param] path with _ | vs <;> rfl

/-- Under `/api/v1/nodes/` a `POST` can only mean the heartbeat of one node. -/
theorem candidates_post (path : List Char) :
    (candidates .post ("/api/v1/nodes/".toList ++ path)).head?
      = (matchPath [.param, .lit "/heartbeat".toList] path).map fun vs =>
          .heartbeat (String.ofList (vs.headD [])) := by
  obtain ⟨-, -, hnodes, -⟩ := literal_none path
  have hnode := match_lit "/api/v1/nodes/".toList [.param, .lit "/heartbeat".toList] path
  unfold candidates
  rw [show routes.filter (fun entry => decide (entry.method = .post)) = [routes[3], routes[5]] from rfl]
  simp only [List.filterMap_cons, List.filterMap_nil, RouteEntry.match?, routes, List.getElem_cons_zero,
    List.getElem_cons_succ, hnodes, hnode, Option.map_none]
  rcases matchPath [.param, .lit "/heartbeat".toList] path with _ | vs <;> rfl

theorem resolve_found {method : Method} {path : List Char} {route : Route} :
    resolve method path = .found route ↔ (candidates method path).head? = some route := by
  unfold resolve
  rcases (candidates method path).head? with _ | r
  · simp only [reduceCtorEq, iff_false]
    split
    next => simp
    next => split <;> simp
  · simp

/-- A `GET` of a node's path comes to that node, or to no route. -/
theorem resolve_node {nodeId : String} {route : Route} :
    resolve .get ("/api/v1/nodes/".toList ++ nodeId.toList) = .found route ↔
      IsParam nodeId.toList ∧ route = .getNode nodeId := by
  rw [resolve_found, candidates_get, match_param_end]
  by_cases hparam : IsParam nodeId.toList
  · simp [hparam, eq_comm]
  · simp [hparam]

/-- A `POST` to its heartbeat path comes to its heartbeat, or to no route. -/
theorem resolve_heartbeat {nodeId : String} {route : Route} :
    resolve .post ("/api/v1/nodes/".toList ++ (nodeId.toList ++ "/heartbeat".toList))
        = .found route ↔ IsParam nodeId.toList ∧ route = .heartbeat nodeId := by
  have hslash : ∀ c, "/heartbeat".toList.head? = some c → c = '/' := by
    intro c hc
    simpa [eq_comm] using hc
  rw [resolve_found, candidates_post, match_param_lit hslash (by decide)]
  by_cases hparam : IsParam nodeId.toList
  · simp [hparam, eq_comm]
  · simp [hparam]

example : (unquote "/api/v1/whoami%0A".toList).map (resolve .get) = some (.found .whoami) := by
  decide +kernel

example : (unquote "/api/v1/nodes/%FF".toList).map (resolve .get)
    = some (.found (.getNode (String.ofList [Char.ofNat 0xFFFD]))) := by
  decide +kernel

/-! ## Registered nodes -/

variable {settings : Settings}

/-- The request that came after the events registered the payload, with 201. -/
def Accepted (settings : Settings) (es : List Event) (req : Request) (payload : NodeCreate) : Prop :=
  req.endpoint = .registerNode (some payload.toNodeBase) ∧
    ∃ body, (respond settings req (afterEvents settings es).revokedSerials
      (afterEvents settings es).clock (afterEvents settings es).db).1 = .ok ⟨201, body⟩

/-- A node can be reached through its URLs. -/
structure Addressable (settings : Settings) (w : World) (nodeId commonName : String) : Prop where
  /-- A `GET` returns the row, and a heartbeat of the row's CN is accepted. -/
  row : ∃ row ∈ w.db.nodes.rows, row.nodeId = nodeId ∧ row.commonName = commonName ∧
    (∀ headers identity content, identityOf settings headers = .ok identity →
      revokedSerial w.revokedSerials identity = none →
      fetch settings w .get (nodeUrl nodeId) headers content = some (.ok ⟨200, .node row⟩)) ∧
    ∀ headers identity content beat, identityOf settings headers = .ok identity →
      revokedSerial w.revokedSerials identity = none → identity.commonName = commonName →
      content.beat = some beat →
      ∃ n, fetch settings w .post (heartbeatUrl nodeId) headers content = some (.ok ⟨200, .node n⟩)
  /-- No other `node_id` comes to a row this one comes to. -/
  distinct : ∀ nodeId' headers headers' content content' n, nodeId' ≠ nodeId →
    fetch settings w .get (nodeUrl nodeId) headers content = some (.ok ⟨200, .node n⟩) →
    fetch settings w .get (nodeUrl nodeId') headers' content' ≠ some (.ok ⟨200, .node n⟩)
  /-- Neither URL comes to another route. -/
  node : ∀ path route, unquote (nodeUrl nodeId) = some path → resolve .get path = .found route →
    route = .getNode nodeId
  heartbeat : ∀ path route, unquote (heartbeatUrl nodeId) = some path →
    resolve .post path = .found route → route = .heartbeat nodeId

/-- A `GET` of a node's URL is answered by the endpoint for that node, or by the
router. -/
theorem fetch_node {w : World} {nodeId : String} {headers : Headers} {content : Content}
    {r : Except Exc Response} :
    fetch settings w .get (nodeUrl nodeId) headers content = some r ↔ IsParam nodeId.toList ∧
      r = (respond settings ⟨headers, .getNode nodeId⟩ w.revokedSerials w.clock w.db).1 := by
  unfold fetch
  rw [unquote_nodeUrl, Option.map_some]
  by_cases hparam : IsParam nodeId.toList
  · rw [resolve_node.mpr ⟨hparam, rfl⟩]
    simp [hparam, Route.endpoint, eq_comm]
  · have hnone : ∀ route, resolve .get ("/api/v1/nodes/".toList ++ nodeId.toList) ≠ .found route :=
      fun route h => hparam (resolve_node.mp h).1
    split
    next route hroute => exact absurd (Option.some.inj hroute) (hnone route)
    next => simp [hparam]

/-- A `POST` to its heartbeat URL is answered by the endpoint for that node, or
by the router. -/
theorem fetch_heartbeat {w : World} {nodeId : String} {headers : Headers} {content : Content}
    {r : Except Exc Response} :
    fetch settings w .post (heartbeatUrl nodeId) headers content = some r ↔ IsParam nodeId.toList ∧
      r = (respond settings ⟨headers, .heartbeat nodeId content.beat⟩ w.revokedSerials w.clock w.db).1
    := by
  unfold fetch
  rw [unquote_heartbeatUrl, Option.map_some]
  by_cases hparam : IsParam nodeId.toList
  · rw [resolve_heartbeat.mpr ⟨hparam, rfl⟩]
    simp [hparam, Route.endpoint, eq_comm]
  · have hnone : ∀ route, resolve .post ("/api/v1/nodes/".toList ++
        (nodeId.toList ++ "/heartbeat".toList)) ≠ .found route :=
      fun route h => hparam (resolve_heartbeat.mp h).1
    split
    next route hroute => exact absurd (Option.some.inj hroute) (hnone route)
    next => simp [hparam]

/-- A row that is returned has the `node_id` that was asked for. -/
theorem nodeId_of_getNode {headers : Headers} {nodeId : String} {revoked : Finset Int} {now : Time}
    {db : Database} {n : Node}
    (h : (respond settings ⟨headers, .getNode nodeId⟩ revoked now db).1 = .ok ⟨200, .node n⟩) :
    n.nodeId = nodeId := by
  obtain ⟨identity, -, hbody⟩ := LetThrough.of_ok (by simp [Endpoint.body?]) h
  dsimp only [replyBody] at hbody
  rcases hrow : db.node? nodeId with _ | row
  · rw [hrow] at hbody
    exact absurd hbody (by simp)
  · rw [hrow] at hbody
    dsimp only [readNode] at hbody
    split at hbody
    next =>
      obtain rfl : row = n := by simpa using hbody
      exact (Database.node?_eq_some hrow).2
    next => exact absurd hbody (by simp)

/-- What is answered 201 is registered. -/
theorem Accepted.enrols {es : List Event} {req : Request} {payload : NodeCreate}
    (h : Accepted settings es req payload) :
    Enrols settings req (afterEvents settings es).revokedSerials (afterEvents settings es).db
      payload := by
  obtain ⟨hreq, body, hr⟩ := h
  have hvalid : NodeCreate.validate payload.toNodeBase = .ok payload := by
    unfold NodeCreate.validate
    rw [dif_pos payload.within]
  obtain ⟨identity, hlet, hreply⟩ := LetThrough.of_ok (by simp [hreq, Endpoint.body?]) hr
  rw [hreq] at hreply
  dsimp only [replyBody] at hreply
  rw [hvalid] at hreply
  dsimp only [replyRegister] at hreply
  by_cases hmay : mayRegister identity payload.toNodeBase = false
  · rw [if_pos hmay] at hreply
    exact absurd hreply (by simp [reject])
  · rw [if_neg hmay] at hreply
    rcases hrow : (afterEvents settings es).db.node? payload.nodeId with _ | row
    · exact ⟨hreq, ⟨identity, hlet, by simpa using hmay⟩, hrow⟩
    · rw [hrow] at hreply
      exact absurd hreply (by simp)

/-- A row with this `node_id` and CN is stored. -/
def Stores (nodeId commonName : String) (db : Database) : Prop :=
  ∃ row, db.node? nodeId = some row ∧ row.commonName = commonName

/-- No turn changes the CN of a stored row, or takes the row away. -/
theorem Turn.keeps {req : Request} {revoked : Finset Int} {now : Time} {db db' : Database}
    {r : Except Exc Response} {nodeId commonName : String}
    (ht : Turn settings req revoked now db db' r) (h : Stores nodeId commonName db) :
    Stores nodeId commonName db' := by
  obtain ⟨row, hrow, hcn⟩ := h
  cases ht with
  | quiet hdb => exact ⟨row, by rw [hdb]; exact hrow, hcn⟩
  | rejected _ hnodes =>
    refine ⟨row, ?_, hcn⟩
    unfold Database.node?
    rw [hnodes]
    exact hrow
  | @registered _ payload _ _ _ _ _ hfree hnode =>
    refine ⟨row, ?_, hcn⟩
    rw [hnode, if_neg]
    · exact hrow
    · intro he
      rw [← he, hrow] at hfree
      exact absurd hfree (by simp)
  | @beaten _ loaded _ _ _ _ hloaded _ hnode =>
    by_cases he : nodeId = loaded.nodeId
    · subst he
      obtain rfl := Option.some.inj (hloaded.symm.trans hrow)
      exact ⟨loaded.beaten now, by rw [hnode, if_pos rfl], hcn⟩
    · exact ⟨row, by rw [hnode, if_neg he]; exact hrow, hcn⟩

/-- The row of an accepted registration is there from then on. -/
theorem Accepted.row {es : List Event} {req : Request} {payload : NodeCreate}
    (h : Accepted settings es req payload) (es' : List Event) :
    Stores payload.nodeId payload.commonName
      (afterEvents settings (es ++ [.request req] ++ es')).db := by
  refine afterEvents_keeps ?_ es' fun _ _ _ _ _ _ ht hold => ht.keeps hold
  obtain ⟨-, hf⟩ := afterEvents_request settings es req
  obtain ⟨identity, row, event, hrow, -, -, -, -, hrespond⟩ := h.enrols.respond
  rw [hrespond] at hf
  have hnodes := (Database.applyAll_rows hf.db).1
  have hmem : row ∈ (afterEvents settings (es ++ [.request req])).db.nodes.rows := by
    rw [hnodes]
    exact List.mem_append_right _ (List.mem_singleton_self row)
  have hnode := Database.node?_of_mem hmem
  rw [congrArg NodeBase.nodeId hrow] at hnode
  exact ⟨row, hnode, congrArg NodeBase.commonName hrow⟩

/-- Whoever can be reached has a `node_id` that the router takes. -/
theorem Addressable.isParam {w : World} {nodeId commonName : String}
    (h : Addressable settings w nodeId commonName) : IsParam nodeId.toList := by
  obtain ⟨row, -, -, -, hget, -⟩ := h.row
  -- anybody with a verified certificate and no serial is let through
  have hid : identityOf settings ⟨some "SUCCESS", some "CN=x", none⟩
      = .ok ⟨"x", "CN=x", true, none⟩ := by
    rw [identityOf_verified]
    decide +kernel
  exact (fetch_node.mp (hget _ _ {} hid rfl)).1

/-- **Which nodes are addressable**: from its registration on, a node can be
reached just when its `node_id` is a text the router takes for a parameter,
which is any but the empty one and those with a `/`. The URLs are well made: the
`node_id` is percent-encoded in them. -/
theorem addressable_iff {es : List Event} {req : Request} {payload : NodeCreate}
    (h : Accepted settings es req payload) :
    (∀ es', Addressable settings (afterEvents settings (es ++ [.request req] ++ es')) payload.nodeId
      payload.commonName) ↔ IsParam payload.nodeId.toList := by
  constructor
  · intro hall
    exact (hall []).isParam
  · intro hparam es'
    -- the row is there in every later state, still under the certificate's CN
    obtain ⟨row, hrow, hcn⟩ := h.row es'
    have hok := afterEvents_readable settings _ _ _ hrow
    generalize afterEvents settings (es ++ [.request req] ++ es') = w at hrow
    obtain ⟨hmem, hid⟩ := Database.node?_eq_some hrow
    refine ⟨⟨row, hmem, hid, hcn, ?_, ?_⟩, ?_, ?_, ?_⟩
    · intro headers identity content hident hlive
      refine fetch_node.mpr ⟨hparam, ?_⟩
      rw [respond_admitted (by simp [Endpoint.body?]) hident hlive]
      dsimp only [replyBody]
      rw [hrow]
      dsimp only [readNode]
      rw [if_pos hok]
    · intro headers identity content beat hident hlive hown hbeat
      refine ⟨row.beaten w.clock, fetch_heartbeat.mpr ⟨hparam, ?_⟩⟩
      rw [hbeat, respond_admitted (by simp [Endpoint.body?]) hident hlive]
      dsimp only [replyBody, replyHeartbeat]
      rw [hrow]
      dsimp only
      rw [if_neg (not_not.mpr (hown.trans hcn.symm))]
      have hread : readNode 200 (row.beaten w.clock) = .ok ⟨200, .node (row.beaten w.clock)⟩ := by
        unfold readNode
        rw [if_pos (readOk_beaten hok w.clock)]
      by_cases ho : row.state = .onboarding
      · rw [if_pos ho, hread]
      · rw [if_neg ho, hread]
    · intro nodeId' headers headers' content content' n hne hget hget'
      have hn := nodeId_of_getNode (fetch_node.mp hget).2.symm
      have hn' := nodeId_of_getNode (fetch_node.mp hget').2.symm
      exact hne (hn'.symm.trans hn)
    · intro path route hpath hroute
      obtain rfl := Option.some.inj ((unquote_nodeUrl _).symm.trans hpath)
      exact (resolve_node.mp hroute).2
    · intro path route hpath hroute
      obtain rfl := Option.some.inj ((unquote_heartbeatUrl _).symm.trans hpath)
      exact (resolve_heartbeat.mp hroute).2

/-- `pi-01` registers itself under some `node_id`. -/
def registering (nodeId : String) : Request :=
  ⟨nodeHeaders, .registerNode (some ⟨nodeId, "pi-01.thesis.local", "sensor", .onboarding, none, none⟩)⟩

private theorem registering_accepted {nodeId : String} (hlen : nodeId.length ≤ 64) :
    ∃ payload, Accepted {} [] (registering nodeId) payload ∧ payload.nodeId = nodeId := by
  have hwithin : (⟨nodeId, "pi-01.thesis.local", "sensor", .onboarding, none, none⟩ :
      NodeBase).tooLong = [] := by
    unfold NodeBase.tooLong NodeBase.limits
    simp only [List.filterMap_cons, Option.getD_some, hlen, if_true]
    decide
  let payload : NodeCreate := ⟨_, hwithin⟩
  have hlet : LetThrough {} (registering nodeId) ∅
      ⟨"pi-01.thesis.local", "CN=pi-01.thesis.local", true, some 1⟩ :=
    ⟨identityOf_nodeHeaders {}, by decide⟩
  have hmay : mayRegister ⟨"pi-01.thesis.local", "CN=pi-01.thesis.local", true, some 1⟩
      payload.toNodeBase = true := by
    unfold mayRegister
    simp only [payload, beq_self_eq_true, Bool.and_true]
    decide
  have henrols : Enrols {} (registering nodeId) ∅ (afterEvents {} []).db payload :=
    ⟨rfl, ⟨_, hlet, hmay⟩, rfl⟩
  obtain ⟨_, row, _, -, -, -, -, -, hrespond⟩ := henrols.respond
  exact ⟨payload, ⟨rfl, .node row, congrArg Prod.fst hrespond⟩, rfl⟩

/-- Under its own name it is addressable. -/
theorem enrolled_addressable :
    ∃ payload, Accepted {} [] (registering "pi-01") payload ∧
      ∀ es', Addressable {} (afterEvents {} ([] ++ [.request (registering "pi-01")] ++ es'))
        payload.nodeId payload.commonName := by
  obtain ⟨payload, hacc, hid⟩ := registering_accepted (show "pi-01".length ≤ 64 by decide)
  refine ⟨payload, hacc, (addressable_iff hacc).mpr ?_⟩
  rw [hid]
  decide

/-- A registration with a `/` in its `node_id` is accepted, and the router
answers a `GET` of its URL 405 and a heartbeat 404. -/
theorem subPath_unaddressable :
    ∃ payload, Accepted {} [] (registering "pi-01/heartbeat") payload ∧
      (unquote (nodeUrl "pi-01/heartbeat")).map (resolve .get) = some .methodNotAllowed ∧
      (unquote (heartbeatUrl "pi-01/heartbeat")).map (resolve .post) = some .notFound ∧
      ¬ Addressable {} (afterEvents {} [.request (registering "pi-01/heartbeat")]) payload.nodeId
        payload.commonName := by
  obtain ⟨payload, hacc, hid⟩ := registering_accepted (show "pi-01/heartbeat".length ≤ 64 by decide)
  refine ⟨payload, hacc, ?_, ?_, fun h => ?_⟩
  · rw [unquote_nodeUrl]
    decide +kernel
  · rw [unquote_heartbeatUrl]
    decide +kernel
  · have hparam := h.isParam
    rw [hid] at hparam
    exact absurd hparam (by decide)

end ZeroTrustLab.Controller
