import ZeroTrustLab.Lib.Network
import ZeroTrustLab.Agent.Conduct
import ZeroTrustLab.Controller.Conflict
import ZeroTrustLab.Nginx.Behind

/-!
# The fleet: agents, nginx and the controller

The whole system at once. Any number of agents (`Agent.Heartbeat`) send their
requests through nginx (`Nginx.Behind`) to one controller, whose requests
interleave and fail as they may; other clients send theirs in between. A POST
may hear of its failure at any time, before the request has come to the
controller or long after it was committed there.

A member `a : A` of the fleet is one life of an agent's process. When systemd
starts it again, that is another member with the same settings and the same
certificate, so what is said of any number of members is said of restarts.

Each side keeps its promise only if the other does: the agent beats once it has
been told 201 or 409, and the controller says so of committed rows. `beats_known`
and `beats_accepted` are what the two together come to, and
`successes_committed` what the agent's counter of successes is worth.

These three are about a member whose `node_id` is the same in a URL (`Segment`).
The agent writes it into the path of its heartbeat as it is, so with another one
the request may come to another node, to another operation or to nginx itself,
and the fleet has these runs, too (`Deployment.Comes`). What such members bring
about is no obstacle to the others.

Mirroring notes vs the three programs:
- Between the URL that the agent writes and the target that nginx reads lies
  `httpx`, which resolves dot segments, encodes characters and splits off a query
  (`Deployment.target`). All that is assumed of it is that a path without any of
  these is sent as it is.
- Of the answers that do not come from the controller's operations, none is a
  success or a 409 as long as the URL leads to an operation; else they are any.
-/

namespace ZeroTrustLab.System

open Lib
open Agent (Accepted LoopAns LoopCall LoopExc LoopSettings agent postUrl registration)
open Controller (Agreed Authorized Content Endpoint Env Exc Fact NodeCreate NodeHeartbeat Response
  Rid Route Session World Write controller identityOf resolve serving serving_known serving_outcome
  statusOf)
open Lib.Url (PlainPath Segment octets unquote)
open Nginx (Brought Certificate Connection Serves handle handle_passes nodeCert pathOf)

/-! ## The system -/

/-- The fleet, and what surrounds it. -/
structure Deployment (A : Type) where
  settings : Controller.Settings
  /-- What each member is configured with. -/
  loop : A → LoopSettings
  /-- The certificate that each member holds. -/
  cert : A → Certificate
  /-- How far the loop of each member is followed. -/
  iterations : A → ℕ
  /-- The target `httpx` sends for a URL; none where it raises. -/
  target : List Char → Option (List Char)
  plain : ∀ url, PlainPath url → target url = some url
  /-- The requests that come to the controller. -/
  reqs : Rid → Controller.Request
  /-- Those of other clients. -/
  foreign : Rid → Prop

/-- The JSON body of a POST. -/
def posted : Endpoint → Content
  | .registerNode body => { registration := body }
  | .heartbeat _ body => { beat := body }
  | _ => {}

/-- What becomes of a POST that is made with a certificate: nginx passes it on with
these headers, and the controller's router takes it for this route. -/
def Deployment.Comes {A : Type} (d : Deployment A) (cert : Certificate) (ep : Endpoint) (route : Route)
    (headers : List (String × String)) : Prop :=
  ∃ url target conn client t p, postUrl ep = some url ∧ d.target url = some target ∧
    conn.peer = .verified cert ∧ handle conn target client = .passed .controller t headers ∧
    unquote (pathOf t) = some p ∧ resolve .post p = .found route

variable {A : Type}

/-- The calls that go to the controller, and what they come to. -/
def Deployment.link (d : Deployment A) :
    Network LoopCall LoopAns A Rid Endpoint (Except Exc Response) where
  request?
    | .client (.post ep) => some ep
    | _ => none
  Answers
    | .client (.post _), r, x => x = .ok (statusOf r)
    | _, _, _ => False
  -- on the way to an operation, what nginx or `httpx` says by itself is no success
  Lost
    | .client (.post ep), x => ∀ status, x = .ok status → Accepted status →
      ∀ cert route headers, ¬ d.Comes cert ep route headers
    | _, _ => False
  Carries a ep i := ∃ route headers, d.Comes (d.cert a) ep route headers ∧
    d.reqs i = ⟨Nginx.mtlsHeaders headers, route.endpoint (posted ep)⟩
  Foreign := d.foreign

abbrev Deployment.State (_ : Deployment A) :=
  Net A LoopCall LoopAns LoopExc Unit Controller.Call Controller.Ans Exc Response Rid Session World

abbrev Deployment.Trace (_ : Deployment A) :=
  List (NetLabel A LoopCall LoopAns LoopExc Controller.Call Controller.Ans Exc Rid Env)

/-- The agents start, and nothing has been sent. -/
def Deployment.start (d : Deployment A) : d.State where
  server := serving d.settings d.reqs .start
  client a := { prog := agent (d.loop a) (d.iterations a) }
  sent := []

abbrev Deployment.Run [DecidableEq A] (d : Deployment A) (ls : d.Trace) (n : d.State) : Prop :=
  NetSteps d.link controller d.start ls n

theorem start_fresh (d : Deployment A) : d.start.Fresh := ⟨rfl, fun _ => rfl⟩

/-! ## Where a URL leads -/

/-- A POST whose URL leads to the operation it is meant for. -/
def Addressed : Endpoint → Prop
  | .registerNode _ => True
  | .heartbeat nodeId _ => Segment nodeId.toList
  | _ => False

/-- The route it is meant for. -/
def Meant : Endpoint → Route → Prop
  | .registerNode _, route => route = .registerNode
  | .heartbeat nodeId _, route => route = .heartbeat nodeId
  | _, _ => False

/-- The route that a POST is meant for reads the POST's own content. -/
theorem endpoint_of_meant {ep : Endpoint} {route : Route} (h : Meant ep route) :
    route.endpoint (posted ep) = ep := by
  cases ep with
  | registerNode body =>
    obtain rfl : route = _ := h
    rfl
  | heartbeat nodeId body =>
    obtain rfl : route = _ := h
    rfl
  | _ => exact absurd h id

/-- The fixed segments of the API are the same in a URL. -/
private theorem segment_api :
    ∀ text ∈ ["api".toList, "v1".toList, "nodes".toList, "heartbeat".toList], Segment text := by
  decide +kernel

/-- It leads under `/api/`, by a path that is nobody's to change, and to one
operation. -/
theorem Addressed.url {ep : Endpoint} (h : Addressed ep) :
    ∃ url rest, postUrl ep = some url ∧ PlainPath url ∧ Lib.Url.utf8 url = octets "/api/" ++ rest ∧
      ∃ route, Meant ep route ∧ ∀ route', resolve .post url = .found route' ↔ route' = route := by
  have hunder : ∀ more : List Char, Lib.Url.utf8 ("/api/".toList ++ more)
      = octets "/api/" ++ Lib.Url.utf8 more := fun more => Lib.Url.utf8_append _ _
  cases ep with
  | registerNode body =>
    have hfound : resolve .post "/api/v1/nodes".toList = .found .registerNode := by decide +kernel
    refine ⟨_, _, rfl, ⟨["api".toList, "v1".toList, "nodes".toList], by simp, rfl, ?_⟩,
      hunder "v1/nodes".toList, _, rfl, ?_⟩
    · exact fun text htext => segment_api text (List.mem_append_left ["heartbeat".toList] htext)
    · intro route'
      rw [hfound]
      exact ⟨fun he => (Controller.Resolution.found.inj he).symm, fun he => by rw [he]⟩
  | heartbeat nodeId body =>
    have hid : Segment nodeId.toList := h
    refine ⟨_, Lib.Url.utf8 ("v1/nodes/".toList ++ (nodeId.toList ++ "/heartbeat".toList)), rfl,
      ⟨["api".toList, "v1".toList, "nodes".toList, nodeId.toList, "heartbeat".toList], by simp, ?_,
        ?_⟩, ?_, .heartbeat nodeId, rfl, ?_⟩
    · simp [Lib.Url.joinText]
    · intro text htext
      simp only [List.mem_cons, List.not_mem_nil, or_false] at htext
      rcases htext with rfl | rfl | rfl | rfl | rfl
      · exact segment_api _ (by simp)
      · exact segment_api _ (by simp)
      · exact segment_api _ (by simp)
      · exact hid
      · exact segment_api _ (by simp)
    · exact hunder ("v1/nodes/".toList ++ (nodeId.toList ++ "/heartbeat".toList))
    · intro route'
      rw [List.append_assoc, Controller.resolve_heartbeat]
      simp [hid.isParam]
  | _ => exact absurd h id

/-- Wherever it comes, it comes to the operation it is meant for. -/
theorem Addressed.meant {d : Deployment A} {cert : Certificate} {ep : Endpoint} {route : Route}
    {headers : List (String × String)} (h : Addressed ep) (hc : d.Comes cert ep route headers) :
    Meant ep route := by
  obtain ⟨url, rest, hurl, hplain, -, route', hmeant, hroute⟩ := h.url
  obtain ⟨url', target, conn, client, t, p, hurl', htarget, -, hpass, hp, hr⟩ := hc
  obtain rfl := Option.some.inj (hurl'.symm.trans hurl)
  obtain rfl := Option.some.inj (htarget.symm.trans (d.plain _ hplain))
  obtain ⟨rfl, -⟩ := Nginx.handle_passed hpass
  rw [(Nginx.uri_plain hplain).1, hplain.unquote.2] at hp
  obtain rfl := Option.some.inj hp
  rwa [(hroute route).mp hr]

/-- With any certificate, an addressed POST comes to an operation of the API. -/
theorem Addressed.comes (d : Deployment A) (cert : Certificate) {ep : Endpoint} (h : Addressed ep) :
    ∃ route headers, d.Comes cert ep route headers ∧ Nginx.mtlsHeaders headers = cert.headers := by
  obtain ⟨url, rest, hurl, hplain, hunder, route, -, hroute⟩ := h.url
  obtain ⟨hpath, huri⟩ := Nginx.uri_plain hplain
  rw [hunder] at huri
  obtain ⟨hredirects, -⟩ : Nginx.redirects (octets "/api/" ++ rest) = false ∧ _ :=
    Nginx.Proxied.located (.inl (List.prefix_append _ _))
  have hpass : handle ⟨.verified cert, id⟩ url [] = _ :=
    handle_passes rfl huri hredirects (Nginx.locate_api rest)
  refine ⟨route, _, ⟨url, url, _, [], url, url, hurl, d.plain url hplain, rfl, hpass, ?_, ?_⟩, ?_⟩
  · rw [hpath, hplain.unquote.2]
  · exact (hroute route).mpr rfl
  · exact Nginx.mtlsHeaders_api rfl

/-- A route serves the operation that it makes of a content. -/
theorem serves_endpoint (route : Route) (content : Content) :
    Serves route (route.endpoint content) := by
  cases route with
  | getNode nodeId => exact rfl
  | heartbeat nodeId => exact rfl
  | _ => trivial

/-- What is carried has been brought by nginx. -/
theorem brought_of_carries {d : Deployment A} {a : A} {ep : Endpoint} {i : Rid}
    (h : d.link.Carries a ep i) : Brought (d.cert a) (d.reqs i) := by
  obtain ⟨route, headers, ⟨url, target, conn, client, t, p, -, -, hpeer, hpass, hp, hr⟩, hreq⟩ := h
  refine ⟨conn, target, client, t, headers, p, .post, route, hpeer, hpass, hp, hr, ?_, ?_⟩
  · rw [hreq]
    exact serves_endpoint route _
  · rw [hreq]

/-- An addressed POST comes to the controller as what it was sent as. -/
theorem Addressed.endpoint {d : Deployment A} {a : A} {ep : Endpoint} {i : Rid} (h : Addressed ep)
    (hc : d.link.Carries a ep i) : (d.reqs i).endpoint = ep := by
  obtain ⟨route, headers, hcomes, hreq⟩ := hc
  rw [hreq]
  exact endpoint_of_meant (h.meant hcomes)

/-- Its exchange may fail, but not with a success. -/
theorem Addressed.not_lost {d : Deployment A} {ep : Endpoint} {status : ℕ} (h : Addressed ep)
    (cert : Certificate) (hs : Accepted status) :
    ¬ d.link.Lost (.client (.post ep)) (.ok status) := by
  intro hlost
  obtain ⟨route, headers, hcomes, -⟩ := h.comes d cert
  exact hlost status rfl hs cert route headers hcomes

/-! ## What a member has sent and heard -/

variable [DecidableEq A] {d : Deployment A} {ls : d.Trace} {n : d.State} {a : A} {i : Rid}

/-- The controller sees a run of its own. -/
theorem run_server (h : d.Run ls n) : Controller.Run d.settings d.reqs .start (served ls) n.server :=
  h.server

/-- In a member's history every call is answered. -/
theorem history_never (h : d.Run ls n) : ∀ c e, ⟨c, .error e⟩ ∈ history a ls → Agent.Never c e := by
  intro c e hmem
  rcases mem_history hmem with hown | ⟨i, hreply⟩ | hlost
  · obtain ⟨x, -, he⟩ := h.own_or_lost.1 hown
    cases he
  · obtain ⟨-, c', x, q, r, he, -⟩ := h.replied (start_fresh d) hreply
    cases he
  · obtain ⟨x, -, he⟩ := h.own_or_lost.2 hlost
    cases he

/-- Where a member makes a call, it speaks as an agent does. -/
theorem member_speaks (h : d.Run ls n) {c : LoopCall} {f : LoopAns c → Agent.Loop Unit}
    (hp : (n.client a).prog = .call c f) : Agent.Speaks (d.loop a) (history a ls) c := by
  have hr : (agent (d.loop a) (d.iterations a)).Reaches (history a ls) (n.client a).prog := h.reaches a
  rw [hp] at hr
  exact (hr.upholds (history_never h) (Agent.agent_sound (d.loop a) (d.iterations a))).1.2

/-- What a member has sent, it has said. -/
theorem sent_speaks (h : d.Run ls n) (hi : (a, i) ∈ n.sent) :
    ∃ front m back ep, ls = front ++ .send a i :: back ∧ d.Run front m ∧
      i ∉ m.sent.map Prod.snd ∧ NetSteps d.link controller (m.send a i) back n ∧
      d.link.Carries a ep i ∧
      Agent.Speaks (d.loop a) (history a front) (.client (.post ep)) := by
  obtain ⟨front, m, back, rfl, hfront, hnew, hback, c, f, ep, hp, hq, hcarries⟩ :=
    h.sending (start_fresh d) hi
  have hspeaks := member_speaks hfront hp
  refine ⟨front, m, back, ep, rfl, hfront, hnew, hback, hcarries, ?_⟩
  cases c with
  | client c =>
    cases c with
    | post ep =>
      obtain rfl := Option.some.inj hq
      exact hspeaks
    | primaryIp => simp [Deployment.link] at hq
    | log event fields => simp [Deployment.link] at hq
  | _ => simp [Deployment.link] at hq

/-- What a member says is addressed, if its `node_id` is the same in a URL. -/
theorem addressed_of_speaks {settings : LoopSettings} {h : Agent.LoopHistory} {ep : Endpoint}
    (hid : Segment settings.nodeId.toList) (hs : Agent.Speaks settings h (.client (.post ep))) :
    Addressed ep := by
  cases ep with
  | registerNode body => trivial
  | heartbeat nodeId body =>
    obtain ⟨rfl, -⟩ := hs
    exact hid
  | _ => exact absurd hs id

/-- A request of such a member has come to the controller as what it had said. -/
theorem sent_endpoint (hid : Segment (d.loop a).nodeId.toList) (h : d.Run ls n)
    (hi : (a, i) ∈ n.sent) :
    ∃ front m back, ls = front ++ .send a i :: back ∧ d.Run front m ∧ i ∉ m.sent.map Prod.snd ∧
      NetSteps d.link controller (m.send a i) back n ∧ Brought (d.cert a) (d.reqs i) ∧
      Agent.Speaks (d.loop a) (history a front) (.client (.post (d.reqs i).endpoint)) := by
  obtain ⟨front, m, back, ep, rfl, hfront, hnew, hback, hcarries, hspeaks⟩ := sent_speaks h hi
  refine ⟨front, m, back, rfl, hfront, hnew, hback, brought_of_carries hcarries, ?_⟩
  rwa [(addressed_of_speaks hid hspeaks).endpoint hcarries]

/-- A success or a 409 that a member hears of, after an addressed POST, was the
controller's answer to a request of its own. -/
theorem heard (h : d.Run ls n) {ep : Endpoint} {status : ℕ} (haddr : Addressed ep)
    (hmem : ⟨.client (.post ep), .ok (.ok status)⟩ ∈ history a ls) (hs : Accepted status) :
    ∃ i r, (a, i) ∈ n.sent ∧ (d.reqs i).endpoint = ep ∧ (n.server.party i).status = .done r ∧
      statusOf r = status := by
  rcases mem_history hmem with hown | ⟨i, hreply⟩ | hlost
  · obtain ⟨x, hq, -⟩ := h.own_or_lost.1 hown
    simp [Deployment.link] at hq
  · obtain ⟨hsent, c, x, ep', r, he, hq, hcarries, hd, hx⟩ := h.replied (start_fresh d) hreply
    obtain ⟨rfl, hans⟩ := Act.mk.inj he
    obtain rfl := Except.ok.inj (eq_of_heq hans)
    obtain rfl := Option.some.inj (show some ep = some ep' from hq)
    have hx : Except.ok status = Except.ok (statusOf r) := hx
    exact ⟨i, r, hsent, haddr.endpoint hcarries, hd, (Except.ok.inj hx).symm⟩
  · obtain ⟨x, hx, he⟩ := h.own_or_lost.2 hlost
    obtain ⟨-, hans⟩ := Act.mk.inj he
    obtain rfl := Except.ok.inj (eq_of_heq hans)
    exact absurd hx (haddr.not_lost (d.cert a) hs)

/-- Whoever has been told so is registered: the row is committed, and the
payload was the member's own. -/
theorem registered_row (h : d.Run ls n) (hr : Agent.Registered (d.loop a) (history a ls)) :
    ∃ j payload, Authorized d.settings (d.reqs j) payload ∧ payload.nodeId = (d.loop a).nodeId ∧
      payload.commonName = (d.loop a).nodeCommonName ∧
      ∃ row ∈ n.server.world.db.nodes.rows, row.nodeId = (d.loop a).nodeId := by
  obtain ⟨ip, status, hacc, hmem⟩ := hr
  obtain ⟨j, r, -, hep, hd, rfl⟩ := heard h (show Addressed (.registerNode _) from trivial) hmem hacc
  have hs : statusOf r = 409 ∨ statusOf r < 400 := by
    rcases hacc with hs | ⟨-, hs⟩
    · exact .inl hs
    · exact .inr (by omega)
  obtain ⟨payload, hauth, row, hrow, hid⟩ :=
    serving_known Controller.World.start_fresh (run_server h) hep hd hs
  have hbase : payload.toNodeBase = registration (d.loop a).toSettings ip :=
    Option.some.inj (Endpoint.registerNode.inj (hauth.1.symm.trans hep))
  have hnode : payload.nodeId = (d.loop a).nodeId := by rw [hbase]; rfl
  have hcn : payload.commonName = (d.loop a).nodeCommonName := by rw [hbase]; rfl
  exact ⟨j, payload, hauth, hnode, hcn, row, hrow, hid.trans hnode⟩

/-! ## A node -/

/-- Registrations and heartbeats by turns. -/
def piRequest (i : Rid) : Controller.Request where
  headers := nodeCert.headers
  endpoint := if i % 2 = 0 then .registerNode (some (registration {} "10.50.20.11"))
    else .heartbeat "pi-01" (some ⟨none⟩)

/-- A node alone. -/
def pi : Deployment Unit where
  settings := {}
  loop _ := {}
  cert _ := nodeCert
  iterations _ := 1
  target := some
  plain _ _ := rfl
  reqs := piRequest
  foreign _ := False

/-- An addressed POST of the node that has its headers comes through. -/
theorem pi_carries {ep : Endpoint} {i : Rid} (h : Addressed ep)
    (hreq : piRequest i = ⟨nodeCert.headers, ep⟩) : pi.link.Carries () ep i := by
  obtain ⟨route, headers, hcomes, hheaders⟩ := h.comes pi nodeCert
  refine ⟨route, headers, hcomes, ?_⟩
  rw [hheaders, endpoint_of_meant (h.meant hcomes)]
  exact hreq

/-- The even requests of the node are registrations that come through. -/
theorem pi_registers {i : Rid} (hi : i % 2 = 0) :
    pi.link.Carries () (.registerNode (some (registration {} "10.50.20.11"))) i := by
  refine pi_carries trivial ?_
  unfold piRequest
  rw [if_pos hi]

/-- Its `node_id` is the same in a URL. -/
theorem pi_segment : Segment (pi.loop ()).nodeId.toList := by
  decide +kernel

/-- Its odd requests are heartbeats that come through. -/
theorem pi_beats {i : Rid} (hi : i % 2 = 1) :
    pi.link.Carries () (.heartbeat "pi-01" (some ⟨none⟩)) i := by
  refine pi_carries pi_segment ?_
  unfold piRequest
  rw [if_neg (by rw [hi]; exact Nat.one_ne_zero)]

/-- The requests of a schedule may move when they have been sent. -/
theorem schedule_sent {c : Cfg Controller.Call Controller.Ans Exc Response Rid Session World} {k : ℕ}
    {sent : List Rid} (hi : i ∈ sent) :
    ∀ lab ∈ (controller.play c (List.replicate k i)).1, ∀ j, lab.by? = some j →
      pi.foreign j ∨ j ∈ sent := by
  intro lab hlab j hj
  obtain ⟨i', hi', hby⟩ := controller.play_by _ _ lab hlab
  obtain rfl := List.eq_of_mem_replicate hi'
  obtain rfl := Option.some.inj (hj.symm.trans hby)
  exact .inr hi

/-- The controller when the registration has run alone. -/
def piServer₁ : Cfg Controller.Call Controller.Ans Exc Response Rid Session World :=
  (controller.play pi.start.server (List.replicate 15 0)).2

/-- The controller when the heartbeat has run after it. -/
def piServer₂ : Cfg Controller.Call Controller.Ans Exc Response Rid Session World :=
  (controller.play piServer₁ (List.replicate 15 1)).2

/-- The node registers and beats, and counts a success. -/
theorem pi_run : ∃ ls n, pi.Run ls n ∧ ((), 1) ∈ n.sent ∧
    (∃ r, (n.server.party 1).status = .done r) ∧
    (Agent.trace (history () ls)).results.count "success" = 1 := by
  have hd₁ : (piServer₁.party 0).status.result?.map statusOf = some 201 := by decide +kernel
  have hd₂ : (piServer₂.party 1).status.result?.map statusOf = some 200 := by decide +kernel
  obtain ⟨r₁, hr₁, hs₁⟩ := Option.map_eq_some_iff.mp hd₁
  obtain ⟨r₂, hr₂, hs₂⟩ := Option.map_eq_some_iff.mp hd₂
  -- the registration: the address, the POST, the server's moves, the answer
  have h := (NetSteps.refl (N := pi.link) (M := controller) pi.start).snoc
    (.own (k := ()) (.ok "10.50.20.11" : Except Agent.Raised String) rfl rfl)
  have h := h.snoc (.send (k := ()) (i := 0) rfl rfl rfl (pi_registers rfl) id
    (by simp [Net.resume, Deployment.start]))
  have h := h.trans (.serve (controller.play_steps (List.replicate 15 0) _)
    (schedule_sent (List.mem_singleton_self _)))
  have h := h.snoc (.reply (k := ()) (x := (.ok 201 : Except Agent.Raised ℕ)) rfl rfl
    (Status.eq_done hr₁) (show _ = _ by rw [hs₁]))
  have h := h.snoc (.own (k := ()) (.ok () : Except Agent.Raised Unit) rfl rfl)
  have h := h.snoc (.own (k := ()) () rfl rfl)
  -- the first heartbeat, likewise
  have h := h.snoc (.send (k := ()) (i := 1) rfl rfl rfl (pi_beats rfl) id
    (show 1 ∉ [0] by decide))
  have h := h.trans (.serve (controller.play_steps (List.replicate 15 1) _)
    (schedule_sent (List.mem_cons_of_mem _ (List.mem_singleton_self _))))
  have h := h.snoc (.reply (k := ()) (x := (.ok 200 : Except Agent.Raised ℕ)) rfl rfl
    (Status.eq_done hr₂) (show _ = _ by rw [hs₂]))
  have h := h.snoc (.own (k := ()) (.ok () : Except String Unit) rfl rfl)
  have h := h.snoc (.own (k := ()) () rfl rfl)
  refine ⟨_, _, h, ?_, ⟨r₂, Status.eq_done hr₂⟩, ?_⟩
  · exact List.mem_cons_of_mem _ (List.mem_singleton_self _)
  · decide +kernel

/-! ## Heartbeats -/

variable {nodeId : String} {body : Option NodeHeartbeat}

/-- **No heartbeat goes out for an unknown node**: when a member whose `node_id` is
the same in a URL sends one, the row of its node has been committed, however many
requests were lost on the way. -/
theorem beats_known (hsame : Segment (d.loop a).nodeId.toList) (h : d.Run ls n)
    (hi : (a, i) ∈ n.sent) (hb : (d.reqs i).endpoint = .heartbeat nodeId body) :
    nodeId = (d.loop a).nodeId ∧ ∃ front m back, ls = front ++ .send a i :: back ∧ d.Run front m ∧
      ∃ row ∈ m.server.world.db.nodes.rows, row.nodeId = nodeId := by
  obtain ⟨front, m, back, rfl, hfront, -, -, -, hspeaks⟩ := sent_endpoint hsame h hi
  rw [hb] at hspeaks
  obtain ⟨hid, -, hr⟩ := hspeaks
  obtain ⟨-, -, -, -, -, row, hrow, hrid⟩ := registered_row hfront hr
  exact ⟨hid, front, m, back, rfl, hfront, row, hrow, hrid.trans hid.symm⟩

/-- The theorem at the run of the example. -/
theorem pi_known : ∃ ls n, pi.Run ls n ∧ ((), 1) ∈ n.sent ∧ "pi-01" = (pi.loop ()).nodeId ∧
    ∃ front m back, ls = front ++ .send () 1 :: back ∧ pi.Run front m ∧
      ∃ row ∈ m.server.world.db.nodes.rows, row.nodeId = "pi-01" := by
  obtain ⟨ls, n, h, hi, -⟩ := pi_run
  exact ⟨ls, n, h, hi, beats_known pi_segment h hi rfl⟩

/-- The member's certificate names its node. -/
def Deployment.Enrolled (d : Deployment A) (a : A) : Prop :=
  ∃ identity, identityOf d.settings (d.cert a).headers = .ok identity ∧
    identity.commonName = (d.loop a).nodeCommonName

/-- **No heartbeat is turned away for the node**: where no two requests may
register one `node_id` under two CNs, a member whose `node_id` is the same in a
URL and whose certificate names its node is never told that the node is unknown,
or another's. -/
theorem beats_accepted (hsame : Segment (d.loop a).nodeId.toList)
    (hagreed : Agreed d.settings d.reqs) (ha : d.Enrolled a) (h : d.Run ls n)
    (hi : (a, i) ∈ n.sent) (hb : (d.reqs i).endpoint = .heartbeat nodeId body)
    {r : Except Exc Response} (hd : (n.server.party i).status = .done r) :
    statusOf r ≠ 404 ∧ r ≠ .error (.http 403 "Cannot heartbeat on behalf of another node") := by
  obtain ⟨front, m, back, rfl, hfront, hnew, hback, hbrought, hspeaks⟩ :=
    sent_endpoint hsame h hi
  rw [hb] at hspeaks
  obtain ⟨hid, rfl, hr⟩ := hspeaks
  obtain ⟨identity, hident, hcn⟩ := ha
  rw [← hbrought.headers] at hident
  -- when it was sent, the row was there and bore its CN
  obtain ⟨j, payload, hauth, hpid, hpcn, row, hrow, hrid⟩ := registered_row hfront hr
  have hrowcn : row.commonName = payload.commonName :=
    hagreed.commonName (run_server hfront) hauth hrow (hrid.trans hpid.symm)
  have hheld : (Fact.held nodeId identity.commonName).holds [] m.server.world.db :=
    ⟨row, hrow, hrid.trans hid.symm, hrowcn.trans (hpcn.trans hcn.symm)⟩
  -- and the request had not begun
  have hunmoved := hfront.unsent ((h.tidy (start_fresh d)).ours _ hi) hnew
  have ho := Controller.serving_outcome_from Controller.World.start_fresh (run_server hfront)
    hunmoved hheld hback.server hd
  exact ho.heartbeat_accepted hb hident

/-- The theorem at the run of the example. -/
theorem pi_accepted : ∃ ls n r, pi.Run ls n ∧ (n.server.party 1).status = .done r ∧
    statusOf r ≠ 404 ∧ r ≠ .error (.http 403 "Cannot heartbeat on behalf of another node") := by
  obtain ⟨ls, n, h, hi, ⟨r, hd⟩, -⟩ := pi_run
  have hone : ∀ i payload, Authorized pi.settings (pi.reqs i) payload →
      payload.commonName = "pi-01.thesis.local" := by
    intro i payload ha
    have hreq : (if i % 2 = 0 then Endpoint.registerNode (some (registration {} "10.50.20.11"))
        else .heartbeat "pi-01" (some ⟨none⟩)) = .registerNode (some payload.toNodeBase) := ha.1
    split at hreq
    next => rw [← Option.some.inj (Endpoint.registerNode.inj hreq)]; rfl
    next => simp at hreq
  have hagreed : Agreed pi.settings pi.reqs :=
    fun i j payload payload' ha ha' _ => (hone i payload ha).trans (hone j payload' ha').symm
  have henrolled : pi.Enrolled () := by
    refine ⟨⟨"pi-01.thesis.local", "CN=pi-01.thesis.local", true, some 42⟩, ?_, rfl⟩
    decide +kernel
  exact ⟨ls, n, r, h, hd, beats_accepted pi_segment hagreed henrolled h hi rfl hd⟩

/-! ## What a success is worth -/

/-- A transaction that updates a node. -/
def isBeat (ws : List Write) : Bool := ws.any fun
  | .updateNode _ _ => true
  | _ => false

/-- The committed heartbeats that the member has sent. -/
def committedBeats (n : d.State) (a : A) : List (Rid × List Write) :=
  n.server.world.journal.filter fun e => decide ((a, e.1) ∈ n.sent) && isBeat e.2

/-- The heartbeats the member has sent. -/
def sentBeats (d : Deployment A) (n : d.State) (a : A) : List Rid :=
  (n.sent.filter fun p => decide (p.1 = a) && match (d.reqs p.2).endpoint with
    | .heartbeat _ _ => true
    | _ => false).map Prod.snd

/-- A heartbeat that is answered with a success has been committed. -/
theorem success_beat (h : d.Run ls n) (hb : (d.reqs i).endpoint = .heartbeat nodeId body)
    {r : Except Exc Response} (hd : (n.server.party i).status = .done r)
    (hs : 200 ≤ statusOf r ∧ statusOf r < 300) :
    ∃ ws, (i, ws) ∈ n.server.world.journal ∧ isBeat ws = true := by
  have ho := serving_outcome Controller.World.start_fresh (run_server h) hd
  generalize hown : n.server.world.own i = own at ho
  have hjournal : ∀ ws ∈ own, (i, ws) ∈ n.server.world.journal := by
    intro ws hws
    rw [← hown] at hws
    exact Controller.mem_own.mp hws
  -- a 2xx to a heartbeat comes from one end only, and that one has committed the row
  cases ho with
  | health hnone => simp [hb, Endpoint.body?] at hnone
  | unidentified _ hid =>
    rw [Controller.identityOf_error hid] at hs
    rcases Controller.identityError_status (d.reqs i).headers.xClientVerify
      (d.reqs i).headers.xClientDn with he | he | he <;> simp [statusOf, he] at hs
  | failed hf => rcases hf.1 with rfl | ⟨site, -, rfl⟩ <;> simp [statusOf, Exc.status] at hs
  | revoked => simp [statusOf, Exc.status] at hs
  | answered hp ha =>
    cases ha with
    | invalid => simp [statusOf, Exc.status] at hs
    | registerForbidden hreq => simp [hb] at hreq
    | duplicate hreq => simp [hb] at hreq
    | clash hreq => simp [hb] at hreq
    | registered hreq => simp [hb] at hreq
    | unread hreq => simp [hb] at hreq
    | read hread => simp [hb, Endpoint.reads] at hread
    | missing => simp [statusOf, Exc.status] at hs
    | heartbeatForbidden => simp [statusOf, Exc.status] at hs
    | @beaten _ _ loaded ws _ hreq hsel ht hr =>
      refine ⟨ws, hjournal ws (List.mem_singleton_self ws), ?_⟩
      by_cases hst : loaded.state = .onboarding
      · rw [if_pos hst] at ht
        cases ht with
        | activated => rfl
      · rw [if_neg hst] at ht
        cases ht with
        | beaten => rfl

omit [DecidableEq A] in
/-- Only a heartbeat updates a node, and only its own. -/
theorem beat_endpoint {settings : Controller.Settings} {kind : Controller.TxnKind}
    {req : Controller.Request} {ws : List Write} (ht : Controller.Txn settings req kind ws)
    (hw : isBeat ws = true) :
    ∃ nodeId body, req.endpoint = .heartbeat nodeId body ∧
      ∃ loaded current, .updateNode loaded current ∈ ws ∧ loaded.nodeId = nodeId := by
  cases ht with
  | beaten loaded now hid hreq => exact ⟨_, _, hreq, loaded, _, List.mem_cons_self, rfl⟩
  | activated loaded now t k hid hreq => exact ⟨_, _, hreq, loaded, _, List.mem_cons_self, rfl⟩
  | revoked => simp [isBeat] at hw
  | registerForbidden => simp [isBeat] at hw
  | registered => simp [isBeat] at hw
  | heartbeatForbidden => simp [isBeat] at hw

/-- A member's count of successes is one of answers to it. -/
theorem successes_le (h : d.Run ls n) (a : A) :
    (Agent.trace (history a ls)).results.count "success" ≤ (history a ls).countP Agent.beaten := by
  have hr : (agent (d.loop a) (d.iterations a)).Reaches (history a ls) (n.client a).prog := h.reaches a
  have hsound := hr.upholds (history_never h) (Agent.agent_sound (d.loop a) (d.iterations a))
  rcases hprog : (n.client a).prog with u | e | ⟨c, f⟩
  · rw [hprog] at hsound
    exact hsound.1
  · rw [hprog] at hsound
    exact hsound.1
  · rw [hprog] at hsound
    exact hsound.1.1

/-- A heartbeat that was answered 2xx, for a `node_id` that is the same in a URL. -/
def plainlyBeaten : Act LoopCall LoopAns LoopExc → Bool
  | ⟨.client (.post (.heartbeat nodeId _)), .ok x⟩ =>
    decide (Segment nodeId.toList) && decide (Agent.Success x)
  | _ => false

/-- All heartbeats of a member are for its own node. -/
theorem beaten_plainly {a : A} (hsame : Segment (d.loop a).nodeId.toList) (h : d.Run ls n) :
    (history a ls).countP Agent.beaten ≤ (history a ls).countP plainlyBeaten := by
  refine List.countP_mono_left fun act hact hbeaten => ?_
  obtain ⟨h₁, h₂, hcut⟩ := List.append_of_mem hact
  have hr : (agent (d.loop a) (d.iterations a)).Reaches (history a ls) (n.client a).prog := h.reaches a
  have hnever := history_never (a := a) h
  rw [hcut] at hr hnever
  have hspeaks := (hr.upholds_at (fun c e hc => hnever c e (List.mem_append_left _ hc))
    (Agent.agent_sound (d.loop a) (d.iterations a))).2
  unfold Agent.beaten at hbeaten
  split at hbeaten
  next nodeId body x =>
    obtain ⟨rfl, -⟩ : nodeId = (d.loop a).nodeId ∧ _ := hspeaks
    exact Bool.and_eq_true_iff.mpr ⟨decide_eq_true hsame, hbeaten⟩
  next => simp at hbeaten

/-- The requests that the member's successful heartbeats were. -/
theorem successes_committed_le {a : A} (hsame : Segment (d.loop a).nodeId.toList)
    (h : d.Run ls n) :
    (history a ls).countP Agent.beaten ≤ (committedBeats n a).length := by
  have hown : ∀ c x, d.link.request? c = none → plainlyBeaten ⟨c, .ok x⟩ = false := by
    intro c x hq
    cases c with
    | client c =>
      cases c with
      | post ep => simp [Deployment.link] at hq
      | _ => rfl
    | _ => rfl
  have hlost : ∀ c x, d.link.Lost c x → plainlyBeaten ⟨c, .ok x⟩ = false := by
    intro c x hx
    cases c with
    | client c =>
      cases c with
      | post ep =>
        cases ep with
        | heartbeat nodeId body =>
          rcases x with e | status
          · exact Bool.and_false _
          · refine Bool.eq_false_iff.mpr fun hs => ?_
            obtain ⟨hid, hs⟩ := Bool.and_eq_true_iff.mp hs
            have hid : Segment nodeId.toList := of_decide_eq_true hid
            exact Addressed.not_lost (show Addressed (.heartbeat nodeId body) from hid) (d.cert a)
              (.inr (of_decide_eq_true hs)) hx
        | _ => rfl
      | _ => rfl
    | _ => rfl
  -- every success counted is the answer to a request of its own
  obtain ⟨hcount, hnodup, hreply⟩ := h.answers (start_fresh d) (k := a) hown hlost
  refine (beaten_plainly hsame h).trans ?_
  rw [hcount, ← List.length_map (f := Prod.fst)]
  refine (List.subperm_of_subset hnodup fun i hi => ?_).length_le
  obtain ⟨act, hmem, hbeaten⟩ := hreply i hi
  obtain ⟨hsent, c, x, ep, r, rfl, hq, hcarries, hd, hx⟩ := h.replied (start_fresh d) hmem
  unfold plainlyBeaten at hbeaten
  split at hbeaten
  next nodeId body x' he =>
    obtain ⟨rfl, hans⟩ := Act.mk.inj he
    obtain rfl := Except.ok.inj (eq_of_heq hans)
    have hx : x = .ok (statusOf r) := hx
    subst hx
    obtain rfl := Option.some.inj (show some _ = some ep from hq)
    obtain ⟨hid, hs⟩ := Bool.and_eq_true_iff.mp hbeaten
    have hid : Segment nodeId.toList := of_decide_eq_true hid
    have hep := Addressed.endpoint (show Addressed (.heartbeat nodeId body) from hid) hcarries
    obtain ⟨ws, hws, hbeat⟩ := success_beat h hep hd (of_decide_eq_true hs)
    refine List.mem_map.mpr ⟨(i, ws), List.mem_filter.mpr ⟨hws, ?_⟩, rfl⟩
    exact Bool.and_eq_true_iff.mpr ⟨decide_eq_true hsent, hbeat⟩
  next => simp at hbeaten

/-- **What the counter of successes is worth**: of the heartbeats that a member
whose `node_id` is the same in a URL has sent, each was committed at most once, as
an update of its own row, and those it has counted as successes all were. -/
theorem successes_committed (h : d.Run ls n) (a : A) (hsame : Segment (d.loop a).nodeId.toList) :
    (Agent.trace (history a ls)).results.count "success" ≤ (committedBeats n a).length ∧
      (committedBeats n a).length ≤ (sentBeats d n a).length ∧
      ∀ e ∈ committedBeats n a, ∃ loaded current, .updateNode loaded current ∈ e.2 ∧
        loaded.nodeId = (d.loop a).nodeId := by
  have hbeat : ∀ e ∈ committedBeats n a, (a, e.1) ∈ n.sent ∧ ∃ nodeId body,
      (d.reqs e.1).endpoint = .heartbeat nodeId body ∧
      ∃ loaded current, .updateNode loaded current ∈ e.2 ∧ loaded.nodeId = nodeId := by
    intro e he
    obtain ⟨hmem, hcond⟩ := List.mem_filter.mp he
    obtain ⟨hsent, hw⟩ := Bool.and_eq_true_iff.mp hcond
    obtain ⟨kind, ht⟩ := Controller.serving_journal Controller.World.start_fresh (run_server h)
      (Controller.mem_own.mpr hmem)
    exact ⟨of_decide_eq_true hsent, beat_endpoint ht hw⟩
  refine ⟨(successes_le h a).trans (successes_committed_le hsame h), ?_, fun e he => ?_⟩
  · -- no request is in the journal twice
    have hnodup : ((committedBeats n a).map Prod.fst).Nodup :=
      (Controller.serving_once Controller.World.start_fresh (run_server h)).sublist
        (List.filter_sublist.map _)
    rw [← List.length_map (f := Prod.fst)]
    refine (List.subperm_of_subset hnodup fun i hi => ?_).length_le
    obtain ⟨e, he, rfl⟩ := List.mem_map.mp hi
    obtain ⟨hsent, nodeId, body, hep, -⟩ := hbeat e he
    refine List.mem_map.mpr ⟨(a, e.1), List.mem_filter.mpr ⟨hsent, ?_⟩, rfl⟩
    simp [hep]
  · obtain ⟨hsent, nodeId, body, hep, loaded, current, hmem, hid⟩ := hbeat e he
    obtain ⟨front, m, back, -, -, -, -, -, hspeaks⟩ := sent_endpoint hsame h hsent
    rw [hep] at hspeaks
    exact ⟨loaded, current, hmem, hid.trans hspeaks.1⟩

/-- The theorem at the run of the example, in which one heartbeat is counted. -/
theorem pi_committed : ∃ ls n, pi.Run ls n ∧ 1 ≤ (committedBeats n ()).length ∧
    (committedBeats n ()).length ≤ (sentBeats pi n ()).length ∧
    ∀ e ∈ committedBeats n (), ∃ loaded current, .updateNode loaded current ∈ e.2 ∧
      loaded.nodeId = (pi.loop ()).nodeId := by
  obtain ⟨ls, n, h, -, -, hone⟩ := pi_run
  have hcommitted := successes_committed h () pi_segment
  rw [hone] at hcommitted
  exact ⟨ls, n, h, hcommitted⟩

end ZeroTrustLab.System
