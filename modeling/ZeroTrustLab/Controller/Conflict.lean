import ZeroTrustLab.Agent.HttpClient
import ZeroTrustLab.Controller.Ownership

/-!
# What a 409 means

The agent takes 409 for "already known" and starts to beat. `register_node`
keeps that answer silent for the same reason: its comment argues that whoever
gets so far owns the row. Both are right about rows whose `common_name` is the
requester's, and nothing makes it so.

`KnownMeansOwn` says of a run of the controller, among any other requests, what
the two rely on; `known_means_own` proves it of the runs in which no `node_id`
is asked for under two CNs, and `squatted_conflict` is a run in which it fails.

A following heartbeat is one whose first call comes after the registration was
answered. What the registration tells about the table is then known when the
heartbeat starts (`serving_outcome_from`), and rows stay.

The proof ties three moments together: the lookup of the registration that
found the row, its answer, and the lookup of the heartbeat. Between any two of
them rows may be beaten but not taken away, and a row keeps its CN. So the row
that answered 409 is the row the heartbeat finds, and under the hypothesis its
CN is the one both requests carry.
-/

namespace ZeroTrustLab.Controller

open Lib

variable {settings : Settings} {reqs : Rid → Request}
  {ls ls₁ ls₂ : List (Label Call Ans Exc Rid Env)}
  {c c₁ : Cfg Call Ans Exc Response Rid Session World} {i j : Rid}

/-! ## Heartbeats of a stored node -/

/-- The `node_id` is stored under the CN. -/
def Fact.held (nodeId commonName : String) : Fact :=
  ⟨fun _ d => ∃ r ∈ d.nodes.rows, r.nodeId = nodeId ∧ r.commonName = commonName,
    fun ⟨r, hr, hid, hcn⟩ _ he => by
      obtain ⟨r', hr', hk⟩ := he r hr
      exact ⟨r', hr', hk.nodeId.trans hid, hk.commonName.trans hcn⟩⟩

/-- A heartbeat of a node that was stored under the identity's CN when it
started is not turned away for the node. -/
theorem Outcome.heartbeat_accepted {req : Request} {nodeId : String} {body : NodeHeartbeat}
    {identity : MTLSIdentity} {h : History} {d : Database} {r : Except Exc Response}
    {own : List (List Write)} (hreq : req.endpoint = .heartbeat nodeId (some body))
    (hid : identityOf settings req.headers = .ok identity)
    (ho : Outcome settings req (.held nodeId identity.commonName) h d r own) :
    statusOf r ≠ 404 ∧ r ≠ .error (.http 403 "Cannot heartbeat on behalf of another node") := by
  cases ho with
  | health => simp [statusOf]
  | unidentified _ hid' =>
    rw [hid] at hid'
    exact absurd hid' (by simp)
  | failed hf => rcases hf.1 with rfl | ⟨site, -, rfl⟩ <;> simp [statusOf, Exc.status]
  | revoked => simp [statusOf, Exc.status, revokedDetail]
  | answered hp ha =>
    obtain rfl := Except.ok.inj (hid.symm.trans hp.extracted)
    cases ha with
    | invalid => simp [statusOf, Exc.status]
    | read hread => simp [hreq, Endpoint.reads] at hread
    | registerForbidden hreq' => simp [hreq] at hreq'
    | duplicate hreq' => simp [hreq] at hreq'
    | clash hreq' => simp [hreq] at hreq'
    | registered hreq' => simp [hreq] at hreq'
    | unread hreq' => simp [hreq] at hreq'
    -- => both refusals are excluded by the row held before the request began
    | missing hreq' hwhen =>
      obtain ⟨rfl, -⟩ := Endpoint.heartbeat.inj (hreq.symm.trans hreq')
      obtain ⟨_, d', ⟨r', hr', hid', -⟩, hnone⟩ := hwhen
      exact absurd hid' (hnone r' hr')
    | heartbeatForbidden hreq' hwhen hid' hcn =>
      obtain ⟨rfl, -⟩ := Endpoint.heartbeat.inj (hreq.symm.trans hreq')
      obtain ⟨_, d', ⟨r', hr', hid'', hcn'⟩, hmem⟩ := hwhen
      rw [d'.nodes.eq_of_key hmem hr' (hid'.trans hid''.symm)] at hcn
      exact absurd hcn'.symm hcn
    | beaten _ _ _ hr =>
      rcases hr with ⟨n, rfl⟩ | rfl | ⟨rfl, -⟩ <;> simp [statusOf, Exc.status]

/-! ## Requests for a node held by somebody else -/

/-- A request to register a payload that its row does not agree with, and
that met no failing call, has left an audit row. -/
theorem Outcome.audited {req : Request} {payload : NodeCreate} {identity : MTLSIdentity}
    {h : History} {d : Database} {r : Except Exc Response} {own : List (List Write)}
    (hreq : req.endpoint = .registerNode (some payload.toNodeBase))
    (hid : identityOf settings req.headers = .ok identity)
    (hok : ∀ d e, ⟨d, .error e⟩ ∉ h) (hnot : mayRegister identity payload.toNodeBase = false)
    (ho : Outcome settings req .nothing h d r own) :
    ∃ e, (∃ ws ∈ own, .insertEvent e ∈ ws) ∧ e.action = .authFailure := by
  -- every end behind the check of the CN is excluded
  have hmay : ∀ {payload' : NodeCreate},
      req.endpoint = .registerNode (some payload'.toNodeBase) →
      mayRegister identity payload'.toNodeBase = true → False := by
    intro payload' hreq' hmay
    have he := Option.some.inj (Endpoint.registerNode.inj (hreq'.symm.trans hreq))
    rw [he, hnot] at hmay
    exact absurd hmay (by simp)
  have hbody : req.endpoint.body? ≠ none := by
    rw [hreq]
    simp [Endpoint.body?]
  cases ho with
  | health hnone => exact absurd hnone hbody
  | unidentified _ hid' =>
    rw [hid] at hid'
    exact absurd hid' (by simp)
  | failed hf =>
    obtain ⟨-, d', hmem⟩ := hf
    exact absurd hmem (hok d' _)
  | revoked _ _ _ _ ht =>
    cases ht with
    | revoked t k => exact ⟨_, ⟨_, List.mem_singleton_self _, List.mem_singleton_self _⟩, rfl⟩
  | answered hp ha =>
    obtain rfl := Except.ok.inj (hid.symm.trans hp.extracted)
    cases ha with
    | registerForbidden _ _ ht =>
      cases ht with
      | registerForbidden t k =>
        exact ⟨_, ⟨_, List.mem_singleton_self _, List.mem_singleton_self _⟩, rfl⟩
    | invalid hreg => exact absurd hreq (hreg payload)
    | duplicate hreq' hmay' => exact (hmay hreq' hmay').elim
    | clash hreq' hmay' => exact (hmay hreq' hmay').elim
    | registered hreq' hmay' => exact (hmay hreq' hmay').elim
    | unread hreq' hmay' => exact (hmay hreq' hmay').elim
    | read hread => simp [hreq, Endpoint.reads] at hread
    | missing hreq' => simp [hreq] at hreq'
    | heartbeatForbidden hreq' => simp [hreq] at hreq'
    | beaten hreq' => simp [hreq] at hreq'

/-! ## What the agent takes a 409 for -/

/-- What the agent and `register_node` take a 409 for. -/
structure KnownMeansOwn (settings : Settings) (reqs : Rid → Request)
    (ls : List (Label Call Ans Exc Rid Env)) (c : Cfg Call Ans Exc Response Rid Session World) :
    Prop where
  /-- A node that is told 409 is told so of a row with its own CN. -/
  conflict : ∀ i identity payload r, identityOf settings (reqs i).headers = .ok identity →
    identity.isNode = true → (reqs i).endpoint = .registerNode (some payload) →
    (c.party i).status = .done r → statusOf r = 409 →
    ∃ row ∈ c.world.db.nodes.rows, row.nodeId = payload.nodeId ∧
      row.commonName = identity.commonName
  /-- Once an agent whose CN is its `node_common_name` has been told 201 or
  409, no heartbeat that it starts then is turned away for the node. -/
  heartbeat : ∀ ls₁ ls₂ c₁, ls = ls₁ ++ ls₂ → Run settings reqs .start ls₁ c₁ →
    Steps controller c₁ ls₂ c → ∀ (agent : Agent.Settings) i j identity identity' r r' body,
    identityOf settings (reqs i).headers = .ok identity →
    identity.commonName = agent.nodeCommonName → (c₁.party i).status = .done r →
    Agent.Known agent (reqs i).endpoint (statusOf r) → (∀ lab ∈ ls₁, lab.by? ≠ some j) →
    identityOf settings (reqs j).headers = .ok identity' →
    identity'.commonName = agent.nodeCommonName →
    (reqs j).endpoint = .heartbeat agent.nodeId (some body) → (c.party j).status = .done r' →
    statusOf r' ≠ 404 ∧ r' ≠ .error (.http 403 "Cannot heartbeat on behalf of another node")
  /-- Whoever asks for a `node_id` held under another CN, than the payload's or
  than the node's own, leaves an audit row, unless a database call fails. -/
  audited : ∀ i identity (payload : NodeCreate) r row,
    identityOf settings (reqs i).headers = .ok identity →
    (reqs i).endpoint = .registerNode (some payload.toNodeBase) →
    (c.party i).status = .done r → (∀ d e, .call i ⟨d, .error e⟩ ∉ ls) →
    row ∈ c.world.db.nodes.rows → row.nodeId = payload.nodeId →
    (row.commonName ≠ payload.commonName ∨
      identity.isController = false ∧ row.commonName ≠ identity.commonName) →
    ∃ e ∈ c.world.db.events.rows, (∃ ws ∈ c.world.own i, .insertEvent e ∈ ws) ∧
      e.action = .authFailure

/-- **A 409 means "registered by you"** in every run in which no two requests
may register one `node_id` under two CNs: the row is there with the requester's
CN, and no later heartbeat of the requester for it is told that it is unknown or
another's. -/
theorem known_means_own (hagreed : Agreed settings reqs) (h : Run settings reqs .start ls c) :
    KnownMeansOwn settings reqs ls c where
  conflict := by
    intro i identity b r hid hnode hreq hd hs
    obtain ⟨payload, ha, row, hr, hrow⟩ := serving_known World.start_fresh h hreq hd (.inl hs)
    obtain rfl := Option.some.inj (Endpoint.registerNode.inj (hreq.symm.trans ha.1))
    obtain ⟨-, identity', hid', hmay⟩ := id ha
    obtain rfl := Except.ok.inj (hid.symm.trans hid')
    refine ⟨row, hr, hrow, (hagreed.commonName h ha hr hrow).trans ?_⟩
    rcases mayRegister_iff.mp hmay with hc | ⟨-, hcn⟩
    · rw [not_isController_of_isNode hnode] at hc
      exact absurd hc (by simp)
    · exact hcn
  heartbeat := by
    intro ls₁ ls₂ c₁ _ h₁ h₂ agent i j identity identity' r r' body hid hcn hd hknown hj hid' hcn'
      hreq' hd'
    obtain ⟨⟨ip, hreq⟩, hacc⟩ := Agent.known_iff.mp hknown
    have hs : statusOf r = 409 ∨ statusOf r < 400 := hacc.imp_right fun hlt => by omega
    obtain ⟨payload, ha, row, hr, hrow⟩ := serving_known World.start_fresh h₁ hreq hd hs
    have hpay : Agent.registration agent ip = payload.toNodeBase :=
      Option.some.inj (Endpoint.registerNode.inj (hreq.symm.trans ha.1))
    -- the row that the 409 or 201 speaks of carries the CN of the agent's certificate
    have hrowcn : row.commonName = identity'.commonName := by
      rw [hagreed.commonName h₁ ha hr hrow, hcn', ← hpay]
      rfl
    have hrowid : row.nodeId = agent.nodeId := by
      rw [hrow, ← hpay]
      rfl
    have hheld : (Fact.held agent.nodeId identity'.commonName).holds [] c₁.world.db :=
      ⟨row, hr, hrowid, hrowcn⟩
    exact (serving_outcome_from World.start_fresh h₁ hj hheld h₂ hd').heartbeat_accepted hreq' hid'
  audited := by
    intro i identity payload r row hid hreq hd hok hr hrow hother
    -- if it could register, the row's CN would be its own
    have hnot : mayRegister identity payload.toNodeBase = false := by
      by_contra hmay
      have hmay : mayRegister identity payload.toNodeBase = true := by simpa using hmay
      have hcn := hagreed.commonName h ⟨hreq, identity, hid, hmay⟩ hr hrow
      rcases hother with hne | ⟨hnode, hne⟩
      · exact hne hcn
      · rcases mayRegister_iff.mp hmay with hc | ⟨-, he⟩
        · rw [hnode] at hc
          exact absurd hc (by simp)
        · exact hne (hcn.trans he)
    obtain ⟨e, ⟨ws, hws, he⟩, haction⟩ := (serving_outcome World.start_fresh h hd).audited hreq hid
      (fun d e hmem => hok d e (mem_acts.mp hmem)) hnot
    exact ⟨e, event_of_own World.start_fresh h hws he, ⟨ws, hws, he⟩, haction⟩

/-- `pi-03` has taken the `node_id` before `pi-01` enrols. -/
def squatted : List Event := .request squat :: enrolment

/-- `pi-01` is told 409, and then that it is somebody else. -/
theorem squatted_conflict :
    ∃ ls c, Run {} (arrivals squatted) .start ls c ∧
      (c.party 1).status = .done (alreadyRegistered "pi-01") ∧
      (c.party 2).status = .done (.error (.http 403 "Cannot heartbeat on behalf of another node")) ∧
      ¬ KnownMeansOwn {} (arrivals squatted) ls c := by
  obtain ⟨ls, c, h, hw, hdone⟩ := serial_serving {} squatted .start
  have hfirst : (c.party 1).status = .done (alreadyRegistered "pi-01") :=
    hdone 1 _ (by decide +kernel)
  refine ⟨ls, c, h, hfirst, hdone 2 _ (by decide +kernel), fun hk => ?_⟩
  obtain ⟨row, hr, -, hcn⟩ := hk.conflict 1 _ _ _ (identityOf_nodeHeaders {}) (by decide) rfl
    hfirst rfl
  have hrows : (c.world.db.nodes.rows.map fun r => r.commonName) = ["pi-03.thesis.local"] := by
    rw [hw]
    decide +kernel
  have hmem : row.commonName ∈ c.world.db.nodes.rows.map fun r => r.commonName :=
    List.mem_map_of_mem hr
  rw [hrows, hcn] at hmem
  exact absurd hmem (by decide)

/-- An agent that registers again after a restart. -/
def restart : List Event := enrolment.take 1 ++ enrolment

/-- In the restart example the claims on each `node_id` agree. -/
theorem restart_agreed (settings : Settings) : Agreed settings (arrivals restart) := by
  have hcn : ∀ i payload, Authorized settings (arrivals restart i) payload →
      payload.commonName = "pi-01.thesis.local" := by
    intro i payload ⟨hreq, _⟩
    rcases i with _ | _ | _ | i
    · rw [← Option.some.inj (Endpoint.registerNode.inj hreq)]
    · rw [← Option.some.inj (Endpoint.registerNode.inj hreq)]
    · exact absurd hreq (by simp [arrivals, requests, restart, enrolment])
    · exact absurd hreq (by simp [arrivals, requests, restart, enrolment])
  intro i j payload payload' ha ha' _
  rw [hcn i payload ha, hcn j payload' ha']

/-- It is told 409, of its own row. -/
theorem restart_known_means_own :
    ∃ ls c, Run {} (arrivals restart) .start ls c ∧
      (c.party 1).status = .done (alreadyRegistered "pi-01") ∧
      KnownMeansOwn {} (arrivals restart) ls c := by
  obtain ⟨ls, c, h, -, hdone⟩ := serial_serving {} restart .start
  exact ⟨ls, c, h, hdone 1 _ (by decide +kernel), known_means_own (restart_agreed {}) h⟩

end ZeroTrustLab.Controller
