import ZeroTrustLab.Controller.Confinement

/-!
# Whose row it is

Every stored row goes back to the one request that inserted it
(`serving_inserted`), and shows that request's payload for good. So what the
authorization rule of `register_node` asks of a payload is what can be said of
the rows, and no more: the rule compares `common_name` with the CN, and never
looks at `node_id`.

* `foreign_row`: a node registers under the `node_id` of another.
* `own_rows`: when every node names its own `node_id`, every row a node
  inserted is its own, and it inserted one.

The proof of the first is an induction over the run by way of
`serving_invariant`: a commit that inserts a row is one registration, whose
identity and payload are those of the request, and every later commit keeps a
row's `node_id`, CN and role. The journal says which request it was, so the row
can be traced to its arrival.
-/

namespace ZeroTrustLab.Controller

open Lib

variable {settings : Settings} {reqs : Rid → Request} {w₀ : World}
  {ls : List (Label Call Ans Exc Rid Env)} {c : Cfg Call Ans Exc Response Rid Session World}

/-- No CN is a node's and the controller's. -/
theorem not_isController_of_isNode {identity : MTLSIdentity} (h : identity.isNode = true) :
    identity.isController = false := by
  unfold MTLSIdentity.isNode at h
  unfold MTLSIdentity.isController
  obtain ⟨rest, hrest⟩ := List.isPrefixOf_iff_prefix.mp h
  rw [← hrest]
  rfl

/-- The request registers `payload`, and the authorization rule lets it. -/
def Authorized (settings : Settings) (req : Request) (payload : NodeCreate) : Prop :=
  req.endpoint = .registerNode (some payload.toNodeBase) ∧
  ∃ identity, identityOf settings req.headers = .ok identity ∧
    mayRegister identity payload.toNodeBase = true

/-- One request registers one payload. -/
theorem Authorized.unique {req : Request} {payload payload' : NodeCreate}
    (h : Authorized settings req payload) (h' : Authorized settings req payload') :
    payload.toNodeBase = payload'.toNodeBase :=
  Option.some.inj (Endpoint.registerNode.inj (h.1.symm.trans h'.1))

/-! ## Where rows come from -/

/-- Only a registration inserts a node, and it inserts its payload. -/
theorem Txn.insert {req : Request} {kind : TxnKind} {ws : List Write} {row : Node}
    (ht : Txn settings req kind ws) (hrow : .insertNode row ∈ ws) :
    kind = .registered ∧ ∃ payload, Authorized settings req payload ∧
      ∃ createdAt updatedAt k,
        row = Record.setPk k (newNode payload.toNodeBase createdAt updatedAt) := by
  cases ht with
  | registered createdAt updatedAt t k k' hid hreq hmay =>
    refine ⟨rfl, _, ⟨hreq, _, hid, hmay⟩, createdAt, updatedAt, k, ?_⟩
    simpa using hrow
  | revoked => simp at hrow
  | registerForbidden => simp at hrow
  | heartbeatForbidden => simp at hrow
  | beaten => simp at hrow
  | activated => simp at hrow

/-- What a transaction inserts is stored when it commits. -/
theorem Txn.inserted {req : Request} {kind : TxnKind} {ws : List Write} {d d' : Database}
    (ht : Txn settings req kind ws) (ha : d.applyAll ws = some d') {row : Node}
    (hrow : .insertNode row ∈ ws) : row ∈ d'.nodes.rows := by
  have hrows := (Database.applyAll_rows ha).1
  cases ht with
  | registered createdAt updatedAt t k k' =>
    obtain rfl : row = Record.setPk k (newNode _ createdAt updatedAt) := by simpa using hrow
    rw [hrows]
    exact List.mem_append_right _ (List.mem_singleton_self _)
  | revoked => simp at hrow
  | registerForbidden => simp at hrow
  | heartbeatForbidden => simp at hrow
  | beaten => simp at hrow
  | activated => simp at hrow

/-- After a transaction a row is one from before, or the one inserted. -/
theorem Txn.origin {req : Request} {kind : TxnKind} {ws : List Write} {d d' : Database}
    (ht : Txn settings req kind ws) (hg : Grounded d ws) (ha : d.applyAll ws = some d') {r' : Node}
    (hr' : r' ∈ d'.nodes.rows) :
    (∃ r ∈ d.nodes.rows, Kept r r') ∨ .insertNode r' ∈ ws := by
  cases ht.onNodes hg ha with
  | rejected _ hnodes => exact .inl ⟨r', hnodes ▸ hr', .refl r'⟩
  | registered _ _ _ _ _ _ _ _ hrows =>
    rw [hrows] at hr'
    rcases List.mem_append.mp hr' with hr | hr
    · exact .inl ⟨r', hr, .refl r'⟩
    · rw [List.mem_singleton.mp hr]
      exact .inr (List.mem_cons_self ..)
  | beaten now _ _ _ hst hrows =>
    rw [hrows] at hr'
    obtain ⟨r, hr, rfl⟩ := List.mem_map.mp hr'
    exact .inl ⟨r, hr, kept_onNodes now hst hr⟩

/-- Request `i` inserted the row, as it was then. -/
def InsertedBy (w : World) (i : Rid) (r : Node) : Prop :=
  ∃ ws ∈ w.own i, ∃ row, .insertNode row ∈ ws ∧ Kept row r

/-- The transactions of a request are those of the journal under its number. -/
theorem mem_own {w : World} {i : Rid} {ws : List Write} : ws ∈ w.own i ↔ (i, ws) ∈ w.journal := by
  unfold World.own
  constructor
  · intro h
    obtain ⟨⟨j, ws'⟩, hj, rfl⟩ := List.mem_map.mp h
    obtain ⟨hmem, hi⟩ := List.mem_filter.mp hj
    obtain rfl : j = i := of_decide_eq_true hi
    exact hmem
  · intro h
    exact List.mem_map.mpr ⟨(i, ws), List.mem_filter.mpr ⟨h, decide_eq_true rfl⟩, rfl⟩

/-- What a request committed was one of its transactions. -/
theorem serving_journal (hw : w₀.Fresh) (h : Run settings reqs w₀ ls c) {i : Rid} {ws : List Write}
    (hws : ws ∈ c.world.own i) : ∃ kind, Txn settings (reqs i) kind ws := by
  have hall : ∀ e ∈ c.world.journal, ∃ kind, Txn settings (reqs e.1) kind e.2 := by
    refine serving_invariant
      (P := fun _ j => ∀ e ∈ j, ∃ kind, Txn settings (reqs e.1) kind e.2) hw (by simp) ?_ h
    intro i kind ws d d' j ht _ _ hP e he
    rcases List.mem_append.mp he with he | he
    · exact hP e he
    · rw [List.mem_singleton.mp he]
      exact ⟨kind, ht⟩
  exact hall _ (mem_own.mp hws)

/-- **Where rows come from**: every stored row was there at the start, or goes
back to the request that inserted it. -/
theorem serving_inserted (hw : w₀.Fresh) (h : Run settings reqs w₀ ls c) {r : Node}
    (hr : r ∈ c.world.db.nodes.rows) :
    (∃ r₀ ∈ w₀.db.nodes.rows, Kept r₀ r) ∨ ∃ i, InsertedBy c.world i r := by
  have hall : ∀ r ∈ c.world.db.nodes.rows, (∃ r₀ ∈ w₀.db.nodes.rows, Kept r₀ r) ∨
      ∃ e ∈ c.world.journal, ∃ row, .insertNode row ∈ e.2 ∧ Kept row r := by
    refine serving_invariant (P := fun d j => ∀ r ∈ d.nodes.rows,
      (∃ r₀ ∈ w₀.db.nodes.rows, Kept r₀ r) ∨ ∃ e ∈ j, ∃ row, .insertNode row ∈ e.2 ∧ Kept row r)
      hw (fun r hr => .inl ⟨r, hr, .refl r⟩) ?_ h
    intro i kind ws d d' j ht hg ha hP r' hr'
    rcases ht.origin hg ha hr' with ⟨r, hr, hk⟩ | hins
    · rcases hP r hr with ⟨r₀, hr₀, hk₀⟩ | ⟨e, he, row, hrow, hk₀⟩
      · exact .inl ⟨r₀, hr₀, hk₀.trans hk⟩
      · exact .inr ⟨e, List.mem_append_left _ he, row, hrow, hk₀.trans hk⟩
    · exact .inr ⟨_, List.mem_append_right _ (List.mem_singleton_self _), r', hins, .refl r'⟩
  rcases hall r hr with hold | ⟨⟨i, ws⟩, he, row, hrow, hk⟩
  · exact .inl hold
  · exact .inr ⟨i, ws, mem_own.mpr he, row, hrow, hk⟩

/-- A committed row stays, as what it has become. -/
theorem serving_stored (hw : w₀.Fresh) (h : Run settings reqs w₀ ls c) {i : Rid} {ws : List Write}
    (hws : ws ∈ c.world.own i) {row : Node} (hrow : .insertNode row ∈ ws) :
    Stored c.world.db row := by
  have hall : ∀ e ∈ c.world.journal, ∀ row, .insertNode row ∈ e.2 → Stored c.world.db row := by
    refine serving_invariant
      (P := fun d j => ∀ e ∈ j, ∀ row, .insertNode row ∈ e.2 → Stored d row) hw (by simp) ?_ h
    intro i kind ws d d' j ht hg ha hP e he row hrow
    rcases List.mem_append.mp he with he | he
    · exact (hP e he row hrow).evolves (ht.evolves hg ha)
    · rw [List.mem_singleton.mp he] at hrow
      exact ⟨row, ht.inserted ha hrow, .refl row⟩
  exact hall _ (mem_own.mp hws) row hrow

/-- The inserter of a row was authorized, by the payload the row still shows. -/
theorem InsertedBy.payload {r : Node} {i : Rid} (hw : w₀.Fresh) (h : Run settings reqs w₀ ls c)
    (hi : InsertedBy c.world i r) :
    ∃ payload, Authorized settings (reqs i) payload ∧ r.nodeId = payload.nodeId ∧
      r.commonName = payload.commonName := by
  obtain ⟨ws, hws, row, hrow, hk⟩ := hi
  obtain ⟨kind, ht⟩ := serving_journal hw h hws
  obtain ⟨-, payload, ha, createdAt, updatedAt, k, rfl⟩ := ht.insert hrow
  exact ⟨payload, ha, hk.nodeId, hk.commonName⟩

/-! ## What an answer to a registration means -/

/-- The answer to a registration of a node that is already there. -/
def alreadyRegistered (nodeId : String) : Except Exc Response :=
  .error (.http 409 ("Node '" ++ nodeId ++ "' is already registered"))

/-- A registration that was not answered with a client error other than 409,
nor with a server error, was authorized, and its `node_id` is stored. -/
theorem serving_known (hw : w₀.Fresh) (h : Run settings reqs w₀ ls c) {i : Rid} {b : NodeBase}
    {r : Except Exc Response} (hreq : (reqs i).endpoint = .registerNode (some b))
    (hd : (c.party i).status = .done r) (hs : statusOf r = 409 ∨ statusOf r < 400) :
    ∃ payload, Authorized settings (reqs i) payload ∧
      ∃ row ∈ c.world.db.nodes.rows, row.nodeId = payload.nodeId := by
  have ho := serving_outcome hw h hd
  generalize hown : c.world.own i = own at ho
  -- a 409 or a success comes from two ends only
  cases ho with
  | health hnone => simp [hreq, Endpoint.body?] at hnone
  | unidentified _ hid =>
    rw [identityOf_error hid] at hs
    rcases identityError_status (reqs i).headers.xClientVerify (reqs i).headers.xClientDn
      with he | he | he <;> simp [statusOf, he] at hs
  | failed hf =>
    rcases hf.1 with rfl | ⟨site, -, rfl⟩ <;> simp [statusOf, Exc.status] at hs
  | revoked => simp [statusOf, Exc.status] at hs
  | answered hp ha =>
    cases ha with
    | duplicate hreq' hmay _ hrow hst =>
      obtain ⟨row, hr, hk⟩ := hst
      exact ⟨_, ⟨hreq', _, hp.extracted, hmay⟩, row, hr, hk.nodeId.trans hrow⟩
    | registered hreq' hmay _ ht hn =>
      obtain ⟨row, hrow, hk⟩ := hn
      obtain ⟨-, payload, ha, createdAt, updatedAt, k, rfl⟩ := ht.insert hrow
      obtain ⟨r, hr, hk'⟩ := serving_stored hw h (by rw [hown]; exact List.mem_singleton_self _) hrow
      exact ⟨payload, ha, r, hr, hk'.nodeId⟩
    | invalid => simp [statusOf, Exc.status] at hs
    | registerForbidden => simp [statusOf, Exc.status] at hs
    | clash => simp [statusOf, Exc.status] at hs
    | unread => simp [statusOf, Exc.status] at hs
    | read hread => simp [hreq, Endpoint.reads] at hread
    | missing hreq' => simp [hreq] at hreq'
    | heartbeatForbidden hreq' => simp [hreq] at hreq'
    | beaten hreq' => simp [hreq] at hreq'

/-- No two requests may register one `node_id` under two CNs. -/
def Agreed (settings : Settings) (reqs : Rid → Request) : Prop :=
  ∀ i j payload payload', Authorized settings (reqs i) payload →
    Authorized settings (reqs j) payload' → payload.nodeId = payload'.nodeId →
    payload.commonName = payload'.commonName

/-- Where the claims on a `node_id` agree, a row with the `node_id` of an
authorized payload has its CN. -/
theorem Agreed.commonName (hagreed : Agreed settings reqs) (h : Run settings reqs .start ls c)
    {i : Rid} {payload : NodeCreate} (ha : Authorized settings (reqs i) payload) {r : Node}
    (hr : r ∈ c.world.db.nodes.rows) (hid : r.nodeId = payload.nodeId) :
    r.commonName = payload.commonName := by
  rcases serving_inserted World.start_fresh h hr with ⟨r₀, hr₀, -⟩ | ⟨j, hj⟩
  · exact absurd hr₀ (by simp [World.start, Database.empty, Table.empty])
  · obtain ⟨payload', ha', hid', hcn⟩ := hj.payload World.start_fresh h
    rw [hcn]
    exact hagreed j i payload' payload ha' ha (hid'.symm.trans hid)

/-! ## A node's own rows -/

/-- The rows that node identities inserted are theirs. -/
structure OwnRows (settings : Settings) (reqs : Rid → Request) (w : World) : Prop where
  own : ∀ r ∈ w.db.nodes.rows, ∀ i, InsertedBy w i r → ∀ identity,
    identityOf settings (reqs i).headers = .ok identity → identity.isController = false →
    identity.nodeId = some r.nodeId ∧ r.commonName = identity.commonName
  /-- No certificate comes to own two rows. -/
  one : ∀ r ∈ w.db.nodes.rows, ∀ r' ∈ w.db.nodes.rows, ∀ i i', InsertedBy w i r →
    InsertedBy w i' r' → ∀ identity identity',
    identityOf settings (reqs i).headers = .ok identity → identity.isController = false →
    identityOf settings (reqs i').headers = .ok identity' → identity'.isController = false →
    identity.commonName = identity'.commonName → r = r'

/-- A node's certificate presented with somebody else's `node_id`. -/
def squat : Request :=
  ⟨⟨some "SUCCESS", some "CN=pi-03.thesis.local", some "03"⟩,
    .registerNode (some ⟨"pi-01", "pi-03.thesis.local", "sensor", .onboarding, none, none⟩)⟩

/-- It is answered 201, and the row is not the node's own. -/
theorem foreign_row :
    ∃ ls c, Run {} (arrivals [.request squat]) .start ls c ∧
      (∃ body, (c.party 0).status = .done (.ok ⟨201, body⟩)) ∧
      ¬ OwnRows {} (arrivals [.request squat]) c.world := by
  obtain ⟨ls, c, h, hw, hdone⟩ := serial_serving {} [.request squat] .start
  let row : Node := Record.setPk 1
    (newNode ⟨"pi-01", "pi-03.thesis.local", "sensor", .onboarding, none, none⟩ 0 0)
  have hr : row ∈ c.world.db.nodes.rows := by
    rw [hw]
    decide +kernel
  have hi : InsertedBy c.world 0 row := by
    obtain ⟨ws, hws, hrow⟩ : ∃ ws ∈ c.world.own 0, .insertNode row ∈ ws := by
      rw [hw]
      decide +kernel
    exact ⟨ws, hws, row, hrow, .refl row⟩
  refine ⟨ls, c, h, ⟨_, hdone 0 (.ok ⟨201, .node row⟩) (by decide +kernel)⟩, fun hown => ?_⟩
  have hnode := (hown.own row hr 0 hi _ rfl (by decide)).1
  exact absurd hnode (by decide)

/-- Whenever the request registers a node by the right of its own CN, it names
the `node_id` of that CN. -/
def SelfNamed (settings : Settings) (req : Request) : Prop :=
  ∀ payload identity, Authorized settings req payload →
    identityOf settings req.headers = .ok identity → identity.isController = false →
    identity.nodeId = some payload.nodeId

/-- **A node registers itself only**, in every run whose node registrations name
the node's own `node_id`. The hypothesis is about the bodies that were sent,
since the endpoint compares their CN with the certificate and never looks at the
`node_id`. -/
theorem own_rows (hself : ∀ i, SelfNamed settings (reqs i)) (h : Run settings reqs .start ls c) :
    (∀ r ∈ c.world.db.nodes.rows, ∃ i, InsertedBy c.world i r) ∧
    OwnRows settings reqs c.world := by
  have hown : ∀ r ∈ c.world.db.nodes.rows, ∀ i, InsertedBy c.world i r → ∀ identity,
      identityOf settings (reqs i).headers = .ok identity → identity.isController = false →
      identity.nodeId = some r.nodeId ∧ r.commonName = identity.commonName := by
    intro r _ i hi identity hid hnot
    obtain ⟨payload, ⟨hreq, identity', hid', hmay⟩, hnode, hcn⟩ := hi.payload World.start_fresh h
    obtain rfl := Except.ok.inj (hid.symm.trans hid')
    refine ⟨by rw [hnode]; exact hself i _ _ ⟨hreq, _, hid, hmay⟩ hid hnot, ?_⟩
    rcases mayRegister_iff.mp hmay with hc | ⟨-, he⟩
    · rw [hnot] at hc
      exact absurd hc (by simp)
    · exact hcn.trans he
  refine ⟨fun r hr => ?_, hown, ?_⟩
  · rcases serving_inserted World.start_fresh h hr with ⟨r₀, hr₀, -⟩ | hi
    · exact absurd hr₀ (by simp [World.start, Database.empty, Table.empty])
    · exact hi
  · intro r hr r' hr' i i' hi hi' identity identity' hid hnot hid' hnot' hcn
    obtain ⟨hnode, -⟩ := hown r hr i hi identity hid hnot
    obtain ⟨hnode', -⟩ := hown r' hr' i' hi' identity' hid' hnot'
    refine c.world.db.nodes.eq_of_key hr hr' (Option.some.inj ?_)
    have hsame : identity.nodeId = identity'.nodeId := by
      unfold MTLSIdentity.nodeId MTLSIdentity.isNode
      rw [hcn]
    exact hnode.symm.trans (hsame.trans hnode')

/-- The headers of the example are those of pi-01. -/
theorem identityOf_nodeHeaders (settings : Settings) : identityOf settings nodeHeaders
    = .ok ⟨"pi-01.thesis.local", "CN=pi-01.thesis.local", true, some 1⟩ := by
  unfold nodeHeaders
  rw [identityOf_verified]
  decide +kernel

/-- In the enrolment example every registration names its own node. -/
theorem enrolment_selfNamed (settings : Settings) (i : Rid) :
    SelfNamed settings (arrivals enrolment i) := by
  intro payload identity ha hid _
  obtain ⟨hreq, -⟩ := ha
  rcases i with _ | _ | i
  · have hid : identityOf settings nodeHeaders = .ok identity := hid
    rw [identityOf_nodeHeaders] at hid
    obtain rfl := Except.ok.inj hid
    rw [← Option.some.inj (Endpoint.registerNode.inj hreq)]
    decide +kernel
  · exact absurd hreq (by simp [arrivals, requests, enrolment])
  · exact absurd hreq (by simp [arrivals, requests, enrolment])

/-- The enrolment of `pi-01` under its own name. -/
theorem enrolment_own_rows :
    ∃ ls c, Run {} (arrivals enrolment) .start ls c ∧
      (c.world.db.nodes.rows.map fun r => (r.nodeId, r.commonName))
        = [("pi-01", "pi-01.thesis.local")] ∧
      OwnRows {} (arrivals enrolment) c.world := by
  obtain ⟨ls, c, h, hw, -⟩ := serial_serving {} enrolment .start
  refine ⟨ls, c, h, ?_, (own_rows (enrolment_selfNamed {}) h).2⟩
  rw [hw]
  decide +kernel

end ZeroTrustLab.Controller
