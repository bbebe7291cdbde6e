import ZeroTrustLab.Controller.Serial
import ZeroTrustLab.Controller.Runs

/-!
# What requests can change, and what they leave behind

Two frame results over every interleaving, both read off `serving_commit`:

* `write_confinement`: a move changes the node table by one registration that
  its CN authorizes, or by one heartbeat of a row with its CN, and nothing else
  ever changes; requests that are turned away or only read change no node.
* `audit_in_step`: the audit table keeps step with the node table, whatever
  database calls fail. `Registrations` is the invariant: the node rows and the
  registration rows of the audit table correspond in order, since they are
  only ever inserted together.

Neither result looks at a program. A commit is one of the six transactions of
`Transactions`, and what a transaction does to the two tables is known there;
what is left is a case analysis over six kinds, and the fact that nothing is
committed between two moves but by the mover. Failures need no case of their
own, since a transaction that fails commits nothing.
-/

namespace ZeroTrustLab.Controller

open Lib

variable {settings : Settings} {reqs : Rid → Request} {w₀ : World}
  {ls ls' : List (Label Call Ans Exc Rid Env)} {lab : Label Call Ans Exc Rid Env}
  {c c' : Cfg Call Ans Exc Response Rid Session World}

/-! ## Writes to the node table -/

/-- The changes of the node rows that a request may make. -/
inductive NodeChange (settings : Settings) (req : Request) (rows : List Node) : List Node → Prop where
  | registered {identity : MTLSIdentity} {payload : NodeCreate} (createdAt updatedAt : Time) (k : Nat)
      (hid : identityOf settings req.headers = .ok identity)
      (hreq : req.endpoint = .registerNode (some payload.toNodeBase))
      (hmay : identity.isController = true ∨
        identity.isNode = true ∧ payload.commonName = identity.commonName) :
      NodeChange settings req rows
        (rows ++ [Record.setPk k (newNode payload.toNodeBase createdAt updatedAt)])
  | heartbeat {identity : MTLSIdentity} {body : NodeHeartbeat} {row : Node} (state : NodeState)
      (updatedAt : Time) (lastHeartbeatAt : Option Time)
      (hid : identityOf settings req.headers = .ok identity)
      (hreq : req.endpoint = .heartbeat row.nodeId (some body)) (hrow : row ∈ rows)
      (hcn : row.commonName = identity.commonName)
      (hstate : state = row.state ∨ row.state = .onboarding ∧ state = .active) :
      NodeChange settings req rows
        (rows.map fun r =>
          if r.id = row.id then
            { row with state := state, updatedAt := updatedAt, lastHeartbeatAt := lastHeartbeatAt }
          else r)

/-- A kept row differs in the state and the two heartbeat timestamps only. -/
theorem Kept.eq_update {r r' : Node} (h : Kept r r') :
    r' = { r with
      state := r'.state, updatedAt := r'.updatedAt, lastHeartbeatAt := r'.lastHeartbeatAt } :=
  Node.ext h.nodeId h.commonName h.role rfl h.ipAddress h.notes h.id h.createdAt rfl rfl

/-- The controller may register any node, and a node those under its own CN. -/
theorem mayRegister_iff {identity : MTLSIdentity} {payload : NodeBase} :
    mayRegister identity payload = true ↔ identity.isController = true ∨
      identity.isNode = true ∧ payload.commonName = identity.commonName := by
  unfold mayRegister
  rw [Bool.or_eq_true, Bool.and_eq_true, beq_iff_eq, or_comm, eq_comm (a := identity.commonName)]

/-- Only an identified request to register or to beat changes nodes. -/
theorem NodeChange.writes {req : Request} {rows rows' : List Node}
    (h : NodeChange settings req rows rows') :
    req.endpoint.reads = false ∧ ∃ identity, identityOf settings req.headers = .ok identity := by
  cases h with
  | registered _ _ _ hid hreq => exact ⟨by rw [hreq]; rfl, _, hid⟩
  | heartbeat _ _ _ hid hreq => exact ⟨by rw [hreq]; rfl, _, hid⟩

/-- Writing a beaten node back is the heartbeat of the row it was loaded from. -/
theorem NodeChange.of_stored {req : Request} {identity : MTLSIdentity} {body : NodeHeartbeat}
    {loaded : Node} {d : Database} (now : Time) (hid : identityOf settings req.headers = .ok identity)
    (hreq : req.endpoint = .heartbeat loaded.nodeId (some body))
    (hcn : identity.commonName = loaded.commonName) (hst : Stored d loaded) :
    NodeChange settings req d.nodes.rows
      ((Write.updateNode loaded (loaded.beaten now)).onNodes d.nodes.rows) := by
  obtain ⟨row, hrow, hk⟩ := hst
  have hchange := (changed_beaten now hk).1
  -- only the row itself has its primary key, so the update touches nothing else
  have hmap : (Write.updateNode loaded (loaded.beaten now)).onNodes d.nodes.rows =
      d.nodes.rows.map fun r =>
        if r.id = row.id then
          { row with
            state := (Node.changed loaded (loaded.beaten now) row).state
            updatedAt := (Node.changed loaded (loaded.beaten now) row).updatedAt
            lastHeartbeatAt := (Node.changed loaded (loaded.beaten now) row).lastHeartbeatAt }
        else r := by
    rw [← hchange.eq_update]
    refine List.map_congr_left fun r hr => ?_
    rw [hk.id]
    by_cases hid : r.id = loaded.id
    · rw [if_pos hid, if_pos hid, d.nodes.eq_of_pk hr hrow (hid.trans hk.id.symm)]
    · rw [if_neg hid, if_neg hid]
  rw [hmap]
  exact .heartbeat _ _ _ hid (by rw [hk.nodeId]; exact hreq) hrow (hk.commonName.trans hcn.symm)
    hchange.state

/-- A transaction changes no node, or as `NodeChange` allows. -/
theorem Txn.nodeChange {req : Request} {kind : TxnKind} {ws : List Write} {d d' : Database}
    (ht : Txn settings req kind ws) (hg : Grounded d ws) (ha : d.applyAll ws = some d') :
    d'.nodes = d.nodes ∨ NodeChange settings req d.nodes.rows d'.nodes.rows := by
  cases ht.onNodes hg ha with
  | rejected _ hnodes => exact .inl hnodes
  | registered createdAt updatedAt t k k' hid hreq hmay hrows =>
    right
    rw [hrows]
    exact .registered createdAt updatedAt k hid hreq (mayRegister_iff.mp hmay)
  | beaten now hid hreq hcn hst hrows =>
    right
    rw [hrows]
    exact .of_stored now hid hreq hcn hst

/-- A transaction of a rejection is the audit row of the rejection. -/
theorem Txn.rejection {req : Request} {kind : TxnKind} {ws : List Write}
    (ht : Txn settings req kind ws)
    (hk : kind = .revoked ∨ kind = .registerForbidden ∨ kind = .heartbeatForbidden) :
    ∃ e, ws = [.insertEvent e] ∧ e.action = .authFailure ∧ e.result = .rejected := by
  cases ht with
  | revoked => exact ⟨_, rfl, rfl, rfl⟩
  | registerForbidden => exact ⟨_, rfl, rfl, rfl⟩
  | heartbeatForbidden => exact ⟨_, rfl, rfl, rfl⟩
  | registered => simp at hk
  | beaten => simp at hk
  | activated => simp at hk

/-- A request turned away has committed nothing but an audit row. -/
theorem Outcome.own_of_rejected {req : Request} {F₀ : Fact} {h : History} {d : Database}
    {e : Exc} {own : List (List Write)} (ho : Outcome settings req F₀ h d (.error e) own)
    (he : (∃ status detail, e = .http status detail) ∨ (∃ fields, e = .validation fields) ∨
      e = .integrity) : ∀ ws ∈ own, ∃ ev, ws = [.insertEvent ev] := by
  intro ws hws
  cases ho with
  | unidentified => simp at hws
  | failed => simp at hws
  | revoked _ _ _ _ ht =>
    rw [List.mem_singleton.mp hws]
    exact (ht.rejection (.inl rfl)).imp fun _ h => h.1
  | answered _ ha =>
    cases ha with
    | invalid => simp at hws
    | read => simp at hws
    | duplicate => simp at hws
    | clash => simp at hws
    | missing => simp at hws
    | registerForbidden _ _ ht =>
      rw [List.mem_singleton.mp hws]
      exact (ht.rejection (.inr (.inl rfl))).imp fun _ h => h.1
    | heartbeatForbidden _ _ _ _ ht =>
      rw [List.mem_singleton.mp hws]
      exact (ht.rejection (.inr (.inr rfl))).imp fun _ h => h.1
    | unread => simp at he
    | beaten _ _ _ hr => rcases hr with ⟨n, hr⟩ | hr | ⟨hr, -⟩ <;> simp_all

/-- **Write confinement**, over every interleaving: a move leaves the node table
alone, or adds the one row that its request may register, or beats the one row
whose CN is that of its request. -/
theorem write_confinement (h : Run settings reqs .start ls c) :
    (∀ lab c', Step controller c lab c' → c'.world.db.nodes = c.world.db.nodes ∨
      ∃ i, lab.by? = some i ∧
        NodeChange settings (reqs i) c.world.db.nodes.rows c'.world.db.nodes.rows) ∧
    (∀ ls' c', Steps controller c ls' c' →
      ∀ r ∈ c.world.db.nodes.rows, ∃ r' ∈ c'.world.db.nodes.rows, Kept r r') ∧
    (c.world.db.nodes.rows.map fun r => r.nodeId).Nodup ∧
    (∀ i, (reqs i).endpoint.reads = true ∨
        (∃ e, identityOf settings (reqs i).headers = .error e) ∨
        (∃ e, (c.party i).status = .done (.error e) ∧ ((∃ status detail, e = .http status detail) ∨
          (∃ fields, e = .validation fields) ∨ e = .integrity)) →
      ∀ m m', Moves settings reqs .start ls c i m m' →
        m'.world.db.nodes = m.world.db.nodes) := by
  refine ⟨fun lab c' hs => ?_, fun ls' c' h' => (serving_grows World.start_fresh h h').1,
    c.world.db.nodes.keys, fun i hi m m' hmove => ?_⟩
  · rcases serving_commit World.start_fresh h hs with ⟨hdb, -⟩ | ⟨i, kind, ws, hby, ht, hg, ha, -⟩
    · exact .inl (by rw [hdb])
    · exact (ht.nodeChange hg ha).imp id fun hn => ⟨i, hby, hn⟩
  · rcases hmove.own World.start_fresh with hdb | ⟨kind, ws, hws, ht, hg, ha⟩
    · rw [hdb]
    · -- a request that reads, one without an identity, one that was refused
      rcases hi with hread | ⟨e, hid⟩ | ⟨e, hd, he⟩
      · rcases ht.nodeChange hg ha with hsame | hn
        · exact hsame
        · rw [hn.writes.1] at hread
          exact absurd hread (by simp)
      · rcases ht.nodeChange hg ha with hsame | hn
        · exact hsame
        · obtain ⟨identity, hid'⟩ := hn.writes.2
          rw [hid] at hid'
          exact absurd hid' (by simp)
      · obtain ⟨ev, rfl⟩ := (serving_outcome World.start_fresh h hd).own_of_rejected he ws hws
        exact Table.ext (Database.applyAll_rows ha).1

/-- A node's certificate, as nginx announces it. -/
def nodeHeaders : Headers := ⟨some "SUCCESS", some "CN=pi-01.thesis.local", some "01"⟩

/-- A node registers itself and reports for the first time. -/
def enrolment : List Event :=
  [.request ⟨nodeHeaders, .registerNode (some ⟨"pi-01", "pi-01.thesis.local", "sensor", .onboarding,
      none, none⟩)⟩,
    .env (.tick 7), .request ⟨nodeHeaders, .heartbeat "pi-01" (some ⟨none⟩)⟩]

/-- It is then active, and whatever comes next changes it by a heartbeat or
not at all. -/
theorem enrolment_write_confinement :
    ∃ ls c, Run {} (arrivals enrolment) .start ls c ∧
      (c.world.db.nodes.rows.map fun r => (r.nodeId, r.state)) = [("pi-01", .active)] ∧
      ∀ lab c', Step controller c lab c' → c'.world.db.nodes = c.world.db.nodes ∨
        ∃ i, lab.by? = some i ∧
          NodeChange {} (arrivals enrolment i) c.world.db.nodes.rows c'.world.db.nodes.rows := by
  obtain ⟨ls, c, h, hw, -⟩ := serial_serving {} enrolment .start
  refine ⟨ls, c, h, ?_, (write_confinement h).1⟩
  rw [hw]
  decide +kernel

/-! ## The audit table -/

/-- An audit row of a registration. -/
def isRegistration (e : AuditEvent) : Bool :=
  decide (e.action = .nodeRegister) && decide (e.result = .success)

/-- The audit row names the node. -/
def Names (r : Node) (e : AuditEvent) : Prop := e.target = some ("node:" ++ r.nodeId)

/-- Node rows and registration rows correspond, in order. -/
def Registrations (db : Database) : Prop :=
  List.Forall₂ Names db.nodes.rows (db.events.rows.filter isRegistration)

/-- A relation of lists outlasts a change of the first that keeps it element by
element. -/
private theorem forall₂_map_mem {α β : Type} {R : α → β → Prop} {f : α → α} {xs : List α}
    {ys : List β} (h : List.Forall₂ R xs ys) (hf : ∀ x y, x ∈ xs → R x y → R (f x) y) :
    List.Forall₂ R (xs.map f) ys := by
  induction h with
  | nil => exact .nil
  | cons hxy _ ih =>
    exact .cons (hf _ _ (List.mem_cons_self ..) hxy)
      (ih fun x y hx => hf x y (List.mem_cons_of_mem _ hx))

/-- Each transaction keeps the correspondence. -/
theorem Txn.registrations {req : Request} {kind : TxnKind} {ws : List Write} {d d' : Database}
    (ht : Txn settings req kind ws) (hg : Grounded d ws) (ha : d.applyAll ws = some d')
    (h : Registrations d) : Registrations d' := by
  unfold Registrations at h ⊢
  rw [(Database.applyAll_rows ha).2, List.filter_append]
  cases ht.onNodes hg ha with
  | @rejected _ e haction hnodes =>
    have hnot : isRegistration e = false := by simp [isRegistration, haction]
    rw [hnodes, show [Write.insertEvent e].filterMap Write.event? = [e] from rfl,
      List.filter_cons_of_neg (by rw [hnot]; simp), List.filter_nil, List.append_nil]
    exact h
  | registered createdAt updatedAt t k k' _ _ _ hrows =>
    rw [hrows]
    exact List.rel_append h (.cons rfl .nil)
  | @beaten _ identity body loaded ws now _ _ _ hst hrows hws =>
    -- the audit row of a first heartbeat is no registration
    have hnone : ((Write.updateNode loaded (loaded.beaten now) :: ws).filterMap
        Write.event?).filter isRegistration = [] := by
      rcases hws with ⟨-, rfl⟩ | ⟨-, t, k, rfl⟩
      · rfl
      · rfl
    rw [hnone, List.append_nil, hrows]
    refine forall₂_map_mem h fun r e hr hname => ?_
    unfold Names
    rw [(kept_onNodes now hst hr).nodeId]
    exact hname

/-- **Node rows and registration rows correspond** in every committed state. -/
theorem serving_registrations (hw : w₀.Fresh) (h₀ : Registrations w₀.db)
    (h : Run settings reqs w₀ ls c) : Registrations c.world.db :=
  serving_invariant (P := fun d _ => Registrations d) hw h₀
    (fun _ _ _ _ _ _ ht hg ha hd => ht.registrations hg ha hd) h

/-- Lists in correspondence by a relation that tells their elements apart are
in bijection. -/
private theorem forall₂_unique {α β : Type} {R : α → β → Prop} {xs : List α} {ys : List β}
    (h : List.Forall₂ R xs ys) (hnd : xs.Nodup)
    (hinj : ∀ x ∈ xs, ∀ x' ∈ xs, ∀ y, R x y → R x' y → x = x') :
    (∀ x ∈ xs, ∃! y, y ∈ ys ∧ R x y) ∧ ∀ y ∈ ys, ∃! x, x ∈ xs ∧ R x y := by
  induction h with
  | nil => simp
  | @cons x₀ y₀ xs ys hxy hrest ih =>
    obtain ⟨hnot, hnd⟩ := List.nodup_cons.mp hnd
    obtain ⟨ih₁, ih₂⟩ := ih hnd fun x hx x' hx' =>
      hinj x (List.mem_cons_of_mem _ hx) x' (List.mem_cons_of_mem _ hx')
    -- what stands in the rest corresponds to something in the rest
    have hmatch : ∀ y ∈ ys, ∃ x ∈ xs, R x y := fun y hy => (ih₂ y hy).exists
    refine ⟨fun x hx => ?_, fun y hy => ?_⟩
    · rcases List.mem_cons.mp hx with rfl | hx'
      · refine ⟨y₀, ⟨List.mem_cons_self .., hxy⟩, ?_⟩
        rintro y ⟨hy, hR⟩
        rcases List.mem_cons.mp hy with rfl | hy
        · rfl
        · obtain ⟨x', hx', hR'⟩ := hmatch y hy
          have he := hinj x hx x' (List.mem_cons_of_mem _ hx') y hR hR'
          exact absurd (he ▸ hx') hnot
      · obtain ⟨y, ⟨hy, hR⟩, huniq⟩ := ih₁ x hx'
        refine ⟨y, ⟨List.mem_cons_of_mem _ hy, hR⟩, ?_⟩
        rintro y' ⟨hy', hR'⟩
        rcases List.mem_cons.mp hy' with rfl | hy'
        · have he := hinj x hx x₀ (List.mem_cons_self ..) y' hR' hxy
          exact absurd (he ▸ hx') hnot
        · exact huniq y' ⟨hy', hR'⟩
    · have hx₀ : x₀ ∈ x₀ :: xs := List.mem_cons_self ..
      rcases List.mem_cons.mp hy with rfl | hy
      · exact ⟨x₀, ⟨hx₀, hxy⟩, fun x ⟨hx, hR⟩ => hinj x hx x₀ hx₀ y hR hxy⟩
      · obtain ⟨x, ⟨hx, hR⟩, -⟩ := ih₂ y hy
        have hx := List.mem_cons_of_mem x₀ hx
        exact ⟨x, ⟨hx, hR⟩, fun x' ⟨hx', hR'⟩ => hinj x' hx' x hx y hR' hR⟩

/-- The correspondence, as a bijection. -/
theorem Registrations.bijection {db : Database} (h : Registrations db) :
    (∀ r ∈ db.nodes.rows, ∃! e, e ∈ db.events.rows.filter isRegistration ∧ Names r e) ∧
    ∀ e ∈ db.events.rows.filter isRegistration, ∃! r, r ∈ db.nodes.rows ∧ Names r e := by
  refine forall₂_unique h (List.Nodup.of_map _ db.nodes.keys) fun r hr r' hr' e he he' => ?_
  refine db.nodes.eq_of_key hr hr' ?_
  have heq : "node:" ++ r.nodeId = "node:" ++ r'.nodeId :=
    Option.some.inj (he.symm.trans he')
  exact String.append_right_inj _ |>.mp heq

/-- **A first heartbeat is audited.** A transaction that takes a node from
onboarding to active ends with the one audit row that says so. -/
theorem Txn.activation {req : Request} {kind : TxnKind} {ws : List Write} {d d' : Database}
    (ht : Txn settings req kind ws) (hg : Grounded d ws) (ha : d.applyAll ws = some d')
    {r r' : Node} (hr : r ∈ d.nodes.rows) (hr' : r' ∈ d'.nodes.rows) (hid : r'.id = r.id)
    (ho : r.state = .onboarding) (hactive : r'.state = .active) :
    ∃ e, d'.events.rows = d.events.rows ++ [e] ∧ e.action = .nodeStateChange ∧
      e.result = .success ∧ Names r e ∧ e.actorCn = r.commonName ∧
      e.details = some [("from", some "onboarding"), ("to", some "active"),
        ("trigger", some "heartbeat")] := by
  have he := (Database.applyAll_rows ha).2
  -- an onboarding row cannot still be stored beside the active one of the same id
  have hgone : r ∉ d'.nodes.rows := by
    intro hmem
    rw [d'.nodes.eq_of_pk hmem hr' hid.symm, hactive] at ho
    exact absurd ho (by simp)
  cases ht.onNodes hg ha with
  | rejected _ hnodes => exact absurd (hnodes ▸ hr) hgone
  | registered _ _ _ _ _ _ _ _ hrows => exact absurd (hrows ▸ List.mem_append_left _ hr) hgone
  | @beaten _ identity body loaded ws now _ _ hcn hst hrows hws =>
    have hmem : (if r.id = loaded.id then Node.changed loaded (loaded.beaten now) r else r)
        ∈ d'.nodes.rows := by
      rw [hrows]
      exact List.mem_map_of_mem hr
    by_cases hrid : r.id = loaded.id
    · have hk := hst.kept_of_id hr hrid
      rw [if_pos hrid] at hmem
      have hsame := d'.nodes.eq_of_pk hmem hr' (((changed_beaten now hk).1.id).trans hid.symm)
      rcases hws with ⟨hstate, -⟩ | ⟨hstate, t, k, rfl⟩
      · -- a later heartbeat leaves the state alone
        have hs := (changed_beaten now hk).2.1 hstate
        rw [hsame, hactive, ho] at hs
        exact absurd hs (by simp)
      · refine ⟨_, he, rfl, rfl, ?_, hcn.trans hk.commonName.symm, ?_⟩
        · show some ("node:" ++ loaded.nodeId) = some ("node:" ++ r.nodeId)
          rw [hk.nodeId]
        · show some [("from", some loaded.state.value), _, _] = _
          simp [Node.beaten, hstate, NodeState.value]
    · rw [if_neg hrid] at hmem
      exact absurd hmem hgone

/-- The details of the rejections for ownership and for revocation. -/
def rejectionDetails : List String :=
  [revokedDetail, "Cannot register a node on behalf of another identity",
    "Cannot heartbeat on behalf of another node"]

/-- What an answer promises of the audit table: each is backed by a row that
the request committed. -/
structure Backed (req : Request) (h : History) (own : List (List Write)) (events : List AuditEvent)
    (r : Except Exc Response) : Prop where
  registered : ∀ body, r = .ok ⟨201, body⟩ → ∃ payload e, req.endpoint = .registerNode (some payload) ∧
    e ∈ events ∧ (∃ ws ∈ own, .insertEvent e ∈ ws) ∧ isRegistration e = true ∧
    e.target = some ("node:" ++ payload.nodeId)
  rejected : ∀ detail ∈ rejectionDetails, r = .error (.http 403 detail) →
    ∃ e ∈ events, own = [[.insertEvent e]] ∧ e.action = .authFailure ∧ e.result = .rejected
  activated : ∀ body nodeId beat loaded, r = .ok ⟨200, body⟩ → req.endpoint = .heartbeat nodeId beat →
    ⟨.selectNode nodeId, .ok [loaded]⟩ ∈ h → loaded.state = .onboarding →
    ∃ e ∈ events, (∃ ws ∈ own, .insertEvent e ∈ ws) ∧ e.action = .nodeStateChange ∧
      e.result = .success ∧ e.target = some ("node:" ++ nodeId)

/-- A request without an identity is told something else. -/
private theorem identityError_notMem {verify dn : Option String} {detail : String}
    (h : identityError verify dn = .http 403 detail) : detail ∉ rejectionDetails := by
  unfold identityError at h
  split at h
  next verify _ =>
    split at h
    next =>
      obtain ⟨-, rfl⟩ := Exc.http.inj h
      intro hmem
      have hfront : ∀ s ∈ rejectionDetails,
          s.toList.take 25 ≠ "Client certificate verifi".toList := by decide
      refine hfront _ hmem ?_
      rw [String.toList_append]
      rfl
    next => exact absurd (Exc.http.inj h).1 (by decide)
  next => exact absurd (Exc.http.inj h).1 (by decide)

/-- A rejection has committed its audit row, and nothing else. -/
theorem Outcome.event_of_rejected {req : Request} {F₀ : Fact} {h : History} {d : Database}
    {own : List (List Write)} {detail : String} (hmem : detail ∈ rejectionDetails)
    (ho : Outcome settings req F₀ h d (.error (.http 403 detail)) own) :
    ∃ e, own = [[.insertEvent e]] ∧ e.action = .authFailure ∧ e.result = .rejected := by
  have hone : ∀ {kind : TxnKind} {ws : List Write}, Txn settings req kind ws →
      (kind = .revoked ∨ kind = .registerForbidden ∨ kind = .heartbeatForbidden) →
      ∃ e, [ws] = [[.insertEvent e]] ∧ e.action = .authFailure ∧ e.result = .rejected := by
    intro kind ws ht hk
    obtain ⟨e, rfl, haction, hresult⟩ := ht.rejection hk
    exact ⟨e, rfl, haction, hresult⟩
  generalize hr : (Except.error (.http 403 detail) : Except Exc Response) = r at ho
  cases ho with
  | health => simp at hr
  | unidentified _ hid =>
    obtain rfl := Except.error.inj hr
    exact absurd hmem (identityError_notMem (identityOf_error hid).symm)
  | failed hf =>
    obtain ⟨hb, -⟩ := hf
    rcases hb with rfl | ⟨site, -, rfl⟩ <;> simp at hr
  | revoked _ _ _ _ ht => exact hone ht (.inl rfl)
  | answered _ ha =>
    cases ha with
    | registerForbidden _ _ ht => exact hone ht (.inr (.inl rfl))
    | heartbeatForbidden _ _ _ _ ht => exact hone ht (.inr (.inr rfl))
    | read _ hread =>
      rcases hread with ⟨body, rfl⟩ | rfl | ⟨detail, rfl⟩ <;> simp at hr
    | beaten _ _ _ hbeat =>
      rcases hbeat with ⟨n, rfl⟩ | rfl | ⟨rfl, -⟩ <;> simp at hr
    | invalid => simp at hr
    | duplicate => simp at hr
    | clash => simp at hr
    | registered => simp at hr
    | unread => simp at hr
    | missing => simp at hr

/-- A registration has committed its audit row. -/
theorem Outcome.event_of_registered {req : Request} {F₀ : Fact} {h : History} {d : Database}
    {own : List (List Write)} {body : Body} (ho : Outcome settings req F₀ h d (.ok ⟨201, body⟩) own) :
    ∃ payload e, req.endpoint = .registerNode (some payload) ∧ (∃ ws ∈ own, .insertEvent e ∈ ws) ∧
      isRegistration e = true ∧ e.target = some ("node:" ++ payload.nodeId) := by
  generalize hr : (Except.ok ⟨201, body⟩ : Except Exc Response) = r at ho
  cases ho with
  | health => simp at hr
  | unidentified => simp at hr
  | failed => simp at hr
  | revoked => simp at hr
  | answered _ ha =>
    cases ha with
    | registered _ _ _ ht =>
      cases ht with
      | registered createdAt updatedAt t k k' _ hreq =>
        exact ⟨_, _, hreq, ⟨_, List.mem_singleton_self _, List.mem_cons_of_mem _
          (List.mem_singleton_self _)⟩, rfl, rfl⟩
    | read _ hread =>
      rcases hread with ⟨body, rfl⟩ | rfl | ⟨detail, rfl⟩ <;> simp at hr
    | beaten _ _ _ hbeat =>
      rcases hbeat with ⟨n, rfl⟩ | rfl | ⟨rfl, -⟩ <;> simp at hr
    | registerForbidden => simp at hr
    | heartbeatForbidden => simp at hr
    | invalid => simp at hr
    | duplicate => simp at hr
    | clash => simp at hr
    | unread => simp at hr
    | missing => simp at hr

/-- A heartbeat that answers 200 after it read a node in onboarding has
committed the audit row of the transition. `honce`: it read one node. -/
theorem Outcome.event_of_activated {req : Request} {F₀ : Fact} {h : History} {d : Database}
    {own : List (List Write)} {body : Body} {nodeId : String} {beat : Option NodeHeartbeat}
    {loaded : Node} (hreq : req.endpoint = .heartbeat nodeId beat)
    (hsel : ⟨.selectNode nodeId, .ok [loaded]⟩ ∈ h) (hstate : loaded.state = .onboarding)
    (honce : ∀ a ∈ h, ∀ b ∈ h, IsSelect a.call → IsSelect b.call → a = b)
    (ho : Outcome settings req F₀ h d (.ok ⟨200, body⟩) own) :
    ∃ e, (∃ ws ∈ own, .insertEvent e ∈ ws) ∧ e.action = .nodeStateChange ∧ e.result = .success ∧
      e.target = some ("node:" ++ nodeId) := by
  generalize hr : (Except.ok ⟨200, body⟩ : Except Exc Response) = r at ho
  cases ho with
  | health hnone => simp [hreq, Endpoint.body?] at hnone
  | unidentified => simp at hr
  | failed => simp at hr
  | revoked => simp at hr
  | answered _ ha =>
    cases ha with
    | beaten hreq' hsel' ht _ =>
      obtain ⟨rfl, rfl⟩ := Endpoint.heartbeat.inj (hreq.symm.trans hreq')
      obtain ⟨rfl⟩ : loaded = _ := by
        simpa using honce _ hsel _ hsel' ⟨_, rfl⟩ ⟨_, rfl⟩
      rw [if_pos hstate] at ht
      cases ht with
      | activated loaded' now t k _ hreq'' =>
        obtain ⟨rfl, -⟩ := Endpoint.heartbeat.inj (hreq'.symm.trans hreq'')
        exact ⟨_, ⟨_, List.mem_singleton_self _, List.mem_cons_of_mem _
          (List.mem_singleton_self _)⟩, rfl, rfl, rfl⟩
    | read hread => simp [hreq, Endpoint.reads] at hread
    | registerForbidden => simp at hr
    | heartbeatForbidden => simp at hr
    | invalid => simp at hr
    | duplicate => simp at hr
    | clash => simp at hr
    | registered => simp at hr
    | unread => simp at hr
    | missing => simp at hr

/-- A request that a failure before or in its commit ended has committed
nothing. -/
theorem Outcome.own_of_failed {req : Request} {F₀ : Fact} {h : History} {d : Database}
    {own : List (List Write)} {e : Exc} (he : e.BeforeCommit ∨ e = .integrity)
    (ho : Outcome settings req F₀ h d (.error e) own) : own = [] := by
  have hne : ∀ status detail, e ≠ .http status detail := by
    rcases he with (rfl | ⟨site, -, rfl⟩) | rfl <;> simp
  have hrefresh : e ≠ .database .refresh := by
    rcases he with (rfl | ⟨site, hsite, rfl⟩) | rfl <;> simp_all
  generalize hr : (Except.error e : Except Exc Response) = r at ho
  cases ho with
  | health => rfl
  | unidentified => rfl
  | failed => rfl
  | revoked => exact absurd (Except.error.inj hr) (hne _ _)
  | answered _ ha =>
    cases ha with
    | invalid => rfl
    | read => rfl
    | duplicate => rfl
    | clash => rfl
    | missing => rfl
    | registerForbidden => exact absurd (Except.error.inj hr) (hne _ _)
    | heartbeatForbidden => exact absurd (Except.error.inj hr) (hne _ _)
    | registered => simp at hr
    | unread => exact absurd (Except.error.inj hr) hrefresh
    | beaten _ _ _ hbeat =>
      rcases hbeat with ⟨n, rfl⟩ | rfl | ⟨rfl, -⟩
      · simp at hr
      · obtain rfl := Except.error.inj hr
        rcases he with (he | ⟨site, -, he⟩) | he <;> simp at he
      · exact absurd (Except.error.inj hr) hrefresh

/-- A call that failed stands in its request's own moves: they changed nothing,
whether or not the request has been answered yet. -/
private theorem serving_failed (h : Run settings reqs .start ls c) {i : Rid} {d : Call} {e : Exc}
    (hf : .call i ⟨d, .error e⟩ ∈ ls) (hne : ∀ id, d ≠ .refresh id)
    {m m' : Cfg Call Ans Exc Response Rid Session World}
    (hmove : Moves settings reqs .start ls c i m m') : m'.world.db = m.world.db := by
  have hdone : ∀ {ls c}, Run settings reqs .start ls c → .call i ⟨d, .error e⟩ ∈ ls →
      (∃ r, (c.party i).status = .done r) → Moves settings reqs .start ls c i m m' →
      m'.world.db = m.world.db := by
    rintro ls c h hf ⟨r, hd⟩ hmove
    obtain rfl := serving_result_of_raised h hf hd
    have hown := (serving_outcome World.start_fresh h hd).own_of_failed (serving_raised h hf hne)
    rcases hmove.own World.start_fresh with hdb | ⟨kind, ws, hws, -⟩
    · exact hdb
    · rw [hown] at hws
      exact absurd hws (by simp)
  have hat : Party.At (app settings (reqs i)) (acts i ls) (c.party i).status := h.reaches rfl
  rcases hs : (c.party i).status with q | r
  · -- it is about to leave with the exception
    rw [hs] at hat
    have hat : (app settings (reqs i)).Reaches (acts i ls) q := hat
    rw [hat.eq_throw (mem_acts.mpr hf)] at hs
    have hexit : Step controller c (.exit i) _ := .exited hs rfl
    refine hdone (h.snoc hexit) (List.mem_append_left _ hf) ⟨.error e, by simp⟩ ?_
    obtain ⟨front, lab, rest, rfl, hby, hfront, hstep, hrest⟩ := hmove
    exact ⟨front, lab, rest ++ [.exit i], by simp, hby, hfront, hstep, hrest.snoc hexit⟩
  · exact hdone h hf ⟨r, hs⟩ hmove

/-- **The audit table keeps step** with the node table, over every interleaving
and whatever database calls fail. Node rows and registration rows correspond one
to one, an activation comes with its audit row, and what is turned away or only
read leaves the nodes as they are. -/
theorem audit_in_step (h : Run settings reqs .start ls c) :
    ((∀ r ∈ c.world.db.nodes.rows,
        ∃! e, e ∈ c.world.db.events.rows.filter isRegistration ∧ Names r e) ∧
      ∀ e ∈ c.world.db.events.rows.filter isRegistration,
        ∃! r, r ∈ c.world.db.nodes.rows ∧ Names r e) ∧
    (∀ lab c', Step controller c lab c' →
      ∀ r ∈ c.world.db.nodes.rows, ∀ r' ∈ c'.world.db.nodes.rows, r'.id = r.id →
        r.state = .onboarding → r'.state = .active →
        ∃ e, c'.world.db.events.rows = c.world.db.events.rows ++ [e] ∧
          e.action = .nodeStateChange ∧ e.result = .success ∧ Names r e ∧
          e.actorCn = r.commonName ∧
          e.details = some [("from", some "onboarding"), ("to", some "active"),
            ("trigger", some "heartbeat")]) ∧
    (∀ i r, (c.party i).status = .done r →
      Backed (reqs i) (acts i ls) (c.world.own i) c.world.db.events.rows r) ∧
    ∀ i d e, .call i ⟨d, .error e⟩ ∈ ls → (∀ id, d ≠ .refresh id) →
      (∀ r, (c.party i).status = .done r → r = .error e) ∧
      ∀ m m', Moves settings reqs .start ls c i m m' → m'.world.db = m.world.db := by
  refine ⟨(serving_registrations World.start_fresh .nil h).bijection, ?_, fun i r hd => ?_, ?_⟩
  · intro lab c' hs r hr r' hr' hid ho hactive
    rcases serving_commit World.start_fresh h hs with ⟨hdb, -⟩ | ⟨i, kind, ws, -, ht, hg, ha, -⟩
    · rw [hdb] at hr'
      rw [c.world.db.nodes.eq_of_pk hr' hr hid, ho] at hactive
      exact absurd hactive (by simp)
    · exact ht.activation hg ha hr hr' hid ho hactive
  · have hout := serving_outcome World.start_fresh h hd
    -- a row that a request has committed is never deleted
    have hstays : ∀ {e : AuditEvent}, (∃ ws ∈ c.world.own i, .insertEvent e ∈ ws) →
        e ∈ c.world.db.events.rows :=
      fun ⟨ws, hws, he⟩ => event_of_own World.start_fresh h hws he
    refine ⟨?_, ?_, ?_⟩
    · rintro body rfl
      obtain ⟨payload, e, hreq, hown, hreg, htarget⟩ := hout.event_of_registered
      exact ⟨payload, e, hreq, hstays hown, hown, hreg, htarget⟩
    · rintro detail hdetail rfl
      obtain ⟨e, hown, haction, hresult⟩ := hout.event_of_rejected hdetail
      refine ⟨e, hstays ⟨_, ?_, List.mem_singleton_self _⟩, hown, haction, hresult⟩
      rw [hown]
      exact List.mem_singleton_self _
    · rintro body nodeId beat loaded rfl hreq hsel hstate
      obtain ⟨q, hr, -⟩ := serving_reaches h hd
      obtain ⟨e, hown, haction, hresult, htarget⟩ :=
        hout.event_of_activated hreq hsel hstate (app_selects_once hr)
      exact ⟨e, hstays hown, hown, haction, hresult, htarget⟩
  · intro i d e hf hne
    exact ⟨fun r => serving_result_of_raised h hf, fun m m' => serving_failed h hf hne⟩

/-- After the enrolment of a node there is one row of its registration. -/
theorem enrolment_audit_in_step :
    ∃ ls c, Run {} (arrivals enrolment) .start ls c ∧
      (c.world.db.nodes.rows.map fun r => r.nodeId) = ["pi-01"] ∧
      (c.world.db.events.rows.map fun e => e.action) = [.nodeRegister, .nodeStateChange] ∧
      ∀ r ∈ c.world.db.nodes.rows,
        ∃! e, e ∈ c.world.db.events.rows.filter isRegistration ∧ Names r e := by
  obtain ⟨ls, c, h, hw, -⟩ := serial_serving {} enrolment .start
  refine ⟨ls, c, h, ?_, ?_, (audit_in_step h).1.1⟩
  · rw [hw]
    decide +kernel
  · rw [hw]
    decide +kernel

end ZeroTrustLab.Controller
