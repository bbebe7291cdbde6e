import ZeroTrustLab.Controller.Identity

/-!
# The transactions requests commit

Read off the endpoint bodies, a request commits at most one transaction, and
there are six kinds of them (`Txn`): the audit row of a rejection, three ways
to get there; the row of a registered node with its audit row; and a
heartbeat's update, with an audit row when it is the first.

This module is about what such a transaction does to the database it is
applied to, whatever happened since the request read the rows it is based on.
An update is based on a row read earlier, so it is *grounded* in the stored
row that row has become (`Grounded`); the columns a heartbeat does not set
never change, and a state only ever moves from onboarding to active (`Kept`).
`Txn.onNodes` says what the six kinds do to the node table, and every fact
about what a commit makes of a row is read off it; `Txn.evolves` is the first:
every stored row lives on.

Each kind carries the premises under which the endpoint commits it, so that
what is true of the request when it wrote its rows is still known when the
transaction is applied. Between the two, other transactions may have been
committed; groundedness is kept by each of them, because rows are never deleted
and never change their primary keys.
-/

namespace ZeroTrustLab.Controller

open Lib (Record Table)
open Lib.Text (hex)

/-! ## Rows over time -/

/-- What a stored row keeps, and how its state may have moved on. The two
heartbeat timestamps are the columns not mentioned. -/
structure Kept (r r' : Node) : Prop where
  id : r'.id = r.id
  nodeId : r'.nodeId = r.nodeId
  commonName : r'.commonName = r.commonName
  role : r'.role = r.role
  ipAddress : r'.ipAddress = r.ipAddress
  notes : r'.notes = r.notes
  createdAt : r'.createdAt = r.createdAt
  state : r'.state = r.state ∨ (r.state = .onboarding ∧ r'.state = .active)

theorem Kept.refl (r : Node) : Kept r r := ⟨rfl, rfl, rfl, rfl, rfl, rfl, rfl, .inl rfl⟩

theorem Kept.trans {r r' r'' : Node} (h : Kept r r') (h' : Kept r' r'') : Kept r r'' where
  id := h'.id.trans h.id
  nodeId := h'.nodeId.trans h.nodeId
  commonName := h'.commonName.trans h.commonName
  role := h'.role.trans h.role
  ipAddress := h'.ipAddress.trans h.ipAddress
  notes := h'.notes.trans h.notes
  createdAt := h'.createdAt.trans h.createdAt
  state := by
    rcases h'.state with he | ⟨ho, ha⟩
    · rw [he]; exact h.state
    · rcases h.state with he | ⟨-, hactive⟩
      · exact .inr ⟨he ▸ ho, ha⟩
      · rw [hactive] at ho
        exact absurd ho (by simp)

/-- Nothing goes back to onboarding. -/
theorem Kept.onboarding {r r' : Node} (h : Kept r r') (ho : r'.state = .onboarding) :
    r.state = .onboarding := by
  rcases h.state with hsame | ⟨hr, -⟩
  · exact hsame.symm.trans ho
  · exact hr

/-- A row read earlier is still there, as what it has become. -/
def Stored (db : Database) (r : Node) : Prop := ∃ r' ∈ db.nodes.rows, Kept r r'

/-- Every stored row lives on. -/
def Evolves (db db' : Database) : Prop := ∀ r ∈ db.nodes.rows, Stored db' r

/-- A database with the same nodes has evolved, by nothing. -/
theorem Evolves.of_nodes_eq {db db' : Database} (h : db'.nodes = db.nodes) : Evolves db db' :=
  fun r hr => ⟨r, h ▸ hr, .refl r⟩

theorem Evolves.refl (db : Database) : Evolves db db := .of_nodes_eq rfl

/-- A row that is stored stays stored, as far as rows are kept. -/
theorem Stored.evolves {db db' : Database} {r : Node} (h : Stored db r) (he : Evolves db db') :
    Stored db' r := by
  obtain ⟨r', hr', hk⟩ := h
  obtain ⟨r'', hr'', hk'⟩ := he r' hr'
  exact ⟨r'', hr'', hk.trans hk'⟩

theorem Evolves.trans {db db' db'' : Database} (h : Evolves db db') (h' : Evolves db' db'') :
    Evolves db db'' :=
  fun r hr => (h r hr).evolves h'

/-! ## What is written -/

/-- The audit row of a revoked certificate. -/
def revokedEvent (identity : MTLSIdentity) (serial : Int) (t : Time) : AuditEvent :=
  { timestamp := t
    actorCn := identity.commonName
    action := .authFailure
    target := some ("cert:" ++ String.ofList (hex serial))
    result := .rejected
    details := some [("reason", some "certificate revoked"),
      ("serial", some (String.ofList (hex serial)))] }

/-- The audit row of an unauthorized registration. -/
def registerForbiddenEvent (identity : MTLSIdentity) (payload : NodeBase) (t : Time) : AuditEvent :=
  { timestamp := t
    actorCn := identity.commonName
    action := .authFailure
    target := some ("node:" ++ payload.nodeId)
    result := .rejected
    details := some [("reason", some "actor not authorized to register this node")] }

/-- The audit row of a registration. -/
def registeredEvent (identity : MTLSIdentity) (payload : NodeBase) (t : Time) : AuditEvent :=
  { timestamp := t
    actorCn := identity.commonName
    action := .nodeRegister
    target := some ("node:" ++ payload.nodeId)
    result := .success
    details := some [("role", some payload.role), ("ip", payload.ipAddress)] }

/-- The audit row of a heartbeat for somebody else's node. -/
def heartbeatForbiddenEvent (identity : MTLSIdentity) (nodeId : String) (t : Time) : AuditEvent :=
  { timestamp := t
    actorCn := identity.commonName
    action := .authFailure
    target := some ("node:" ++ nodeId)
    result := .rejected
    details := some [("reason", some "heartbeat from non-matching identity"),
      ("claimed_node", some nodeId)] }

/-- The audit row of the first heartbeat. -/
def activatedEvent (identity : MTLSIdentity) (loaded : Node) (now t : Time) : AuditEvent :=
  { timestamp := t
    actorCn := identity.commonName
    action := .nodeStateChange
    target := some ("node:" ++ loaded.nodeId)
    result := .success
    details := some [("from", some loaded.state.value),
      ("to", some (loaded.beaten now).state.value), ("trigger", some "heartbeat")] }

inductive TxnKind where
  | revoked
  | registerForbidden
  | registered
  | heartbeatForbidden
  | beaten
  | activated
  deriving DecidableEq, Repr

/-- The transactions a request may commit. -/
inductive Txn (settings : Settings) (req : Request) : TxnKind → List Write → Prop where
  | revoked {identity : MTLSIdentity} {serial : Int} (t : Time) (k : Nat)
      (hid : identityOf settings req.headers = .ok identity)
      (hserial : identity.serial = some serial) :
      Txn settings req .revoked [.insertEvent (Record.setPk k (revokedEvent identity serial t))]
  | registerForbidden {identity : MTLSIdentity} {payload : NodeCreate} (t : Time) (k : Nat)
      (hid : identityOf settings req.headers = .ok identity)
      (hreq : req.endpoint = .registerNode (some payload.toNodeBase))
      (hmay : mayRegister identity payload.toNodeBase = false) :
      Txn settings req .registerForbidden
        [.insertEvent (Record.setPk k (registerForbiddenEvent identity payload.toNodeBase t))]
  | registered {identity : MTLSIdentity} {payload : NodeCreate} (createdAt updatedAt t : Time)
      (k k' : Nat) (hid : identityOf settings req.headers = .ok identity)
      (hreq : req.endpoint = .registerNode (some payload.toNodeBase))
      (hmay : mayRegister identity payload.toNodeBase = true) :
      Txn settings req .registered
        [.insertNode (Record.setPk k (newNode payload.toNodeBase createdAt updatedAt)),
          .insertEvent (Record.setPk k' (registeredEvent identity payload.toNodeBase t))]
  | heartbeatForbidden {identity : MTLSIdentity} {nodeId : String} {body : NodeHeartbeat}
      (t : Time) (k : Nat) (hid : identityOf settings req.headers = .ok identity)
      (hreq : req.endpoint = .heartbeat nodeId (some body)) :
      Txn settings req .heartbeatForbidden
        [.insertEvent (Record.setPk k (heartbeatForbiddenEvent identity nodeId t))]
  | beaten {identity : MTLSIdentity} {body : NodeHeartbeat} (loaded : Node) (now : Time)
      (hid : identityOf settings req.headers = .ok identity)
      (hreq : req.endpoint = .heartbeat loaded.nodeId (some body))
      (hcn : identity.commonName = loaded.commonName) (hstate : loaded.state ≠ .onboarding) :
      Txn settings req .beaten [.updateNode loaded (loaded.beaten now)]
  | activated {identity : MTLSIdentity} {body : NodeHeartbeat} (loaded : Node) (now t : Time)
      (k : Nat) (hid : identityOf settings req.headers = .ok identity)
      (hreq : req.endpoint = .heartbeat loaded.nodeId (some body))
      (hcn : identity.commonName = loaded.commonName) (hstate : loaded.state = .onboarding) :
      Txn settings req .activated
        [.updateNode loaded (loaded.beaten now),
          .insertEvent (Record.setPk k (activatedEvent identity loaded now t))]

/-- Every update is of a row that is still stored. -/
def Grounded (db : Database) (ws : List Write) : Prop :=
  ∀ loaded current, .updateNode loaded current ∈ ws → Stored db loaded

/-! ## One statement -/

/-- An inserted row comes last, and the events stay. -/
theorem Database.apply_insertNode {db db' : Database} {row : Node}
    (h : db.apply (.insertNode row) = some db') :
    db'.nodes.rows = db.nodes.rows ++ [row] ∧ db'.events = db.events := by
  obtain ⟨t, ht, rfl⟩ := Option.map_eq_some_iff.mp h
  exact ⟨(Table.insert?_eq_some ht).1, rfl⟩

/-- An inserted event comes last, and the nodes stay. -/
theorem Database.apply_insertEvent {db db' : Database} {e : AuditEvent}
    (h : db.apply (.insertEvent e) = some db') :
    db'.events.rows = db.events.rows ++ [e] ∧ db'.nodes = db.nodes := by
  obtain ⟨t, ht, rfl⟩ := Option.map_eq_some_iff.mp h
  exact ⟨(Table.insert?_eq_some ht).1, rfl⟩

/-- An update changes the columns of its row that differ from what was
loaded. -/
theorem Database.apply_updateNode {db db' : Database} {loaded current : Node}
    (h : db.apply (.updateNode loaded current) = some db') :
    db'.nodes.rows = (db.nodes.rows.map fun r =>
      if r.id = loaded.id then Node.changed loaded current r else r) ∧ db'.events = db.events := by
  obtain ⟨t, ht, rfl⟩ := Option.map_eq_some_iff.mp h
  exact ⟨Table.update?_eq_some ht, rfl⟩

theorem Database.applyAll_append (db : Database) (ws ws' : List Write) :
    db.applyAll (ws ++ ws') = (db.applyAll ws).bind fun d => d.applyAll ws' := by
  induction ws generalizing db with
  | nil => rfl
  | cons w ws ih =>
    show ((db.apply w).bind fun d => d.applyAll (ws ++ ws')) = _
    rcases hw : db.apply w with _ | d
    · simp [Database.applyAll, hw]
    · rw [Option.bind_some, ih d]
      simp [Database.applyAll, hw]

/-- The audit row a statement adds. -/
def Write.event? : Write → Option AuditEvent
  | .insertEvent e => some e
  | _ => none

/-- What a statement makes of the node rows. -/
def Write.onNodes : Write → List Node → List Node
  | .insertNode row, rows => rows ++ [row]
  | .updateNode loaded current, rows =>
    rows.map fun r => if r.id = loaded.id then Node.changed loaded current r else r
  | .insertEvent _, rows => rows

/-- A write does to the rows of both tables what its kind says. -/
theorem Database.apply_rows {db db' : Database} {w : Write} (h : db.apply w = some db') :
    db'.nodes.rows = w.onNodes db.nodes.rows ∧
    db'.events.rows = db.events.rows ++ w.event?.toList := by
  cases w with
  | insertNode row =>
    obtain ⟨hn, he⟩ := Database.apply_insertNode h
    exact ⟨hn, by rw [he]; exact (List.append_nil _).symm⟩
  | updateNode loaded current =>
    obtain ⟨hn, he⟩ := Database.apply_updateNode h
    exact ⟨hn, by rw [he]; exact (List.append_nil _).symm⟩
  | insertEvent e =>
    obtain ⟨he, hn⟩ := Database.apply_insertEvent h
    exact ⟨by rw [hn]; rfl, he⟩

/-- What a transaction makes of the rows, statement by statement. -/
theorem Database.applyAll_rows {db db' : Database} {ws : List Write}
    (h : db.applyAll ws = some db') :
    db'.nodes.rows = ws.foldl (fun rows w => w.onNodes rows) db.nodes.rows ∧
    db'.events.rows = db.events.rows ++ ws.filterMap Write.event? := by
  induction ws generalizing db with
  | nil =>
    obtain rfl := Option.some.inj h
    exact ⟨rfl, by simp⟩
  | cons w ws ih =>
    obtain ⟨d, hd, hd'⟩ := Option.bind_eq_some_iff.mp h
    obtain ⟨hn, he⟩ := Database.apply_rows hd
    obtain ⟨hn', he'⟩ := ih hd'
    refine ⟨by rw [hn', hn]; rfl, ?_⟩
    rw [he', he]
    cases hw : w.event? <;> simp [hw]

/-- A heartbeat changes the two timestamps of the row it read, and its state
if that was onboarding, which it still is or has meanwhile become active. -/
theorem changed_beaten {loaded row : Node} (now : Time) (h : Kept loaded row) :
    Kept row (Node.changed loaded (loaded.beaten now) row) ∧
    (loaded.state ≠ .onboarding →
      (Node.changed loaded (loaded.beaten now) row).state = row.state) ∧
    (loaded.state = .onboarding →
      (Node.changed loaded (loaded.beaten now) row).state = .active) := by
  have hstate : (Node.changed loaded (loaded.beaten now) row).state
      = if loaded.state = .onboarding then .active else row.state := by
    unfold Node.changed Node.beaten
    by_cases ho : loaded.state = .onboarding
    · simp [ho]
    · simp [ho]
  refine ⟨⟨rfl, ?_, ?_, ?_, ?_, ?_, ?_, ?_⟩, fun hn => ?_, fun ho => ?_⟩
  · simp [Node.changed, Node.beaten]
  · simp [Node.changed, Node.beaten]
  · simp [Node.changed, Node.beaten]
  · simp [Node.changed, Node.beaten]
  · simp [Node.changed, Node.beaten]
  · simp [Node.changed, Node.beaten]
  · rw [hstate]
    by_cases ho : loaded.state = .onboarding
    · -- the update was meant for the first heartbeat; the row may be past it
      rw [if_pos ho]
      rcases h.state with he | ⟨-, ha⟩
      · exact .inr ⟨he.trans ho, rfl⟩
      · exact .inl ha.symm
    · rw [if_neg ho]
      exact .inl rfl
  · rw [hstate, if_neg hn]
  · rw [hstate, if_pos ho]

/-! ## One transaction -/

/-- A row with the id of a stored one has kept what that one had. -/
theorem Stored.kept_of_id {db : Database} {loaded r : Node} (h : Stored db loaded)
    (hr : r ∈ db.nodes.rows) (hid : r.id = loaded.id) : Kept loaded r := by
  obtain ⟨r', hr', hk⟩ := h
  have he : r = r' := db.nodes.eq_of_pk hr hr' (hid.trans hk.id.symm)
  rw [he]
  exact hk

/-- A grounded heartbeat update keeps every row. -/
theorem kept_onNodes {db : Database} {loaded : Node} (now : Time) (h : Stored db loaded)
    {r : Node} (hr : r ∈ db.nodes.rows) :
    Kept r (if r.id = loaded.id then Node.changed loaded (loaded.beaten now) r else r) := by
  by_cases hid : r.id = loaded.id
  · rw [if_pos hid]
    exact (changed_beaten now (h.kept_of_id hr hid)).1
  · rw [if_neg hid]
    exact .refl r

/-- What the six kinds do to the node table: a rejection nothing, a
registration one row more, a heartbeat the update of one row. -/
inductive Txn.OnNodes (settings : Settings) (req : Request) (db db' : Database) :
    TxnKind → List Write → Prop where
  | rejected {kind : TxnKind} {e : AuditEvent} (haction : e.action = .authFailure)
      (hnodes : db'.nodes = db.nodes) : OnNodes settings req db db' kind [.insertEvent e]
  | registered {identity : MTLSIdentity} {payload : NodeCreate} (createdAt updatedAt t : Time)
      (k k' : Nat) (hid : identityOf settings req.headers = .ok identity)
      (hreq : req.endpoint = .registerNode (some payload.toNodeBase))
      (hmay : mayRegister identity payload.toNodeBase = true)
      (hrows : db'.nodes.rows
        = db.nodes.rows ++ [Record.setPk k (newNode payload.toNodeBase createdAt updatedAt)]) :
      OnNodes settings req db db' .registered
        [.insertNode (Record.setPk k (newNode payload.toNodeBase createdAt updatedAt)),
          .insertEvent (Record.setPk k' (registeredEvent identity payload.toNodeBase t))]
  | beaten {kind : TxnKind} {identity : MTLSIdentity} {body : NodeHeartbeat} {loaded : Node}
      {ws : List Write} (now : Time) (hid : identityOf settings req.headers = .ok identity)
      (hreq : req.endpoint = .heartbeat loaded.nodeId (some body))
      (hcn : identity.commonName = loaded.commonName) (hst : Stored db loaded)
      (hrows : db'.nodes.rows
        = (Write.updateNode loaded (loaded.beaten now)).onNodes db.nodes.rows)
      (hws : loaded.state ≠ .onboarding ∧ ws = [] ∨ loaded.state = .onboarding ∧
        ∃ t k, ws = [.insertEvent (Record.setPk k (activatedEvent identity loaded now t))]) :
      OnNodes settings req db db' kind (.updateNode loaded (loaded.beaten now) :: ws)

/-- What each kind of transaction does to the nodes. -/
theorem Txn.onNodes {settings : Settings} {req : Request} {kind : TxnKind} {ws : List Write}
    (ht : Txn settings req kind ws) {db db' : Database} (hg : Grounded db ws)
    (h : db.applyAll ws = some db') : Txn.OnNodes settings req db db' kind ws := by
  have hrows := (Database.applyAll_rows h).1
  cases ht with
  | revoked => exact .rejected rfl (Table.ext hrows)
  | registerForbidden => exact .rejected rfl (Table.ext hrows)
  | heartbeatForbidden => exact .rejected rfl (Table.ext hrows)
  | registered createdAt updatedAt t k k' hid hreq hmay =>
    exact .registered createdAt updatedAt t k k' hid hreq hmay hrows
  | beaten loaded now hid hreq hcn hstate =>
    exact .beaten now hid hreq hcn (hg _ _ (List.mem_cons_self ..)) hrows (.inl ⟨hstate, rfl⟩)
  | activated loaded now t k hid hreq hcn hstate =>
    exact .beaten now hid hreq hcn (hg _ _ (List.mem_cons_self ..)) hrows
      (.inr ⟨hstate, t, k, rfl⟩)

/-- **No transaction loses a row**, and none changes what a row keeps. -/
theorem Txn.evolves {settings : Settings} {req : Request} {kind : TxnKind} {ws : List Write}
    (ht : Txn settings req kind ws) {db db' : Database} (hg : Grounded db ws)
    (h : db.applyAll ws = some db') : Evolves db db' := by
  intro r hr
  cases ht.onNodes hg h with
  | rejected _ hnodes => exact Evolves.of_nodes_eq hnodes r hr
  | registered _ _ _ _ _ _ _ _ hrows =>
    exact ⟨r, by rw [hrows]; exact List.mem_append_left _ hr, .refl r⟩
  | beaten now _ _ _ hst hrows =>
    exact ⟨_, by rw [hrows]; exact List.mem_map_of_mem hr, kept_onNodes now hst hr⟩

end ZeroTrustLab.Controller
