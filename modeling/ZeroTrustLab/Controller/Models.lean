import ZeroTrustLab.Lib.Table

/-!
# The controller's records

The two persisted models of the controller, `Node` and `AuditEvent`, with the
API models around them (`app/models/node.py`, `app/models/audit.py`).

Mirroring notes vs the Python classes:
- SQLModel table classes are not validated when they are constructed, so
  `Node` and `AuditEvent` carry no constraint. `NodeCreate` is validated, and
  carries its length limits as a field: a payload that reaches an endpoint
  body is within them.
- The response models repeat the limits; FastAPI checks a returned row
  against them (`NodeRead.ok`, `AuditEventRead.ok`).
- `id` is `None` until the row is flushed, as in the source.
- Times are microseconds since the epoch, in UTC.
- `description=` texts and index flags have no counterpart, except the
  `unique=True` of `node_id`, which is the unique index of the table.
-/

namespace ZeroTrustLab.Controller

open Lib (Record Table)

/-- An instant, in microseconds since the epoch. -/
abbrev Time := Int

/-- Operational state of a node. -/
inductive NodeState where
  | onboarding
  | active
  | stale
  | revoked
  | decommissioned
  deriving DecidableEq, Repr

/-- `NodeState.value`. -/
def NodeState.value : NodeState → String
  | .onboarding => "onboarding"
  | .active => "active"
  | .stale => "stale"
  | .revoked => "revoked"
  | .decommissioned => "decommissioned"

/-- Fields shared between the API models and the DB model. -/
@[ext] structure NodeBase where
  nodeId : String
  commonName : String
  role : String
  state : NodeState := .onboarding
  ipAddress : Option String := none
  notes : Option String := none
  deriving DecidableEq, Repr

/-- The `max_length` of each field, in the order of the class, against the
text the field holds. -/
def NodeBase.limits (b : NodeBase) : List (String × Nat × Option String) :=
  [("node_id", 64, some b.nodeId), ("common_name", 255, some b.commonName),
    ("role", 32, some b.role), ("ip_address", 45, b.ipAddress), ("notes", 512, b.notes)]

/-- The fields whose text is too long: the locations of the validation error. -/
def NodeBase.tooLong (b : NodeBase) : List String :=
  b.limits.filterMap fun (field, limit, text) =>
    if (text.getD "").length ≤ limit then none else some field

/-- Payload of `POST /nodes`: a `NodeBase` within its limits. -/
structure NodeCreate extends NodeBase where
  within : toNodeBase.tooLong = []

/-- Validation of a request body: the fields it fails on, or the payload. -/
def NodeCreate.validate (b : NodeBase) : Except (List String) NodeCreate :=
  if h : b.tooLong = [] then .ok ⟨b, h⟩ else .error b.tooLong

theorem NodeCreate.validate_ok {b : NodeBase} {payload : NodeCreate}
    (h : NodeCreate.validate b = .ok payload) : payload.toNodeBase = b := by
  unfold NodeCreate.validate at h
  split at h
  next => rw [← Except.ok.inj h]
  next => exact absurd h (by simp)

/-- Exactly the bodies within the limits pass. -/
theorem NodeCreate.validate_error {b : NodeBase} {fields : List String}
    (h : NodeCreate.validate b = .error fields) (payload : NodeCreate) : payload.toNodeBase ≠ b := by
  rintro rfl
  unfold NodeCreate.validate at h
  rw [dif_pos payload.within] at h
  exact absurd h (by simp)

/-- Persisted node record. -/
@[ext] structure Node extends NodeBase where
  id : Option Nat := none
  createdAt : Time
  updatedAt : Time
  lastHeartbeatAt : Option Time := none
  deriving DecidableEq, Repr

/-- Payload of `POST /nodes/{id}/heartbeat`. -/
structure NodeHeartbeat where
  statusNote : Option String := none
  deriving DecidableEq, Repr

/-- What FastAPI checks of a returned row: the response model's limits. -/
def NodeRead.ok (n : Node) : Bool := n.id.isSome && n.toNodeBase.tooLong.isEmpty

/-- Enumeration of audit-worthy actions. -/
inductive AuditAction where
  | nodeRegister
  | nodeHeartbeat
  | nodeStateChange
  | nodeUpdate
  | nodeDelete
  | authFailure
  | authSuccess
  | adminAction
  deriving DecidableEq, Repr

/-- `AuditAction.value`. -/
def AuditAction.value : AuditAction → String
  | .nodeRegister => "node.register"
  | .nodeHeartbeat => "node.heartbeat"
  | .nodeStateChange => "node.state_change"
  | .nodeUpdate => "node.update"
  | .nodeDelete => "node.delete"
  | .authFailure => "auth.failure"
  | .authSuccess => "auth.success"
  | .adminAction => "admin.action"

/-- `AuditAction.name`, which is what the column stores. -/
def AuditAction.name : AuditAction → String
  | .nodeRegister => "NODE_REGISTER"
  | .nodeHeartbeat => "NODE_HEARTBEAT"
  | .nodeStateChange => "NODE_STATE_CHANGE"
  | .nodeUpdate => "NODE_UPDATE"
  | .nodeDelete => "NODE_DELETE"
  | .authFailure => "AUTH_FAILURE"
  | .authSuccess => "AUTH_SUCCESS"
  | .adminAction => "ADMIN_ACTION"

inductive AuditResult where
  | success
  | rejected
  | error
  deriving DecidableEq, Repr

/-- `AuditResult.value`. -/
def AuditResult.value : AuditResult → String
  | .success => "success"
  | .rejected => "rejected"
  | .error => "error"

/-- `AuditResult.name`, which is what the column stores. -/
def AuditResult.name : AuditResult → String
  | .success => "SUCCESS"
  | .rejected => "REJECTED"
  | .error => "ERROR"

/-- The `details` object: its keys and their values, `none` for `null`. -/
abbrev Details := List (String × Option String)

/-- Persisted audit event. -/
@[ext] structure AuditEvent where
  id : Option Nat := none
  timestamp : Time
  actorCn : String
  action : AuditAction
  target : Option String := none
  result : AuditResult := .success
  details : Option Details := none
  deriving DecidableEq, Repr

/-- The limits of `AuditEventRead`, checked of each returned row. -/
def AuditEventRead.ok (e : AuditEvent) : Bool :=
  e.id.isSome && e.actorCn.length ≤ 255 && (e.target.getD "").length ≤ 255

instance : Record Node String where
  pk := Node.id
  setPk k n := { n with id := some k }
  key n := n.nodeId
  pk_setPk _ _ := rfl

/-- `audit_events` has no unique index beside its primary key. -/
instance : Record AuditEvent (Option Nat) where
  pk := AuditEvent.id
  setPk k e := { e with id := some k }
  key := AuditEvent.id
  pk_setPk _ _ := rfl

/-- The two tables. -/
@[ext] structure Database where
  nodes : Table Node
  events : Table AuditEvent

/-- What `init_db` creates. -/
def Database.empty : Database := ⟨.empty, .empty⟩

end ZeroTrustLab.Controller
