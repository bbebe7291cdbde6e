import ZeroTrustLab.Lib.Prog
import ZeroTrustLab.Controller.Models
import ZeroTrustLab.Controller.Revocation

/-!
# The database session, and everything a request can call

A request's code is a `Handler`: a program over the calls of `Call`. They are
the awaited calls on its SQLAlchemy session, plus the synchronous reads and
writes of process state it makes in between (the clock, the revoked-serial
cache, counters and log lines). `controller` answers them.

The database is SQLite behind SQLAlchemy (`app/db/session.py`):
- `session.add` only notes the object; `flush` sends the statements, `commit`
  flushes and commits. `autoflush=False`, so a select sends nothing.
- A select reads the last committed state, or the request's own open
  transaction.
- The first statement of a flush takes the write lock, held until commit or
  rollback: at most one transaction is open (`World.tx`), and another
  request's flush waits. A flush that is attempted nevertheless while the lock
  is held raises `database is locked`.
- A statement that violates a constraint raises `IntegrityError` and rolls
  the transaction back.
- The ORM updates only the columns that changed since the row was loaded
  (`Node.changed`).
- Any database call may also fail on its own (`controller.fault`); what was
  not committed is then gone. `get_session` rolls back and closes whenever
  the request is left (`controller.close`).

`World.journal` is a history variable: the committed transactions in order,
each with the request that committed it. No call reads it.
-/

namespace ZeroTrustLab.Controller

open Lib (Record Table Prog Machine)

/-- A request, by the order in which it is handed to the application. -/
abbrev Rid := Nat

/-- The awaited calls on the session that can fail on their own. -/
inductive DbSite where
  | select
  | flush
  | commit
  | refresh
  deriving DecidableEq, Repr

/-- The exceptions a request can end with. -/
inductive Exc where
  /-- `HTTPException`. -/
  | http (status : Nat) (detail : String)
  /-- `RequestValidationError`, with the fields it is about. -/
  | validation (fields : List String)
  /-- `ResponseValidationError`. -/
  | responseValidation
  /-- `IntegrityError`. -/
  | integrity
  /-- `OperationalError`: database is locked. -/
  | locked
  /-- Any other failure of a database call. -/
  | database (site : DbSite)
  /-- `MultipleResultsFound`. -/
  | multipleResults
  /-- `InvalidRequestError`: the row to refresh is not there. -/
  | notPersistent
  deriving DecidableEq, Repr

/-- The status the client receives for a request that ended with an exception. -/
def Exc.status : Exc → Nat
  | .http status _ => status
  | .validation _ => 422
  | _ => 500

/-! ## Statements -/

/-- What `session.add` was given: a new object, or a loaded row with the
values it has now. -/
inductive Pending where
  | node (n : Node)
  | dirty (loaded current : Node)
  | event (e : AuditEvent)
  deriving DecidableEq, Repr

/-- A statement as it is sent: a new row with its primary key, or the change
of a loaded row. -/
inductive Write where
  | insertNode (row : Node)
  | updateNode (loaded current : Node)
  | insertEvent (row : AuditEvent)
  deriving DecidableEq, Repr

/-- The columns set by `UPDATE`: those that changed since the row was loaded.
The two timestamps a heartbeat assigns carry a timezone and those SQLite hands
back do not, so they never compare equal and are always set. -/
def Node.changed (loaded current row : Node) : Node where
  id := row.id
  nodeId := if current.nodeId = loaded.nodeId then row.nodeId else current.nodeId
  commonName := if current.commonName = loaded.commonName then row.commonName else current.commonName
  role := if current.role = loaded.role then row.role else current.role
  state := if current.state = loaded.state then row.state else current.state
  ipAddress := if current.ipAddress = loaded.ipAddress then row.ipAddress else current.ipAddress
  notes := if current.notes = loaded.notes then row.notes else current.notes
  createdAt := if current.createdAt = loaded.createdAt then row.createdAt else current.createdAt
  updatedAt := current.updatedAt
  lastHeartbeatAt := current.lastHeartbeatAt

/-- One statement; `none` is the constraint violation. -/
def Database.apply (db : Database) : Write → Option Database
  | .insertNode row => (db.nodes.insert? row).map fun t => { db with nodes := t }
  | .updateNode loaded current =>
    (db.nodes.update? loaded.id (Node.changed loaded current)).map fun t => { db with nodes := t }
  | .insertEvent row => (db.events.insert? row).map fun t => { db with events := t }

/-- Statements in order. -/
def Database.applyAll : Database → List Write → Option Database
  | db, [] => some db
  | db, w :: ws => (db.apply w).bind fun db' => db'.applyAll ws

/-- The statement for an object, with the primary key it will get. -/
def Pending.toWrite (db : Database) : Pending → Write
  | .node n => .insertNode (Record.setPk db.nodes.next n)
  | .dirty loaded current => .updateNode loaded current
  | .event e => .insertEvent (Record.setPk db.events.next e)

/-- The primary key a statement assigned. -/
def Write.newId : Write → Option Nat
  | .insertNode row => row.id
  | .updateNode _ _ => none
  | .insertEvent row => row.id

/-- The statements for all that was added, sent one after the other. -/
def Database.flush : Database → List Pending → Option (Database × List Write)
  | db, [] => some (db, [])
  | db, p :: ps =>
    (db.apply (p.toWrite db)).bind fun db' =>
      (db'.flush ps).map fun (d, ws) => (d, p.toWrite db :: ws)

/-! ## Process state -/

/-- The label values of `mtls_auth_total`. -/
inductive AuthOutcome where
  | success
  | missingHeaders
  | verifyFailed
  | cnParseFailed
  | revoked
  deriving DecidableEq, Repr

/-- A line logged or a counter bumped. -/
inductive Note where
  | log (event : String) (fields : Details)
  /-- The `audit_event` line of `record_event`. -/
  | auditLogged (e : AuditEvent)
  /-- `mtls_auth_total.labels(result=...).inc()`. -/
  | mtlsAuth (result : AuthOutcome)
  /-- `audit_events_total.labels(action=..., result=...).inc()`. -/
  | auditCount (action : AuditAction) (result : AuditResult)
  deriving DecidableEq, Repr

/-- The open write transaction: whose it is, the state it sees, and the
statements sent so far. -/
structure Tx where
  owner : Rid
  view : Database
  writes : List Write

/-- What all requests share. -/
structure World where
  /-- The last committed state. -/
  db : Database
  tx : Option Tx := none
  journal : List (Rid × List Write) := []
  revokedSerials : Finset Int := ∅
  clock : Time := 0
  /-- Log lines and counter increments since process start. -/
  notes : List Note := []

/-- One request's session: the objects added and not yet flushed. -/
structure Session where
  pending : List Pending := []

/-! ## Calls -/

/-- The filters of `GET /audit`, with the page. -/
structure AuditQuery where
  limit : Nat
  offset : Nat
  actorCn : Option String
  action : Option String
  result : Option String

/-- Everything a request asks of its surroundings. -/
inductive Call where
  | note (n : Note)
  | utcnow
  | isRevoked (serial : Int)
  /-- `select(Node).where(Node.node_id == node_id)`. -/
  | selectNode (nodeId : String)
  /-- `select(Node).order_by(Node.node_id)`. -/
  | selectNodes
  | selectEvents (query : AuditQuery)
  | add (obj : Pending)
  | flush
  | commit
  /-- `session.refresh` of the row with this primary key. -/
  | refresh (id : Option Nat)

/-- The answer to each call. -/
@[reducible] def Ans : Call → Type
  | .note _ => Unit
  | .utcnow => Time
  | .isRevoked _ => Bool
  | .selectNode _ => List Node
  | .selectNodes => List Node
  | .selectEvents _ => List AuditEvent
  | .add _ => Unit
  | .flush => List Nat
  | .commit => Unit
  | .refresh _ => Node

/-- A call on the session, by the site of its failures. -/
def Call.site? : Call → Option DbSite
  | .selectNode _ => some .select
  | .selectNodes => some .select
  | .selectEvents _ => some .select
  | .flush => some .flush
  | .commit => some .commit
  | .refresh _ => some .refresh
  | _ => none

/-- The source's code for a request. -/
abbrev Handler (α : Type) := Prog Call Ans Exc α

/-- How SQLAlchemy's `Enum` type reads a comparison value: a member's value
stands for its stored name, any other text for itself. -/
def enumColumn {α : Type} (all : List α) (value name : α → String) (text : String) : String :=
  ((all.find? fun a => value a = text).map name).getD text

def AuditAction.all : List AuditAction :=
  [.nodeRegister, .nodeHeartbeat, .nodeStateChange, .nodeUpdate, .nodeDelete, .authFailure,
    .authSuccess, .adminAction]

def AuditResult.all : List AuditResult := [.success, .rejected, .error]

/-- The `where` clauses; an empty filter text is no filter. -/
def AuditQuery.keeps (q : AuditQuery) (e : AuditEvent) : Bool :=
  (match q.actorCn with
    | some cn => cn = "" || e.actorCn = cn
    | none => true) &&
  (match q.action with
    | some a =>
      a = "" || e.action.name = enumColumn AuditAction.all AuditAction.value AuditAction.name a
    | none => true) &&
  (match q.result with
    | some r =>
      r = "" || e.result.name = enumColumn AuditResult.all AuditResult.value AuditResult.name r
    | none => true)

/-- One of the filters becomes a `where` clause. -/
def AuditQuery.filtered (q : AuditQuery) : Bool :=
  [q.actorCn, q.action, q.result].any fun text => text.any fun t => t ≠ ""

/-- The matching rows as SQLite comes upon them: by the index of a filter, so in
the order of their ids; without a filter by the index of the timestamp, which it
reads from the end. -/
def AuditQuery.found (q : AuditQuery) (db : Database) : List AuditEvent :=
  if q.filtered then db.events.rows.filter q.keeps else (db.events.rows.filter q.keeps).reverse

/-- `select(AuditEvent)` with filters, newest first, one page. Rows of equal
timestamp stay as they were found. -/
def AuditQuery.answer (q : AuditQuery) (db : Database) : List AuditEvent :=
  (((q.found db).mergeSort fun a b => decide (b.timestamp ≤ a.timestamp)).drop q.offset).take
    q.limit

/-- The rows that are found are a rearrangement of those that match. -/
theorem AuditQuery.found_perm (q : AuditQuery) (db : Database) :
    (q.found db).Perm (db.events.rows.filter q.keeps) := by
  unfold AuditQuery.found
  split
  · exact .refl _
  · exact List.reverse_perm _

/-! ## How calls are answered -/

/-- The state a request's statements read. -/
def World.view (i : Rid) (w : World) : Database :=
  match w.tx with
  | some t => if t.owner = i then t.view else w.db
  | none => w.db

/-- The transaction a flush of request `i` extends; `none` while somebody
else's is open. -/
def World.begin (i : Rid) (w : World) : Option (Database × List Write) :=
  match w.tx with
  | some t => if t.owner = i then some (t.view, t.writes) else none
  | none => some (w.db, [])

/-- What request `i` has not committed is dropped. -/
def World.rollback (i : Rid) (w : World) : World :=
  { w with tx := w.tx.filter fun t => t.owner ≠ i }

/-- `session.flush()`: the primary keys of the new rows. Without anything
added it sends nothing. -/
def flushSession (i : Rid) (l : Session) (w : World) : Except Exc (List Nat) × Session × World :=
  if l.pending = [] then (.ok [], l, w)
  else
    match w.begin i with
    | none => (.error .locked, {}, w.rollback i)
    | some (view, writes) =>
      match view.flush l.pending with
      | none => (.error .integrity, {}, w.rollback i)
      | some (view', writes') =>
        (.ok (writes'.filterMap Write.newId), {},
          { w with tx := some ⟨i, view', writes ++ writes'⟩ })

/-- The open transaction of request `i` becomes the committed state. -/
def World.commitTx (i : Rid) (w : World) : World :=
  match w.tx with
  | some t =>
    if t.owner = i then
      { w with db := t.view, tx := none, journal := w.journal ++ [(i, t.writes)] }
    else w
  | none => w

/-- `session.commit()`. -/
def commitSession (i : Rid) (l : Session) (w : World) : Except Exc Unit × Session × World :=
  match flushSession i l w with
  | (.ok _, l', w') => (.ok (), l', w'.commitTx i)
  | (.error e, l', w') => (.error e, l', w')

/-- The answer to a call. -/
def serve (i : Rid) : (c : Call) → Session → World → Except Exc (Ans c) × Session × World
  | .note n, l, w => (.ok (), l, { w with notes := w.notes ++ [n] })
  | .utcnow, l, w => (.ok w.clock, l, w)
  | .isRevoked serial, l, w => (.ok (isRevoked w.revokedSerials serial), l, w)
  | .selectNode nodeId, l, w =>
    (.ok ((w.view i).nodes.rows.filter fun n => decide (Record.key n = nodeId)), l, w)
  | .selectNodes, l, w =>
    (.ok ((w.view i).nodes.rows.mergeSort fun a b => decide (a.nodeId ≤ b.nodeId)), l, w)
  | .selectEvents q, l, w => (.ok (q.answer (w.view i)), l, w)
  | .add obj, l, w => (.ok (), { l with pending := l.pending ++ [obj] }, w)
  | .flush, l, w => flushSession i l w
  | .commit, l, w => commitSession i l w
  | .refresh id, l, w =>
    match (w.view i).nodes.rows.find? fun n => decide (Record.pk n = id) with
    | some n => (.ok n, l, w)
    | none => (.error .notPersistent, {}, w.rollback i)

/-! A commit or a `session.refresh`, by how it came out. -/

section

variable {i : Rid} {l l' : Session} {w w' : World}

/-- A commit that succeeds is a flush that succeeds, and then the commit of the
transaction. -/
theorem commitSession_ok {x : Unit} (h : commitSession i l w = (.ok x, l', w')) :
    ∃ ids w₁, flushSession i l w = (.ok ids, l', w₁) ∧ w' = w₁.commitTx i := by
  unfold commitSession at h
  split at h
  next ids l₁ w₁ hf =>
    obtain ⟨rfl, rfl⟩ := Prod.mk.inj (congrArg Prod.snd h)
    exact ⟨ids, w₁, hf, rfl⟩
  next => simp at h

/-- A commit that fails is a flush that fails. -/
theorem commitSession_error {e : Exc} (h : commitSession i l w = (.error e, l', w')) :
    flushSession i l w = (.error e, l', w') := by
  unfold commitSession at h
  split at h
  next => simp at h
  next e' l₁ w₁ hf =>
    obtain ⟨he, hrest⟩ := Prod.mk.inj h
    obtain ⟨rfl, rfl⟩ := Prod.mk.inj hrest
    rw [hf, Except.error.inj he]

theorem refresh_ok {id : Option Nat} {n : Node}
    (h : serve i (.refresh id) l w = (.ok n, l', w')) :
    (w.view i).nodes.rows.find? (fun r => decide (Record.pk r = id)) = some n ∧ l' = l ∧ w' = w := by
  rcases hf : (w.view i).nodes.rows.find? (fun r => decide (Record.pk r = id)) with _ | n'
  · simp [serve, hf] at h
  · obtain ⟨rfl, rfl, rfl⟩ : n' = n ∧ l = l' ∧ w = w' := by simpa [serve, hf] using h
    exact ⟨rfl, rfl, rfl⟩

/-- A refresh that fails has found no row, and rolls the transaction back. -/
theorem refresh_error {id : Option Nat} {e : Exc}
    (h : serve i (.refresh id) l w = (.error e, l', w')) :
    e = .notPersistent ∧ l' = {} ∧ w' = w.rollback i := by
  rcases hf : (w.view i).nodes.rows.find? (fun r => decide (Record.pk r = id)) with _ | n
  · obtain ⟨rfl, rfl, rfl⟩ : Exc.notPersistent = e ∧ ({} : Session) = l' ∧ w.rollback i = w' := by
      simpa [serve, hf] using h
    exact ⟨rfl, rfl, rfl⟩
  · simp [serve, hf] at h

end

/-- What happens around the requests: the clock moves, a refresh cycle ends. -/
inductive Env where
  | tick (now : Time)
  | crl (answer : CrlAnswer)

/-- The application process. -/
def controller : Machine Call Ans Exc Rid Session World Env where
  serve := serve
  fault i c _ w := c.site?.map fun site => (.database site, {}, w.rollback i)
  close i _ w := ({}, w.rollback i)
  env
    | .tick now, w => { w with clock := now }
    | .crl answer, w => { w with revokedSerials := crlCycle w.revokedSerials answer }

/-- The state `init_db` leaves on a new database. -/
def World.start : World := { db := .empty }

/-! ## The calls as the source writes them -/

/-- One call and its answer. -/
abbrev ask (c : Call) : Handler (Ans c) := Prog.ask c

def log (event : String) (fields : Details) : Handler Unit := ask (.note (.log event fields))

/-- `raise HTTPException(status_code=..., detail=...)`. -/
def raiseHttp {α : Type} (status : Nat) (detail : String) : Handler α := .throw (.http status detail)

/-- `result.scalar_one_or_none()`. -/
def scalarOneOrNone {α : Type} : List α → Handler (Option α)
  | [] => .pure none
  | [a] => .pure (some a)
  | _ => .throw .multipleResults

end ZeroTrustLab.Controller
