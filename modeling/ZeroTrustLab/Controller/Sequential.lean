import ZeroTrustLab.Controller.Runs
import ZeroTrustLab.Controller.Serial

/-!
# One request, as a function

`respond` says what a request does when it runs alone: what it is answered and
which transaction it commits, as a function of the identity in its headers,
its endpoint, the revoked serials, the clock and the committed rows. There are
no calls in it, no session and no counters.

`handle_respond` is the refinement: the application, run call by call through
`controller`, does exactly that. Results about requests processed one at a
time are then proved of `respond`, by induction over the events (`serial`).

The refinement is a simulation of one program by one function, and `Comes` is
its relation: a handler, run from a session and a world, comes to a result, a
session and a world, whatever the notes are. There is one rule for each call,
so the proof of each endpoint walks down its source and meets `respond`'s
branches on the way.
-/

namespace ZeroTrustLab.Controller

open Lib (Record Table Prog Machine)

/-- The row a lookup by `node_id` finds. -/
def Database.node? (db : Database) (nodeId : String) : Option Node :=
  db.nodes.rows.find? fun n => decide (n.nodeId = nodeId)

/-- What is answered, and the statements of the transaction committed on the
way; no statements are no transaction. -/
abbrev Reply := Except Exc Response × List Write

/-- A rejection with its audit row. -/
def reject (db : Database) (event : AuditEvent) (status : Nat) (detail : String) : Reply :=
  (.error (.http status detail), [.insertEvent (Record.setPk db.events.next event)])

/-- A returned row through the response model. -/
def readNode (status : Nat) (n : Node) : Except Exc Response :=
  if NodeRead.ok n then .ok ⟨status, .node n⟩ else .error .responseValidation

/-- `register_node`, alone. -/
def replyRegister (identity : MTLSIdentity) (payload : NodeCreate) (now : Time) (db : Database) :
    Reply :=
  if mayRegister identity payload.toNodeBase = false then
    reject db (registerForbiddenEvent identity payload.toNodeBase now) 403
      "Cannot register a node on behalf of another identity"
  else
    match db.node? payload.nodeId with
    | some _ =>
      (.error (.http 409 ("Node '" ++ payload.nodeId ++ "' is already registered")), [])
    | none =>
      let row : Node := Record.setPk db.nodes.next (newNode payload.toNodeBase now now)
      (.ok ⟨201, .node row⟩,
        [.insertNode row,
          .insertEvent (Record.setPk db.events.next
            (registeredEvent identity payload.toNodeBase now))])

/-- `heartbeat`, alone. -/
def replyHeartbeat (identity : MTLSIdentity) (nodeId : String) (now : Time) (db : Database) :
    Reply :=
  match db.node? nodeId with
  | none => (.error (.http 404 ("Node '" ++ nodeId ++ "' not found")), [])
  | some row =>
    if identity.commonName ≠ row.commonName then
      reject db (heartbeatForbiddenEvent identity nodeId now) 403
        "Cannot heartbeat on behalf of another node"
    else if row.state = .onboarding then
      (readNode 200 (row.beaten now),
        [.updateNode row (row.beaten now),
          .insertEvent (Record.setPk db.events.next (activatedEvent identity row now now))])
    else (readNode 200 (row.beaten now), [.updateNode row (row.beaten now)])

/-- The endpoint body, alone, for an identity that was let through. -/
def replyBody (endpoint : Endpoint) (identity : MTLSIdentity) (now : Time) (db : Database) :
    Reply :=
  match endpoint with
  | .health => (.ok ⟨200, .health now⟩, [])
  | .whoami => (.ok ⟨200, .whoami (whoami identity)⟩, [])
  | .listNodes =>
    let ns := db.nodes.rows.mergeSort fun a b => decide (a.nodeId ≤ b.nodeId)
    (if ns.all NodeRead.ok then .ok ⟨200, .nodes ns⟩ else .error .responseValidation, [])
  | .registerNode none => (.error (.validation ["body"]), [])
  | .registerNode (some body) =>
    match NodeCreate.validate body with
    | .error fields => (.error (.validation fields), [])
    | .ok payload => replyRegister identity payload now db
  | .getNode nodeId =>
    match db.node? nodeId with
    | none => (.error (.http 404 ("Node '" ++ nodeId ++ "' not found")), [])
    | some row => (readNode 200 row, [])
  | .heartbeat _ none => (.error (.validation ["body"]), [])
  | .heartbeat nodeId (some _) => replyHeartbeat identity nodeId now db
  | .listAuditEvents limit offset actorCn action result =>
    if badPage limit offset ≠ [] then (.error (.validation (badPage limit offset)), [])
    else
      let es := (⟨limit.toNat, offset.toNat, actorCn, action, result⟩ : AuditQuery).answer db
      (if es.all AuditEventRead.ok then .ok ⟨200, .events es⟩ else .error .responseValidation, [])

/-- The serial of the identity's certificate, when it is revoked. -/
def revokedSerial (revoked : Finset Int) (identity : MTLSIdentity) : Option Int :=
  identity.serial.filter fun serial => isRevoked revoked serial

/-- One request, alone. -/
def respond (settings : Settings) (req : Request) (revoked : Finset Int) (now : Time)
    (db : Database) : Reply :=
  match req.endpoint.body? with
  | none => (.ok ⟨200, .health now⟩, [])
  | some _ =>
    match identityOf settings req.headers with
    | .error e => (.error e, [])
    | .ok identity =>
      match revokedSerial revoked identity with
      | some serial => reject db (revokedEvent identity serial now) 403 revokedDetail
      | none => replyBody req.endpoint identity now db

/-- A request that is let through runs the body of its endpoint. -/
theorem respond_admitted {settings : Settings} {req : Request} {revoked : Finset Int}
    {identity : MTLSIdentity} {now : Time} {db : Database} (hreq : req.endpoint.body? ≠ none)
    (hid : identityOf settings req.headers = .ok identity)
    (hlive : revokedSerial revoked identity = none) :
    respond settings req revoked now db = replyBody req.endpoint identity now db := by
  obtain ⟨body, hbody⟩ := Option.ne_none_iff_exists'.mp hreq
  unfold respond
  rw [hbody, hid]
  dsimp only
  rw [hlive]

theorem revokedSerial_empty (identity : MTLSIdentity) : revokedSerial ∅ identity = none := by
  unfold revokedSerial
  rcases identity.serial with _ | n
  · rfl
  · rfl

/-- The state after a request that ran alone and committed `ws`. -/
structure World.Follows (w : World) (ws : List Write) (w' : World) : Prop where
  db : w.db.applyAll ws = some w'.db
  tx : w'.tx = none
  cache : w'.revokedSerials = w.revokedSerials
  clock : w'.clock = w.clock

/-- The row that a lookup finds is there, with the `node_id` that was asked
for. -/
theorem Database.node?_eq_some {db : Database} {nodeId : String} {row : Node}
    (h : db.node? nodeId = some row) : row ∈ db.nodes.rows ∧ row.nodeId = nodeId :=
  ⟨List.mem_of_find?_eq_some h, of_decide_eq_true (List.find?_some h :)⟩

/-- A lookup finds nothing just when no row has the `node_id`. -/
theorem Database.node?_eq_none {db : Database} {nodeId : String} :
    db.node? nodeId = none ↔ ∀ r ∈ db.nodes.rows, r.nodeId ≠ nodeId := by
  unfold Database.node?
  rw [List.find?_eq_none]
  exact forall₂_congr fun r _ => by simp

/-- A row that is there is found under its `node_id`. -/
theorem Database.node?_of_mem {db : Database} {row : Node} (h : row ∈ db.nodes.rows) :
    db.node? row.nodeId = some row :=
  db.nodes.find_of_mem h

/-! ## The calls, answered alone -/

variable {α β : Type} {i : Rid} {l l' l₁ : Session} {w w' w₁ : World} {r : Except Exc α}

/-- What request `i` does alone from a state, whatever has been logged. -/
def Comes (i : Rid) (p : Handler α) (l : Session) (w : World) (r : Except Exc α) (l' : Session)
    (w' : World) : Prop :=
  ∀ ms, ∃ ns, controller.run i p l { w with notes := ms } = (r, l', { w' with notes := ns })

theorem Comes.pure {a : α} : Comes i (.pure a) l w (.ok a) l w := fun ms => ⟨ms, rfl⟩

theorem Comes.throw {e : Exc} : Comes i (.throw e : Handler α) l w (.error e) l w :=
  fun ms => ⟨ms, rfl⟩

theorem Comes.bind {p : Handler β} {f : β → Handler α} {b : β} (h : Comes i p l w (.ok b) l₁ w₁)
    (hf : Comes i (f b) l₁ w₁ r l' w') : Comes i (p >>= f) l w r l' w' := by
  intro ms
  obtain ⟨ns, hns⟩ := h ms
  obtain ⟨ns', hns'⟩ := hf ns
  exact ⟨ns', by rw [controller.run_bind_ok i hns, hns']⟩

/-- A sequence whose first part raises has come to that exception. -/
theorem Comes.bind_error {p : Handler β} {f : β → Handler α} {e : Exc}
    (h : Comes i p l w (.error e) l₁ w₁) : Comes i (p >>= f) l w (.error e) l₁ w₁ := by
  intro ms
  obtain ⟨ns, hns⟩ := h ms
  exact ⟨ns, controller.run_bind_error i hns⟩

/-- A call comes where the rest comes from its answer. -/
theorem Comes.call {c : Call} {k : Ans c → Handler α} {x : Ans c}
    (hs : ∀ ms, serve i c l { w with notes := ms } = (.ok x, l₁, { w₁ with notes := ms }))
    (h : Comes i (k x) l₁ w₁ r l' w') : Comes i (.call c k) l w r l' w' := by
  intro ms
  obtain ⟨ns, hns⟩ := h ms
  exact ⟨ns, by rw [controller.run_call i (hs ms), hns]⟩

theorem Comes.note {n : Note} {k : Unit → Handler α} (h : Comes i (k ()) l w r l' w') :
    Comes i (.call (.note n) k) l w r l' w' :=
  fun ms => h (ms ++ [n])

/-- A handler that only notes comes to its result and leaves the world alone. -/
theorem Comes.of_notes {p : Handler α} (hp : Notes p r) : Comes i p l w r l w := by
  intro ms
  obtain ⟨ns, hns⟩ := hp.run i l { w with notes := ms }
  exact ⟨ms ++ ns, hns⟩

/-- A query reads the committed rows, as long as nothing has been sent. -/
theorem Comes.read {c : Call} {k : Ans c → Handler α} {f : Database → Ans c} (htx : w.tx = none)
    (hs : ∀ w : World, serve i c l w = (.ok (f (w.view i)), l, w))
    (h : Comes i (k (f w.db)) l w r l' w') : Comes i (.call c k) l w r l' w' := by
  refine .call (fun ms => ?_) h
  have hview : World.view i { w with notes := ms } = w.db := by
    unfold World.view
    rw [htx]
  rw [hs, hview]

theorem Comes.select {nodeId : String} {k : List Node → Handler α} (htx : w.tx = none)
    (h : Comes i (k (w.db.node? nodeId).toList) l w r l' w') :
    Comes i (.call (.selectNode nodeId) k) l w r l' w' := by
  refine .read (f := fun db => db.nodes.rows.filter fun n => decide (Record.key n = nodeId)) htx
    (fun _ => rfl) ?_
  rw [w.db.nodes.filter_key nodeId]
  exact h

/-- A flush opens the transaction and hands the new ids to the rest. -/
theorem Comes.flush {view view' : Database} {held ws : List Write} {k : List Nat → Handler α}
    (hne : l.pending ≠ []) (hb : w.begin i = some (view, held))
    (hf : view.flush l.pending = some (view', ws))
    (h : Comes i (k (ws.filterMap Write.newId)) {} { w with tx := some ⟨i, view', held ++ ws⟩ }
      r l' w') : Comes i (.call .flush k) l w r l' w' := by
  refine .call (fun ms => ?_) h
  show flushSession i l _ = _
  unfold flushSession
  rw [if_neg hne, show World.begin i { w with notes := ms } = some (view, held) from hb]
  dsimp only
  rw [hf]

/-- What was sent is committed. -/
theorem Comes.commit {view : Database} {held : List Write} {k : Unit → Handler α}
    (hp : l.pending = []) (htx : w.tx = some ⟨i, view, held⟩)
    (h : Comes i (k ()) l
      { w with db := view, tx := none, journal := w.journal ++ [(i, held)] } r l' w') :
    Comes i (.call .commit k) l w r l' w' := by
  refine .call (fun ms => ?_) h
  show commitSession i l _ = _
  unfold commitSession flushSession
  rw [if_pos hp]
  unfold World.commitTx
  simp [htx]

/-- What was added is sent and committed. -/
theorem Comes.commitPending {view : Database} {ws : List Write} {k : Unit → Handler α}
    (hne : l.pending ≠ []) (htx : w.tx = none) (hf : w.db.flush l.pending = some (view, ws))
    (h : Comes i (k ()) {}
      { w with db := view, tx := none, journal := w.journal ++ [(i, ws)] } r l' w') :
    Comes i (.call .commit k) l w r l' w' := by
  refine .call (fun ms => ?_) h
  show commitSession i l _ = _
  unfold commitSession flushSession
  rw [if_neg hne, show World.begin i { w with notes := ms } = some (w.db, []) by
    unfold World.begin
    rw [htx]]
  dsimp only
  rw [hf]
  unfold World.commitTx
  simp

/-- The row is read back. -/
theorem Comes.refresh {n : Node} {k : Node → Handler α} (htx : w.tx = none)
    (hn : n ∈ w.db.nodes.rows) (h : Comes i (k n) l w r l' w') :
    Comes i (.call (.refresh n.id) k) l w r l' w' := by
  refine .call (fun ms => ?_) h
  have hview : World.view i { w with notes := ms } = w.db := by
    unfold World.view
    rw [htx]
  have hfind : w.db.nodes.rows.find? (fun r => decide (Record.pk r = n.id)) = some n :=
    w.db.nodes.find_pk_of_mem hn
  simp only [serve]
  rw [hview, hfind]

/-- With no transaction open, one begins on the committed database. -/
theorem World.begin_none (htx : w.tx = none) : w.begin i = some (w.db, []) := by
  unfold World.begin
  rw [htx]

/-- An audit row on top of what is pending, then the commit of it all. -/
theorem Comes.record {actorCn : String} {action : AuditAction} {target : Option String}
    {result : AuditResult} {details : Option Details} {view view' : Database}
    {held ws : List Write} {f : Unit → Handler α} (hb : w.begin i = some (view, held))
    (hf : view.flush (l.pending ++ [.event
      { timestamp := w.clock, actorCn := actorCn, action := action, target := target,
        result := result, details := details }]) = some (view', ws))
    (h : Comes i (f ()) {}
      { w with db := view', tx := none, journal := w.journal ++ [(i, held ++ ws)] } r l' w') :
    Comes i (recordEvent actorCn action target result details >>= fun _ => ask .commit >>= f) l w
      r l' w' := by
  show Comes i (.call .utcnow fun _ => .call (.add _) fun _ => .call .flush fun ids =>
    .call (.note _) fun _ => .call (.note _) fun _ => .call .commit f) l w r l' w'
  refine .call (fun _ => rfl) (.call (fun _ => rfl) ?_)
  refine .flush (by simp) hb hf (.note (.note ?_))
  exact .commit rfl rfl h

/-! ## The refinement -/

/-- Alone, request `i` is answered so and commits that. -/
def Replies (i : Rid) (p : Handler Response) (w : World) (reply : Reply) : Prop :=
  ∃ l' w', Comes i p {} w reply.1 l' w' ∧ w.Follows reply.2 w'

theorem World.Follows.refl (htx : w.tx = none) : w.Follows [] w := ⟨rfl, htx, rfl, rfl⟩

/-- A handler that comes to its end without writing replies with what it has
come to. -/
theorem Replies.leaf {p : Handler Response} {e : Except Exc Response} (htx : w.tx = none)
    (h : Comes i p {} w e {} w) : Replies i p w (e, []) :=
  ⟨_, _, h, .refl htx⟩

/-- What ends in a commit has committed that. -/
theorem Replies.committed {p : Handler Response} {e : Except Exc Response} {ws : List Write}
    {d : Database} (hall : w.db.applyAll ws = some d)
    (h : Comes i p {} w e {} { w with db := d, tx := none, journal := w.journal ++ [(i, ws)] }) :
    Replies i p w (e, ws) :=
  ⟨_, _, h, hall, rfl, rfl, rfl⟩

theorem Replies.note {n : Note} {k : Unit → Handler Response} {reply : Reply}
    (h : Replies i (k ()) w reply) : Replies i (.call (.note n) k) w reply := by
  obtain ⟨l', w', hc, hf⟩ := h
  exact ⟨l', w', .note hc, hf⟩

theorem Replies.isRevoked {serial : Int} {k : Bool → Handler Response} {reply : Reply}
    (h : Replies i (k (Controller.isRevoked w.revokedSerials serial)) w reply) :
    Replies i (.call (.isRevoked serial) k) w reply := by
  obtain ⟨l', w', hc, hf⟩ := h
  exact ⟨l', w', .call (fun _ => rfl) hc, hf⟩

theorem Replies.select {nodeId : String} {k : List Node → Handler Response} {reply : Reply}
    (htx : w.tx = none) (h : Replies i (k (w.db.node? nodeId).toList) w reply) :
    Replies i (.call (.selectNode nodeId) k) w reply := by
  obtain ⟨l', w', hc, hf⟩ := h
  exact ⟨l', w', .select htx hc, hf⟩

theorem respondNode_comes (status : Nat) (n : Node) :
    Comes i (respondNode status n) l w (readNode status n) l w := by
  unfold respondNode readNode
  by_cases hok : NodeRead.ok n = true
  · rw [if_pos hok, if_pos hok]
    exact .pure
  · rw [if_neg hok, if_neg hok]
    exact .throw

/-- An audit row can always be inserted. -/
theorem Database.flush_event (db : Database) (e : AuditEvent) :
    ∃ d, db.apply (.insertEvent (Record.setPk db.events.next e)) = some d ∧
      db.flush [.event e] = some (d, [.insertEvent (Record.setPk db.events.next e)]) := by
  obtain ⟨d, hd⟩ := Database.apply_harmless (p := .event e) trivial db
  have hd : db.apply (.insertEvent (Record.setPk db.events.next e)) = some d := hd
  exact ⟨d, hd, by simp [Database.flush, Pending.toWrite, hd]⟩

/-- A rejection, recorded and raised. -/
theorem replies_reject {actorCn : String} {action : AuditAction} {target : Option String}
    {result : AuditResult} {details : Option Details} {status : Nat} {detail : String}
    {f : Unit → Handler Response} (htx : w.tx = none)
    (hf : ∀ w, Comes i (f ()) {} w (.error (.http status detail)) {} w) :
    Replies i (recordEvent actorCn action target result details >>= fun _ => ask .commit >>= f) w
      (reject w.db
        { timestamp := w.clock, actorCn := actorCn, action := action, target := target,
          result := result, details := details } status detail) := by
  obtain ⟨d, hd, hflush⟩ := w.db.flush_event
    { timestamp := w.clock, actorCn := actorCn, action := action, target := target,
      result := result, details := details }
  refine .committed ?_ (.record (w.begin_none htx) hflush (hf _))
  show (w.db.apply _).bind _ = _
  rw [hd]
  rfl

/-- A node with a free `node_id` is inserted, and its audit row after it. -/
theorem Database.flush_node {db : Database} {n : Node} (e : AuditEvent)
    (hfree : ∀ r ∈ db.nodes.rows, r.nodeId ≠ n.nodeId) :
    ∃ d d', db.flush [.node n] = some (d, [.insertNode (Record.setPk db.nodes.next n)]) ∧
      d.flush [.event e] = some (d', [.insertEvent (Record.setPk db.events.next e)]) ∧
      db.applyAll [.insertNode (Record.setPk db.nodes.next n),
        .insertEvent (Record.setPk db.events.next e)] = some d' ∧
      Record.setPk db.nodes.next n ∈ d'.nodes.rows := by
  obtain ⟨t, ht, hrows⟩ := Lib.Table.insert?_next (t := db.nodes)
    (r := Record.setPk db.nodes.next n) (Record.pk_setPk _ _) hfree
  have hd : db.apply (.insertNode (Record.setPk db.nodes.next n)) = some { db with nodes := t } := by
    show (db.nodes.insert? _).map _ = _
    rw [ht]
    rfl
  obtain ⟨d', hd', hflush⟩ := Database.flush_event { db with nodes := t } e
  refine ⟨{ db with nodes := t }, d', ?_, hflush, ?_, ?_⟩
  · simp [Database.flush, Pending.toWrite, hd]
  · simp only [Database.applyAll, hd, Option.bind_some, hd']
  · rw [(Database.apply_insertEvent hd').2]
    show _ ∈ t.rows
    rw [hrows]
    exact List.mem_append_right _ (List.mem_singleton_self _)

theorem registerNode_replies (payload : NodeCreate) (identity : MTLSIdentity)
    (htx : w.tx = none) :
    Replies i (registerNode payload identity >>= respondNode 201) w
      (replyRegister identity payload w.clock w.db) := by
  unfold registerNode replyRegister
  by_cases hmay : mayRegister identity payload.toNodeBase = false
  · rw [if_pos hmay, if_pos hmay]
    exact replies_reject htx fun _ => .throw
  · rw [if_neg hmay, if_neg hmay]
    rcases hrow : w.db.node? payload.nodeId with _ | row
    · -- the node is free: the row and the audit row go out in one transaction
      let row : Node := newNode payload.toNodeBase w.clock w.clock
      let event := registeredEvent identity payload.toNodeBase w.clock
      obtain ⟨d, d', hnode, hevent, hall, hmem⟩ :=
        Database.flush_node (n := row) event (Database.node?_eq_none.mp hrow)
      have hok : NodeRead.ok (Record.setPk w.db.nodes.next row) = true := by
        unfold NodeRead.ok
        simp [row, newNode, Record.setPk, payload.within]
      let ws : List Write := [.insertNode (Record.setPk w.db.nodes.next row)] ++
        [.insertEvent (Record.setPk w.db.events.next event)]
      refine .committed (show w.db.applyAll ws = some d' from hall) (.select htx ?_)
      rw [hrow]
      refine .call (fun _ => rfl) (.call (fun _ => rfl) (.call (fun _ => rfl) ?_))
      refine .flush (by simp) (World.begin_none htx) hnode ?_
      show Comes i ((recordEvent _ _ _ _ _ >>= _) >>= respondNode 201) _ _ _ _ _
      rw [Prog.bind_assoc]
      have hread := respondNode_comes (i := i) (l := {})
        (w := { w with db := d', tx := none, journal := w.journal ++ [(i, ws)] }) 201
        (Record.setPk w.db.nodes.next row)
      unfold readNode at hread
      rw [if_pos hok] at hread
      exact .record (if_pos rfl) hevent (.refresh rfl hmem hread)
    · refine .leaf htx (.select htx ?_)
      rw [hrow]
      exact .note .throw

/-- A column that is written only when it differs has the new value. -/
private theorem changed_column {β : Type} [DecidableEq β] (a b : β) : (if a = b then b else a) = a := by
  split
  next h => exact h.symm
  next => rfl

/-- The row as it is stored after a heartbeat that read it just before. -/
theorem changed_self (row : Node) (now : Time) :
    Node.changed row (row.beaten now) row = row.beaten now := by
  unfold Node.changed
  simp only [changed_column]
  rfl

/-- A heartbeat's update always goes through, and the row is stored with the
values it has now. -/
theorem Database.apply_beaten {db : Database} {row : Node} (now : Time)
    (hrow : row ∈ db.nodes.rows) :
    ∃ d, db.apply (.updateNode row (row.beaten now)) = some d ∧ d.events = db.events ∧
      row.beaten now ∈ d.nodes.rows := by
  obtain ⟨d, hd⟩ := Database.apply_harmless (p := .dirty row (row.beaten now)) rfl db
  have hd : db.apply (.updateNode row (row.beaten now)) = some d := hd
  obtain ⟨hrows, hevents⟩ := Database.apply_updateNode hd
  refine ⟨d, hd, hevents, ?_⟩
  rw [hrows]
  refine List.mem_map.mpr ⟨row, hrow, ?_⟩
  rw [if_pos rfl, changed_self]

/-- The update and the audit row of a first heartbeat are sent together. -/
theorem Database.flush_beaten {db : Database} {row : Node} (now : Time) (e : AuditEvent)
    (hrow : row ∈ db.nodes.rows) :
    ∃ d, db.flush [.dirty row (row.beaten now), .event e] = some (d,
        [.updateNode row (row.beaten now), .insertEvent (Record.setPk db.events.next e)]) ∧
      db.applyAll [.updateNode row (row.beaten now),
        .insertEvent (Record.setPk db.events.next e)] = some d ∧
      row.beaten now ∈ d.nodes.rows := by
  obtain ⟨d, hd, hevents, hbeaten⟩ := Database.apply_beaten now hrow
  obtain ⟨d', hd', -⟩ := Database.flush_event d e
  rw [hevents] at hd'
  refine ⟨d', ?_, ?_, ?_⟩
  · simp only [Database.flush, Pending.toWrite, hd, Option.bind_some, hevents, hd', Option.map_some]
  · simp only [Database.applyAll, hd, Option.bind_some, hd']
  · rw [(Database.apply_insertEvent hd').2]
    exact hbeaten

theorem heartbeat_replies (nodeId : String) (body : NodeHeartbeat) (identity : MTLSIdentity)
    (htx : w.tx = none) :
    Replies i (heartbeat nodeId body identity >>= respondNode 200) w
      (replyHeartbeat identity nodeId w.clock w.db) := by
  unfold heartbeat replyHeartbeat
  rcases hrow : w.db.node? nodeId with _ | row
  · refine .leaf htx (.select htx ?_)
    rw [hrow]
    exact .throw
  · refine .select htx ?_
    rw [hrow]
    show Replies i ((if identity.commonName ≠ row.commonName then _ else _) >>= respondNode 200) w
      (if identity.commonName ≠ row.commonName then _ else _)
    by_cases hcn : identity.commonName ≠ row.commonName
    · rw [if_pos hcn, if_pos hcn]
      exact replies_reject htx fun _ => .throw
    · rw [if_neg hcn, if_neg hcn]
      have hmem := (Database.node?_eq_some hrow).1
      by_cases ho : row.state = .onboarding
      · rw [if_pos ho]
        -- the first heartbeat sends the update and the audit row together
        obtain ⟨d, hflush, hall, hbeaten⟩ := Database.flush_beaten w.clock
          (activatedEvent identity row w.clock w.clock) hmem
        refine .committed hall (.call (fun _ => rfl) (.call (fun _ => rfl) ?_))
        show Comes i ((if (row.state == .onboarding) = true then _ else _) >>= respondNode 200)
          _ _ _ _ _
        rw [if_pos (by simp [ho]), Prog.bind_assoc]
        exact .record (World.begin_none htx) hflush
          (.refresh (n := row.beaten w.clock) rfl hbeaten (respondNode_comes _ _))
      · rw [if_neg ho]
        -- a later one sends the update alone, at the commit
        obtain ⟨d, hd, -, hbeaten⟩ := Database.apply_beaten w.clock hmem
        have hflush : w.db.flush [.dirty row (row.beaten w.clock)]
            = some (d, [.updateNode row (row.beaten w.clock)]) := by
          simp only [Database.flush, Pending.toWrite, hd, Option.bind_some, Option.map_some]
        refine .committed (d := d) ?_ ?_
        · simp only [Database.applyAll, hd, Option.bind_some]
        · refine .call (fun _ => rfl) (.call (fun _ => rfl) ?_)
          show Comes i ((if (row.state == .onboarding) = true then _ else _) >>= respondNode 200)
            _ _ _ _ _
          rw [if_neg (by simp [ho])]
          exact .note (.commitPending (by simp) htx hflush
            (.refresh (n := row.beaten w.clock) rfl hbeaten (respondNode_comes _ _)))

/-- The endpoint body. -/
theorem body_replies {endpoint : Endpoint} {body : MTLSIdentity → Handler Response}
    (hbody : endpoint.body? = some body) (identity : MTLSIdentity) (htx : w.tx = none) :
    Replies i (body identity) w (replyBody endpoint identity w.clock w.db) := by
  cases endpoint with
  | health => simp [Endpoint.body?] at hbody
  | whoami =>
    obtain rfl := Option.some.inj hbody
    exact .leaf htx .pure
  | listNodes =>
    obtain rfl := Option.some.inj hbody
    refine .leaf htx (.read (f := fun db =>
      db.nodes.rows.mergeSort fun a b => decide (a.nodeId ≤ b.nodeId)) htx (fun _ => rfl) (.note ?_))
    show Comes i (if List.all _ NodeRead.ok then _ else _) _ _ _ _ _
    split
    next => exact .pure
    next => exact .throw
  | registerNode b =>
    obtain rfl := Option.some.inj hbody
    rcases b with _ | b
    · exact .leaf htx .throw
    · unfold replyBody
      dsimp only
      rcases NodeCreate.validate b with fields | payload
      · exact .leaf htx .throw
      · exact registerNode_replies payload identity htx
  | getNode nodeId =>
    obtain rfl := Option.some.inj hbody
    refine .select htx ?_
    unfold replyBody
    dsimp only
    rcases w.db.node? nodeId with _ | row
    · exact .leaf htx .throw
    · exact .leaf htx (respondNode_comes _ _)
  | heartbeat nodeId b =>
    obtain rfl := Option.some.inj hbody
    rcases b with _ | b
    · exact .leaf htx .throw
    · exact heartbeat_replies nodeId b identity htx
  | listAuditEvents limit offset actorCn action result =>
    obtain rfl := Option.some.inj hbody
    unfold replyBody
    dsimp only
    split
    next => exact .leaf htx .throw
    next =>
      refine .leaf htx (.read (f := AuditQuery.answer ⟨limit.toNat, offset.toNat, actorCn, action,
        result⟩) htx (fun _ => rfl) ?_)
      show Comes i (if List.all _ AuditEventRead.ok then _ else _) _ _ _ _ _
      split
      next => exact .pure
      next => exact .throw

theorem app_replies (settings : Settings) (req : Request) (htx : w.tx = none) :
    Replies i (app settings req) w (respond settings req w.revokedSerials w.clock w.db) := by
  unfold app respond
  rcases hbody : req.endpoint.body? with _ | body
  · exact .leaf htx (.call (fun _ => rfl) .pure)
  · have hnotes := notes_getMtlsIdentity settings req.headers
    show Replies i ((getMtlsIdentity settings req.headers >>= requireLiveIdentity) >>= body) w _
    rw [Prog.bind_assoc]
    dsimp only
    rcases hid : identityOf settings req.headers with e | identity
    · rw [hid] at hnotes
      exact .leaf htx (.bind_error (.of_notes hnotes))
    · rw [hid] at hnotes
      suffices hlive : Replies i (requireLiveIdentity identity >>= body) w
          (match revokedSerial w.revokedSerials identity with
            | some serial => reject w.db (revokedEvent identity serial w.clock) 403 revokedDetail
            | none => replyBody req.endpoint identity w.clock w.db) by
        obtain ⟨l', w', hc, hf⟩ := hlive
        exact ⟨l', w', .bind (.of_notes hnotes) hc, hf⟩
      unfold requireLiveIdentity revokedSerial
      rcases identity.serial with _ | serial
      · exact body_replies hbody identity htx
      · refine .isRevoked ?_
        show Replies i ((if isRevoked w.revokedSerials serial = true then _ else _) >>= body) w _
        by_cases hrev : isRevoked w.revokedSerials serial = true
        · rw [Option.filter_some, if_pos hrev, if_pos hrev]
          exact .note (replies_reject htx fun _ => .note .throw)
        · rw [Option.filter_some, if_neg hrev, if_neg hrev]
          exact body_replies hbody identity htx

/-- **The refinement**: a request that runs alone does what `respond` says. -/
theorem handle_respond (settings : Settings) (i : Rid) (req : Request) (htx : w.tx = none) :
    ∃ w', handle settings i req w
        = ((respond settings req w.revokedSerials w.clock w.db).1, w') ∧
      w.Follows (respond settings req w.revokedSerials w.clock w.db).2 w' := by
  obtain ⟨l', w', hc, hf⟩ := app_replies (i := i) settings req htx
  obtain ⟨ns, hns⟩ := hc w.notes
  refine ⟨{ w' with notes := ns }, ?_, hf.db, hf.tx, hf.cache, hf.clock⟩
  unfold handle
  rw [hns]
  show (_, World.rollback i { w' with notes := ns }) = _
  unfold World.rollback
  simp [hf.tx]

end ZeroTrustLab.Controller
