import ZeroTrustLab.Controller.Turns
import ZeroTrustLab.Controller.Confinement

/-!
# Replaying the audit log

The audit rows that name a node tell its life: registered, it is onboarding;
each state change starts from the state it is in. `replay` folds them, and
`Replays` says of a stored row that the fold ends in its state, with an audit
row behind every state other than onboarding.

The endpoints keep this with one exception. `NodeCreate` inherits `state` from
`NodeBase`, so a registration stores whatever state its payload asks for,
while its audit row is the one of every registration. `log_replays_iff` says
that this is the only way: over a sequence of requests the log replays to the
rows just when every accepted registration asks for onboarding.

What the log tells is defined by the log alone: a registration begins with
onboarding, and a change that does not start from the state reached so far
makes no sense (`replayRow`). `Turn.logged` is the step over one request, and a
registration with another state is the only turn at which it fails. The other
direction needs no induction: where such a registration was accepted, the row
is in a state that no audit row accounts for.
-/

namespace ZeroTrustLab.Controller

open Lib (Record)

/-! ## The fold -/

/-- The audit rows that name a node, in order. -/
def Database.eventsFor (db : Database) (nodeId : String) : List AuditEvent :=
  db.events.rows.filter fun e => decide (e.target = some ("node:" ++ nodeId))

/-- An entry of the `details` object. -/
def AuditEvent.detail (e : AuditEvent) (key : String) : Option String :=
  ((e.details.getD []).lookup key).join

def NodeState.all : List NodeState := [.onboarding, .active, .stale, .revoked, .decommissioned]

/-- The state a text stands for. -/
def NodeState.ofValue? (text : String) : Option NodeState := NodeState.all.find? fun s => s.value = text

/-- One audit row after another; the state is `none` before the registration,
and the result is `none` when the row does not fit. -/
def replayRow (state : Option NodeState) (e : AuditEvent) : Option (Option NodeState) :=
  match e.action with
  | .nodeRegister => some (some .onboarding)
  | .nodeStateChange =>
    if state ≠ none ∧ e.detail "from" = state.map NodeState.value then
      ((e.detail "to").bind NodeState.ofValue?).map some
    else none
  | _ => some state

def replay (es : List AuditEvent) : Option (Option NodeState) := es.foldlM replayRow none

/-- The log accounts for a stored row. -/
structure Replays (db : Database) (row : Node) : Prop where
  log : replay (db.eventsFor row.nodeId) = some (some row.state)
  active : row.state = .active → row.lastHeartbeatAt ≠ none ∧
    ∃ e ∈ db.eventsFor row.nodeId, e.action = .nodeStateChange ∧ e.actorCn = row.commonName ∧
      e.detail "from" = some NodeState.onboarding.value ∧ e.detail "to" = some NodeState.active.value
  others : row.state ≠ .onboarding → ∃ e ∈ db.eventsFor row.nodeId,
    e.action = .nodeStateChange ∧ e.detail "to" = some row.state.value

def LogReplays (db : Database) : Prop := ∀ row ∈ db.nodes.rows, Replays db row

theorem replay_concat (es : List AuditEvent) (e : AuditEvent) :
    replay (es ++ [e]) = (replay es).bind fun s => replayRow s e := by
  unfold replay
  rw [List.foldlM_append]
  simp

theorem eventsFor_append {db db' : Database} {es : List AuditEvent}
    (h : db'.events.rows = db.events.rows ++ es) (nodeId : String) :
    db'.eventsFor nodeId
      = db.eventsFor nodeId ++ es.filter fun e => decide (e.target = some ("node:" ++ nodeId)) := by
  unfold Database.eventsFor
  rw [h, List.filter_append]

/-- An audit row about somebody else. -/
theorem eventsFor_other {db db' : Database} {e : AuditEvent} {nodeId nodeId' : String}
    (h : db'.events.rows = db.events.rows ++ [e]) (ht : e.target = some ("node:" ++ nodeId'))
    (hne : nodeId ≠ nodeId') : db'.eventsFor nodeId = db.eventsFor nodeId := by
  rw [eventsFor_append h, List.filter_cons_of_neg, List.filter_nil, List.append_nil]
  rw [ht]
  simp [Ne.symm hne]

/-- One row about the node is one row more. -/
theorem eventsFor_own {db db' : Database} {e : AuditEvent} {nodeId : String}
    (h : db'.events.rows = db.events.rows ++ [e]) (ht : e.target = some ("node:" ++ nodeId)) :
    db'.eventsFor nodeId = db.eventsFor nodeId ++ [e] := by
  rw [eventsFor_append h, List.filter_cons_of_pos, List.filter_nil]
  rw [ht]
  simp

/-- A rejection does not move the replay. -/
theorem replay_rejected {db db' : Database} {e : AuditEvent} (haction : e.action = .authFailure)
    (h : db'.events.rows = db.events.rows ++ [e]) (nodeId : String) :
    replay (db'.eventsFor nodeId) = replay (db.eventsFor nodeId) := by
  rw [eventsFor_append h]
  by_cases ht : e.target = some ("node:" ++ nodeId)
  · rw [List.filter_cons_of_pos (by simp [ht]), List.filter_nil, replay_concat]
    rcases replay (db.eventsFor nodeId) with _ | s
    · rfl
    · simp only [Option.bind_some, replayRow, haction]
  · rw [List.filter_cons_of_neg (by simp [ht]), List.filter_nil, List.append_nil]

/-- A state is read back from its text. -/
theorem NodeState.ofValue?_value (s : NodeState) : NodeState.ofValue? s.value = some s := by
  cases s <;> rfl

/-- A state change that fits. -/
theorem replayRow_change {e : AuditEvent} {s s' : NodeState} (haction : e.action = .nodeStateChange)
    (hfrom : e.detail "from" = some s.value) (hto : e.detail "to" = some s'.value) :
    replayRow (some s) e = some (some s') := by
  unfold replayRow
  simp only [haction, hfrom, hto, NodeState.ofValue?_value, Option.map_some, Option.bind_some, ne_eq,
    reduceCtorEq, not_false_eq_true, and_self, if_true]

/-! ## The invariant -/

/-- Onboarding, or active by a heartbeat that is in the log. -/
def Audited (db : Database) (row : Node) : Prop :=
  row.state = .onboarding ∨ row.state = .active ∧ row.lastHeartbeatAt ≠ none ∧
    ∃ e ∈ db.eventsFor row.nodeId, e.action = .nodeStateChange ∧ e.actorCn = row.commonName ∧
      e.detail "from" = some NodeState.onboarding.value ∧ e.detail "to" = some NodeState.active.value

/-- The log replays to the states of all nodes, stored or not. -/
structure Logged (db : Database) : Prop where
  log : ∀ nodeId, replay (db.eventsFor nodeId)
    = some ((db.node? nodeId).map fun row => row.state)
  row : ∀ row ∈ db.nodes.rows, Audited db row

/-- A database whose rows are all logged is one whose log replays. -/
theorem Logged.replays {db : Database} (h : Logged db) : LogReplays db := by
  intro row hrow
  have hlog := h.log row.nodeId
  rw [Database.node?_of_mem hrow] at hlog
  rcases h.row row hrow with ho | ⟨ha, hbeat, hevent⟩
  · exact ⟨hlog, fun ha => absurd (ho.symm.trans ha) (by simp), fun hne => absurd ho hne⟩
  · refine ⟨hlog, fun _ => ⟨hbeat, hevent⟩, fun _ => ?_⟩
    obtain ⟨e, he, haction, -, -, hto⟩ := hevent
    exact ⟨e, he, haction, by rw [ha]; exact hto⟩

variable {settings : Settings} {req : Request} {revoked : Finset Int} {now : Time}
  {db db' : Database} {r : Except Exc Response}

/-- The request registers the payload: it may, and nobody has the `node_id`. -/
structure Enrols (settings : Settings) (req : Request) (revoked : Finset Int) (db : Database)
    (payload : NodeCreate) : Prop where
  asks : req.endpoint = .registerNode (some payload.toNodeBase)
  may : ∃ identity, LetThrough settings req revoked identity ∧
    mayRegister identity payload.toNodeBase = true
  free : db.node? payload.nodeId = none

/-- What such a request is answered and commits. -/
theorem Enrols.respond {payload : NodeCreate} (h : Enrols settings req revoked db payload) :
    ∃ identity row event, row.toNodeBase = payload.toNodeBase ∧
      event.action = .nodeRegister ∧ event.target = some ("node:" ++ payload.nodeId) ∧
      event.actorCn = identity.commonName ∧ LetThrough settings req revoked identity ∧
      respond settings req revoked now db
        = (.ok ⟨201, .node row⟩, [.insertNode row, .insertEvent event]) := by
  obtain ⟨hreq, ⟨identity, hlet, hmay⟩, hfree⟩ := h
  refine ⟨identity, Record.setPk db.nodes.next (newNode payload.toNodeBase now now),
    Record.setPk db.events.next (registeredEvent identity payload.toNodeBase now), rfl, rfl, rfl, rfl,
    hlet, ?_⟩
  have hvalid : NodeCreate.validate payload.toNodeBase = .ok payload := by
    unfold NodeCreate.validate
    rw [dif_pos payload.within]
  rw [respond_admitted (by simp [hreq, Endpoint.body?]) hlet.identified hlet.live, hreq]
  dsimp only [replyBody]
  rw [hvalid]
  dsimp only [replyRegister]
  rw [if_neg (by simp [hmay]), hfree]

/-- An accepted registration asks for the state its audit row stands for. -/
def StartsOnboarding (settings : Settings) (req : Request) (w : World) : Prop :=
  ∀ payload, Enrols settings req w.revokedSerials w.db payload → payload.state = .onboarding

/-- More audit rows take nothing from what has been audited. -/
theorem Audited.grows {row : Node} (h : Audited db row)
    (hgrows : ∃ es, db'.events.rows = db.events.rows ++ es) : Audited db' row := by
  obtain ⟨es, hes⟩ := hgrows
  rcases h with ho | ⟨ha, hbeat, e, he, hevent⟩
  · exact .inl ho
  · refine .inr ⟨ha, hbeat, e, ?_, hevent⟩
    rw [eventsFor_append hes]
    exact List.mem_append_left _ he

theorem beaten_state_onboarding {row : Node} (ho : row.state = .onboarding) (now : Time) :
    (row.beaten now).state = .active := by
  simp [Node.beaten, ho]

/-- A heartbeat leaves any other state as it is. -/
theorem beaten_state {row : Node} (ho : row.state ≠ .onboarding) (now : Time) :
    (row.beaten now).state = row.state := by
  simp [Node.beaten, ho]

/-- One row has changed, or come in, and only its part of the log has grown. -/
theorem Logged.of_row (h : Logged db) (row : Node)
    (hnode : ∀ nodeId, db'.node? nodeId
      = if nodeId = row.nodeId then some row else db.node? nodeId)
    (hgrows : ∃ es, db'.events.rows = db.events.rows ++ es)
    (hother : ∀ nodeId, nodeId ≠ row.nodeId → db'.eventsFor nodeId = db.eventsFor nodeId)
    (hlog : replay (db'.eventsFor row.nodeId) = some (some row.state)) (hrow : Audited db' row) :
    Logged db' := by
  refine ⟨fun nodeId => ?_, fun r hr => ?_⟩
  · rw [hnode]
    by_cases he : nodeId = row.nodeId
    · rw [if_pos he, he]
      exact hlog
    · rw [if_neg he, hother nodeId he]
      exact h.log nodeId
  · have hfind := Database.node?_of_mem hr
    rw [hnode] at hfind
    by_cases he : r.nodeId = row.nodeId
    · rw [if_pos he] at hfind
      rw [← Option.some.inj hfind]
      exact hrow
    · rw [if_neg he] at hfind
      exact (h.row r (Database.node?_eq_some hfind).1).grows hgrows

/-- The first heartbeat of a row, with its event. -/
theorem Logged.activated {loaded : Node} {identity : MTLSIdentity} {k : Nat} (h : Logged db)
    (hloaded : db.node? loaded.nodeId = some loaded) (ho : loaded.state = .onboarding)
    (hcn : identity.commonName = loaded.commonName)
    (hnode : ∀ nodeId, db'.node? nodeId
      = if nodeId = loaded.nodeId then some (loaded.beaten now) else db.node? nodeId)
    (hevents : db'.events.rows
      = db.events.rows ++ [Record.setPk k (activatedEvent identity loaded now now)]) :
    Logged db' := by
  have hactive := beaten_state_onboarding ho now
  let event : AuditEvent := Record.setPk k (activatedEvent identity loaded now now)
  have hfrom : event.detail "from" = some NodeState.onboarding.value :=
    congrArg (fun s => some (NodeState.value s)) ho
  have hto : event.detail "to" = some NodeState.active.value :=
    congrArg (fun s => some (NodeState.value s)) hactive
  have hown : db'.eventsFor (loaded.beaten now).nodeId = db.eventsFor loaded.nodeId ++ [event] :=
    eventsFor_own hevents rfl
  refine h.of_row (loaded.beaten now) hnode ⟨_, hevents⟩
    (fun nodeId he => eventsFor_other hevents rfl he) ?_ ?_
  · rw [hown, replay_concat, h.log, hloaded, Option.map_some, ho, Option.bind_some,
      replayRow_change rfl hfrom hto, hactive]
  · refine .inr ⟨hactive, by simp [Node.beaten], event, ?_, rfl, hcn, hfrom, hto⟩
    rw [hown]
    exact List.mem_append_right _ (List.mem_singleton_self _)

/-- A heartbeat that changes no state writes no event. -/
theorem Logged.beaten {loaded : Node} (h : Logged db)
    (hloaded : db.node? loaded.nodeId = some loaded) (ho : loaded.state ≠ .onboarding)
    (hnode : ∀ nodeId, db'.node? nodeId
      = if nodeId = loaded.nodeId then some (loaded.beaten now) else db.node? nodeId)
    (hevents : db'.events.rows = db.events.rows) : Logged db' := by
  have hfor : ∀ nodeId, db'.eventsFor nodeId = db.eventsFor nodeId := by
    intro nodeId
    unfold Database.eventsFor
    rw [hevents]
  refine h.of_row (loaded.beaten now) hnode ⟨[], by rw [hevents, List.append_nil]⟩
    (fun nodeId _ => hfor nodeId) ?_ ?_
  · rw [hfor, beaten_state ho]
    have hlog := h.log loaded.nodeId
    rw [hloaded] at hlog
    exact hlog
  · rcases h.row loaded (Database.node?_eq_some hloaded).1 with honb | ⟨ha, -, e, hmem, hevent⟩
    · exact absurd honb ho
    · refine .inr ⟨(beaten_state ho now).trans ha, by simp [Node.beaten], e, ?_, hevent⟩
      rw [hfor]
      exact hmem

/-- **One request keeps the log in step**, unless it registers a node in
another state than onboarding. -/
theorem Turn.logged (ht : Turn settings req revoked now db db' r)
    (hstart : ∀ payload, Enrols settings req revoked db payload → payload.state = .onboarding)
    (h : Logged db) : Logged db' := by
  cases ht with
  | quiet hdb => rw [hdb]; exact h
  | rejected haction hnodes hevents =>
    refine ⟨fun nodeId => ?_, fun row hrow => ?_⟩
    · rw [replay_rejected haction hevents, h.log]
      unfold Database.node?
      rw [hnodes]
    · rw [hnodes] at hrow
      exact (h.row row hrow).grows ⟨_, hevents⟩
  | @registered identity payload id k hreq hlet hmay hfree hnode hevents =>
    have ho : payload.state = .onboarding := hstart payload ⟨hreq, ⟨identity, hlet, hmay⟩, hfree⟩
    refine h.of_row (Record.setPk id (newNode payload.toNodeBase now now)) hnode ⟨_, hevents⟩
      (fun nodeId he => eventsFor_other hevents rfl he) ?_ ?_
    · show replay (db'.eventsFor payload.nodeId) = some (some payload.state)
      rw [eventsFor_own hevents rfl, replay_concat, h.log, ho]
      rfl
    · exact .inl ho
  | @beaten identity loaded body k hreq hlet hloaded hcn hnode hevents =>
    by_cases ho : loaded.state = .onboarding
    · rw [if_pos ho] at hevents
      exact h.activated hloaded ho hcn hnode hevents
    · rw [if_neg ho, List.append_nil] at hevents
      exact h.beaten hloaded ho hnode hevents

/-- In a sequence whose accepted registrations all ask for onboarding. -/
theorem afterEvents_logged (es : List Event)
    (hstart : ∀ es₁ req, es₁ ++ [.request req] <+: es →
      StartsOnboarding settings req (afterEvents settings es₁)) :
    Logged (afterEvents settings es).db := by
  refine afterEvents_invariant ⟨fun _ => rfl, by simp [Database.empty]⟩ es ?_
  intro es₁ req es₂ he db' r ht hold
  exact ht.logged (hstart es₁ req ⟨es₂, by rw [he]; simp⟩) hold

/-- A registration in another state than onboarding breaks the log. -/
theorem onboarding_of_logReplays {es : List Event} {payload : NodeCreate}
    (h : LogReplays (afterEvents settings (es ++ [.request req])).db)
    (hp : Enrols settings req (afterEvents settings es).revokedSerials (afterEvents settings es).db
      payload) : payload.state = .onboarding := by
  obtain ⟨-, hf⟩ := afterEvents_request settings es req
  obtain ⟨identity, row, event, hrow, haction, htarget, -, -, hrespond⟩ := hp.respond
  rw [hrespond] at hf
  obtain ⟨hnodes, hevents⟩ := Database.applyAll_rows hf.db
  have hmem : row ∈ (afterEvents settings (es ++ [.request req])).db.nodes.rows := by
    rw [hnodes]
    exact List.mem_append_right _ (List.mem_singleton_self row)
  have hid : row.nodeId = payload.nodeId := congrArg NodeBase.nodeId hrow
  have hlog := (h row hmem).log
  rw [hid, eventsFor_own hevents htarget, replay_concat] at hlog
  obtain ⟨s, -, hs⟩ := Option.bind_eq_some_iff.mp hlog
  -- the last row puts the replay in onboarding, whatever it was before
  unfold replayRow at hs
  rw [haction] at hs
  have hstate : NodeState.onboarding = row.state := Option.some.inj (Option.some.inj hs)
  rw [hstate]
  exact (congrArg NodeBase.state hrow).symm

/-- **When the log replays**: in every state on the way just when every accepted
registration asked for onboarding. Accepted means answered 201 in its turn, so
the condition is about a request and the state it came to. -/
theorem log_replays_iff (settings : Settings) (es : List Event) :
    (∀ es₁, es₁ <+: es → LogReplays (afterEvents settings es₁).db) ↔
      ∀ es₁ req, es₁ ++ [.request req] <+: es →
        StartsOnboarding settings req (afterEvents settings es₁) := by
  constructor
  · intro h es₁ req hpre payload hp
    exact onboarding_of_logReplays (h _ hpre) hp
  · intro h es₁ hpre
    exact (afterEvents_logged es₁ fun es₂ req hpre' => h es₂ req (hpre'.trans hpre)).replays

/-- The example in which pi-01 registers itself as already active. -/
def selfActivation : List Event :=
  [.request ⟨nodeHeaders, .registerNode (some ⟨"pi-01", "pi-01.thesis.local", "sensor", .active, none,
    none⟩)⟩]

/-- The row is active, has never sent a heartbeat, and the log says onboarding. -/
theorem selfActivation_unlogged :
    (∃ row ∈ (afterEvents {} selfActivation).db.nodes.rows,
      row.state = .active ∧ row.lastHeartbeatAt = none ∧
      replay ((afterEvents {} selfActivation).db.eventsFor row.nodeId) = some (some .onboarding)) ∧
    ¬ LogReplays (afterEvents {} selfActivation).db := by
  let row : Node := Record.setPk 1
    (newNode ⟨"pi-01", "pi-01.thesis.local", "sensor", .active, none, none⟩ 0 0)
  have hrows : (afterEvents {} selfActivation).db.nodes.rows = [row] := by decide +kernel
  have hmem : row ∈ (afterEvents {} selfActivation).db.nodes.rows := by
    rw [hrows]
    exact List.mem_singleton_self row
  have hreplay : replay ((afterEvents {} selfActivation).db.eventsFor row.nodeId)
      = some (some .onboarding) := by
    decide +kernel
  refine ⟨⟨row, hmem, rfl, rfl, hreplay⟩, fun h => ?_⟩
  have hlog := (h row hmem).log
  rw [hreplay] at hlog
  exact absurd hlog (by decide)

end ZeroTrustLab.Controller
