import ZeroTrustLab.Controller.Routes

/-!
# Activating a node once

The first heartbeat of a node moves it from onboarding to active and leaves an
audit row that says so. Whether a heartbeat is the first is decided on the row
the request read, and the update by primary key never asks again. So the audit
row is written once for every request that read the row in time.

`activated_once_iff` is the exact condition: however many heartbeats of a node
run at once, the activation is audited once just when at most one of them read
the row while it was onboarding.

The proof counts. `Traced` is the invariant of a run: a row that was there at
the start is in the state its activators have left it in, whoever they are. A
heartbeat that beats the row ends in one of three ways (`BeatEnding`), and only
the one that had read an onboarding row has activated anything; so the number
of audit rows is the number of those that read in time.
-/

namespace ZeroTrustLab.Controller

open Lib

variable {settings : Settings} {reqs : Rid → Request} {w₀ : World}
  {ls : List (Label Call Ans Exc Rid Env)} {c : Cfg Call Ans Exc Response Rid Session World}
  {nodeId : String} {row : Node} {i j : Rid}

/-! ## Activations in the audit table -/

/-- The audit row of an activation of the node. -/
def AuditEvent.activates (nodeId : String) (e : AuditEvent) : Bool :=
  decide (e.action = .nodeStateChange) && decide (e.target = some ("node:" ++ nodeId)) &&
    decide (e.detail "from" = some NodeState.onboarding.value) &&
    decide (e.detail "to" = some NodeState.active.value)

def Database.activations (db : Database) (nodeId : String) : List AuditEvent :=
  db.events.rows.filter (AuditEvent.activates nodeId)

/-- Those of one transaction. -/
def activationsIn (nodeId : String) (ws : List Write) : List AuditEvent :=
  (ws.filterMap Write.event?).filter (AuditEvent.activates nodeId)

/-- The committed transactions with one. -/
def activators (nodeId : String) (journal : List (Rid × List Write)) : List (Rid × List Write) :=
  journal.filter fun e => decide (activationsIn nodeId e.2 ≠ [])

/-- The activators are the transactions that hold an activation. -/
theorem mem_activators {journal : List (Rid × List Write)} {e : Rid × List Write} :
    e ∈ activators nodeId journal ↔ e ∈ journal ∧ activationsIn nodeId e.2 ≠ [] := by
  unfold activators
  rw [List.mem_filter, decide_eq_true_eq]

theorem activators_append (journal : List (Rid × List Write)) (e : Rid × List Write) :
    activators nodeId (journal ++ [e])
      = activators nodeId journal ++ if activationsIn nodeId e.2 = [] then [] else [e] := by
  unfold activators
  rw [List.filter_append]
  by_cases he : activationsIn nodeId e.2 = []
  · simp [he]
  · simp [he]

/-- The audit row of a heartbeat activates the node that was loaded. -/
theorem activatedEvent_activates (identity : MTLSIdentity) {loaded : Node}
    (hstate : loaded.state = .onboarding) (nodeId : String) (now t : Time) (k : Nat) :
    AuditEvent.activates nodeId (Record.setPk k (activatedEvent identity loaded now t))
      = decide (loaded.nodeId = nodeId) := by
  have hfrom : (Record.setPk k (activatedEvent identity loaded now t)).detail "from"
      = some NodeState.onboarding.value := congrArg (fun s => some (NodeState.value s)) hstate
  have hto : (Record.setPk k (activatedEvent identity loaded now t)).detail "to"
      = some NodeState.active.value := by
    have hbeaten : (loaded.beaten now).state = .active := by simp [Node.beaten, hstate]
    exact congrArg (fun s => some (NodeState.value s)) hbeaten
  have haction : (Record.setPk k (activatedEvent identity loaded now t)).action
      = .nodeStateChange := rfl
  have htarget : (Record.setPk k (activatedEvent identity loaded now t)).target
      = some ("node:" ++ loaded.nodeId) := rfl
  unfold AuditEvent.activates
  simp only [hfrom, hto, haction, htarget]
  simp

/-- A transaction that activates nothing, or a heartbeat of a node that was
read onboarding. -/
theorem Txn.activationsIn_cases {req : Request} {kind : TxnKind} {ws : List Write}
    (ht : Txn settings req kind ws) (nodeId : String) :
    activationsIn nodeId ws = [] ∨
    ∃ loaded now e body identity, kind = .activated ∧
      .updateNode loaded (loaded.beaten now) ∈ ws ∧ loaded.nodeId = nodeId ∧
      req.endpoint = .heartbeat nodeId (some body) ∧
      identityOf settings req.headers = .ok identity ∧
      identity.commonName = loaded.commonName ∧ activationsIn nodeId ws = [e] := by
  cases ht with
  | revoked => exact .inl rfl
  | registerForbidden => exact .inl rfl
  | registered => exact .inl rfl
  | heartbeatForbidden => exact .inl rfl
  | beaten => exact .inl rfl
  | @activated identity body loaded now t k hid hreq hcn hstate =>
    have hactivates := activatedEvent_activates identity hstate nodeId now t k
    by_cases hnode : loaded.nodeId = nodeId
    · rw [decide_eq_true hnode] at hactivates
      subst hnode
      exact .inr ⟨loaded, now, _, body, identity, rfl, List.mem_cons_self .., rfl, hreq, hid, hcn,
        List.filter_cons_of_pos hactivates⟩
    · rw [decide_eq_false hnode] at hactivates
      exact .inl (List.filter_cons_of_neg (by rw [hactivates]; simp))

/-- A first heartbeat of the node activates it. -/
theorem Txn.activated_in {req : Request} {body : NodeHeartbeat} {ws : List Write}
    (ht : Txn settings req .activated ws) (hreq : req.endpoint = .heartbeat nodeId (some body)) :
    activationsIn nodeId ws ≠ [] := by
  cases ht with
  | @activated identity body' loaded now t k hid hreq' hcn hstate =>
    obtain ⟨hnode, -⟩ := Endpoint.heartbeat.inj (hreq'.symm.trans hreq)
    have hactivates := activatedEvent_activates identity hstate nodeId now t k
    rw [decide_eq_true hnode] at hactivates
    rw [show activationsIn nodeId [.updateNode loaded (loaded.beaten now), .insertEvent _] = [_]
      from List.filter_cons_of_pos hactivates]
    simp

/-- The audit table shows one more activation for each that was committed. -/
theorem serving_activations (hw : w₀.Fresh) (h : Run settings reqs w₀ ls c) (nodeId : String) :
    ∃ es, c.world.db.activations nodeId = w₀.db.activations nodeId ++ es ∧
      es.length = (activators nodeId c.world.journal).length := by
  refine serving_invariant (P := fun d j => ∃ es, d.activations nodeId
    = w₀.db.activations nodeId ++ es ∧ es.length = (activators nodeId j).length)
    hw ⟨[], (List.append_nil _).symm, rfl⟩ ?_ h
  intro i kind ws d d' j ht hg ha hP
  obtain ⟨es, hes, hlen⟩ := hP
  have hmore : d'.activations nodeId = d.activations nodeId ++ activationsIn nodeId ws := by
    unfold Database.activations activationsIn
    rw [(Database.applyAll_rows ha).2, List.filter_append]
  refine ⟨es ++ activationsIn nodeId ws, by rw [hmore, hes, List.append_assoc], ?_⟩
  rw [List.length_append, hlen, activators_append, List.length_append]
  rcases ht.activationsIn_cases nodeId with
    hnil | ⟨loaded, now, e, body, identity, -, -, -, -, -, -, he⟩
  · rw [if_pos hnil, hnil]
    rfl
  · rw [if_neg (by rw [he]; simp), he]
    rfl

/-! ## The state of one row -/

/-- The request is a heartbeat of the node by its own identity. -/
def Beats (settings : Settings) (row : Node) (req : Request) : Prop :=
  ∃ body identity, req.endpoint = .heartbeat row.nodeId (some body) ∧
    identityOf settings req.headers = .ok identity ∧ identity.commonName = row.commonName

/-- What a transaction does to the state of a row: it is activated, or stays. -/
theorem Txn.advances {req : Request} {kind : TxnKind} {ws : List Write} {d d' : Database}
    (ht : Txn settings req kind ws) (hg : Grounded d ws) (ha : d.applyAll ws = some d') {r : Node}
    (hr : r ∈ d.nodes.rows) :
    ∃ r' ∈ d'.nodes.rows, Kept r r' ∧
      (activationsIn r.nodeId ws = [] ∧ r'.state = r.state ∨
        activationsIn r.nodeId ws ≠ [] ∧ r'.state = .active ∧ Beats settings r req) := by
  cases ht.onNodes hg ha with
  | @rejected _ e haction hnodes =>
    have hnone : activationsIn r.nodeId [.insertEvent e] = [] :=
      List.filter_cons_of_neg (by simp [AuditEvent.activates, haction])
    exact ⟨r, by rw [hnodes]; exact hr, .refl r, .inl ⟨hnone, rfl⟩⟩
  -- the new row stands behind those that were there
  | registered _ _ _ _ _ _ _ _ hrows =>
    exact ⟨r, by rw [hrows]; exact List.mem_append_left _ hr, .refl r, .inl ⟨rfl, rfl⟩⟩
  | @beaten _ identity body loaded ws now hident hreq hcn hst hrows hws =>
    refine ⟨_, by rw [hrows]; exact List.mem_map_of_mem hr, kept_onNodes now hst hr, ?_⟩
    -- is it the row that the heartbeat had loaded?
    by_cases hid : r.id = loaded.id
    · have hk := hst.kept_of_id hr hid
      rw [if_pos hid]
      rcases hws with ⟨hstate, rfl⟩ | ⟨hstate, t, k, rfl⟩
      · exact .inl ⟨rfl, (changed_beaten now hk).2.1 hstate⟩
      · have ht : Txn settings req .activated _ := .activated loaded now t k hident hreq hcn hstate
        have hreq' : req.endpoint = .heartbeat r.nodeId (some body) := by
          rw [hk.nodeId]
          exact hreq
        exact .inr ⟨ht.activated_in hreq', (changed_beaten now hk).2.2 hstate,
          body, identity, hreq', hident, hcn.trans hk.commonName.symm⟩
    · -- the heartbeat is of another node
      rw [if_neg hid]
      refine .inl ⟨?_, rfl⟩
      rcases ht.activationsIn_cases r.nodeId with hnil | ⟨_, _, _, _, _, -, -, -, hreq', -, -, -⟩
      · exact hnil
      · obtain ⟨hnode, -⟩ := Endpoint.heartbeat.inj (hreq.symm.trans hreq')
        obtain ⟨r', hr', hk⟩ := hst
        have he : r = r' := d.nodes.eq_of_key hr hr' (hnode.symm.trans hk.nodeId.symm)
        exact absurd ((congrArg Node.id he).trans hk.id) hid

/-- What the journal says about a row that was there at the start. -/
def Traced (settings : Settings) (reqs : Rid → Request) (row : Node) (d : Database)
    (journal : List (Rid × List Write)) : Prop :=
  (∃ r ∈ d.nodes.rows, Kept row r ∧ (row.state = .onboarding →
    (r.state = .onboarding ∧ activators row.nodeId journal = []) ∨
    (r.state = .active ∧ activators row.nodeId journal ≠ []))) ∧
  ∀ e ∈ activators row.nodeId journal, Beats settings row (reqs e.1)

/-- In every run, a row that was there at the start is where its activators have
left it. -/
theorem serving_traced (hw : w₀.Fresh) (hrow : row ∈ w₀.db.nodes.rows)
    (h : Run settings reqs w₀ ls c) : Traced settings reqs row c.world.db c.world.journal := by
  refine serving_invariant (P := Traced settings reqs row) hw
    ⟨⟨row, hrow, .refl row, fun ho => .inl ⟨ho, rfl⟩⟩, by simp [activators]⟩ ?_ h
  intro i kind ws d d' j ht hg ha hP
  obtain ⟨⟨r, hr, hk, hstate⟩, hall⟩ := hP
  obtain ⟨r', hr', hk', hact⟩ := ht.advances hg ha hr
  rw [hk.nodeId] at hact
  rcases hact with ⟨hnil, hsame⟩ | ⟨hsome, hactive, hbeats⟩
  · have hj : activators row.nodeId (j ++ [(i, ws)]) = activators row.nodeId j := by
      rw [activators_append, if_pos hnil, List.append_nil]
    refine ⟨⟨r', hr', hk.trans hk', fun ho => ?_⟩, ?_⟩
    · rw [hj, hsame]
      exact hstate ho
    · rw [hj]
      exact hall
  · have hj : activators row.nodeId (j ++ [(i, ws)]) = activators row.nodeId j ++ [(i, ws)] := by
      rw [activators_append, if_neg hsome]
    refine ⟨⟨r', hr', hk.trans hk', fun _ => .inr ⟨hactive, ?_⟩⟩, ?_⟩
    · rw [hj]
      simp
    · rw [hj]
      intro e he
      rcases List.mem_append.mp he with he | he
      · exact hall e he
      · rw [List.mem_singleton.mp he]
        obtain ⟨body, identity, hreq, hid, hcn⟩ := hbeats
        exact ⟨body, identity, by rw [← hk.nodeId]; exact hreq, hid, hcn.trans hk.commonName⟩

/-! ## Heartbeats at once -/

/-- Completed heartbeats of one node by its own identity: no call of theirs
failed, and one was accepted. Other requests may run meanwhile. -/
structure Beating (settings : Settings) (reqs : Rid → Request) (row : Node) (w₀ : World)
    (ls : List (Label Call Ans Exc Rid Env)) (c : Cfg Call Ans Exc Response Rid Session World) :
    Prop where
  run : Run settings reqs w₀ ls c
  fresh : w₀.Fresh
  stored : row ∈ w₀.db.nodes.rows
  answered : ∀ i, Beats settings row (reqs i) → ∃ r, (c.party i).status = .done r
  undisturbed : ∀ i, Beats settings row (reqs i) → ∀ d e, .call i ⟨d, .error e⟩ ∉ ls
  accepted : ∃ i n, Beats settings row (reqs i) ∧ (c.party i).status = .done (.ok ⟨200, .node n⟩)

/-- The activation is audited exactly once. -/
structure ActivatedOnce (row : Node) (w₀ w : World) : Prop where
  onboarding : row.state = .onboarding →
    (∃ r ∈ w.db.nodes.rows, r.nodeId = row.nodeId ∧ r.state = .active) ∧
    ∃ e, w.db.activations row.nodeId = w₀.db.activations row.nodeId ++ [e]
  others : row.state ≠ .onboarding →
    w.db.activations row.nodeId = w₀.db.activations row.nodeId

/-- Request `i` reads the row while the committed one is onboarding. -/
def LooksOnboarding (settings : Settings) (reqs : Rid → Request) (nodeId : String) (w₀ : World)
    (ls : List (Label Call Ans Exc Rid Env)) (i : Rid) : Prop :=
  ∃ front rows rest m m', ls = front ++ .call i ⟨.selectNode nodeId, .ok rows⟩ :: rest ∧
    Run settings reqs w₀ front m ∧ Step controller m (.call i ⟨.selectNode nodeId, .ok rows⟩) m' ∧
    ∃ r ∈ m.world.db.nodes.rows, r.nodeId = nodeId ∧ r.state = .onboarding

/-- A lookup is answered with the row there is. -/
theorem filter_nodeId {d : Database} {r : Node} (hr : r ∈ d.nodes.rows) :
    (d.nodes.rows.filter fun n => decide (n.nodeId = r.nodeId)) = [r] := by
  have hfind := d.nodes.find_of_mem hr
  have hfilter := d.nodes.filter_key (Record.key r)
  rw [hfind] at hfilter
  exact hfilter

/-- It was answered with such a row. -/
theorem looksOnboarding_iff (hw : w₀.Fresh) (h : Run settings reqs w₀ ls c) :
    LooksOnboarding settings reqs nodeId w₀ ls i ↔
      ∃ r, .call i ⟨.selectNode nodeId, .ok [r]⟩ ∈ ls ∧ r.state = .onboarding := by
  constructor
  · intro ⟨front, rows, rest, m, m', he, hfront, hs, r, hr, hid, ho⟩
    have hrows := serving_select hw hfront hs
    rw [← hid, filter_nodeId hr] at hrows
    refine ⟨r, ?_, ho⟩
    rw [he, hrows]
    exact List.mem_append_right _ (List.mem_cons_self ..)
  · intro ⟨r, hmem, ho⟩
    obtain ⟨front, rest, he⟩ := List.append_of_mem hmem
    obtain ⟨m, m', hfront, hs, -⟩ := h.of_mem he
    obtain ⟨hr, hid⟩ := serving_found hw hfront hs
    exact ⟨front, [r], rest, m, m', he, hfront, hs, r, hr, hid, ho⟩

/-- How a heartbeat of the node ends. -/
inductive BeatEnding (settings : Settings) (reqs : Rid → Request) (row : Node)
    (ls : List (Label Call Ans Exc Rid Env)) (c : Cfg Call Ans Exc Response Rid Session World)
    (i : Rid) : Prop where
  | revoked {ws : List Write} (hd : (c.party i).status = .done (.error (.http 403 revokedDetail)))
      (hsel : ∀ rows, .call i ⟨.selectNode row.nodeId, .ok rows⟩ ∉ ls) (hown : c.world.own i = [ws])
      (ht : Txn settings (reqs i) .revoked ws)
  | beaten {ws : List Write} {loaded : Node}
      (hsel : .call i ⟨.selectNode row.nodeId, .ok [loaded]⟩ ∈ ls) (hown : c.world.own i = [ws])
      (ht : Txn settings (reqs i) (if loaded.state = .onboarding then .activated else .beaten) ws)

/-- A request that beats the row ends as one of the three endings. -/
theorem Beating.ending (h : Beating settings reqs row w₀ ls c)
    (hi : Beats settings row (reqs i)) : BeatEnding settings reqs row ls c i := by
  obtain ⟨body, identity, hreq, hid, hcn⟩ := id hi
  have hfail : ∀ {d : Call} {e : Exc}, ⟨d, .error e⟩ ∉ acts i ls :=
    fun hmem => h.undisturbed i hi _ _ (mem_acts.mp hmem)
  obtain ⟨r, hd⟩ := h.answered i hi
  have hknown : (Fact.stored row).holds [] w₀.db := ⟨row, h.stored, .refl row⟩
  have ho := serving_outcome_from h.fresh (.refl _) (by simp) hknown h.run hd
  rw [List.nil_append] at ho
  generalize hown : c.world.own i = own at ho
  -- of the ends a request can have, four are left to a heartbeat of the row; the others
  -- contradict what it asks for or who sends it
  cases ho with
  | health hnone => simp [hreq, Endpoint.body?] at hnone
  | unidentified _ hid' =>
    rw [hid] at hid'
    exact absurd hid' (by simp)
  | failed hf =>
    obtain ⟨-, d, hmem⟩ := hf
    exact absurd hmem hfail
  | revoked _ _ _ hrev ht =>
    refine .revoked hd (fun rows hsel => ?_) hown ht
    obtain ⟨q, hr, -⟩ := serving_reaches h.run hd
    exact app_live hr (serving_sessionFails h.run i) (mem_acts.mpr hsel) ⟨_, rfl⟩ _ hrev
  | answered hp ha =>
    obtain rfl := Except.ok.inj (hid.symm.trans hp.extracted)
    cases ha with
    | invalid _ hbeat => exact absurd hreq (hbeat _ _)
    | read hread => simp [hreq, Endpoint.reads] at hread
    | registerForbidden hreq' => simp [hreq] at hreq'
    | duplicate hreq' => simp [hreq] at hreq'
    | clash hreq' => simp [hreq] at hreq'
    | registered hreq' => simp [hreq] at hreq'
    | unread hreq' => simp [hreq] at hreq'
    -- => the row was there before the run and is never deleted
    | missing hreq' hwhen =>
      obtain ⟨hnode, -⟩ := Endpoint.heartbeat.inj (hreq.symm.trans hreq')
      obtain ⟨_, d, ⟨r', hr', hk⟩, hnone⟩ := hwhen
      exact absurd (hk.nodeId.trans hnode) (hnone r' hr')
    -- the row that the select found is the one of before the run, with its CN
    | heartbeatForbidden hreq' hwhen hnode' hne =>
      obtain ⟨hnode, -⟩ := Endpoint.heartbeat.inj (hreq.symm.trans hreq')
      obtain ⟨_, d, ⟨r', hr', hk⟩, hloaded⟩ := hwhen
      have he := d.nodes.eq_of_key hr' hloaded ((hk.nodeId.trans hnode).trans hnode'.symm)
      exact absurd (hcn.trans (hk.commonName.symm.trans (congrArg (fun n => n.commonName) he))) hne
    | beaten hreq' hsel ht =>
      obtain ⟨hnode, -⟩ := Endpoint.heartbeat.inj (hreq.symm.trans hreq')
      rw [← hnode] at hsel
      exact .beaten (mem_acts.mp hsel) hown ht

/-- A heartbeat has committed one transaction, which activates the node just
when the request read it onboarding. -/
theorem Beating.own (h : Beating settings reqs row w₀ ls c) (hi : Beats settings row (reqs i)) :
    ∃ ws, c.world.own i = [ws] ∧
      (activationsIn row.nodeId ws ≠ [] ↔ LooksOnboarding settings reqs row.nodeId w₀ ls i) := by
  obtain ⟨body, identity, hreq, -, -⟩ := id hi
  cases h.ending hi with
  | @revoked ws _ hsel hown ht =>
    refine ⟨ws, hown, fun hsome => ?_, fun hlook => ?_⟩
    · cases ht
      exact absurd rfl hsome
    · obtain ⟨r, hmem, -⟩ := (looksOnboarding_iff h.fresh h.run).mp hlook
      exact absurd hmem (hsel _)
  | @beaten ws loaded hsel hown ht =>
    refine ⟨ws, hown, fun hsome => ?_, fun hlook => ?_⟩
    · refine (looksOnboarding_iff h.fresh h.run).mpr ⟨loaded, hsel, ?_⟩
      by_contra ho
      rw [if_neg ho] at ht
      cases ht
      exact absurd rfl hsome
    · obtain ⟨r, hmem, ho⟩ := (looksOnboarding_iff h.fresh h.run).mp hlook
      obtain ⟨q, hr, -⟩ := serving_reaches h.run (h.answered i hi).choose_spec
      have he := app_selects_once hr _ (mem_acts.mpr hsel) _ (mem_acts.mpr hmem)
        ⟨_, rfl⟩ ⟨_, rfl⟩
      obtain rfl : loaded = r := by simpa using he
      rw [if_pos ho] at ht
      exact ht.activated_in hreq

/-- The heartbeats that activated the node are those that read it onboarding. -/
theorem Beating.activator_iff (h : Beating settings reqs row w₀ ls c)
    (hi : Beats settings row (reqs i)) :
    (∃ e ∈ activators row.nodeId c.world.journal, e.1 = i) ↔
      LooksOnboarding settings reqs row.nodeId w₀ ls i := by
  obtain ⟨ws, hown, hlook⟩ := h.own hi
  rw [← hlook]
  constructor
  · intro ⟨⟨i', ws'⟩, he, hi'⟩
    obtain ⟨hmem, hsome⟩ := mem_activators.mp he
    obtain rfl : i' = i := hi'
    have hin := mem_own.mpr hmem
    rw [hown, List.mem_singleton] at hin
    rw [← hin]
    exact hsome
  · intro hsome
    have hin : ws ∈ c.world.own i := by
      rw [hown]
      exact List.mem_singleton_self ws
    exact ⟨(i, ws), mem_activators.mpr ⟨mem_own.mp hin, hsome⟩, rfl⟩

/-- One request activates once. -/
theorem Beating.activators_of_one (h : Beating settings reqs row w₀ ls c)
    (hi : Beats settings row (reqs i))
    (hall : ∀ e ∈ activators row.nodeId c.world.journal, e.1 = i) :
    (activators row.nodeId c.world.journal).length ≤ 1 := by
  obtain ⟨ws, hown, -⟩ := h.own hi
  have hfilter : activators row.nodeId c.world.journal
      = (activators row.nodeId c.world.journal).filter fun e => decide (e.1 = i) :=
    (List.filter_eq_self.mpr fun e he => decide_eq_true (hall e he)).symm
  have hsub : List.Sublist
      ((activators row.nodeId c.world.journal).filter fun e => decide (e.1 = i))
      (c.world.journal.filter fun e => decide (e.1 = i)) :=
    List.filter_sublist.filter _
  have hone : (c.world.journal.filter fun e => decide (e.1 = i)).length = 1 := by
    have hlen := congrArg List.length hown
    unfold World.own at hlen
    rwa [List.length_map] at hlen
  rw [hfilter]
  exact hone ▸ hsub.length_le

/-- Nobody reads a node onboarding that was not. -/
theorem Beating.quiet (h : Beating settings reqs row w₀ ls c) (ho : row.state ≠ .onboarding) :
    ¬ LooksOnboarding settings reqs row.nodeId w₀ ls i := by
  intro ⟨front, rows, rest, m, m', _, hfront, _, r, hr, hid, honb⟩
  obtain ⟨r', hr', hk⟩ := (serving_grows h.fresh (.refl _) hfront).1 row h.stored
  have he : r = r' := m.world.db.nodes.eq_of_key hr hr' (hid.trans hk.nodeId.symm)
  exact ho (hk.onboarding (he ▸ honb))

/-- An onboarding node has been activated. -/
theorem Beating.activated (h : Beating settings reqs row w₀ ls c) (ho : row.state = .onboarding) :
    (∃ r ∈ c.world.db.nodes.rows, r.nodeId = row.nodeId ∧ r.state = .active) ∧
      activators row.nodeId c.world.journal ≠ [] := by
  obtain ⟨⟨r, hr, hk, hstate⟩, -⟩ := serving_traced h.fresh h.stored h.run
  rcases hstate ho with ⟨honb, hnone⟩ | ⟨hactive, hsome⟩
  · -- the accepted heartbeat has seen to it
    exfalso
    obtain ⟨i, n, hi, hd⟩ := h.accepted
    cases h.ending hi with
    | revoked hd' =>
      rw [hd] at hd'
      simp at hd'
    | @beaten ws loaded hsel =>
      by_cases hl : loaded.state = .onboarding
      · have hlook := (looksOnboarding_iff h.fresh h.run).mpr ⟨loaded, hsel, hl⟩
        obtain ⟨e, he, -⟩ := (h.activator_iff hi).mpr hlook
        rw [hnone] at he
        exact absurd he (by simp)
      · -- read past onboarding, the row is still past it
        obtain ⟨front, rest, he⟩ := List.append_of_mem hsel
        obtain ⟨m, m', hfront, hs, hrest⟩ := h.run.of_mem he
        obtain ⟨hmem, hid⟩ := serving_found h.fresh hfront hs
        have hgrow := (serving_grows h.fresh hfront (Steps.trans (.single hs) hrest)).1
        obtain ⟨r', hr', hk'⟩ := hgrow loaded hmem
        have he : r = r' := c.world.db.nodes.eq_of_key hr hr'
          (hk.nodeId.trans (hid.symm.trans hk'.nodeId.symm))
        exact hl (hk'.onboarding (he ▸ honb))
  · exact ⟨⟨r, hr, hk.nodeId, hactive⟩, hsome⟩

/-- **When an activation is audited once**: just when at most one heartbeat read
the row while it was onboarding. The run starts with the row in that state, and
all its heartbeats have come to an end. -/
theorem activated_once_iff (h : Beating settings reqs row w₀ ls c) :
    ActivatedOnce row w₀ c.world ↔
      ∀ i j, Beats settings row (reqs i) → Beats settings row (reqs j) →
        LooksOnboarding settings reqs row.nodeId w₀ ls i →
        LooksOnboarding settings reqs row.nodeId w₀ ls j → i = j := by
  obtain ⟨es, hes, hlen⟩ := serving_activations h.fresh h.run row.nodeId
  obtain ⟨-, hbeats⟩ := serving_traced h.fresh h.stored h.run
  constructor
  · -- with one audit row there is one commit that wrote it, and both requests are its own
    intro hone i j hi hj hli hlj
    by_cases ho : row.state = .onboarding
    · obtain ⟨e, he⟩ := (hone.onboarding ho).2
      obtain rfl : es = [e] := List.append_cancel_left (hes.symm.trans he)
      obtain ⟨a, ha⟩ := List.length_eq_one_iff.mp hlen.symm
      obtain ⟨ei, hei, rfl⟩ := (h.activator_iff hi).mpr hli
      obtain ⟨ej, hej, rfl⟩ := (h.activator_iff hj).mpr hlj
      rw [ha, List.mem_singleton] at hei hej
      rw [hei, hej]
    · exact absurd hli (h.quiet ho)
  · intro hone
    refine ⟨fun ho => ?_, fun ho => ?_⟩
    · obtain ⟨hactive, hsome⟩ := h.activated ho
      refine ⟨hactive, ?_⟩
      -- one of the heartbeats has activated the row; it is the only one, so there is one
      -- audit row
      obtain ⟨e₀, he₀⟩ := List.exists_mem_of_ne_nil _ hsome
      have hle := h.activators_of_one (hbeats e₀ he₀) fun e he =>
        hone _ _ (hbeats e he) (hbeats e₀ he₀) ((h.activator_iff (hbeats e he)).mp ⟨e, he, rfl⟩)
          ((h.activator_iff (hbeats e₀ he₀)).mp ⟨e₀, he₀, rfl⟩)
      have hpos := List.length_pos_of_mem he₀
      obtain ⟨e, rfl⟩ := List.length_eq_one_iff.mp (show es.length = 1 by omega)
      exact ⟨e, hes⟩
    · have hnone : activators row.nodeId c.world.journal = [] := by
        refine List.eq_nil_iff_forall_not_mem.mpr fun e he => ?_
        exact h.quiet ho ((h.activator_iff (hbeats e he)).mp ⟨e, he, rfl⟩)
      rw [hnone, List.length_nil] at hlen
      rw [hes, List.eq_nil_of_length_eq_zero hlen, List.append_nil]

/-! ## Two heartbeats at once -/

/-- A node's heartbeat, and the node registered before. -/
def beat : Request := ⟨nodeHeaders, .heartbeat "pi-01" (some ⟨none⟩)⟩

def enrolled : World := { db := (afterEvents {} [.request (registering "pi-01")]).db }

def enrolledRow : Node :=
  Record.setPk 1 (newNode ⟨"pi-01", "pi-01.thesis.local", "sensor", .onboarding, none, none⟩ 0 0)

def beatTwice : Rid → Request := arrivals [.request beat, .request beat]

/-- Only the first two requests of the example beat the row. -/
theorem beats_beatTwice (i : Rid) : Beats {} enrolledRow (beatTwice i) ↔ i < 2 := by
  constructor
  · intro ⟨body, identity, hreq, _⟩
    by_contra hlt
    obtain ⟨k, rfl⟩ := Nat.exists_eq_add_of_le' (Nat.le_of_not_lt hlt)
    simp [beatTwice, arrivals, requests] at hreq
  · intro hlt
    have he : beatTwice i = beat := by
      rcases i with _ | _ | i
      · rfl
      · rfl
      · exact absurd hlt (Nat.not_lt.mpr (Nat.le_add_left 2 i))
    rw [he]
    exact ⟨⟨none⟩, _, rfl, identityOf_nodeHeaders {}, rfl⟩

private def noError : Label Call Ans Exc Rid Env → Bool
  | .call _ ⟨_, .error _⟩ => false
  | _ => true

/-- Two heartbeats at once: `is` is the order in which they move. -/
private theorem beatTwice_beating (is : List Rid)
    (hrun : (controller.play (serving {} beatTwice enrolled) is).1.all noError = true)
    (h₀ : ∃ n, ((controller.play (serving {} beatTwice enrolled) is).2.party 0).status
      = .done (.ok ⟨200, .node n⟩))
    (h₁ : ((controller.play (serving {} beatTwice enrolled) is).2.party 1).status.result?.isSome
      = true) :
    Beating {} beatTwice enrolledRow enrolled (controller.play (serving {} beatTwice enrolled) is).1
      (controller.play (serving {} beatTwice enrolled) is).2 where
  run := controller.play_steps is _
  fresh := ⟨rfl, rfl⟩
  stored := by decide +kernel
  answered i hi := by
    have hlt := (beats_beatTwice i).mp hi
    rcases i with _ | _ | i
    · obtain ⟨n, hd⟩ := h₀
      exact ⟨_, hd⟩
    · exact (Option.isSome_iff_exists.mp h₁).imp fun _ => Status.eq_done
    · exact absurd hlt (Nat.not_lt.mpr (Nat.le_add_left 2 i))
  undisturbed i _ d e hmem := absurd (List.all_eq_true.mp hrun _ hmem) (by simp [noError])
  accepted := by
    obtain ⟨n, hd⟩ := h₀
    exact ⟨0, n, (beats_beatTwice 0).mpr (by decide), hd⟩

private theorem accepted_of_result {s : Status Call Ans Exc Response} {n : Node}
    (h : s.result? = some (.ok ⟨200, .node n⟩)) : ∃ n, s = .done (.ok ⟨200, .node n⟩) :=
  ⟨n, Status.eq_done h⟩

/-- Both read the row before either writes: the activation is audited twice. -/
theorem raced_activation :
    ∃ ls c, Beating {} beatTwice enrolledRow enrolled ls c ∧ enrolledRow.state = .onboarding ∧
      (c.world.db.activations "pi-01").length = 2 ∧
      ¬ ActivatedOnce enrolledRow enrolled c.world := by
  let is : List Rid := List.replicate 3 1 ++ List.replicate 15 0 ++ List.replicate 15 1
  have htwice : ((controller.play (serving {} beatTwice enrolled) is).2.world.db.activations
      "pi-01").length = 2 := by decide +kernel
  refine ⟨_, _, beatTwice_beating is (by decide +kernel)
    (accepted_of_result (n := enrolledRow.beaten 0) (by decide +kernel)) (by decide +kernel), rfl,
    htwice, fun hone => ?_⟩
  obtain ⟨e, he⟩ := (hone.onboarding rfl).2
  have hlen := congrArg List.length he
  rw [show enrolledRow.nodeId = "pi-01" from rfl, htwice] at hlen
  rw [show enrolled.db.activations "pi-01" = [] by decide +kernel] at hlen
  simp at hlen

/-- The requests that read an onboarding row. -/
private def onboardingReads (ls : List (Label Call Ans Exc Rid Env)) : List Rid :=
  ls.filterMap fun
    | .call i ⟨.selectNode _, .ok [r]⟩ => if r.state = .onboarding then some i else none
    | _ => none

/-- One after the other: the second finds it active. -/
theorem sequential_activated_once :
    ∃ ls c, Beating {} beatTwice enrolledRow enrolled ls c ∧
      ActivatedOnce enrolledRow enrolled c.world := by
  let is : List Rid := List.replicate 15 0 ++ List.replicate 15 1
  have h := beatTwice_beating is (by decide +kernel)
    (accepted_of_result (n := enrolledRow.beaten 0) (by decide +kernel)) (by decide +kernel)
  refine ⟨_, _, h, (activated_once_iff h).mpr fun i j _ _ hi hj => ?_⟩
  have hreads : onboardingReads (controller.play (serving {} beatTwice enrolled) is).1 = [0] := by
    decide +kernel
  have hzero : ∀ i, LooksOnboarding {} beatTwice "pi-01" enrolled
      (controller.play (serving {} beatTwice enrolled) is).1 i → i = 0 := by
    intro i hi
    obtain ⟨r, hmem, ho⟩ := (looksOnboarding_iff h.fresh h.run).mp hi
    have hin : i ∈ onboardingReads (controller.play (serving {} beatTwice enrolled) is).1 :=
      List.mem_filterMap.mpr ⟨_, hmem, if_pos ho⟩
    rw [hreads] at hin
    exact List.mem_singleton.mp hin
  rw [hzero i hi, hzero j hj]

end ZeroTrustLab.Controller
