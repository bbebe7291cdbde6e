import Mathlib.Data.List.Pairwise
import ZeroTrustLab.Controller.Ownership

/-!
# Registering one node twice at once

`register_node` checks for the `node_id` and inserts it in two separate calls.
The unique index keeps the table right whatever happens in between, so one
request wins every race. What the losers are told depends on when they looked:
one that looked after the winner committed is told 409; one that looked before
runs into the index, and the `IntegrityError` is nobody's to catch.

`one_winner_iff` is the exact condition: a race is settled as it should be just
when at most one of the requests looked while the `node_id` was free.

Who wins is decided by the unique index, and the journal shows it: the one
transaction that inserts the `node_id` is that of the winner
(`serving_insert_once`). The others are sorted by what their lookup saw. One
that saw a row answers 409 and writes nothing; one that saw none flushes its
row, finds the index taken or the lock held, and fails with an exception.
-/

namespace ZeroTrustLab.Controller

open Lib

variable {settings : Settings} {reqs : Rid → Request} {w₀ : World}
  {ls : List (Label Call Ans Exc Rid Env)} {c : Cfg Call Ans Exc Response Rid Session World}
  {nodeId : String} {i j : Rid}

/-! ## What is inserted, counted -/

/-- The `node_id` a statement inserts. -/
def Write.nodeId? : Write → Option String
  | .insertNode row => some row.nodeId
  | _ => none

/-- A transaction adds the `node_id`s that it inserts and takes none away. -/
theorem Txn.nodeIds {req : Request} {kind : TxnKind} {ws : List Write} {d d' : Database}
    (ht : Txn settings req kind ws) (hg : Grounded d ws) (ha : d.applyAll ws = some d') :
    (d'.nodes.rows.map fun r => r.nodeId)
      = (d.nodes.rows.map fun r => r.nodeId) ++ ws.filterMap Write.nodeId? := by
  cases ht.onNodes hg ha with
  | rejected _ hnodes =>
    rw [hnodes]
    exact (List.append_nil _).symm
  | registered _ _ _ _ _ _ _ _ hrows =>
    rw [hrows]
    simp [Write.nodeId?]
  | @beaten _ _ _ loaded ws now _ _ _ hst hrows hws =>
    have hnone : (Write.updateNode loaded (loaded.beaten now) :: ws).filterMap
        Write.nodeId? = [] := by
      rcases hws with ⟨-, rfl⟩ | ⟨-, t, k, rfl⟩
      · rfl
      · rfl
    rw [hnone, List.append_nil, hrows]
    unfold Write.onNodes
    rw [List.map_map]
    exact List.map_congr_left fun r hr => (kept_onNodes now hst hr).nodeId

/-- The `node_id`s of the table are those there at the start and those of the
journal, each once. -/
theorem serving_nodeIds (hw : w₀.Fresh) (h : Run settings reqs w₀ ls c) :
    (c.world.db.nodes.rows.map fun r => r.nodeId)
      = (w₀.db.nodes.rows.map fun r => r.nodeId) ++
        (c.world.journal.flatMap Prod.snd).filterMap Write.nodeId? := by
  refine serving_invariant (P := fun d j => (d.nodes.rows.map fun r => r.nodeId)
    = (w₀.db.nodes.rows.map fun r => r.nodeId) ++ (j.flatMap Prod.snd).filterMap Write.nodeId?)
    hw (by simp) ?_ h
  intro i kind ws d d' j ht hg ha hP
  rw [ht.nodeIds hg ha, hP]
  simp

/-- **One request inserts** a given `node_id`. -/
theorem serving_insert_once (hw : w₀.Fresh) (h : Run settings reqs w₀ ls c) {ws ws' : List Write}
    (hi : ws ∈ c.world.own i) (hj : ws' ∈ c.world.own j) {row row' : Node}
    (hrow : .insertNode row ∈ ws) (hrow' : .insertNode row' ∈ ws') (he : row.nodeId = row'.nodeId) :
    i = j := by
  have hnd := c.world.db.nodes.keys
  have hkeys : (c.world.db.nodes.rows.map fun r => r.nodeId)
      = c.world.db.nodes.rows.map Record.key := rfl
  rw [← hkeys, serving_nodeIds hw h, List.filterMap_flatMap] at hnd
  have hpair := (List.nodup_flatMap.mp (List.nodup_append.mp hnd).2.1).2
  by_contra hne
  have hsymm : Std.Symm (Function.onFun List.Disjoint fun e : Rid × List Write =>
      e.2.filterMap Write.nodeId?) := ⟨fun _ _ hd => hd.symm⟩
  have hdisj := hpair.forall (mem_own.mp hi) (mem_own.mp hj) fun he => hne (congrArg Prod.fst he)
  exact hdisj
    (List.mem_filterMap.mpr ⟨_, hrow, rfl⟩)
    (List.mem_filterMap.mpr ⟨_, hrow', congrArg some he.symm⟩)

/-! ## Where nobody else touches a row -/

/-- A transaction leaves a row alone unless it is a heartbeat of that node. -/
theorem Txn.keeps {req : Request} {kind : TxnKind} {ws : List Write} {d d' : Database}
    (ht : Txn settings req kind ws) (hg : Grounded d ws) (ha : d.applyAll ws = some d') {r : Node}
    (hr : r ∈ d.nodes.rows) (hbeat : ∀ body, req.endpoint ≠ .heartbeat r.nodeId body) :
    r ∈ d'.nodes.rows := by
  cases ht.onNodes hg ha with
  | rejected _ hnodes => exact hnodes ▸ hr
  | registered _ _ _ _ _ _ _ _ hrows =>
    rw [hrows]
    exact List.mem_append_left _ hr
  | @beaten _ _ body _ _ _ _ hreq _ hst hrows =>
    rw [hrows]
    refine List.mem_map.mpr ⟨r, hr, if_neg fun hid => ?_⟩
    have hk := hst.kept_of_id hr hid
    exact hbeat (some body) (by rw [hk.nodeId]; exact hreq)

/-- A row that nobody heartbeats is stored as it was inserted. -/
theorem serving_unbeaten (hw : w₀.Fresh) (h : Run settings reqs w₀ ls c)
    (hbeat : ∀ i body, (reqs i).endpoint ≠ .heartbeat nodeId body) {ws : List Write}
    (hws : ws ∈ c.world.own i) {row : Node} (hrow : .insertNode row ∈ ws)
    (hid : row.nodeId = nodeId) : row ∈ c.world.db.nodes.rows := by
  have hall : ∀ e ∈ c.world.journal, ∀ row, .insertNode row ∈ e.2 → row.nodeId = nodeId →
      row ∈ c.world.db.nodes.rows := by
    refine serving_invariant (P := fun d j => ∀ e ∈ j, ∀ row, .insertNode row ∈ e.2 →
      row.nodeId = nodeId → row ∈ d.nodes.rows) hw (by simp) ?_ h
    intro i kind ws d d' j ht hg ha hP e he row hrow hid
    rcases List.mem_append.mp he with he | he
    · exact ht.keeps hg ha (hP e he row hrow hid) (by rw [hid]; exact hbeat i)
    · rw [List.mem_singleton.mp he] at hrow
      exact ht.inserted ha hrow
  exact hall _ (mem_own.mp hws) row hrow hid

/-! ## The race -/

/-- The request asks to register the node, and may. -/
def Contends (settings : Settings) (nodeId : String) (req : Request) : Prop :=
  ∃ payload, Authorized settings req payload ∧ payload.nodeId = nodeId

/-- A completed race for a free `node_id`: nothing fails but flushes on the
unique index. Requests that do not contend may run meanwhile. -/
structure Race (settings : Settings) (reqs : Rid → Request) (nodeId : String) (w₀ : World)
    (ls : List (Label Call Ans Exc Rid Env)) (c : Cfg Call Ans Exc Response Rid Session World) :
    Prop where
  run : Run settings reqs w₀ ls c
  fresh : w₀.Fresh
  inStep : Registrations w₀.db
  free : ∀ r ∈ w₀.db.nodes.rows, r.nodeId ≠ nodeId
  contended : ∃ i, Contends settings nodeId (reqs i)
  live : ∀ i, Contends settings nodeId (reqs i) → ∀ n, .call i ⟨.isRevoked n, .ok true⟩ ∉ ls
  answered : ∀ i, Contends settings nodeId (reqs i) → ∃ r, (c.party i).status = .done r
  onlyIntegrity : ∀ i, Contends settings nodeId (reqs i) →
    ∀ d e, .call i ⟨d, .error e⟩ ∈ ls → e = .integrity
  unbeaten : ∀ i body, (reqs i).endpoint ≠ .heartbeat nodeId body

/-- The race is settled: one contender is answered 201 and every other 409,
and the tables hold the winner's payload and its registration. -/
def OneWinner (settings : Settings) (reqs : Rid → Request) (nodeId : String)
    (c : Cfg Call Ans Exc Response Rid Session World) : Prop :=
  ∃ i payload n, (reqs i).endpoint = .registerNode (some payload) ∧
    (c.party i).status = .done (.ok ⟨201, .node n⟩) ∧
    (∀ j, Contends settings nodeId (reqs j) → j ≠ i →
      (c.party j).status = .done (alreadyRegistered nodeId)) ∧
    (∃! row, row ∈ c.world.db.nodes.rows ∧ row.nodeId = nodeId) ∧
    (∃ row ∈ c.world.db.nodes.rows, row.nodeId = nodeId ∧ row.toNodeBase = payload) ∧
    ∃! e, e ∈ c.world.db.events.rows.filter isRegistration ∧ e.target = some ("node:" ++ nodeId)

/-- Request `i` makes its duplicate check while no committed row has the
`node_id`. -/
def ChecksFree (settings : Settings) (reqs : Rid → Request) (nodeId : String) (w₀ : World)
    (ls : List (Label Call Ans Exc Rid Env)) (i : Rid) : Prop :=
  ∃ front rows rest m m', ls = front ++ .call i ⟨.selectNode nodeId, .ok rows⟩ :: rest ∧
    Run settings reqs w₀ front m ∧ Step controller m (.call i ⟨.selectNode nodeId, .ok rows⟩) m' ∧
    ∀ r ∈ m.world.db.nodes.rows, r.nodeId ≠ nodeId

/-- It was answered that there is none. -/
theorem checksFree_iff (hw : w₀.Fresh) (h : Run settings reqs w₀ ls c) :
    ChecksFree settings reqs nodeId w₀ ls i ↔ .call i ⟨.selectNode nodeId, .ok []⟩ ∈ ls := by
  constructor
  · intro ⟨front, rows, rest, m, m', he, hfront, hs, hfree⟩
    have hrows := serving_select hw hfront hs
    rw [List.filter_eq_nil_iff.mpr fun r hr => by simpa using hfree r hr] at hrows
    rw [he, hrows]
    exact List.mem_append_right _ (List.mem_cons_self ..)
  · intro hmem
    obtain ⟨front, rest, he⟩ := List.append_of_mem hmem
    obtain ⟨m, m', hfront, hs, -⟩ := h.of_mem he
    refine ⟨front, [], rest, m, m', he, hfront, hs, fun r hr hid => ?_⟩
    have hrows := serving_select hw hfront hs
    exact List.filter_eq_nil_iff.mp hrows.symm r hr (decide_eq_true hid)

/-- How a contender ends. -/
inductive Ending (settings : Settings) (reqs : Rid → Request) (nodeId : String)
    (ls : List (Label Call Ans Exc Rid Env)) (c : Cfg Call Ans Exc Response Rid Session World)
    (i : Rid) : Prop where
  /-- It found the row and was told so. -/
  | late {row : Node} (hd : (c.party i).status = .done (alreadyRegistered nodeId))
      (hsel : .call i ⟨.selectNode nodeId, .ok [row]⟩ ∈ ls)
      (hst : Stored c.world.db row) (hid : row.nodeId = nodeId) (hown : c.world.own i = [])
  /-- It found no row, and ran into one. -/
  | clashed (hd : (c.party i).status = .done (.error .integrity))
      (hsel : .call i ⟨.selectNode nodeId, .ok []⟩ ∈ ls)
      (htaken : ∃ r ∈ c.world.db.nodes.rows, r.nodeId = nodeId) (hown : c.world.own i = [])
  | won {ws : List Write} {n : Node} (hd : (c.party i).status = .done (.ok ⟨201, .node n⟩))
      (hsel : .call i ⟨.selectNode nodeId, .ok []⟩ ∈ ls) (hws : ws ∈ c.world.own i)
      (ht : Txn settings (reqs i) .registered ws)

/-- A request that contends for the node ends as one of the endings. -/
theorem Race.ending (h : Race settings reqs nodeId w₀ ls c)
    (hi : Contends settings nodeId (reqs i)) : Ending settings reqs nodeId ls c i := by
  obtain ⟨payload, ⟨hreq, identity, hid, hmay⟩, hnode⟩ := id hi
  have hbody : (reqs i).endpoint.body? ≠ none := by
    rw [hreq]
    simp [Endpoint.body?]
  have hpay : ∀ {b : NodeBase}, (reqs i).endpoint = .registerNode (some b) →
      b = payload.toNodeBase :=
    fun hb => Option.some.inj (Endpoint.registerNode.inj (hb.symm.trans hreq))
  have hfail : ∀ {d : Call} {e : Exc}, e ≠ .integrity → ⟨d, .error e⟩ ∉ acts i ls :=
    fun hne hmem => hne (h.onlyIntegrity i hi _ _ (mem_acts.mp hmem))
  obtain ⟨r, hd⟩ := h.answered i hi
  have ho := serving_outcome h.fresh h.run hd
  generalize hown : c.world.own i = own at ho
  -- three ends are left: the select had found the row, the flush clashed, or the row is
  -- this request's
  cases ho with
  | health hnone => exact absurd hnone hbody
  | unidentified _ hid' =>
    rw [hid] at hid'
    exact absurd hid' (by simp)
  | failed hf =>
    obtain ⟨hb, d, hmem⟩ := hf
    refine absurd hmem (hfail ?_)
    rcases hb with rfl | ⟨site, -, rfl⟩ <;> simp
  | revoked _ _ _ hrev => exact absurd (mem_acts.mp hrev) (h.live i hi _)
  | answered hp ha =>
    obtain rfl := Except.ok.inj (hid.symm.trans hp.extracted)
    cases ha with
    | invalid hreg => exact absurd hreq (hreg payload)
    | read hread => simp [hreq, Endpoint.reads] at hread
    | registerForbidden hreq' hnot =>
      rw [hpay hreq', hmay] at hnot
      exact absurd hnot (by simp)
    | @duplicate payload' row hreq' _ hsel hrow hst =>
      have he : payload'.nodeId = nodeId := by rw [hpay hreq']; exact hnode
      rw [he] at hd hsel hrow
      exact .late hd (mem_acts.mp hsel) hst hrow hown
    | @clash payload' hreq' _ hsel _ htaken =>
      have he : payload'.nodeId = nodeId := by rw [hpay hreq']; exact hnode
      rw [he] at hsel htaken
      exact .clashed hd (mem_acts.mp hsel) htaken hown
    | @registered payload' ws n hreq' _ hsel ht _ =>
      have he : payload'.nodeId = nodeId := by rw [hpay hreq']; exact hnode
      rw [he] at hsel
      exact .won hd (mem_acts.mp hsel) (by rw [hown]; exact List.mem_singleton_self _) ht
    | unread _ _ _ _ hr => exact absurd hr (hfail (by simp))
    | missing hreq' => simp [hreq] at hreq'
    | heartbeatForbidden hreq' => simp [hreq] at hreq'
    | beaten hreq' => simp [hreq] at hreq'

/-- A registration inserts the payload it was asked to. -/
theorem Txn.registered_insert {req : Request} {payload : NodeBase} {ws : List Write}
    (ht : Txn settings req .registered ws) (hreq : req.endpoint = .registerNode (some payload)) :
    ∃ row, .insertNode row ∈ ws ∧ row.toNodeBase = payload := by
  cases ht with
  | registered createdAt updatedAt t k k' _ hreq' =>
    have he := Option.some.inj (Endpoint.registerNode.inj (hreq'.symm.trans hreq))
    exact ⟨_, List.mem_cons_self .., he⟩

/-- Somebody has inserted the row, and nobody else has. -/
theorem Race.inserter (h : Race settings reqs nodeId w₀ ls c) :
    ∃ i ws row, Contends settings nodeId (reqs i) ∧ ws ∈ c.world.own i ∧ .insertNode row ∈ ws ∧
      row.nodeId = nodeId := by
  -- whatever the first contender was told, the row is there
  have hrow : ∃ r ∈ c.world.db.nodes.rows, r.nodeId = nodeId := by
    obtain ⟨i, hi⟩ := h.contended
    cases h.ending hi with
    | late _ _ hst hid _ =>
      obtain ⟨r, hr, hk⟩ := hst
      exact ⟨r, hr, hk.nodeId.trans hid⟩
    | clashed _ _ htaken _ => exact htaken
    | won _ _ hws ht =>
      obtain ⟨payload, ⟨hreq, -⟩, hnode⟩ := hi
      obtain ⟨row, hrow, hpay⟩ := ht.registered_insert hreq
      obtain ⟨r, hr, hk⟩ := serving_stored h.fresh h.run hws hrow
      exact ⟨r, hr, hk.nodeId.trans ((congrArg NodeBase.nodeId hpay).trans hnode)⟩
  obtain ⟨r, hr, hid⟩ := hrow
  rcases serving_inserted h.fresh h.run hr with ⟨r₀, hr₀, hk⟩ | ⟨i, hins⟩
  · exact absurd (hk.nodeId.symm.trans hid) (h.free r₀ hr₀)
  · obtain ⟨payload, ha, hnode, -⟩ := hins.payload h.fresh h.run
    obtain ⟨ws, hws, row, hrow, hk⟩ := hins
    exact ⟨i, ws, row, ⟨payload, ha, hnode.symm.trans hid⟩, hws, hrow, hk.nodeId.symm.trans hid⟩

/-- Two requests that were answered 201 would be one. -/
theorem Race.won_once (h : Race settings reqs nodeId w₀ ls c) {ws ws' : List Write}
    (hi : Contends settings nodeId (reqs i)) (hj : Contends settings nodeId (reqs j))
    (hws : ws ∈ c.world.own i) (hws' : ws' ∈ c.world.own j)
    (ht : Txn settings (reqs i) .registered ws) (ht' : Txn settings (reqs j) .registered ws') :
    i = j := by
  obtain ⟨payload, ⟨hreq, -⟩, hnode⟩ := hi
  obtain ⟨payload', ⟨hreq', -⟩, hnode'⟩ := hj
  obtain ⟨row, hrow, hpay⟩ := ht.registered_insert hreq
  obtain ⟨row', hrow', hpay'⟩ := ht'.registered_insert hreq'
  refine serving_insert_once h.fresh h.run hws hws' hrow hrow' ?_
  exact ((congrArg NodeBase.nodeId hpay).trans hnode).trans
    ((congrArg NodeBase.nodeId hpay').trans hnode').symm

/-- **When a race is settled**: just when at most one contender looked while the
`node_id` was free. The row is there once in any case; it is the answers to the
losers that can go wrong. -/
theorem one_winner_iff (h : Race settings reqs nodeId w₀ ls c) :
    OneWinner settings reqs nodeId c ↔
      ∀ i j, Contends settings nodeId (reqs i) → Contends settings nodeId (reqs j) →
        ChecksFree settings reqs nodeId w₀ ls i → ChecksFree settings reqs nodeId w₀ ls j →
        i = j := by
  constructor
  · intro hwon
    obtain ⟨i₀, payload, n, -, -, hlost, -⟩ := hwon
    -- a contender that looked while it was free was not told 409
    have hwinner : ∀ i, Contends settings nodeId (reqs i) →
        ChecksFree settings reqs nodeId w₀ ls i → i = i₀ := by
      intro i hi hfree
      by_contra hne
      have hd := hlost i hi hne
      have hsel := (checksFree_iff h.fresh h.run).mp hfree
      cases h.ending hi with
      | late _ hsel' =>
        obtain ⟨q, hr, -⟩ := serving_reaches h.run hd
        have he := app_selects_once hr _ (mem_acts.mpr hsel) _ (mem_acts.mpr hsel')
          ⟨nodeId, rfl⟩ ⟨nodeId, rfl⟩
        simp at he
      | clashed hd' =>
        rw [hd] at hd'
        simp [alreadyRegistered] at hd'
      | won hd' =>
        rw [hd] at hd'
        simp [alreadyRegistered] at hd'
    intro i j hi hj hfi hfj
    rw [hwinner i hi hfi, hwinner j hj hfj]
  · intro hone
    obtain ⟨i, ws, row, hi, hws, hrow, hid⟩ := h.inserter
    have hmem := serving_unbeaten h.fresh h.run h.unbeaten hws hrow hid
    have hunique : ∀ r, r ∈ c.world.db.nodes.rows ∧ r.nodeId = nodeId → r = row :=
      fun r ⟨hr, he⟩ => c.world.db.nodes.eq_of_key hr hmem (he.trans hid.symm)
    cases h.ending hi with
    | late _ _ _ _ hown =>
      rw [hown] at hws
      exact absurd hws (by simp)
    | clashed _ _ _ hown =>
      rw [hown] at hws
      exact absurd hws (by simp)
    | @won ws' n hd hsel hws' ht =>
      obtain ⟨payload, ⟨hreq, -⟩, hnode⟩ := id hi
      obtain ⟨row', hrow', hpay⟩ := ht.registered_insert hreq
      have hid' : row'.nodeId = nodeId := (congrArg NodeBase.nodeId hpay).trans hnode
      have hmem' := serving_unbeaten h.fresh h.run h.unbeaten hws' hrow' hid'
      refine ⟨i, payload.toNodeBase, n, hreq, hd, fun j hj hne => ?_, ⟨row, ⟨hmem, hid⟩, hunique⟩,
        ⟨row', hmem', hid', hpay⟩, ?_⟩
      · cases h.ending hj with
        | late hdj => exact hdj
        | clashed _ hselj =>
          exact absurd (hone j i hj hi ((checksFree_iff h.fresh h.run).mpr hselj)
            ((checksFree_iff h.fresh h.run).mpr hsel)) hne
        | won _ _ hwsj htj => exact absurd (h.won_once hj hi hwsj hws' htj ht) hne
      · have hreg := serving_registrations h.fresh h.inStep h.run
        have hnames := hreg.bijection.1 row hmem
        unfold Names at hnames
        rwa [hid] at hnames

/-! ## Two starts of one agent -/

/-- A node's registration, sent twice. -/
def enrol : Request :=
  ⟨nodeHeaders, .registerNode (some ⟨"pi-01", "pi-01.thesis.local", "sensor", .onboarding, none,
    none⟩)⟩

def twice : Rid → Request := arrivals [.request enrol, .request enrol]

/-- The calls of a trace that count against a race, by request and kind. -/
private def wellBehaved : Label Call Ans Exc Rid Env → Bool
  | .call _ ⟨.isRevoked _, .ok true⟩ => false
  | .call _ ⟨_, .error e⟩ => decide (e = .integrity)
  | _ => true

private theorem wellBehaved_error {d : Call} {e : Exc}
    (h : wellBehaved (.call i ⟨d, .error e⟩) = true) : e = .integrity := by
  cases d <;> exact of_decide_eq_true h

/-- Only the first two requests of the example contend. -/
theorem contends_twice (i : Rid) : Contends {} "pi-01" (twice i) ↔ i < 2 := by
  constructor
  · intro ⟨payload, ⟨hreq, _⟩, _⟩
    by_contra hlt
    obtain ⟨k, rfl⟩ := Nat.exists_eq_add_of_le' (Nat.le_of_not_lt hlt)
    simp [twice, arrivals, requests] at hreq
  · intro hlt
    have he : twice i = enrol := by
      rcases i with _ | _ | i
      · rfl
      · rfl
      · exact absurd hlt (Nat.not_lt.mpr (Nat.le_add_left 2 i))
    rw [he]
    exact ⟨⟨⟨"pi-01", "pi-01.thesis.local", "sensor", .onboarding, none, none⟩, by decide⟩,
      ⟨rfl, _, identityOf_nodeHeaders {}, by decide⟩, rfl⟩

/-- Two registrations at once: `is` is the order in which they move. -/
private theorem twice_race (is : List Rid)
    (hrun : (controller.play (serving {} twice .start) is).1.all wellBehaved = true)
    (h₀ : ((controller.play (serving {} twice .start) is).2.party 0).status.result?.isSome = true)
    (h₁ : ((controller.play (serving {} twice .start) is).2.party 1).status.result?.isSome = true) :
    Race {} twice "pi-01" .start (controller.play (serving {} twice .start) is).1
      (controller.play (serving {} twice .start) is).2 where
  run := controller.play_steps is _
  fresh := World.start_fresh
  inStep := .nil
  free := by simp [World.start, Database.empty, Table.empty]
  contended := ⟨0, (contends_twice 0).mpr (by decide)⟩
  live i _ n hmem := absurd (List.all_eq_true.mp hrun _ hmem) (by simp [wellBehaved])
  answered i hi := by
    have hlt := (contends_twice i).mp hi
    have hdone : ∀ {s : Status Call Ans Exc Response}, s.result?.isSome = true → ∃ r, s = .done r :=
      fun hs => (Option.isSome_iff_exists.mp hs).imp fun _ => Status.eq_done
    rcases i with _ | _ | i
    · exact hdone h₀
    · exact hdone h₁
    · exact absurd hlt (Nat.not_lt.mpr (Nat.le_add_left 2 i))
  onlyIntegrity i _ d e hmem := wellBehaved_error (List.all_eq_true.mp hrun _ hmem)
  unbeaten i body := by
    rcases i with _ | _ | i <;> simp [twice, arrivals, requests, enrol]

/-- Both look before either inserts: the loser is answered 500. -/
theorem raced_integrity :
    ∃ ls c, Race {} twice "pi-01" .start ls c ∧
      (c.party 1).status = .done (.error .integrity) ∧ Exc.integrity.status = 500 ∧
      ¬ OneWinner {} twice "pi-01" c := by
  let is : List Rid := List.replicate 3 1 ++ List.replicate 15 0 ++ List.replicate 15 1
  let row : Node := Record.setPk 1
    (newNode ⟨"pi-01", "pi-01.thesis.local", "sensor", .onboarding, none, none⟩ 0 0)
  have hfirst : ((controller.play (serving {} twice .start) is).2.party 0).status
      = .done (.ok ⟨201, .node row⟩) := Status.eq_done (by decide +kernel)
  have hsecond : ((controller.play (serving {} twice .start) is).2.party 1).status
      = .done (.error .integrity) := Status.eq_done (by decide +kernel)
  refine ⟨_, _, twice_race is (by decide +kernel) (by rw [hfirst]; rfl) (by rw [hsecond]; rfl),
    hsecond, rfl, fun hwon => ?_⟩
  obtain ⟨i, payload, n, -, -, hlost, -⟩ := hwon
  by_cases hi : i = 0
  · -- the other was not told 409
    have hd := hlost 1 ((contends_twice 1).mpr (by decide)) (by rw [hi]; decide)
    rw [hsecond] at hd
    simp [alreadyRegistered] at hd
  · have hd := hlost 0 ((contends_twice 0).mpr (by decide)) fun he => hi he.symm
    rw [hfirst] at hd
    simp [alreadyRegistered] at hd

/-- The requests that found the `node_id` free. -/
private def freeChecks (ls : List (Label Call Ans Exc Rid Env)) : List Rid :=
  ls.filterMap fun
    | .call i ⟨.selectNode _, .ok []⟩ => some i
    | _ => none

/-- One after the other: the second is answered 409. -/
theorem sequential_one_winner :
    ∃ ls c, Race {} twice "pi-01" .start ls c ∧ OneWinner {} twice "pi-01" c := by
  let is : List Rid := List.replicate 15 0 ++ List.replicate 15 1
  have h : Race {} twice "pi-01" .start (controller.play (serving {} twice .start) is).1
      (controller.play (serving {} twice .start) is).2 :=
    twice_race is (by decide +kernel) (by decide +kernel) (by decide +kernel)
  refine ⟨_, _, h, (one_winner_iff h).mpr fun i j _ _ hi hj => ?_⟩
  have hfree : freeChecks (controller.play (serving {} twice .start) is).1 = [0] := by
    decide +kernel
  have hzero : ∀ i, ChecksFree {} twice "pi-01" .start
      (controller.play (serving {} twice .start) is).1 i → i = 0 := by
    intro i hi
    have hmem := (checksFree_iff h.fresh h.run).mp hi
    have hin : i ∈ freeChecks (controller.play (serving {} twice .start) is).1 :=
      List.mem_filterMap.mpr ⟨_, hmem, rfl⟩
    rw [hfree] at hin
    exact List.mem_singleton.mp hin
  rw [hzero i hi, hzero j hj]

end ZeroTrustLab.Controller
