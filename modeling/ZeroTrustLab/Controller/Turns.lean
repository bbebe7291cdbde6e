import ZeroTrustLab.Controller.Sequential

/-!
# Sequences of requests, one at a time

`Turn` lists the ways a request that runs alone can change the committed rows:
not at all, by the audit row of a rejection, by a registration, or by a
heartbeat of the node itself. Lookups (`Database.node?`) are how it says what
becomes of the nodes.

`afterEvents` and `answers` are what a sequence of events leaves and was
answered, from the start of the process. `afterEvents_invariant` is the
induction over such a sequence, done once.

Every result about sequences is an induction with one step lemma for each kind
of turn, and `respond_turn` is what makes those four cases complete. What
happens around the controller, a tick of the clock or a refresh cycle, changes
no row and answers no one.
-/

namespace ZeroTrustLab.Controller

open Lib (Record)

/-! ## Which code decides -/

/-- The endpoint body runs for `identity`. -/
structure LetThrough (settings : Settings) (req : Request) (revoked : Finset Int)
    (identity : MTLSIdentity) : Prop where
  identified : identityOf settings req.headers = .ok identity
  live : revokedSerial revoked identity = none

/-- A request that asks for an identity and is answered without an error was
let through. -/
theorem LetThrough.of_ok {settings : Settings} {req : Request} {revoked : Finset Int} {now : Time}
    {db : Database} {x : Response} (hreq : req.endpoint.body? ≠ none)
    (h : (respond settings req revoked now db).1 = .ok x) :
    ∃ identity, LetThrough settings req revoked identity ∧
      (replyBody req.endpoint identity now db).1 = .ok x := by
  obtain ⟨body, hbody⟩ := Option.ne_none_iff_exists'.mp hreq
  unfold respond at h
  rw [hbody] at h
  dsimp only at h
  rcases hid : identityOf settings req.headers with e | identity
  · rw [hid] at h
    exact absurd h (by simp)
  · rw [hid] at h
    dsimp only at h
    rcases hlive : revokedSerial revoked identity with _ | serial
    · rw [hlive] at h
      exact ⟨identity, ⟨hid, hlive⟩, h⟩
    · rw [hlive] at h
      exact absurd h (by simp [reject])

/-- Which part of `respond` a request comes to: one of the two endpoints that
write, the rejection of a revoked certificate, or code that commits nothing. -/
inductive Way (settings : Settings) (req : Request) (revoked : Finset Int) (now : Time)
    (db : Database) : Reply → Prop where
  | quiet {r : Except Exc Response}
      (hreg : ∀ identity (payload : NodeCreate), LetThrough settings req revoked identity →
        req.endpoint ≠ .registerNode (some payload.toNodeBase))
      (hbeat : ∀ identity nodeId body, LetThrough settings req revoked identity →
        req.endpoint ≠ .heartbeat nodeId (some body)) : Way settings req revoked now db (r, [])
  | revoked {identity : MTLSIdentity} {serial : Int}
      (hid : identityOf settings req.headers = .ok identity)
      (hserial : revokedSerial revoked identity = some serial) :
      Way settings req revoked now db
        (reject db (revokedEvent identity serial now) 403 revokedDetail)
  | register {identity : MTLSIdentity} {payload : NodeCreate}
      (hlet : LetThrough settings req revoked identity)
      (hreq : req.endpoint = .registerNode (some payload.toNodeBase)) :
      Way settings req revoked now db (replyRegister identity payload now db)
  | heartbeat {identity : MTLSIdentity} {nodeId : String} {body : NodeHeartbeat}
      (hlet : LetThrough settings req revoked identity)
      (hreq : req.endpoint = .heartbeat nodeId (some body)) :
      Way settings req revoked now db (replyHeartbeat identity nodeId now db)

/-- Behind the gate, the body's reply is one of the ways. -/
private theorem way_body {settings : Settings} {req : Request} {revoked : Finset Int} {now : Time}
    {db : Database} {identity : MTLSIdentity} (hlet : LetThrough settings req revoked identity) :
    Way settings req revoked now db (replyBody req.endpoint identity now db) := by
  -- a read, and a body that is refused, write nothing
  have hquiet : ∀ r, (∀ payload : NodeCreate, req.endpoint ≠ .registerNode (some payload.toNodeBase)) →
      (∀ nodeId body, req.endpoint ≠ .heartbeat nodeId (some body)) →
      Way settings req revoked now db (r, []) :=
    fun r hreg hbeat => .quiet (fun _ payload _ => hreg payload) fun _ nodeId body _ =>
      hbeat nodeId body
  cases hep : req.endpoint with
  | health => exact hquiet _ (by simp [hep]) (by simp [hep])
  | whoami => exact hquiet _ (by simp [hep]) (by simp [hep])
  | listNodes => exact hquiet _ (by simp [hep]) (by simp [hep])
  | getNode nodeId =>
    unfold replyBody
    dsimp only
    split
    next => exact hquiet _ (by simp [hep]) (by simp [hep])
    next => exact hquiet _ (by simp [hep]) (by simp [hep])
  | listAuditEvents limit offset actorCn action result =>
    unfold replyBody
    dsimp only
    split
    next => exact hquiet _ (by simp [hep]) (by simp [hep])
    next => exact hquiet _ (by simp [hep]) (by simp [hep])
  | registerNode b =>
    rcases b with _ | b
    · exact hquiet _ (by simp [hep]) (by simp [hep])
    · unfold replyBody
      dsimp only
      rcases hv : NodeCreate.validate b with fields | payload
      · refine hquiet _ (fun payload he => ?_) (by simp [hep])
        rw [hep] at he
        exact NodeCreate.validate_error hv payload (Option.some.inj (Endpoint.registerNode.inj he)).symm
      · exact .register hlet (by rw [hep, NodeCreate.validate_ok hv])
  | heartbeat nodeId b =>
    rcases b with _ | b
    · exact hquiet _ (by simp [hep]) (by simp [hep])
    · exact .heartbeat hlet hep

/-- Every reply of the application is one of the ways. -/
theorem respond_way (settings : Settings) (req : Request) (revoked : Finset Int) (now : Time)
    (db : Database) : Way settings req revoked now db (respond settings req revoked now db) := by
  unfold respond
  rcases hbody : req.endpoint.body? with _ | body
  · have hep : req.endpoint = .health := by
      cases hep : req.endpoint <;> simp [hep, Endpoint.body?] at hbody ⊢
    exact .quiet (by simp [hep]) (by simp [hep])
  · dsimp only
    rcases hid : identityOf settings req.headers with e | identity
    · have hnobody : ∀ identity, ¬ LetThrough settings req revoked identity := by
        intro identity hlet
        have hok := hlet.identified
        rw [hid] at hok
        simp at hok
      exact .quiet (fun _ _ hlet => absurd hlet (hnobody _)) fun _ _ _ hlet =>
        absurd hlet (hnobody _)
    · dsimp only
      rcases hlive : revokedSerial revoked identity with _ | serial
      · exact way_body ⟨hid, hlive⟩
      · exact .revoked hid hlive

/-! ## What one request makes of the rows -/

/-- After an insertion, lookups find the new row under its `node_id` and all
else as before. -/
theorem Database.node?_insert {db db' : Database} (row : Node) (hfree : db.node? row.nodeId = none)
    (h : db'.nodes.rows = db.nodes.rows ++ [row]) (nodeId : String) :
    db'.node? nodeId = if nodeId = row.nodeId then some row else db.node? nodeId := by
  unfold Database.node? at hfree ⊢
  rw [h, List.find?_append]
  by_cases he : nodeId = row.nodeId
  · rw [if_pos he, he, hfree]
    simp
  · rw [if_neg he]
    simp [Ne.symm he]

/-- After a heartbeat, lookups find the beaten row under its `node_id` and all
else as before. -/
theorem Database.node?_update {db db' : Database} {row : Node} {now : Time}
    (hrow : row ∈ db.nodes.rows)
    (h : db'.nodes.rows = (Write.updateNode row (row.beaten now)).onNodes db.nodes.rows)
    (nodeId : String) :
    db'.node? nodeId = if nodeId = row.nodeId then some (row.beaten now) else db.node? nodeId := by
  have hmem : ∀ r ∈ db.nodes.rows,
      (if r.id = row.id then row.beaten now else r) ∈ db'.nodes.rows := by
    intro r hr
    rw [h]
    refine List.mem_map.mpr ⟨r, hr, ?_⟩
    by_cases hid : r.id = row.id
    · rw [if_pos hid, if_pos hid, db.nodes.eq_of_pk hr hrow hid, changed_self]
    · rw [if_neg hid, if_neg hid]
  -- the row written is the one asked for, or the answer is as before
  by_cases he : nodeId = row.nodeId
  · rw [if_pos he, he]
    have hbeaten := hmem row hrow
    rw [if_pos rfl] at hbeaten
    exact Database.node?_of_mem hbeaten
  · rw [if_neg he]
    rcases hr : db.node? nodeId with _ | r
    · refine Database.node?_eq_none.mpr fun r' hr' => ?_
      rw [h] at hr'
      obtain ⟨r, hr₀, rfl⟩ := List.mem_map.mp hr'
      have hne := Database.node?_eq_none.mp hr r hr₀
      by_cases hid : r.id = row.id
      · rw [if_pos hid, db.nodes.eq_of_pk hr₀ hrow hid, changed_self]
        exact fun hn => he hn.symm
      · rw [if_neg hid]
        exact hne
    · obtain ⟨hr₀, hid⟩ := Database.node?_eq_some hr
      have hkept := hmem r hr₀
      rw [if_neg (fun hpk => he (by rw [← hid, db.nodes.eq_of_pk hr₀ hrow hpk]))] at hkept
      rw [← hid]
      exact Database.node?_of_mem hkept

/-- The ways a request that runs alone can change the rows, by the lookups it
makes possible and the audit rows it adds. -/
inductive Turn (settings : Settings) (req : Request) (revoked : Finset Int) (now : Time)
    (db db' : Database) : Except Exc Response → Prop where
  | quiet {r : Except Exc Response} (hdb : db' = db) : Turn settings req revoked now db db' r
  | rejected {status : Nat} {detail : String} {event : AuditEvent}
      (haction : event.action = .authFailure) (hnodes : db'.nodes = db.nodes)
      (hevents : db'.events.rows = db.events.rows ++ [event]) :
      Turn settings req revoked now db db' (.error (.http status detail))
  | registered {identity : MTLSIdentity} {payload : NodeCreate} {id k : Nat}
      (hreq : req.endpoint = .registerNode (some payload.toNodeBase))
      (hlet : LetThrough settings req revoked identity)
      (hmay : mayRegister identity payload.toNodeBase = true)
      (hfree : db.node? payload.nodeId = none)
      (hnode : ∀ nodeId, db'.node? nodeId = if nodeId = payload.nodeId then
        some (Record.setPk id (newNode payload.toNodeBase now now)) else db.node? nodeId)
      (hevents : db'.events.rows = db.events.rows ++
        [Record.setPk k (registeredEvent identity payload.toNodeBase now)]) :
      Turn settings req revoked now db db'
        (.ok ⟨201, .node (Record.setPk id (newNode payload.toNodeBase now now))⟩)
  | beaten {identity : MTLSIdentity} {row : Node} {body : NodeHeartbeat} {k : Nat}
      (hreq : req.endpoint = .heartbeat row.nodeId (some body))
      (hlet : LetThrough settings req revoked identity)
      (hrow : db.node? row.nodeId = some row) (hcn : identity.commonName = row.commonName)
      (hnode : ∀ nodeId, db'.node? nodeId = if nodeId = row.nodeId then
        some (row.beaten now) else db.node? nodeId)
      (hevents : db'.events.rows = db.events.rows ++
        if row.state = .onboarding then [Record.setPk k (activatedEvent identity row now now)]
        else []) :
      Turn settings req revoked now db db' (readNode 200 (row.beaten now))

theorem turn_reject {settings : Settings} {req : Request} {revoked : Finset Int} {now : Time}
    {db db' : Database} {event : AuditEvent} {status : Nat} {detail : String}
    (haction : event.action = .authFailure)
    (h : db.applyAll (reject db event status detail).2 = some db') :
    Turn settings req revoked now db db' (reject db event status detail).1 := by
  obtain ⟨hnodes, hevents⟩ := Database.applyAll_rows h
  refine .rejected (show (Record.setPk db.events.next event : AuditEvent).action = _ from haction)
    (Lib.Table.ext hnodes) hevents

theorem turn_register {settings : Settings} {req : Request} {revoked : Finset Int} {now : Time}
    {db db' : Database} {identity : MTLSIdentity} {payload : NodeCreate}
    (hreq : req.endpoint = .registerNode (some payload.toNodeBase))
    (hlet : LetThrough settings req revoked identity)
    (h : db.applyAll (replyRegister identity payload now db).2 = some db') :
    Turn settings req revoked now db db' (replyRegister identity payload now db).1 := by
  unfold replyRegister at h ⊢
  by_cases hmay : mayRegister identity payload.toNodeBase = false
  · rw [if_pos hmay] at h ⊢
    exact turn_reject rfl h
  · rw [if_neg hmay] at h ⊢
    rcases hrow : db.node? payload.nodeId with _ | row
    · rw [hrow] at h
      obtain ⟨hnodes, hevents⟩ := Database.applyAll_rows h
      have hnode := Database.node?_insert
        (Record.setPk db.nodes.next (newNode payload.toNodeBase now now)) hrow hnodes
      exact .registered hreq hlet (by simpa using hmay) hrow hnode hevents
    · rw [hrow] at h
      exact .quiet (Option.some.inj h).symm

theorem turn_heartbeat {settings : Settings} {req : Request} {revoked : Finset Int} {now : Time}
    {db db' : Database} {identity : MTLSIdentity} {nodeId : String} {body : NodeHeartbeat}
    (hreq : req.endpoint = .heartbeat nodeId (some body))
    (hlet : LetThrough settings req revoked identity)
    (h : db.applyAll (replyHeartbeat identity nodeId now db).2 = some db') :
    Turn settings req revoked now db db' (replyHeartbeat identity nodeId now db).1 := by
  unfold replyHeartbeat at h ⊢
  rcases hrow : db.node? nodeId with _ | row
  · rw [hrow] at h
    exact .quiet (Option.some.inj h).symm
  · rw [hrow] at h
    dsimp only at h ⊢
    by_cases hcn : identity.commonName ≠ row.commonName
    · rw [if_pos hcn] at h ⊢
      exact turn_reject rfl h
    · rw [if_neg hcn] at h ⊢
      obtain ⟨hmem, rfl⟩ := Database.node?_eq_some hrow
      by_cases ho : row.state = .onboarding
      · rw [if_pos ho] at h ⊢
        obtain ⟨hnodes, hevents⟩ := Database.applyAll_rows h
        refine .beaten (k := db.events.next) hreq hlet hrow (not_not.mp hcn)
          (Database.node?_update hmem hnodes) ?_
        rw [if_pos ho]
        exact hevents
      · rw [if_neg ho] at h ⊢
        obtain ⟨hnodes, hevents⟩ := Database.applyAll_rows h
        refine .beaten (k := 0) hreq hlet hrow (not_not.mp hcn) (Database.node?_update hmem hnodes) ?_
        rw [if_neg ho]
        exact hevents

/-- **What a request that runs alone can do.** -/
theorem respond_turn {settings : Settings} {req : Request} {revoked : Finset Int} {now : Time}
    {db db' : Database} (h : db.applyAll (respond settings req revoked now db).2 = some db') :
    Turn settings req revoked now db db' (respond settings req revoked now db).1 := by
  have hway := respond_way settings req revoked now db
  generalize respond settings req revoked now db = reply at h hway ⊢
  cases hway with
  | quiet => exact .quiet (Option.some.inj h).symm
  | revoked => exact turn_reject rfl h
  | register hlet hreq => exact turn_register hreq hlet h
  | heartbeat hlet hreq => exact turn_heartbeat hreq hlet h

/-! ## Sequences of requests -/

theorem serial_append (settings : Settings) : ∀ (es es' : List Event) (n : Nat) (w : World),
    serial settings n (es ++ es') w =
      ((serial settings n es w).1 ++
          (serial settings (n + (requests es).length) es' (serial settings n es w).2).1,
        (serial settings (n + (requests es).length) es' (serial settings n es w).2).2) := by
  intro es es'
  induction es with
  | nil => intro n w; rfl
  | cons ev es ih =>
    intro n w
    cases ev with
    | env e => exact ih n _
    | request req =>
      have hlen : n + (requests (.request req :: es)).length = n + 1 + (requests es).length := by
        simp only [requests, List.filterMap_cons, List.length_cons]
        omega
      rw [List.cons_append]
      simp only [serial]
      rw [ih (n + 1), hlen]
      rfl

/-- The answers to the requests among the events, from the start of the process. -/
def answers (settings : Settings) (es : List Event) : List (Except Exc Response) :=
  (serial settings 0 es .start).1

/-- The state after the events. -/
def afterEvents (settings : Settings) (es : List Event) : World := (serial settings 0 es .start).2

private theorem afterEvents_handle (settings : Settings) (es : List Event) (req : Request)
    (htx : (afterEvents settings es).tx = none) :
    let w := afterEvents settings es
    let reply := respond settings req w.revokedSerials w.clock w.db
    answers settings (es ++ [.request req]) = answers settings es ++ [reply.1] ∧
      w.Follows reply.2 (afterEvents settings (es ++ [.request req])) := by
  obtain ⟨w', hw', hf⟩ := handle_respond settings (0 + (requests es).length) req htx
  have hserial : serial settings 0 (es ++ [.request req]) .start
      = (answers settings es ++ [(respond settings req (afterEvents settings es).revokedSerials
          (afterEvents settings es).clock (afterEvents settings es).db).1], w') := by
    rw [serial_append]
    simp only [serial]
    rw [show (serial settings 0 es .start).2 = afterEvents settings es from rfl, hw']
    rfl
  have hworld : afterEvents settings (es ++ [.request req]) = w' := congrArg Prod.snd hserial
  intro w reply
  rw [hworld]
  exact ⟨congrArg Prod.fst hserial, hf⟩

theorem afterEvents_env (settings : Settings) (es : List Event) (e : Env) :
    afterEvents settings (es ++ [.env e]) = controller.env e (afterEvents settings es) := by
  unfold afterEvents
  rw [serial_append]
  rfl

/-- Between two requests nothing is open. -/
theorem afterEvents_tx (settings : Settings) (es : List Event) :
    (afterEvents settings es).tx = none := by
  induction es using List.reverseRecOn with
  | nil => rfl
  | append_singleton es ev ih =>
    cases ev with
    | env e =>
      rw [afterEvents_env]
      cases e <;> exact ih
    | request req => exact (afterEvents_handle settings es req ih).2.tx

/-- **One request more**: it is answered by `respond`, which also says what has
become of the state. -/
theorem afterEvents_request (settings : Settings) (es : List Event) (req : Request) :
    let w := afterEvents settings es
    let reply := respond settings req w.revokedSerials w.clock w.db
    answers settings (es ++ [.request req]) = answers settings es ++ [reply.1] ∧
      w.Follows reply.2 (afterEvents settings (es ++ [.request req])) :=
  afterEvents_handle settings es req (afterEvents_tx settings es)

theorem requests_append (es es' : List Event) : requests (es ++ es') = requests es ++ requests es' :=
  List.filterMap_append

theorem answers_env (settings : Settings) (es : List Event) (e : Env) :
    answers settings (es ++ [.env e]) = answers settings es := by
  unfold answers
  rw [serial_append]
  exact List.append_nil _

/-- Every request is answered. -/
theorem answers_length (settings : Settings) (es : List Event) :
    (answers settings es).length = (requests es).length := by
  induction es using List.reverseRecOn with
  | nil => rfl
  | append_singleton es ev ih =>
    rw [requests_append, List.length_append]
    cases ev with
    | env e =>
      rw [answers_env, ih]
      rfl
    | request req =>
      rw [(afterEvents_request settings es req).1, List.length_append, ih]
      rfl

/-- What each request that runs alone keeps of the committed rows, a sequence
of events keeps. -/
theorem afterEvents_keeps {settings : Settings} {P : Database → Prop} {es₀ : List Event}
    (h₀ : P (afterEvents settings es₀).db) (es : List Event)
    (hstep : ∀ es₁ req es₂, es = es₁ ++ .request req :: es₂ → ∀ db' r,
      Turn settings req (afterEvents settings (es₀ ++ es₁)).revokedSerials
        (afterEvents settings (es₀ ++ es₁)).clock (afterEvents settings (es₀ ++ es₁)).db db' r →
      P (afterEvents settings (es₀ ++ es₁)).db → P db') :
    P (afterEvents settings (es₀ ++ es)).db := by
  induction es using List.reverseRecOn with
  | nil =>
    rw [List.append_nil]
    exact h₀
  | append_singleton es ev ih =>
    have hold := ih fun es₁ req es₂ he => hstep es₁ req (es₂ ++ [ev]) (by rw [he]; simp)
    rw [← List.append_assoc]
    cases ev with
    | env e =>
      rw [afterEvents_env]
      cases e <;> exact hold
    | request req =>
      have hf := (afterEvents_request settings (es₀ ++ es) req).2
      exact hstep es req [] rfl _ _ (respond_turn hf.db) hold

/-- An invariant of the committed rows, from the start of the process. -/
theorem afterEvents_invariant {settings : Settings} {P : Database → Prop} (h₀ : P .empty)
    (es : List Event)
    (hstep : ∀ es₁ req es₂, es = es₁ ++ .request req :: es₂ → ∀ db' r,
      Turn settings req (afterEvents settings es₁).revokedSerials (afterEvents settings es₁).clock
        (afterEvents settings es₁).db db' r → P (afterEvents settings es₁).db → P db') :
    P (afterEvents settings es).db :=
  @afterEvents_keeps settings P [] h₀ es hstep

/-- Stored rows pass the response model. -/
def Readable (db : Database) : Prop :=
  ∀ nodeId row, db.node? nodeId = some row → NodeRead.ok row = true

theorem readOk_beaten {row : Node} (h : NodeRead.ok row = true) (now : Time) :
    NodeRead.ok (row.beaten now) = true := h

theorem Turn.readable {settings : Settings} {req : Request} {revoked : Finset Int} {now : Time}
    {db db' : Database} {r : Except Exc Response} (ht : Turn settings req revoked now db db' r)
    (h : Readable db) : Readable db' := by
  intro nodeId row hrow
  cases ht with
  | quiet hdb => exact h nodeId row (hdb ▸ hrow)
  | rejected _ hnodes =>
    unfold Database.node? at hrow
    rw [hnodes] at hrow
    exact h nodeId row hrow
  | @registered _ payload _ _ _ _ _ _ hnode =>
    rw [hnode] at hrow
    split at hrow
    next =>
      rw [← Option.some.inj hrow]
      unfold NodeRead.ok
      simp [Record.setPk, newNode, payload.within]
    next => exact h nodeId row hrow
  | @beaten _ loaded _ _ _ _ hloaded _ hnode =>
    rw [hnode] at hrow
    split at hrow
    next =>
      rw [← Option.some.inj hrow]
      exact readOk_beaten (h _ loaded hloaded) now
    next => exact h nodeId row hrow

/-- Every row is readable in every state that is reached. -/
theorem afterEvents_readable (settings : Settings) (es : List Event) :
    Readable (afterEvents settings es).db :=
  afterEvents_invariant (fun _ _ h => absurd h (by simp [Database.node?, Database.empty])) es
    fun _ _ _ _ _ _ ht h => ht.readable h

end ZeroTrustLab.Controller
