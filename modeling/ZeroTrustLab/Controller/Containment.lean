import ZeroTrustLab.Controller.Ownership
import ZeroTrustLab.Controller.Turns

/-!
# What a stolen certificate can do to another node

Take a node's CN and the `node_id` that is its first label. A request of a node
whose CN has another first label is *foreign* (`isForeign`). `Contained`
compares two runs, one of all events and one without the foreign requests: the
node's own registrations and heartbeats are answered with the same statuses,
and the row stored under its `node_id` says the same.

Everything the two runs have to agree on is one `slot`: what is stored under
the `node_id`, without its key and timestamps. `slotStep` is what a request
makes of it and `slotStatus` what the node is told, both functions of the slot
alone; `respond_slot` and `respond_status` connect them to the application.

A slot is not the node's alone, though. `register_node` compares the CN of the
payload with the certificate, never the `node_id`, so a foreign node can take a
free slot, and then it is the row's CN that may send heartbeats.
`contained_iff` names the two ways in.

The induction is over the events, from the front, with the two runs side by
side. An event that both runs take moves both slots by `slotStep`, and equal
slots stay equal. A foreign event moves only the first run, and leaves the slot
alone unless it is one of the two ways in. The statuses follow, because
`slotStatus` sees nothing but the slot.
-/

namespace ZeroTrustLab.Controller

open Lib (Record)

/-! ## One slot -/

/-- What is stored under a `node_id`, without key and timestamps. -/
def Database.slot (db : Database) (nodeId : String) : Option NodeBase :=
  (db.node? nodeId).map fun row => row.toNodeBase

/-- The slot is what the select finds, without its bookkeeping. -/
theorem Database.slot_eq {db : Database} {nodeId : String} {found : Option Node}
    (h : db.node? nodeId = found) : db.slot nodeId = found.map fun row => row.toNodeBase := by
  unfold Database.slot
  rw [h]

/-- The state after an accepted heartbeat. -/
def NodeBase.beaten (row : NodeBase) : NodeBase :=
  { row with state := if row.state == .onboarding then .active else row.state }

/-- What a request makes of the slot of `nodeId`. -/
def slotStep (settings : Settings) (req : Request) (revoked : Finset Int) (nodeId : String)
    (slot : Option NodeBase) : Option NodeBase :=
  match identityOf settings req.headers with
  | .error _ => slot
  | .ok identity =>
    if revokedSerial revoked identity ≠ none then slot
    else
      match req.endpoint with
      | .registerNode (some body) =>
        if body.tooLong = [] ∧ mayRegister identity body = true ∧ body.nodeId = nodeId ∧ slot = none
        then some body else slot
      | .heartbeat beating (some _) =>
        if beating = nodeId then
          slot.map fun row => if identity.commonName = row.commonName then row.beaten else row
        else slot
      | _ => slot

theorem slot_of_nodes_eq {db db' : Database} (h : db'.nodes.rows = db.nodes.rows)
    (nodeId : String) : db'.slot nodeId = db.slot nodeId := by
  unfold Database.slot Database.node?
  rw [h]

private theorem slot_reject {db db' : Database} {event : AuditEvent} {status : Nat}
    {detail : String} (h : db.applyAll (reject db event status detail).2 = some db')
    (nodeId : String) : db'.slot nodeId = db.slot nodeId :=
  slot_of_nodes_eq (Database.applyAll_rows h).1 nodeId

/-- A registration fills its own slot, when it may and the slot is free. -/
private theorem slot_register {identity : MTLSIdentity} {payload : NodeCreate} {now : Time}
    {db db' : Database} (h : db.applyAll (replyRegister identity payload now db).2 = some db')
    (nodeId : String) :
    db'.slot nodeId = if payload.tooLong = [] ∧ mayRegister identity payload.toNodeBase = true ∧
      payload.nodeId = nodeId ∧ db.slot nodeId = none then some payload.toNodeBase
      else db.slot nodeId := by
  unfold replyRegister at h
  by_cases hmay : mayRegister identity payload.toNodeBase = false
  · rw [if_pos hmay] at h
    rw [if_neg (by simp [hmay])]
    exact slot_reject h nodeId
  · rw [if_neg hmay] at h
    have hmay : mayRegister identity payload.toNodeBase = true := by simpa using hmay
    rcases hrow : db.node? payload.nodeId with _ | row
    · rw [hrow] at h
      have hnode : db'.node? nodeId = if nodeId = payload.nodeId then
          some (Record.setPk db.nodes.next (newNode payload.toNodeBase now now))
          else db.node? nodeId :=
        Database.node?_insert _ hrow (Database.applyAll_rows h).1 nodeId
      by_cases he : payload.nodeId = nodeId
      · subst he
        rw [if_pos ⟨payload.within, hmay, rfl, Database.slot_eq hrow⟩]
        exact Database.slot_eq (hnode.trans (if_pos rfl))
      · rw [if_neg (fun hc => he hc.2.2.1)]
        exact Database.slot_eq (hnode.trans (if_neg (Ne.symm he)))
    · rw [hrow] at h
      obtain rfl := Option.some.inj h
      rw [if_neg]
      intro ⟨_, _, he, hnone⟩
      rw [← he, Database.slot_eq hrow] at hnone
      exact absurd hnone (by simp)

/-- A heartbeat moves its own slot, when the CN is the row's. -/
private theorem slot_heartbeat {identity : MTLSIdentity} {beating : String} {now : Time}
    {db db' : Database} (h : db.applyAll (replyHeartbeat identity beating now db).2 = some db')
    (nodeId : String) :
    db'.slot nodeId = if beating = nodeId then
      (db.slot nodeId).map fun row =>
        if identity.commonName = row.commonName then row.beaten else row
      else db.slot nodeId := by
  unfold replyHeartbeat at h
  rcases hrow : db.node? beating with _ | row
  · rw [hrow] at h
    obtain rfl := Option.some.inj h
    by_cases he : beating = nodeId
    · subst he
      rw [if_pos rfl, Database.slot_eq hrow]
      rfl
    · rw [if_neg he]
  · rw [hrow] at h
    dsimp only at h
    have hslot : db.slot beating = some row.toNodeBase := Database.slot_eq hrow
    -- a heartbeat under another CN writes an audit row and leaves the nodes alone
    by_cases hcn : identity.commonName ≠ row.commonName
    · rw [if_pos hcn] at h
      rw [slot_reject h nodeId]
      by_cases he : beating = nodeId
      · subst he
        rw [if_pos rfl, hslot, Option.map_some, if_neg hcn]
      · rw [if_neg he]
    · rw [if_neg hcn] at h
      obtain ⟨hmem, rfl⟩ := Database.node?_eq_some hrow
      have hrows : db'.nodes.rows
          = (Write.updateNode row (row.beaten now)).onNodes db.nodes.rows := by
        by_cases ho : row.state = .onboarding
        · rw [if_pos ho] at h
          exact (Database.applyAll_rows h).1
        · rw [if_neg ho] at h
          exact (Database.applyAll_rows h).1
      -- the one row written is the one beaten; is it the row of `nodeId`?
      have hnode := Database.node?_update hmem hrows nodeId
      by_cases he : row.nodeId = nodeId
      · subst he
        rw [if_pos rfl, hslot, Option.map_some, if_pos (not_not.mp hcn)]
        exact Database.slot_eq (hnode.trans (if_pos rfl))
      · rw [if_neg he]
        exact Database.slot_eq (hnode.trans (if_neg (Ne.symm he)))

/-- **A slot after a request** depends on the request and the slot alone. -/
theorem respond_slot {settings : Settings} {req : Request} {revoked : Finset Int} {now : Time}
    {db db' : Database} (h : db.applyAll (respond settings req revoked now db).2 = some db')
    (nodeId : String) :
    db'.slot nodeId = slotStep settings req revoked nodeId (db.slot nodeId) := by
  have hway := respond_way settings req revoked now db
  generalize respond settings req revoked now db = reply at h hway
  unfold slotStep
  -- the case split is over the ways through the controller, not over its code
  cases hway with
  | quiet hreg hbeat =>
    obtain rfl := Option.some.inj h
    rcases hid : identityOf settings req.headers with e | identity
    · rfl
    · dsimp only
      by_cases hlive : revokedSerial revoked identity = none
      · rw [if_neg (not_not.mpr hlive)]
        split
        next body hep =>
          rw [if_neg]
          intro hc
          exact hreg identity ⟨body, hc.1⟩ ⟨hid, hlive⟩ hep
        next beating body hep => exact absurd hep (hbeat identity _ _ ⟨hid, hlive⟩)
        next => rfl
      · rw [if_pos hlive]
  | revoked hid hserial =>
    rw [hid]
    dsimp only
    rw [if_pos (by simp [hserial])]
    exact slot_reject h nodeId
  | register hlet hreq =>
    rw [hlet.identified, hreq]
    dsimp only
    rw [if_neg (by simp [hlet.live])]
    exact slot_register h nodeId
  | heartbeat hlet hreq =>
    rw [hlet.identified, hreq]
    dsimp only
    rw [if_neg (by simp [hlet.live])]
    exact slot_heartbeat h nodeId

/-- What the node is told, as a function of its slot. -/
def slotStatus (settings : Settings) (req : Request) (revoked : Finset Int)
    (slot : Option NodeBase) : Nat :=
  match identityOf settings req.headers with
  | .error e => e.status
  | .ok identity =>
    if revokedSerial revoked identity ≠ none then 403
    else
      match req.endpoint with
      | .registerNode (some body) =>
        if body.tooLong ≠ [] then 422
        else if mayRegister identity body = false then 403
        else if slot = none then 201 else 409
      | .heartbeat _ (some _) =>
        match slot with
        | none => 404
        | some row =>
          if identity.commonName ≠ row.commonName then 403
          else if row.tooLong = [] then 200 else 500
      | _ => 422

/-- A request of the node `cn` about its own `node_id`: to register it under
its own CN, or a heartbeat. -/
def isOwn (settings : Settings) (cn : String) (req : Request) : Bool :=
  match identityOf settings req.headers with
  | .error _ => false
  | .ok identity =>
    identity.commonName == cn &&
      match req.endpoint with
      | .registerNode (some body) => body.nodeId == firstLabel cn && body.commonName == cn
      | .heartbeat nodeId _ => nodeId == firstLabel cn
      | _ => false

/-- The status of a registration depends on the slot it asks for. -/
private theorem status_register {identity : MTLSIdentity} {payload : NodeCreate} {now : Time}
    {db : Database} :
    statusOf (replyRegister identity payload now db).1
      = if mayRegister identity payload.toNodeBase = false then 403
        else if db.slot payload.nodeId = none then 201 else 409 := by
  unfold replyRegister Database.slot
  by_cases hmay : mayRegister identity payload.toNodeBase = false
  · rw [if_pos hmay, if_pos hmay]
    rfl
  · rw [if_neg hmay, if_neg hmay]
    rcases db.node? payload.nodeId with _ | row
    · rfl
    · simp [statusOf, Exc.status]

/-- The status of a heartbeat depends on the slot it asks for. -/
private theorem status_heartbeat {identity : MTLSIdentity} {nodeId : String} {now : Time}
    {db : Database} (hread : Readable db) :
    statusOf (replyHeartbeat identity nodeId now db).1
      = match db.slot nodeId with
        | none => 404
        | some row =>
          if identity.commonName ≠ row.commonName then 403
          else if row.tooLong = [] then 200 else 500 := by
  unfold replyHeartbeat Database.slot
  rcases hrow : db.node? nodeId with _ | row
  · rfl
  · dsimp only [Option.map_some]
    by_cases hcn : identity.commonName ≠ row.commonName
    · rw [if_pos hcn, if_pos hcn]
      rfl
    · have hok := hread nodeId row hrow
      have hshort : row.tooLong = [] := by
        unfold NodeRead.ok at hok
        simp only [Bool.and_eq_true, List.isEmpty_iff] at hok
        exact hok.2
      have hstatus : statusOf (readNode 200 (row.beaten now)) = 200 := by
        unfold readNode
        rw [if_pos (readOk_beaten hok now)]
        rfl
      rw [if_neg hcn, if_neg hcn, if_pos hshort]
      by_cases ho : row.state = .onboarding
      · rw [if_pos ho]
        exact hstatus
      · rw [if_neg ho]
        exact hstatus

/-- **What the node is told** depends on its request and its slot alone. -/
theorem respond_status {settings : Settings} {cn : String} {req : Request} {revoked : Finset Int}
    {now : Time} {db : Database} (hown : isOwn settings cn req = true) (hread : Readable db) :
    statusOf (respond settings req revoked now db).1
      = slotStatus settings req revoked (db.slot (firstLabel cn)) := by
  unfold isOwn at hown
  rcases hid : identityOf settings req.headers with e | identity
  · rw [hid] at hown
    exact absurd hown (by simp)
  · rw [hid] at hown
    simp only [Bool.and_eq_true, beq_iff_eq] at hown
    obtain ⟨-, hown⟩ := hown
    unfold respond slotStatus
    rw [hid]
    dsimp only
    -- live or revoked; a revoked one is answered 403 before the body is validated
    rcases hlive : revokedSerial revoked identity with _ | serial
    · rw [if_neg (by simp)]
      split at hown
      next body hep =>
        obtain ⟨hnode, -⟩ : body.nodeId = firstLabel cn ∧ body.commonName = cn := by
          simpa using hown
        rw [hep]
        dsimp only [Endpoint.body?, replyBody]
        rcases hv : NodeCreate.validate body with fields | payload
        · rw [if_pos fun hc => NodeCreate.validate_error hv ⟨body, hc⟩ rfl]
          rfl
        · obtain rfl := NodeCreate.validate_ok hv
          rw [if_neg (not_not.mpr payload.within), ← hnode]
          exact status_register
      next nodeId body hep =>
        obtain rfl : nodeId = firstLabel cn := by simpa using hown
        rw [hep]
        rcases body with _ | body
        · rfl
        · exact status_heartbeat hread
      next => exact absurd hown (by simp)
    · rw [if_pos (by simp)]
      split at hown
      next body hep =>
        rw [hep]
        rfl
      next nodeId body hep =>
        rw [hep]
        rfl
      next => exact absurd hown (by simp)

/-! ## Two runs -/

/-- The request comes with the certificate of another node. -/
def isForeign (settings : Settings) (nodeId : String) (req : Request) : Bool :=
  match identityOf settings req.headers with
  | .error _ => false
  | .ok identity => identity.isNode && firstLabel identity.commonName != nodeId

/-- The events without the foreign requests. -/
def purge (settings : Settings) (nodeId : String) (es : List Event) : List Event :=
  es.filter fun
    | .request req => !isForeign settings nodeId req
    | .env _ => true

/-- The statuses of the node's own requests, in order. -/
def ownStatuses (settings : Settings) (cn : String) (es : List Event) : List Nat :=
  ((requests es).zip (answers settings es)).filterMap fun (req, r) =>
    if isOwn settings cn req then some (statusOf r) else none

/-- The foreign requests have made no difference to the node. -/
structure Contained (settings : Settings) (cn : String) (es : List Event) : Prop where
  statuses : ownStatuses settings cn es
    = ownStatuses settings cn (purge settings (firstLabel cn) es)
  row : (afterEvents settings es).db.slot (firstLabel cn)
    = (afterEvents settings (purge settings (firstLabel cn) es)).db.slot (firstLabel cn)

/-- The request writes to the slot of `nodeId`: it registers it while it is
free, or it is the first heartbeat of the row that is there, by the row's CN. -/
inductive Takes (settings : Settings) (req : Request) (revoked : Finset Int) (nodeId : String)
    (slot : Option NodeBase) : Prop where
  | free {identity : MTLSIdentity} {payload : NodeCreate}
      (hlet : LetThrough settings req revoked identity)
      (hreq : req.endpoint = .registerNode (some payload.toNodeBase))
      (hmay : mayRegister identity payload.toNodeBase = true) (hid : payload.nodeId = nodeId)
      (hslot : slot = none)
  | first {identity : MTLSIdentity} {body : NodeHeartbeat} {row : NodeBase}
      (hlet : LetThrough settings req revoked identity)
      (hreq : req.endpoint = .heartbeat nodeId (some body)) (hslot : slot = some row)
      (hcn : identity.commonName = row.commonName) (hstate : row.state = .onboarding)

/-- A heartbeat changes the state of an onboarding row and of no other. -/
theorem beaten_ne_iff {row : NodeBase} : row.beaten ≠ row ↔ row.state = .onboarding := by
  constructor
  · intro h
    by_contra ho
    refine h (NodeBase.ext rfl rfl rfl ?_ rfl rfl)
    simp [NodeBase.beaten, ho]
  · intro ho he
    have hstate := congrArg NodeBase.state he
    simp [NodeBase.beaten, ho] at hstate

/-- Exactly such a request changes the slot. -/
theorem slotStep_ne_iff {settings : Settings} {req : Request} {revoked : Finset Int}
    {nodeId : String} {slot : Option NodeBase} :
    slotStep settings req revoked nodeId slot ≠ slot ↔ Takes settings req revoked nodeId slot := by
  unfold slotStep
  constructor
  · intro h
    rcases hid : identityOf settings req.headers with e | identity
    · rw [hid] at h
      exact absurd rfl h
    · rw [hid] at h
      dsimp only at h
      by_cases hlive : revokedSerial revoked identity = none
      · rw [if_neg (not_not.mpr hlive)] at h
        have hlet : LetThrough settings req revoked identity := ⟨hid, hlive⟩
        -- the slot changes by a registration of a free `node_id` or by the first heartbeat
        split at h
        next body hep =>
          split at h
          next hc =>
            let payload : NodeCreate := ⟨body, hc.1⟩
            have hreq : req.endpoint = .registerNode (some payload.toNodeBase) := hep
            exact .free hlet hreq hc.2.1 hc.2.2.1 hc.2.2.2
          next => exact absurd rfl h
        next beating body hep =>
          split at h
          next he =>
            subst he
            rcases slot with _ | row
            · exact absurd rfl h
            · rw [Option.map_some] at h
              by_cases hcn : identity.commonName = row.commonName
              · rw [if_pos hcn] at h
                exact .first hlet hep rfl hcn (beaten_ne_iff.mp fun he => h (congrArg some he))
              · rw [if_neg hcn] at h
                exact absurd rfl h
          next => exact absurd rfl h
        next => exact absurd rfl h
      · rw [if_pos hlive] at h
        exact absurd rfl h
  · intro h
    cases h with
    | @free identity payload hlet hreq hmay hnode hslot =>
      rw [hlet.identified, hreq]
      dsimp only
      rw [if_neg (not_not.mpr hlet.live), if_pos ⟨payload.within, hmay, hnode, hslot⟩, hslot]
      simp
    | @first identity body row hlet hreq hslot hcn hstate =>
      rw [hlet.identified, hreq]
      dsimp only
      rw [if_neg (not_not.mpr hlet.live), if_pos rfl, hslot, Option.map_some, if_pos hcn]
      exact fun he => beaten_ne_iff.mpr hstate (Option.some.inj he)

variable {settings : Settings} {cn nodeId : String}

/-- One more request is one more status, if it is an own one. -/
theorem ownStatuses_request (es : List Event) (req : Request) :
    ownStatuses settings cn (es ++ [.request req]) = ownStatuses settings cn es ++
      if isOwn settings cn req then
        [slotStatus settings req (afterEvents settings es).revokedSerials
          ((afterEvents settings es).db.slot (firstLabel cn))]
      else [] := by
  unfold ownStatuses
  rw [(afterEvents_request settings es req).1, requests_append,
    List.zip_append (answers_length settings es).symm, List.filterMap_append]
  by_cases hown : isOwn settings cn req = true
  · have hstatus : statusOf (respond settings req (afterEvents settings es).revokedSerials
        (afterEvents settings es).clock (afterEvents settings es).db).1 = _ :=
      respond_status hown (afterEvents_readable settings es)
    rw [if_pos hown, ← hstatus]
    simp [requests, hown]
  · rw [if_neg hown]
    simp [requests, hown]

theorem ownStatuses_env (es : List Event) (e : Env) :
    ownStatuses settings cn (es ++ [.env e]) = ownStatuses settings cn es := by
  unfold ownStatuses
  rw [answers_env, requests_append, show requests [.env e] = [] from rfl, List.append_nil]

/-- A request takes a slot one step further. -/
theorem slot_request (es : List Event) (req : Request) (nodeId : String) :
    (afterEvents settings (es ++ [.request req])).db.slot nodeId
      = slotStep settings req (afterEvents settings es).revokedSerials nodeId
          ((afterEvents settings es).db.slot nodeId) :=
  respond_slot (afterEvents_request settings es req).2.db nodeId

theorem slot_env (es : List Event) (e : Env) (nodeId : String) :
    (afterEvents settings (es ++ [.env e])).db.slot nodeId
      = (afterEvents settings es).db.slot nodeId := by
  rw [afterEvents_env]
  cases e <;> rfl

variable (settings nodeId) in
/-- An event that is kept is kept at the end. -/
theorem purge_concat_keep {ev : Event} (es : List Event)
    (h : purge settings nodeId [ev] = [ev]) :
    purge settings nodeId (es ++ [ev]) = purge settings nodeId es ++ [ev] := by
  unfold purge at h ⊢
  rw [List.filter_append, h]

/-- A foreign request at the end is purged. -/
theorem purge_concat_foreign {req : Request} (es : List Event)
    (h : isForeign settings nodeId req = true) :
    purge settings nodeId (es ++ [.request req]) = purge settings nodeId es := by
  unfold purge
  rw [List.filter_append, List.filter_cons_of_neg (by simp [h]), List.filter_nil, List.append_nil]

variable (settings nodeId) in
/-- Clock and revoked serials do not depend on the requests. -/
theorem purge_surroundings (es : List Event) :
    (afterEvents settings (purge settings nodeId es)).revokedSerials
        = (afterEvents settings es).revokedSerials ∧
      (afterEvents settings (purge settings nodeId es)).clock = (afterEvents settings es).clock := by
  induction es using List.reverseRecOn with
  | nil => exact ⟨rfl, rfl⟩
  | append_singleton es ev ih =>
    cases ev with
    | env e =>
      rw [purge_concat_keep settings nodeId es rfl, afterEvents_env, afterEvents_env]
      obtain ⟨hcache, hclock⟩ := ih
      cases e with
      | tick now => exact ⟨hcache, rfl⟩
      | crl answer => exact ⟨congrArg (fun s => crlCycle s answer) hcache, hclock⟩
    | request req =>
      have hf := (afterEvents_request settings es req).2
      by_cases hforeign : isForeign settings nodeId req = true
      · rw [purge_concat_foreign es hforeign, hf.cache, hf.clock]
        exact ih
      · have hf' := (afterEvents_request settings (purge settings nodeId es) req).2
        rw [purge_concat_keep settings nodeId es (by simp [purge, hforeign]), hf.cache, hf.clock,
          hf'.cache, hf'.clock]
        exact ih

/-- A node's own requests are not foreign to it. -/
theorem not_foreign_of_own {req : Request} (h : isOwn settings cn req = true) :
    isForeign settings (firstLabel cn) req = false := by
  unfold isOwn at h
  unfold isForeign
  rcases hid : identityOf settings req.headers with e | identity
  · rfl
  · rw [hid] at h
    simp only [Bool.and_eq_true, beq_iff_eq] at h
    simp [h.1]

/-- As long as no foreign request takes the slot, the two runs go on alike. -/
theorem contained_of_untaken (es : List Event)
    (h : ∀ es₁ req, es₁ ++ [.request req] <+: es → isForeign settings (firstLabel cn) req = true →
      ¬ Takes settings req (afterEvents settings es₁).revokedSerials (firstLabel cn)
        ((afterEvents settings es₁).db.slot (firstLabel cn))) :
    Contained settings cn es := by
  -- by induction from the right: what the last event adds to both sides
  induction es using List.reverseRecOn with
  | nil => exact ⟨rfl, rfl⟩
  | append_singleton es ev ih =>
    obtain ⟨hstatuses, hrow⟩ := ih fun es₁ req hpre => h es₁ req (hpre.trans (List.prefix_append _ _))
    cases ev with
    | env e =>
      have hp : purge settings (firstLabel cn) (es ++ [.env e])
          = purge settings (firstLabel cn) es ++ [.env e] := purge_concat_keep _ _ es rfl
      exact ⟨by rw [hp, ownStatuses_env, ownStatuses_env]; exact hstatuses,
        by rw [hp, slot_env, slot_env]; exact hrow⟩
    | request req =>
      by_cases hforeign : isForeign settings (firstLabel cn) req = true
      · -- a foreign request is missing on the right: it leaves the slot alone
        have huntaken := h es req List.prefix_rfl hforeign
        have hnotOwn : ¬ isOwn settings cn req = true := by
          intro hown
          rw [not_foreign_of_own hown] at hforeign
          exact absurd hforeign (by simp)
        refine ⟨?_, ?_⟩
        · rw [purge_concat_foreign es hforeign, ownStatuses_request, if_neg hnotOwn, List.append_nil]
          exact hstatuses
        · rw [purge_concat_foreign es hforeign, slot_request, ← hrow]
          exact not_not.mp (mt slotStep_ne_iff.mp huntaken)
      · have hp : purge settings (firstLabel cn) (es ++ [.request req])
            = purge settings (firstLabel cn) es ++ [.request req] :=
          purge_concat_keep _ _ es (by simp [purge, hforeign])
        have hcache := (purge_surroundings settings (firstLabel cn) es).1
        refine ⟨?_, ?_⟩
        · rw [hp, ownStatuses_request, ownStatuses_request, hstatuses, hrow, hcache]
        · rw [hp, slot_request, slot_request, hrow, hcache]

/-- **When a node is contained**: all along a sequence just when no foreign
request takes the slot of its `node_id`. Both sides speak of every prefix of the
sequence, and a request takes the slot by what it says and by what the slot
holds before it. -/
theorem contained_iff (settings : Settings) (cn : String) (es : List Event) :
    (∀ es₁, es₁ <+: es → Contained settings cn es₁) ↔
      ∀ es₁ req, es₁ ++ [.request req] <+: es → isForeign settings (firstLabel cn) req = true →
        ¬ Takes settings req (afterEvents settings es₁).revokedSerials (firstLabel cn)
          ((afterEvents settings es₁).db.slot (firstLabel cn)) := by
  constructor
  · intro h es₁ req hpre hforeign htakes
    -- before and after the request the purged run is the same
    have hbefore := (h es₁ ((List.prefix_append _ _).trans hpre)).row
    have hafter := (h _ hpre).row
    rw [purge_concat_foreign es₁ hforeign, ← hbefore, slot_request] at hafter
    exact slotStep_ne_iff.mpr htakes hafter
  · intro h es₁ hpre
    exact contained_of_untaken es₁ fun es₂ req hpre' => h es₂ req (hpre'.trans hpre)

/-- The certificate of pi-03 takes the `node_id` of pi-01, which then enrols. -/
def squatting : List Event :=
  [.request squat, .request ⟨nodeHeaders, .registerNode
    (some ⟨"pi-01", "pi-01.thesis.local", "sensor", .onboarding, none, none⟩)⟩]

/-- With pi-03's registration in front, pi-01 is told 409 instead of 201. -/
theorem squatting_not_contained :
    ownStatuses {} "pi-01.thesis.local" squatting = [409] ∧
    ownStatuses {} "pi-01.thesis.local" (purge {} "pi-01" squatting) = [201] ∧
    ¬ Contained {} "pi-01.thesis.local" squatting := by
  have hwith : ownStatuses {} "pi-01.thesis.local" squatting = [409] := by decide +kernel
  have hwithout : ownStatuses {} "pi-01.thesis.local" (purge {} "pi-01" squatting) = [201] := by
    decide +kernel
  refine ⟨hwith, hwithout, fun h => ?_⟩
  have hsame := h.statuses
  rw [hwith, show firstLabel "pi-01.thesis.local" = "pi-01" by decide +kernel, hwithout] at hsame
  exact absurd hsame (by decide)

end ZeroTrustLab.Controller
