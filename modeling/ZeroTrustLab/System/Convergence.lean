import ZeroTrustLab.System.Fleet
import ZeroTrustLab.Controller.Sequential

/-!
# Trying again

An agent whose registration went wrong does not know what came of it: the
request may have been lost, its transaction may have been refused or rolled
back, or it may have been committed and only the answer was lost. It sends the
same request again, and `registration_converges` says that this is right: from
every state the system can be in, once its next request gets through, the agent
is told 201 or 409 and the row of its node is there.

The lock may be held when the request arrives, by an earlier attempt of the same
agent even; its holder can always come to its end first (`Alone.finish`).

And however often it tries, in however many lives of its process, the node is
registered once (`registered_once`).

The proof puts two schedules together. The first brings the holder of the lock
to its end, if there is one; the second runs the agent's request alone, to the
answer of `respond`. For that the agent's settings have to pass the length
limits of `NodeCreate`: a body over them is answered 422 however often it is
sent.
-/

namespace ZeroTrustLab.System

open Lib
open Agent (LoopAns registration)
open Controller (Alone Endpoint Env Exc MTLSIdentity NodeCreate Response Rid Session World controller
  identityOf mayRegister revokedSerial statusOf)
open Nginx (Brought)

/-! ## At the controller -/

section

variable {settings : Controller.Settings} {reqs : Rid → Controller.Request} {i : Rid}
  {ls : List (Label Controller.Call Controller.Ans Exc Rid Env)}
  {c : Cfg Controller.Call Controller.Ans Exc Response Rid Session World}

/-- Nothing of the holder's own moves changes what is revoked. -/
theorem revoked_unmoved {ls' : List (Label Controller.Call Controller.Ans Exc Rid Env)}
    {c' : Cfg Controller.Call Controller.Ans Exc Response Rid Session World}
    (h : Controller.Run settings reqs .start ls c) (h' : Steps controller c ls' c')
    (hby : ∀ lab ∈ ls', lab.by? ≠ none) : c'.world.revokedSerials = c.world.revokedSerials := by
  have hall : Controller.Run settings reqs .start (ls ++ ls') c' := h.trans h'
  rw [Controller.serving_cache Controller.World.start_fresh hall, Nginx.crls_requests hby,
    ← Controller.serving_cache Controller.World.start_fresh h]

/-- What a registration is answered that its identity may make. -/
theorem respond_registers {req : Controller.Request} {payload : NodeCreate}
    {identity : MTLSIdentity} {revoked : Finset Int} {now : Controller.Time} {db : Controller.Database}
    (hreq : req.endpoint = .registerNode (some payload.toNodeBase))
    (hid : identityOf settings req.headers = .ok identity)
    (hlive : revokedSerial revoked identity = none)
    (hmay : mayRegister identity payload.toNodeBase = true) :
    statusOf (Controller.respond settings req revoked now db).1
      = if (db.node? payload.nodeId).isSome then 409 else 201 := by
  have hbody : req.endpoint.body? ≠ none := by
    rw [hreq]
    simp [Endpoint.body?]
  have hvalid : NodeCreate.validate payload.toNodeBase = .ok payload := by
    unfold NodeCreate.validate
    rw [dif_pos payload.within]
  rw [Controller.respond_admitted hbody hid hlive, hreq]
  unfold Controller.replyBody
  dsimp only
  rw [hvalid]
  dsimp only
  unfold Controller.replyRegister
  rw [hmay]
  rcases db.node? payload.nodeId with _ | row
  · simp [statusOf]
  · simp [statusOf, Exc.status]

/-- When the lock is free, a request that has not begun can run alone, to the
answer of `respond`. -/
theorem runs_alone (h : Controller.Run settings reqs .start ls c) (htx : c.world.tx = none)
    (hi : ∀ lab ∈ ls, lab.by? ≠ some i) :
    ∃ ls' c', Steps controller c ls' c' ∧ (∀ lab ∈ ls', lab.by? = some i) ∧
      (c'.party i).status = .done (Controller.respond settings (reqs i) c.world.revokedSerials
        c.world.clock c.world.db).1 := by
  have hparty := Controller.serving_unmoved h hi
  have hst : (c.party i).status = .running (Controller.app settings (reqs i)) := by rw [hparty]
  rcases hrun : controller.run i (Controller.app settings (reqs i)) (c.party i).loc c.world
    with ⟨r, l, w⟩
  obtain ⟨ls', c', hs, hby, hdone, -, -⟩ := run_alone hst hrun
  refine ⟨ls', c', hs, fun lab hlab => (hby lab hlab).1, ?_⟩
  obtain ⟨w', hw', -⟩ := Controller.handle_respond settings i (reqs i) htx
  unfold Controller.handle at hw'
  rw [hparty] at hrun
  rw [hrun] at hw'
  rw [hdone, (Prod.mk.inj hw').1]

end

/-! ## At the agent -/

variable {A : Type} [DecidableEq A] {d : Deployment A} {ls : d.Trace} {n : d.State} {a : A} {i : Rid}

/-- A request that has moved has been sent, or is another client's. -/
theorem moved_sent (h : d.Run ls n) {lab : Label Controller.Call Controller.Ans Exc Rid Env}
    (hlab : lab ∈ served ls) (hby : lab.by? = some i) : d.foreign i ∨ i ∈ n.sent.map Prod.snd := by
  by_contra hno
  obtain ⟨hours, hunsent⟩ := not_or.mp hno
  exact h.unsent hours hunsent lab hlab hby

/-- Whoever holds the lock can come to its end, and then it is free. -/
theorem frees_lock (h : d.Run ls n) : ∃ ls' s, NetSteps d.link controller n ls' { n with server := s } ∧
    s.world.tx = none ∧ s.world.revokedSerials = n.server.world.revokedSerials := by
  rcases htx : n.server.world.tx with _ | t
  · exact ⟨[], n.server, .refl n, htx, rfl⟩
  · have hrun := run_server h
    obtain ⟨p, hp⟩ := Controller.serving_owner Controller.World.start_fresh hrun t htx
    have halone : Alone t.owner n.server.world := by
      intro t' ht'
      rw [Option.some.inj (ht'.symm.trans htx)]
    obtain ⟨labs, s, hs, hby, -, hfree, -⟩ := halone.finish hp
    -- it has flushed, so it has come to the controller
    obtain ⟨ids, hflush⟩ := Controller.serving_tx Controller.World.start_fresh hrun htx
    have hsent := moved_sent h hflush rfl
    refine ⟨labs.map .serve, s, .serve hs fun lab hlab j hj => ?_, hfree, ?_⟩
    · obtain rfl : j = t.owner := Option.some.inj (hj.symm.trans (hby lab hlab).1)
      exact hsent
    · refine revoked_unmoved hrun hs fun lab hlab hnone => ?_
      rw [(hby lab hlab).1] at hnone
      exact absurd hnone (by simp)

/-- **Trying again is right**: from every state in which a member is about to
register, however its earlier attempts went and whoever holds the lock, it can
come to be told 201 or 409, and its row is there. The body it posts is a
`NodeCreate`, which says that the member's settings keep the length limits; a
longer one is answered 422 each time. -/
theorem registration_converges (payload : NodeCreate) {identity : MTLSIdentity}
    {f : LoopAns (.client (.post (.registerNode (some payload.toNodeBase)))) → Agent.Loop Unit}
    (h : d.Run ls n)
    (hp : (n.client a).prog = .call (.client (.post (.registerNode (some payload.toNodeBase)))) f)
    (hw : (n.client a).waiting = none)
    (hc : d.link.Carries a (.registerNode (some payload.toNodeBase)) i) (hours : ¬ d.foreign i)
    (hnew : i ∉ n.sent.map Prod.snd)
    (hid : identityOf d.settings (d.cert a).headers = .ok identity)
    (hmay : mayRegister identity payload.toNodeBase = true)
    (hlive : revokedSerial n.server.world.revokedSerials identity = none) :
    ∃ ls' n' status, NetSteps d.link controller n ls' n' ∧ (status = 201 ∨ status = 409) ∧
      (n'.client a).prog = f (.ok status) ∧
      ∃ row ∈ n'.server.world.db.nodes.rows, row.nodeId = payload.nodeId := by
  have hbrought := brought_of_carries hc
  have hreq : (d.reqs i).endpoint = .registerNode (some payload.toNodeBase) :=
    Addressed.endpoint (show Addressed (.registerNode _) from trivial) hc
  rw [← hbrought.headers] at hid
  -- the holder of the lock comes to its end, and then the request is sent
  obtain ⟨ls₁, s, hfree, htx, hrevoked⟩ := frees_lock h
  have hsend : NetStep d.link controller { n with server := s } (.send a i) _ :=
    .send hp rfl hw hc hours hnew
  have hsent := (h.trans hfree).snoc hsend
  -- it runs alone
  have hunmoved := (h.trans hfree).unsent hours hnew
  obtain ⟨labs, s', hrun, hby, hd⟩ := runs_alone (run_server (h.trans hfree)) htx hunmoved
  have hserve := NetSteps.serve (N := d.link) (n := Net.send { n with server := s } a i) hrun
    fun lab hlab j hj => by
      obtain rfl : j = i := Option.some.inj (hj.symm.trans (hby lab hlab))
      exact .inr (List.mem_map.mpr ⟨(a, j), List.mem_append_right _ (List.mem_singleton_self _), rfl⟩)
  have hall := hsent.trans hserve
  generalize hr : (Controller.respond d.settings (d.reqs i) s.world.revokedSerials s.world.clock
    s.world.db).1 = r at hd
  have hstatus : statusOf r = 201 ∨ statusOf r = 409 := by
    rw [← hr, respond_registers hreq hid (hrevoked ▸ hlive) hmay]
    split
    · exact .inr rfl
    · exact .inl rfl
  -- and is answered
  have hwait : ((Net.send { n with server := s } a i).client a).waiting = some i := by
    rw [Net.send_self]
  have hprog : ((Net.send { n with server := s } a i).client a).prog
      = .call (.client (.post (.registerNode (some payload.toNodeBase)))) f := by
    rw [Net.send_self]
    exact hp
  have hreply : NetStep d.link controller { Net.send { n with server := s } a i with server := s' }
      (.reply a i ⟨.client (.post (.registerNode (some payload.toNodeBase))),
        .ok (.ok (statusOf r) : Except Agent.Raised ℕ)⟩)
      (Net.resume _ a (f (.ok (statusOf r)))) :=
    .reply hprog hwait hd rfl
  have hknown := Controller.serving_known Controller.World.start_fresh (run_server hall) hreq hd
    (by omega)
  obtain ⟨payload', hauth, row, hrow, hrid⟩ := hknown
  have hbase : payload'.toNodeBase = payload.toNodeBase :=
    Option.some.inj (Endpoint.registerNode.inj (hauth.1.symm.trans hreq))
  have hend := (hfree.snoc hsend).trans (hserve.snoc hreply)
  refine ⟨_, _, statusOf r, hend, hstatus, ?_, row, hrow, ?_⟩
  · rw [Net.resume_self]
  · rw [hrid, hbase]

/-- The node registers, the answer is lost, and it tries again. -/
theorem pi_tries_again : ∃ ls n f ls' n' status, pi.Run ls n ∧
    (∃ row ∈ n.server.world.db.nodes.rows, row.nodeId = "pi-01") ∧
    (n.client ()).prog
      = .call (.client (.post (.registerNode (some (registration {} "10.50.20.11"))))) f ∧
    NetSteps pi.link controller n ls' n' ∧ (status = 201 ∨ status = 409) ∧
    (n'.client ()).prog = f (.ok status) ∧
    ∃ row ∈ n'.server.world.db.nodes.rows, row.nodeId = "pi-01" := by
  have h := (NetSteps.refl (N := pi.link) (M := controller) pi.start).snoc
    (.own (k := ()) (.ok "10.50.20.11" : Except Agent.Raised String) rfl rfl)
  have h := h.snoc (.send (k := ()) (i := 0) rfl rfl rfl (pi_registers rfl) id
    (by simp [Net.resume, Deployment.start]))
  have h := h.trans (.serve (controller.play_steps (List.replicate 15 0) _)
    (schedule_sent (List.mem_singleton_self _)))
  have h := h.snoc (.lost (k := ()) (x := (.error (.http (.transport "timed out")) :
    Except Agent.Raised ℕ)) rfl rfl fun status he => by cases he)
  have h := h.snoc (.own (k := ()) () rfl rfl)
  have h := h.snoc (.own (k := ()) () rfl rfl)
  have h := h.snoc (.own (k := ()) (.ok "10.50.20.11" : Except Agent.Raised String) rfl rfl)
  let payload : NodeCreate := ⟨registration {} "10.50.20.11", by decide⟩
  have hid : identityOf pi.settings (pi.cert ()).headers
      = .ok ⟨"pi-01.thesis.local", "CN=pi-01.thesis.local", true, some 42⟩ := by
    decide +kernel
  obtain ⟨ls', n', status, hsteps, hstatus, hprog, hrow⟩ := registration_converges payload h rfl rfl
    (pi_registers (i := 2) rfl) id (by decide) hid (by decide) (by decide +kernel)
  refine ⟨_, _, _, ls', n', status, h, ?_, rfl, hsteps, hstatus, hprog, hrow⟩
  show ∃ row ∈ piServer₁.world.db.nodes.rows, row.nodeId = "pi-01"
  decide +kernel

/-! ## Once -/

/-- How often the audit table says that the node was registered. -/
def registrations (db : Controller.Database) (nodeId : String) : ℕ :=
  (db.events.rows.filter Controller.isRegistration).countP fun e =>
    decide (e.target = some ("node:" ++ nodeId))

/-- As often as it is stored. -/
theorem registrations_eq {db : Controller.Database} (h : Controller.Registrations db)
    (nodeId : String) : registrations db nodeId = (db.node? nodeId).toList.length := by
  have hcount : ∀ {rows : List Controller.Node} {es : List Controller.AuditEvent},
      List.Forall₂ Controller.Names rows es →
      (es.countP fun e => decide (e.target = some ("node:" ++ nodeId)))
        = rows.countP fun r => decide (r.nodeId = nodeId) := by
    intro rows es hnames
    induction hnames with
    | nil => rfl
    | @cons r e rows es hname _ ih =>
      have htarget : e.target = some ("node:" ++ r.nodeId) := hname
      have hsame : decide (e.target = some ("node:" ++ nodeId)) = decide (r.nodeId = nodeId) := by
        rw [htarget]
        refine decide_eq_decide.mpr ⟨fun he => ?_, fun he => by rw [he]⟩
        exact (String.append_right_inj _).mp (Option.some.inj he)
      rw [List.countP_cons, List.countP_cons, ih, hsame]
  unfold registrations
  rw [hcount h, List.countP_eq_length_filter]
  exact congrArg List.length (db.nodes.filter_key nodeId)

/-- **A node is registered once**: whatever was sent again, by whomever and in
which order, the audit table never says it twice, and when a member has been
told it says it. -/
theorem registered_once (h : d.Run ls n) :
    (∀ nodeId, registrations n.server.world.db nodeId ≤ 1) ∧
      ∀ a, Agent.Registered (d.loop a) (history a ls) →
        registrations n.server.world.db (d.loop a).nodeId = 1 := by
  have hregs : Controller.Registrations n.server.world.db :=
    Controller.serving_registrations Controller.World.start_fresh .nil (run_server h)
  constructor
  · intro nodeId
    rw [registrations_eq hregs]
    exact Option.length_toList_le
  · intro a hr
    obtain ⟨-, -, -, -, -, row, hrow, hid⟩ := registered_row h hr
    rw [registrations_eq hregs, ← hid, Controller.Database.node?_of_mem hrow]
    rfl

/-- The node was told before it sent its first heartbeat. -/
theorem pi_once : ∃ ls n, pi.Run ls n ∧ registrations n.server.world.db "pi-01" = 1 := by
  obtain ⟨ls, n, h, hi, -⟩ := pi_run
  obtain ⟨front, m, back, -, hfront, -, -, -, hspeaks⟩ := sent_endpoint pi_segment h hi
  obtain ⟨-, -, hr⟩ := hspeaks
  exact ⟨front, m, hfront, (registered_once hfront).2 () hr⟩

end ZeroTrustLab.System
