import ZeroTrustLab.Controller.Rules

/-!
# How a request can end

`Outcome` lists every way a request ends: its result, together with what it
has committed by then. Nothing is committed unless the list says so, and a
result that promises a committed row comes with it. `app_does` is the one
lemma about the whole of `app`; the results about concurrent requests all
start from it.

`Answered` is the part behind `MTLSIdentityDep`, one constructor for
each way through an endpoint body. Its premises name the answers the request
was given (`⟨.selectNode nodeId, .ok [row]⟩ ∈ h`), which is how an outcome is
tied to the moment in the run when the request looked.

`F₀` is what is known when the request starts. A constructor that depends on
the rows found says so of a moment at which `F₀` held, so whoever knows
something about the rows beforehand can use it.

The proof walks down the source once for each endpoint, by the rules of
`Rules`, and it is the only place where the bodies of the endpoints are taken
apart for interleaved runs. A request can also end in the middle, when the
database refuses a call; that end is part of the list too, with nothing
committed by the call that failed.
-/

namespace ZeroTrustLab.Controller

open Lib

/-- The identity was extracted and its certificate found live. -/
structure Passed (settings : Settings) (headers : Headers) (h : History) (identity : MTLSIdentity) :
    Prop where
  extracted : identityOf settings headers = .ok identity
  live : ∀ serial, identity.serial = some serial → ⟨.isRevoked serial, .ok false⟩ ∈ h

def Fact.passed (settings : Settings) (headers : Headers) (identity : MTLSIdentity) : Fact :=
  ⟨fun h _ => Passed settings headers h identity,
    fun hp hh _ => ⟨hp.extracted, fun s hs => hh.subset (hp.live s hs)⟩⟩

/-- The routes that only read. -/
def Endpoint.reads : Endpoint → Bool
  | .registerNode _ => false
  | .heartbeat _ _ => false
  | _ => true

/-- The ways through an endpoint body. -/
inductive Answered (settings : Settings) (req : Request) (identity : MTLSIdentity) (F₀ : Fact)
    (h : History) (d : Database) : Except Exc Response → List (List Write) → Prop where
  /-- The parameters or the body failed validation. -/
  | invalid {fields : List String}
      (hreg : ∀ payload : NodeCreate, req.endpoint ≠ .registerNode (some payload.toNodeBase))
      (hbeat : ∀ nodeId body, req.endpoint ≠ .heartbeat nodeId (some body)) :
      Answered settings req identity F₀ h d (.error (.validation fields)) []
  | read {r : Except Exc Response} (hreq : req.endpoint.reads = true)
      (hr : (∃ body, r = .ok ⟨200, body⟩) ∨ r = .error .responseValidation ∨
        ∃ detail, r = .error (.http 404 detail)) :
      Answered settings req identity F₀ h d r []
  | registerForbidden {payload : NodeCreate} {ws : List Write}
      (hreq : req.endpoint = .registerNode (some payload.toNodeBase))
      (hmay : mayRegister identity payload.toNodeBase = false)
      (ht : Txn settings req .registerForbidden ws) :
      Answered settings req identity F₀ h d
        (.error (.http 403 "Cannot register a node on behalf of another identity")) [ws]
  | duplicate {payload : NodeCreate} {row : Node}
      (hreq : req.endpoint = .registerNode (some payload.toNodeBase))
      (hmay : mayRegister identity payload.toNodeBase = true)
      (hsel : ⟨.selectNode payload.nodeId, .ok [row]⟩ ∈ h) (hrow : row.nodeId = payload.nodeId)
      (hst : Stored d row) :
      Answered settings req identity F₀ h d
        (.error (.http 409 ("Node '" ++ payload.nodeId ++ "' is already registered"))) []
  /-- Nobody had the `node_id` when the request looked, and somebody had it
  when it inserted. -/
  | clash {payload : NodeCreate} (hreq : req.endpoint = .registerNode (some payload.toNodeBase))
      (hmay : mayRegister identity payload.toNodeBase = true)
      (hsel : ⟨.selectNode payload.nodeId, .ok []⟩ ∈ h) (hflush : ⟨.flush, .error .integrity⟩ ∈ h)
      (htaken : ∃ r ∈ d.nodes.rows, r.nodeId = payload.nodeId) :
      Answered settings req identity F₀ h d (.error .integrity) []
  | registered {payload : NodeCreate} {ws : List Write} {n : Node}
      (hreq : req.endpoint = .registerNode (some payload.toNodeBase))
      (hmay : mayRegister identity payload.toNodeBase = true)
      (hsel : ⟨.selectNode payload.nodeId, .ok []⟩ ∈ h) (ht : Txn settings req .registered ws)
      (hn : ∃ row, .insertNode row ∈ ws ∧ Kept row n) :
      Answered settings req identity F₀ h d (.ok ⟨201, .node n⟩) [ws]
  /-- Registered, and then reading the row back failed. -/
  | unread {payload : NodeCreate} {ws : List Write} {id : Option Nat}
      (hreq : req.endpoint = .registerNode (some payload.toNodeBase))
      (hmay : mayRegister identity payload.toNodeBase = true)
      (hsel : ⟨.selectNode payload.nodeId, .ok []⟩ ∈ h) (ht : Txn settings req .registered ws)
      (hr : ⟨.refresh id, .error (.database .refresh)⟩ ∈ h) :
      Answered settings req identity F₀ h d (.error (.database .refresh)) [ws]
  | missing {nodeId : String} {body : NodeHeartbeat}
      (hreq : req.endpoint = .heartbeat nodeId (some body))
      (hwhen : ∃ h' d', F₀.holds h' d' ∧ ∀ r ∈ d'.nodes.rows, r.nodeId ≠ nodeId) :
      Answered settings req identity F₀ h d
        (.error (.http 404 ("Node '" ++ nodeId ++ "' not found"))) []
  | heartbeatForbidden {nodeId : String} {body : NodeHeartbeat} {loaded : Node} {ws : List Write}
      (hreq : req.endpoint = .heartbeat nodeId (some body))
      (hwhen : ∃ h' d', F₀.holds h' d' ∧ loaded ∈ d'.nodes.rows) (hid : loaded.nodeId = nodeId)
      (hcn : identity.commonName ≠ loaded.commonName)
      (ht : Txn settings req .heartbeatForbidden ws) :
      Answered settings req identity F₀ h d
        (.error (.http 403 "Cannot heartbeat on behalf of another node")) [ws]
  | beaten {nodeId : String} {body : NodeHeartbeat} {loaded : Node} {ws : List Write}
      {r : Except Exc Response} (hreq : req.endpoint = .heartbeat nodeId (some body))
      (hsel : ⟨.selectNode nodeId, .ok [loaded]⟩ ∈ h)
      (ht : Txn settings req (if loaded.state = .onboarding then .activated else .beaten) ws)
      (hr : (∃ n, r = .ok ⟨200, .node n⟩) ∨ r = .error .responseValidation ∨
        r = .error (.database .refresh) ∧ ∃ id, ⟨.refresh id, .error (.database .refresh)⟩ ∈ h) :
      Answered settings req identity F₀ h d r [ws]

/-- The ways a request can end. -/
inductive Outcome (settings : Settings) (req : Request) (F₀ : Fact) (h : History) (d : Database) :
    Except Exc Response → List (List Write) → Prop where
  /-- The route without an identity. -/
  | health {t : Time} (hreq : req.endpoint.body? = none) :
      Outcome settings req F₀ h d (.ok ⟨200, .health t⟩) []
  | unidentified {e : Exc} (hreq : req.endpoint.body? ≠ none)
      (hid : identityOf settings req.headers = .error e) : Outcome settings req F₀ h d (.error e) []
  | failed {e : Exc} (hf : (Fact.failed e).holds h d) : Outcome settings req F₀ h d (.error e) []
  | revoked {identity : MTLSIdentity} {serial : Int} {ws : List Write}
      (hreq : req.endpoint.body? ≠ none)
      (hid : identityOf settings req.headers = .ok identity)
      (hserial : identity.serial = some serial) (hrev : ⟨.isRevoked serial, .ok true⟩ ∈ h)
      (ht : Txn settings req .revoked ws) :
      Outcome settings req F₀ h d (.error (.http 403 revokedDetail)) [ws]
  | answered {identity : MTLSIdentity} {r : Except Exc Response} {own : List (List Write)}
      (hp : Passed settings req.headers h identity)
      (ha : Answered settings req identity F₀ h d r own) : Outcome settings req F₀ h d r own

/-- What an endpoint body has answered stays so as the history and the database
go on. -/
theorem Answered.mono {settings : Settings} {req : Request} {identity : MTLSIdentity} {F₀ : Fact}
    {h h' : History} {d d' : Database} {r : Except Exc Response} {own : List (List Write)}
    (ha : Answered settings req identity F₀ h d r own) (hh : h <+: h') (he : Evolves d d') :
    Answered settings req identity F₀ h' d' r own := by
  cases ha with
  | invalid hreg hbeat => exact .invalid hreg hbeat
  | read hreq hr => exact .read hreq hr
  | registerForbidden hreq hmay ht => exact .registerForbidden hreq hmay ht
  | duplicate hreq hmay hsel hrow hst =>
    exact .duplicate hreq hmay (hh.subset hsel) hrow (hst.evolves he)
  | clash hreq hmay hsel hflush htaken =>
    obtain ⟨r, hr, hid⟩ := htaken
    obtain ⟨r', hr', hk⟩ := he r hr
    exact .clash hreq hmay (hh.subset hsel) (hh.subset hflush) ⟨r', hr', hk.nodeId.trans hid⟩
  | registered hreq hmay hsel ht hn => exact .registered hreq hmay (hh.subset hsel) ht hn
  | unread hreq hmay hsel ht hr => exact .unread hreq hmay (hh.subset hsel) ht (hh.subset hr)
  | missing hreq hwhen => exact .missing hreq hwhen
  | heartbeatForbidden hreq hwhen hid hcn ht => exact .heartbeatForbidden hreq hwhen hid hcn ht
  | beaten hreq hsel ht hr =>
    refine .beaten hreq (hh.subset hsel) ht ?_
    rcases hr with hok | hval | ⟨href, id, hid⟩
    · exact .inl hok
    · exact .inr (.inl hval)
    · exact .inr (.inr ⟨href, id, hh.subset hid⟩)

/-- What a request has come to stays so as the history and the database go
on. -/
theorem Outcome.mono {settings : Settings} {req : Request} {F₀ : Fact} {h h' : History}
    {d d' : Database} {r : Except Exc Response} {own : List (List Write)}
    (ho : Outcome settings req F₀ h d r own) (hh : h <+: h') (he : Evolves d d') :
    Outcome settings req F₀ h' d' r own := by
  cases ho with
  | health hreq => exact .health hreq
  | unidentified hreq hid => exact .unidentified hreq hid
  | @failed e hf => exact .failed ((Fact.failed e).mono hf hh he)
  | revoked hreq hid hserial hrev ht => exact .revoked hreq hid hserial (hh.subset hrev) ht
  | answered hp ha =>
    exact .answered ⟨hp.extracted, fun s hs => hh.subset (hp.live s hs)⟩ (ha.mono hh he)

/-! ## The proof, down the source -/

def Fact.outcome (settings : Settings) (req : Request) (F₀ : Fact) (r : Except Exc Response)
    (own : List (List Write)) : Fact :=
  ⟨fun h d => Outcome settings req F₀ h d r own, Outcome.mono⟩

/-- The code has come to `r`, and that is one of the ways. -/
def Finished (settings : Settings) (req : Request) (F₀ : Fact) (i : Rid)
    (r : Except Exc Response) : Assn Call Ans Exc Session World :=
  fun h l w => ∃ own, At i own [] [] (.outcome settings req F₀ r own) h l w

variable {settings : Settings} {req : Request} {i : Rid} {F₀ F : Fact} {identity : MTLSIdentity}

/-- With nothing pending, a request that is finished has covered all its
writes. -/
theorem covers_finished : Covers i [] F (Finished settings req F₀ i) := by
  intro e _ h l w ha
  exact ⟨[], ha.weaken fun hf => Outcome.failed hf.2⟩

theorem harmless_nil : ∀ p ∈ ([] : List Pending), p.Harmless := by simp

/-- An audit row can be written to any database. -/
theorem grounded_event (e : AuditEvent) (d : Database) : Grounded d [.insertEvent e] := by
  intro loaded current hmem
  simp at hmem

/-- What `MTLSIdentityDep` leaves: an identity found live, or the end. -/
def GateEnds (settings : Settings) (req : Request) (F₀ : Fact) (i : Rid) :
    Except Exc MTLSIdentity → Assn Call Ans Exc Session World
  | .ok identity => At i [] [] [] (F₀.and (.passed settings req.headers identity))
  | .error e => Finished settings req F₀ i (.error e)

/-- The identity dependency, as a triple: it comes to an identity, or to a
rejection. -/
theorem mtlsIdentityDep_does (hreq : req.endpoint.body? ≠ none) :
    Does settings req i (At i [] [] [] F₀) (mtlsIdentityDep settings req.headers)
      (GateEnds settings req F₀ i) := by
  have hcov : ∀ {F : Fact}, Covers i [] F (GateEnds settings req F₀ i) := fun {F} e hb h l w ha =>
    covers_finished e hb h l w ha
  unfold mtlsIdentityDep
  refine Triple.bind (R := fun r h l w => r = identityOf settings req.headers ∧
    At i [] [] [] F₀ h l w) ?_ ?_ ?_
  · exact notes_rule (notes_getMtlsIdentity settings req.headers) fun _ _ _ ha => ⟨rfl, ha⟩
  · rintro identity h l w ⟨hid, ha⟩
    unfold requireLiveIdentity
    rcases hs : identity.serial with _ | serial
    · exact ha.weaken fun hf => ⟨hf, hid.symm, by simp [hs]⟩
    · refine read_rule (G := fun b => F₀.and (.saw ⟨.isRevoked serial, .ok b⟩)) rfl ?_ hcov ?_ h l w ha
      · intro b h l w ha _
        exact ⟨F₀.mono ha.fact (List.prefix_append _ _) (.refl _), Fact.saw_concat _ _ _⟩
      · intro b
        cases b with
        | false =>
          show Does settings req i _ (Pure.pure identity) _
          intro h l w ha
          refine ha.weaken fun hf => ⟨hf.1, hid.symm, fun n hn => ?_⟩
          obtain rfl : serial = n := Option.some.inj (hs.symm.trans hn)
          exact hf.2
        | true =>
          refine note_rule (recordEvent_rule harmless_nil hcov fun _ ws k t hws => ?_)
          cases hws
          have ht : Txn settings req .revoked _ := .revoked t k hid.symm hs
          refine commitSent_rule .nothing ht (by simp) (fun _ d _ => grounded_event _ d)
            (fun _ _ _ _ _ => trivial) hcov ?_
          exact note_rule (Triple.throw fun _ _ _ ha =>
            ⟨_, ha.weaken fun hf => .revoked hreq hid.symm hs hf.1.2 ht⟩)
  · rintro e h l w ⟨hid, ha⟩
    exact ⟨[], ha.weaken fun _ => .unidentified hreq hid.symm⟩

/-- A rejection recorded, committed and raised. -/
theorem reject_does {α : Type} {actorCn : String} {target : Option String}
    {details : Option Details} {kind : TxnKind} {status : Nat} {detail : String}
    {g : α → Handler Response}
    (ht : ∀ t k, Txn settings req kind [.insertEvent (Record.setPk k
      { timestamp := t, actorCn := actorCn, action := .authFailure, target := target,
        result := .rejected, details := details })])
    (hend : ∀ h d ws, F.holds h d → Txn settings req kind ws →
      Outcome settings req F₀ h d (.error (.http status detail)) [ws]) :
    Does settings req i (At i [] [] [] F)
      ((do
        let _ ← recordEvent actorCn .authFailure target .rejected details
        ask .commit
        raiseHttp status detail) >>= g)
      (Finished settings req F₀ i) := by
  rw [Prog.bind_assoc]
  refine recordEvent_rule harmless_nil covers_finished fun _ ws k t hws => ?_
  cases hws
  refine commitSent_rule .nothing (ht t k) (by simp) (fun _ d _ => grounded_event _ d)
    (fun _ _ _ _ _ => trivial) covers_finished ?_
  exact Triple.throw fun h l w ha => ⟨_, ha.weaken fun hf => hend h w.db _ hf.1 (ht t k)⟩

/-- What keeps of a row decides whether its fields are too long. -/
theorem tooLong_kept {r r' : Node} (h : Kept r r') : r'.tooLong = r.tooLong := by
  unfold NodeBase.tooLong NodeBase.limits
  rw [h.nodeId, h.commonName, h.role, h.ipAddress, h.notes]

/-- A registration, as a triple: it comes to one of its answers. -/
theorem registerNode_does {payload : NodeCreate}
    (hreq : req.endpoint = .registerNode (some payload.toNodeBase)) :
    Does settings req i (At i [] [] [] (F₀.and (.passed settings req.headers identity)))
      (registerNode payload identity >>= respondNode 201) (Finished settings req F₀ i) := by
  unfold registerNode
  by_cases hmay : mayRegister identity payload.toNodeBase = false
  · rw [if_pos hmay]
    intro h l w ha
    have hid := ha.fact.2.extracted
    exact reject_does (F := F₀.and (.passed settings req.headers identity))
      (fun t k => .registerForbidden t k hid hreq hmay)
      (fun _ _ _ hf ht => .answered hf.2 (.registerForbidden hreq hmay ht)) h l w ha
  · rw [if_neg hmay]
    have hmay : mayRegister identity payload.toNodeBase = true := by simpa using hmay
    refine selectNode_rule covers_finished (fun _ => ?_) fun row hrow _ => ?_
    · refine skip_rule rfl covers_finished fun createdAt =>
        skip_rule rfl covers_finished fun updatedAt => add_rule ?_
      -- the flush may clash with a `node_id` that another request has committed meanwhile
      refine flushNode_rule covers_finished ?_ fun id => ?_
      · intro h l w ha hflush htaken
        exact ⟨[], ha.weaken fun hf => .answered hf.1.2 (.clash hreq hmay hf.2 hflush htaken)⟩
      · show Does settings req i _ ((recordEvent _ _ _ _ _ >>= _) >>= respondNode 201) _
        rw [Prog.bind_assoc]
        refine recordEvent_rule harmless_nil covers_finished fun _ ws k t hws => ?_
        cases hws
        intro h l w ha
        have hid := ha.fact.1.2.extracted
        have ht : Txn settings req .registered _ :=
          .registered createdAt updatedAt t id k hid hreq hmay
        let row : Node := Record.setPk id (newNode payload.toNodeBase createdAt updatedAt)
        -- behind the commit the row is stored and stays so
        refine commitSent_rule (.stored row) ht (by simp) ?_ ?_ covers_finished ?_ h l w ha
        · intro _ d _ loaded current hmem
          simp at hmem
        · intro _ d d' _ happly
          refine ⟨row, ?_, .refl row⟩
          rw [(Database.applyAll_rows happly).1]
          exact List.mem_append_right _ (List.mem_singleton_self row)
        · refine refresh_rule row rfl (fun _ _ hf => hf.2) ?_ fun n hn => ?_
          · intro h l w ha hrefresh
            exact ⟨_, ha.weaken fun hf =>
              .answered hf.1.1.2 (.unread hreq hmay hf.1.2 ht hrefresh)⟩
          · have hok : NodeRead.ok n = true := by
              unfold NodeRead.ok
              rw [hn.id, tooLong_kept hn]
              simp [row, newNode, Record.setPk, payload.within]
            show Does settings req i _ (if NodeRead.ok n then _ else _) _
            rw [if_pos hok]
            exact Triple.pure fun h l w ha => ⟨_, ha.weaken fun hf =>
              .answered hf.1.1.2 (.registered hreq hmay hf.1.2 ht ⟨row, by simp [row], hn⟩)⟩
    · exact note_rule (Triple.throw fun h l w ha => ⟨[], ha.weaken fun hf =>
        .answered hf.1.1.2 (.duplicate hreq hmay hf.1.2 hrow hf.2)⟩)

/-- A heartbeat's answer, once it is committed. -/
private theorem beaten_ends {nodeId : String} {body : NodeHeartbeat} (loaded : Node)
    {ws : List Write} (hreq : req.endpoint = .heartbeat nodeId (some body))
    (ht : Txn settings req (if loaded.state = .onboarding then .activated else .beaten) ws)
    (hF : ∀ h d, F.holds h d → Passed settings req.headers h identity ∧
      ⟨.selectNode nodeId, .ok [loaded]⟩ ∈ h ∧ Stored d loaded) :
    Does settings req i (At i [ws] [] [] F)
      (ask (.refresh loaded.id) >>= respondNode 200) (Finished settings req F₀ i) := by
  refine refresh_rule loaded rfl (fun h d hf => (hF h d hf).2.2) ?_ fun n _ => ?_
  · intro h l w ha hrefresh
    refine ⟨_, ha.weaken fun hf => ?_⟩
    obtain ⟨hp, hsel, -⟩ := hF h w.db hf
    exact .answered hp (.beaten hreq hsel ht (.inr (.inr ⟨rfl, _, hrefresh⟩)))
  · show Does settings req i _ (if NodeRead.ok n then _ else _) _
    by_cases hok : NodeRead.ok n = true
    · rw [if_pos hok]
      refine Triple.pure fun h l w ha => ⟨_, ha.weaken fun hf => ?_⟩
      obtain ⟨hp, hsel, -⟩ := hF h w.db hf
      exact .answered hp (.beaten hreq hsel ht (.inl ⟨n, rfl⟩))
    · rw [if_neg hok]
      refine Triple.throw fun h l w ha => ⟨_, ha.weaken fun hf => ?_⟩
      obtain ⟨hp, hsel, -⟩ := hF h w.db hf
      exact .answered hp (.beaten hreq hsel ht (.inr (.inl rfl)))

/-- A heartbeat, as a triple: it comes to one of its answers. -/
theorem heartbeat_does {nodeId : String} {body : NodeHeartbeat}
    (hreq : req.endpoint = .heartbeat nodeId (some body)) :
    Does settings req i (At i [] [] [] (F₀.and (.passed settings req.headers identity)))
      (heartbeat nodeId body identity >>= respondNode 200) (Finished settings req F₀ i) := by
  unfold heartbeat
  refine selectNode_rule covers_finished (fun hwhen => ?_) fun loaded hid hwhen => ?_
  · obtain ⟨h', d', hf', hnone⟩ := hwhen
    exact Triple.throw fun h l w ha => ⟨[], ha.weaken fun hf =>
      .answered hf.1.2 (.missing hreq ⟨h', d', hf'.1, hnone⟩)⟩
  · obtain ⟨h', d', hf', hmem⟩ := hwhen
    subst hid
    intro h l w ha
    have hextracted := ha.fact.1.1.2.extracted
    revert h l w ha
    show Does settings req i _ ((if identity.commonName ≠ loaded.commonName then _ else _) >>= _) _
    -- the row's CN decides between the audited 403 and the update
    by_cases hcn : identity.commonName ≠ loaded.commonName
    · rw [if_pos hcn]
      exact reject_does (fun t k => .heartbeatForbidden t k hextracted hreq)
        fun _ _ _ hf ht => .answered hf.1.1.2
          (.heartbeatForbidden hreq ⟨h', d', hf'.1, hmem⟩ rfl hcn ht)
    · rw [if_neg hcn]
      have hcn : identity.commonName = loaded.commonName := not_not.mp hcn
      refine skip_rule rfl covers_finished fun now => add_rule ?_
      have hdirty : ∀ p ∈ [Pending.dirty loaded (loaded.beaten now)], p.Harmless := by
        intro p hp
        rw [List.mem_singleton.mp hp]
        exact rfl
      have hsent : ∀ {ws : List Write}, List.Forall₂ Sends [.dirty loaded (loaded.beaten now)] ws →
          ws = [.updateNode loaded (loaded.beaten now)] := by
        intro ws hs
        cases hs with
        | cons hsend hnil =>
          obtain ⟨_, rfl⟩ := hsend
          cases hnil
          rfl
      show Does settings req i _
        ((if (loaded.state == .onboarding) = true then _ else _) >>= respondNode 200) _
      by_cases ho : loaded.state = .onboarding
      · -- the first heartbeat: the audit row is sent after the update
        rw [if_pos (by simp [ho]), Prog.bind_assoc]
        refine recordEvent_rule hdirty covers_finished fun _ ws k t hws => ?_
        obtain rfl := hsent hws
        have ht : Txn settings req .activated _ :=
          .activated loaded now t k hextracted hreq hcn ho
        refine commitSent_rule .nothing ht (by simp) ?_ (fun _ _ _ _ _ => trivial)
          covers_finished ?_
        · intro _ d hf loaded' current hmem
          obtain ⟨rfl, -⟩ : loaded' = loaded ∧ current = loaded.beaten now := by simpa using hmem
          exact hf.2
        · exact beaten_ends loaded hreq (by rw [if_pos ho]; exact ht)
            fun _ _ hf => ⟨hf.1.1.1.2, hf.1.1.2, hf.1.2⟩
      · -- a later heartbeat: only the row is updated
        rw [if_neg (by simp [ho])]
        refine note_rule (commit_rule .nothing (.inl (by simp)) hdirty ?_ ?_
          (fun _ _ _ _ _ _ _ => trivial) covers_finished fun ws hws => ?_)
        · intro ws hws
          obtain rfl := hsent hws
          exact ⟨_, .beaten loaded now hextracted hreq hcn ho⟩
        · intro ws _ d hws hf loaded' current hmem
          obtain rfl := hsent hws
          obtain ⟨rfl, -⟩ : loaded' = loaded ∧ current = loaded.beaten now := by simpa using hmem
          exact hf.2
        · obtain rfl := hsent hws
          have ht : Txn settings req .beaten _ := .beaten loaded now hextracted hreq hcn ho
          exact beaten_ends loaded hreq (by rw [if_neg ho]; exact ht)
            fun _ _ hf => ⟨hf.1.1.1.2, hf.1.1.2, hf.1.2⟩

/-- The routes that only read commit nothing. -/
theorem reads_does {body : MTLSIdentity → Handler Response} (hread : req.endpoint.reads = true)
    (hbody : req.endpoint.body? = some body) :
    Does settings req i (At i [] [] [] (F₀.and (.passed settings req.headers identity)))
      (body identity) (Finished settings req F₀ i) := by
  -- a read writes nothing; it ends in a 200, a 404 or a row too long for its schema
  have hend : ∀ {F : Fact} {r : Except Exc Response} {h l w},
      At i [] [] [] F h l w → (F.holds h w.db → Passed settings req.headers h identity) →
      ((∃ body, r = .ok ⟨200, body⟩) ∨ r = .error .responseValidation ∨
        ∃ detail, r = .error (.http 404 detail)) → Finished settings req F₀ i r h l w :=
    fun ha hp hr => ⟨[], ha.weaken fun hf => .answered (hp hf) (.read hread hr)⟩
  cases hep : req.endpoint with
  | health => simp [hep, Endpoint.body?] at hbody
  | registerNode b => simp [hep, Endpoint.reads] at hread
  | heartbeat nodeId b => simp [hep, Endpoint.reads] at hread
  | whoami =>
    obtain rfl := Option.some.inj ((congrArg Endpoint.body? hep).symm.trans hbody)
    exact Triple.pure fun _ _ _ ha => hend ha (fun hf => hf.2) (.inl ⟨_, rfl⟩)
  | listNodes =>
    obtain rfl := Option.some.inj ((congrArg Endpoint.body? hep).symm.trans hbody)
    refine skip_rule rfl covers_finished fun ns => note_rule ?_
    show Does settings req i _ (if ns.all NodeRead.ok then _ else _) _
    split
    next => exact Triple.pure fun _ _ _ ha => hend ha (fun hf => hf.2) (.inl ⟨_, rfl⟩)
    next => exact Triple.throw fun _ _ _ ha => hend ha (fun hf => hf.2) (.inr (.inl rfl))
  | getNode nodeId =>
    obtain rfl := Option.some.inj ((congrArg Endpoint.body? hep).symm.trans hbody)
    refine selectNode_rule covers_finished (fun _ => ?_) fun row _ _ => ?_
    · exact Triple.throw fun _ _ _ ha => hend ha (fun hf => hf.1.2) (.inr (.inr ⟨_, rfl⟩))
    · show Does settings req i _ (if NodeRead.ok row then _ else _) _
      split
      next => exact Triple.pure fun _ _ _ ha => hend ha (fun hf => hf.1.1.2) (.inl ⟨_, rfl⟩)
      next => exact Triple.throw fun _ _ _ ha => hend ha (fun hf => hf.1.1.2) (.inr (.inl rfl))
  | listAuditEvents limit offset actorCn action result =>
    obtain rfl := Option.some.inj ((congrArg Endpoint.body? hep).symm.trans hbody)
    dsimp only
    split
    next =>
      exact Triple.throw fun _ _ _ ha => ⟨[], ha.weaken fun hf =>
        .answered hf.2 (.invalid (by simp [hep]) (by simp [hep]))⟩
    next =>
      refine skip_rule rfl covers_finished fun es => ?_
      show Does settings req i _ (if es.all AuditEventRead.ok then _ else _) _
      split
      next => exact Triple.pure fun _ _ _ ha => hend ha (fun hf => hf.2) (.inl ⟨_, rfl⟩)
      next => exact Triple.throw fun _ _ _ ha => hend ha (fun hf => hf.2) (.inr (.inl rfl))

/-- **Every request** keeps its contract and ends in one of the ways. -/
theorem app_does (settings : Settings) (req : Request) (i : Rid) (F₀ : Fact) :
    Does settings req i (At i [] [] [] F₀) (app settings req) (Finished settings req F₀ i) := by
  unfold app
  rcases hbody : req.endpoint.body? with _ | body
  · exact skip_rule rfl covers_finished fun t => Triple.pure fun _ _ _ ha =>
      ⟨[], ha.weaken fun _ => .health hbody⟩
  · refine Triple.bind (mtlsIdentityDep_does (by simp [hbody])) (fun identity => ?_)
      fun e _ _ _ he => he
    show Does settings req i
      (At i [] [] [] (F₀.and (.passed settings req.headers identity))) (body identity) _
    cases hep : req.endpoint with
    | registerNode b =>
      obtain rfl := Option.some.inj ((congrArg Endpoint.body? hep).symm.trans hbody)
      rcases b with _ | b
      · exact Triple.throw fun _ _ _ ha => ⟨[], ha.weaken fun hf =>
          .answered hf.2 (.invalid (by simp [hep]) (by simp [hep]))⟩
      · dsimp only
        rcases hv : NodeCreate.validate b with fields | payload
        · refine Triple.throw fun _ _ _ ha => ⟨[], ha.weaken fun hf =>
            .answered hf.2 (.invalid (fun payload he => ?_) (by simp [hep]))⟩
          have hb : some b = some payload.toNodeBase := Endpoint.registerNode.inj (hep.symm.trans he)
          exact NodeCreate.validate_error hv payload (Option.some.inj hb).symm
        · exact registerNode_does (by rw [hep, NodeCreate.validate_ok hv])
    | heartbeat nodeId b =>
      obtain rfl := Option.some.inj ((congrArg Endpoint.body? hep).symm.trans hbody)
      rcases b with _ | b
      · exact Triple.throw fun _ _ _ ha => ⟨[], ha.weaken fun hf =>
          .answered hf.2 (.invalid (by simp [hep]) (by simp [hep]))⟩
      · exact heartbeat_does hep
    | health => exact reads_does (by rw [hep]; rfl) hbody
    | whoami => exact reads_does (by rw [hep]; rfl) hbody
    | listNodes => exact reads_does (by rw [hep]; rfl) hbody
    | getNode nodeId => exact reads_does (by rw [hep]; rfl) hbody
    | listAuditEvents => exact reads_does (by rw [hep]; rfl) hbody

end ZeroTrustLab.Controller
