import ZeroTrustLab.Controller.Ledger
import ZeroTrustLab.Controller.Ownership
import ZeroTrustLab.Controller.Sequential

/-!
# What is written can be read back

`NodeCreate` and the response models have the same limits, and every node row
comes from a `NodeCreate`. Audit rows come from `record_event`, which checks
nothing: the actor is the CN of whoever asked, and the target of a revoked
certificate is its serial. A row over a limit is stored, and `GET /audit`
answers 500 as long as it is on the page.

`readback_iff` says when that does not happen. The other targets are names of
nodes: a `node_id` that passed validation, or one that a lookup has found
(`Targets`).

`Accounts` says what holds where the code makes a call: an audit row that is
added has the CN of the request as its actor, and one of the `Targets`. It is
proved of every endpoint along its source (`app_accounted`). So a row over a
limit has a long CN or a long serial behind it, and both are known from the
headers.
-/

namespace ZeroTrustLab.Controller

open Lib
open Lib.Text (hex)

variable {settings : Settings} {headers : Headers} {h : History} {α : Type}

/-! ## What the code writes into an audit row -/

/-- Nothing has been added or sent. -/
def Calm (h : History) : Prop := ∀ a ∈ h, a.call.quiet = true

/-- The targets of audit rows. -/
inductive Targets (h : History) : Option String → Prop where
  | cert (n : Int) (hrev : ⟨.isRevoked n, .ok true⟩ ∈ h) :
      Targets h (some ("cert:" ++ String.ofList (hex n)))
  | node (nodeId : String) (hlive : Live h)
      (hid : nodeId.length ≤ 64 ∨ ∃ asked row, ⟨.selectNode asked, .ok [row]⟩ ∈ h ∧
        (nodeId = asked ∨ nodeId = row.nodeId)) :
      Targets h (some ("node:" ++ nodeId))

/-- What holds where the code makes a call. -/
def Accounts (settings : Settings) (headers : Headers) (h : History) : Call → Prop
  | .add (.event e) => ∃ identity, identityOf settings headers = .ok identity ∧
      e.actorCn = identity.commonName ∧ Targets h e.target
  | .isRevoked n => Calm h ∧
      ∃ identity, identityOf settings headers = .ok identity ∧ identity.serial = some n
  | .selectNode _ => Calm h
  | .selectNodes => Calm h
  | .selectEvents _ => Calm h
  | _ => True

/-- The calls of which that says nothing. -/
def Call.mute : Call → Bool
  | .add (.event _) => false
  | .isRevoked _ => false
  | .selectNode _ => false
  | .selectNodes => false
  | .selectEvents _ => false
  | _ => true

/-- The exceptions calls end in. -/
def CallFails (c : Call) (e : Exc) : Prop := c.site? ≠ none ∧ e ≠ .responseValidation

theorem accounts_of_mute {c : Call} (hc : c.mute = true) (h : History) :
    Accounts settings headers h c := by
  cases c with
  | add p =>
    cases p with
    | event e => simp [Call.mute] at hc
    | node n => trivial
    | dirty loaded current => trivial
  | isRevoked n => simp [Call.mute] at hc
  | selectNode nodeId => simp [Call.mute] at hc
  | selectNodes => simp [Call.mute] at hc
  | selectEvents q => simp [Call.mute] at hc
  | _ => trivial

abbrev Accounted (settings : Settings) (headers : Headers) (h : History) (p : Handler α) : Prop :=
  p.Upholds CallFails (Accounts settings headers) (fun _ _ => True) h

theorem Accounted.of_mute {p : Handler α} (hp : p.All (·.mute = true)) (h : History) :
    Accounted settings headers h p := by
  induction p generalizing h with
  | pure a => trivial
  | throw e => trivial
  | call c k ih => exact ⟨accounts_of_mute hp.1 h, fun x => ih x (hp.2 x) _, fun _ _ => trivial⟩

/-- `record_event` and what follows it, given a target. -/
theorem recordEvent_accounted {identity : MTLSIdentity} {action : AuditAction}
    {target : Option String} {result : AuditResult} {details : Option Details}
    {f : AuditEvent → Handler α} (hid : identityOf settings headers = .ok identity)
    (ht : ∀ t, Targets (h ++ [⟨.utcnow, .ok t⟩]) target) (hf : ∀ e, (f e).All (·.mute = true)) :
    Accounted settings headers h
      (recordEvent identity.commonName action target result details >>= f) := by
  refine ⟨trivial, fun t => ⟨⟨identity, hid, rfl, ht t⟩, fun _ => ?_, fun _ _ => trivial⟩,
    fun _ _ => trivial⟩
  refine Accounted.of_mute ?_ _
  exact ⟨rfl, fun _ => ⟨rfl, fun _ => ⟨rfl, fun _ => hf _⟩⟩⟩

/-- How the dependency ends: with the identity, nothing done yet, or with an
exception of its own. -/
def GatePassed (settings : Settings) (headers : Headers) (h : History) :
    Except Exc MTLSIdentity → Prop
  | .ok identity => identityOf settings headers = .ok identity ∧ Calm h ∧ Live h
  | .error e => e ≠ .responseValidation

theorem mtlsIdentityDep_accounted (settings : Settings) (headers : Headers) :
    (mtlsIdentityDep settings headers).Upholds CallFails (Accounts settings headers)
      (GatePassed settings headers) [] := by
  have hnotes := notes_getMtlsIdentity settings headers
  have hfail : ∀ n e, ¬ CallFails (.note n) e := fun n e he => he.1 rfl
  refine Prog.Upholds.bind (R := GatePassed settings headers)
    (hnotes.upholds (fun _ _ => trivial) hfail fun h hh => ?_) (fun h identity hpass => ?_)
    fun h e he => he
  · rw [List.nil_append]
    rcases hid : identityOf settings headers with e | identity
    · have he := identityOf_error hid
      rintro rfl
      rcases identityError_status headers.xClientVerify headers.xClientDn with hs | hs | hs
      · rw [← he] at hs; simp [Exc.status] at hs
      · rw [← he] at hs; simp [Exc.status] at hs
      · rw [← he] at hs; simp [Exc.status] at hs
    · refine ⟨hid, fun a ha => ?_, fun n hn => hh _ hn⟩
      have hnote := hh a ha
      cases hc : a.call <;> simp [hc, IsNote, Call.quiet] at hnote ⊢
  · obtain ⟨hid, hcalm, hlive⟩ := hpass
    unfold requireLiveIdentity
    rcases hs : identity.serial with _ | n
    · exact ⟨hid, hcalm, hlive⟩
    · refine ⟨⟨hcalm, identity, hid, hs⟩, fun b => ?_, fun e he => he.2⟩
      cases b with
      | false =>
        refine ⟨hid, fun a ha => ?_, by simp [hlive]⟩
        rcases List.mem_append.mp ha with ha | ha
        · exact hcalm a ha
        · rw [List.mem_singleton.mp ha]
          rfl
      | true =>
        -- the audit row of the refusal names the certificate, in hexadecimal
        have htarget : ∀ h' : History, Targets (h ++ [⟨.isRevoked n, .ok true⟩] ++ h')
            (some ("cert:" ++ String.ofList (hex n))) := fun h' => .cert n (by simp)
        refine ⟨trivial, fun _ => ⟨trivial, fun t => ⟨⟨identity, hid, rfl, ?_⟩, fun _ =>
          ⟨trivial, fun _ => ⟨trivial, fun _ => ⟨trivial, fun _ => ⟨trivial, fun _ => ⟨trivial,
            fun _ => ?_, ?_⟩, ?_⟩, ?_⟩, ?_⟩, ?_⟩, ?_⟩, ?_⟩, ?_⟩
        · rw [List.append_assoc]
          exact htarget _
        · show Exc.http 403 revokedDetail ≠ .responseValidation
          simp
        all_goals exact fun e he => he.2

/-- A row was read that its response model refuses. -/
inductive ReadUnfit (h : History) : Prop where
  | events {q : AuditQuery} {es : List AuditEvent} {e : AuditEvent}
      (hsel : ⟨.selectEvents q, .ok es⟩ ∈ h) (he : e ∈ es) (hbad : ¬ AuditEventRead.ok e = true)
  | nodes {ns : List Node} {n : Node} (hsel : ⟨.selectNodes, .ok ns⟩ ∈ h) (hn : n ∈ ns)
      (hbad : ¬ NodeRead.ok n = true)
  | node {nodeId : String} {ns : List Node} {n : Node} (hsel : ⟨.selectNode nodeId, .ok ns⟩ ∈ h)
      (hn : n ∈ ns) (hbad : ¬ NodeRead.ok n = true)

/-- Where a reading route fails validation of its response, such a row was
read. -/
def Blames (ep : Endpoint) (h : History) (r : Except Exc Response) : Prop :=
  r = .error .responseValidation → ep.reads = true → ReadUnfit h

private theorem respondNode_mute (status : Nat) (n : Node) :
    (respondNode status n).All (·.mute = true) := Prog.All.ite trivial trivial

/-- A payload that passes its limits has a short `node_id`. -/
theorem nodeId_length {b : NodeBase} (hb : b.tooLong = []) : b.nodeId.length ≤ 64 := by
  by_contra hlong
  have hmem : "node_id" ∈ b.tooLong := by
    unfold NodeBase.tooLong NodeBase.limits
    simp [hlong]
  rw [hb] at hmem
  exact absurd hmem (by simp)

theorem registerNode_accounted {payload : NodeCreate} {identity : MTLSIdentity}
    (hid : identityOf settings headers = .ok identity) (hcalm : Calm h) (hlive : Live h) :
    Accounted settings headers h (registerNode payload identity >>= respondNode 201) := by
  have hlen : payload.nodeId.length ≤ 64 := nodeId_length payload.within
  unfold registerNode
  by_cases hmay : mayRegister identity payload.toNodeBase = false
  · rw [if_pos hmay, Prog.bind_assoc]
    refine recordEvent_accounted hid (fun t => .node _ (by simp [hlive]) (.inl hlen)) ?_
    exact fun _ => ⟨rfl, fun _ => trivial⟩
  · rw [if_neg hmay]
    refine ⟨hcalm, fun rows => ?_, fun _ _ => trivial⟩
    rcases rows with _ | ⟨row, _ | ⟨row', rows⟩⟩
    · refine ⟨trivial, fun _ => ⟨trivial, fun _ => ⟨trivial, fun _ => ⟨trivial, fun ids => ?_,
        fun _ _ => trivial⟩, fun _ _ => trivial⟩, fun _ _ => trivial⟩, fun _ _ => trivial⟩
      show Accounted settings headers _ ((recordEvent _ _ _ _ _ >>= _) >>= respondNode 201)
      rw [Prog.bind_assoc]
      refine recordEvent_accounted hid (fun t => .node _ (by simp [hlive]) (.inl hlen)) ?_
      exact fun _ => ⟨rfl, fun _ => ⟨rfl, fun n => respondNode_mute 201 n⟩⟩
    · exact ⟨trivial, fun _ => trivial, fun _ _ => trivial⟩
    · trivial

theorem heartbeat_accounted {nodeId : String} {body : NodeHeartbeat} {identity : MTLSIdentity}
    (hid : identityOf settings headers = .ok identity) (hcalm : Calm h) (hlive : Live h) :
    Accounted settings headers h (heartbeat nodeId body identity >>= respondNode 200) := by
  unfold heartbeat
  refine ⟨hcalm, fun rows => ?_, fun _ _ => trivial⟩
  rcases rows with _ | ⟨row, _ | ⟨row', rows⟩⟩
  · trivial
  · show Accounted settings headers _ ((if identity.commonName ≠ row.commonName then _ else _) >>= _)
    by_cases hcn : identity.commonName ≠ row.commonName
    · rw [if_pos hcn, Prog.bind_assoc]
      refine recordEvent_accounted hid (fun t => .node _ (by simp [hlive])
        (.inr ⟨nodeId, row, by simp, .inl rfl⟩)) ?_
      exact fun _ => ⟨rfl, fun _ => trivial⟩
    · rw [if_neg hcn]
      refine ⟨trivial, fun now => ⟨trivial, fun _ => ?_, fun _ _ => trivial⟩, fun _ _ => trivial⟩
      show Accounted settings headers _
        ((if (row.state == .onboarding) = true then _ else _) >>= respondNode 200)
      by_cases ho : (row.state == .onboarding) = true
      · rw [if_pos ho, Prog.bind_assoc]
        refine recordEvent_accounted hid (fun t => .node _ (by simp [hlive])
          (.inr ⟨nodeId, row, by simp, .inr rfl⟩)) ?_
        exact fun _ => ⟨rfl, fun _ => ⟨rfl, fun n => respondNode_mute 200 n⟩⟩
      · rw [if_neg ho]
        refine Accounted.of_mute ?_ _
        exact ⟨rfl, fun _ => ⟨rfl, fun _ => ⟨rfl, fun n => respondNode_mute 200 n⟩⟩⟩
  · trivial

theorem body_accounted {ep : Endpoint} {body : MTLSIdentity → Handler Response}
    (hbody : ep.body? = some body) {identity : MTLSIdentity}
    (hid : identityOf settings headers = .ok identity) (hcalm : Calm h) (hlive : Live h) :
    (body identity).Upholds CallFails (Accounts settings headers) (Blames ep) h := by
  cases ep with
  | health => simp [Endpoint.body?] at hbody
  | whoami =>
    obtain rfl := Option.some.inj hbody
    exact fun hr => absurd hr (by simp)
  | listNodes =>
    obtain rfl := Option.some.inj hbody
    refine ⟨hcalm, fun ns => ⟨trivial, fun _ => ?_, fun e he => ?_⟩, fun e he => ?_⟩
    · show Prog.Upholds _ _ _ _ (if ns.all NodeRead.ok = true then _ else _)
      split
      next => exact fun hr => absurd hr (by simp)
      next hbad =>
        intro _ _
        obtain ⟨n, hn, hno⟩ : ∃ n ∈ ns, ¬ NodeRead.ok n = true := by simpa using hbad
        exact .nodes (by simp) hn hno
    · exact absurd rfl he.1
    · exact fun hr => absurd (Except.error.inj hr) he.2
  | registerNode b =>
    obtain rfl := Option.some.inj hbody
    rcases b with _ | b
    · exact fun hr => absurd hr (by simp)
    · dsimp only
      split
      next => exact fun hr => absurd hr (by simp)
      next => exact (registerNode_accounted hid hcalm hlive).mono fun _ _ _ _ hr =>
        absurd hr (by simp [Endpoint.reads])
  | getNode nodeId =>
    obtain rfl := Option.some.inj hbody
    refine ⟨hcalm, fun rows => ?_, fun e he hr => absurd (Except.error.inj hr) he.2⟩
    rcases rows with _ | ⟨row, _ | ⟨row', rows⟩⟩
    · exact fun hr => absurd hr (by simp)
    · show Prog.Upholds _ _ _ _ (if NodeRead.ok row = true then _ else _)
      split
      next => exact fun hr => absurd hr (by simp)
      next hbad =>
        intro _ _
        exact @ReadUnfit.node _ nodeId _ _ (by simp) (List.mem_singleton_self row) hbad
    · exact fun hr => absurd hr (by simp)
  | heartbeat nodeId b =>
    obtain rfl := Option.some.inj hbody
    rcases b with _ | b
    · exact fun hr => absurd hr (by simp)
    · exact (heartbeat_accounted hid hcalm hlive).mono fun _ _ _ _ hr =>
        absurd hr (by simp [Endpoint.reads])
  | listAuditEvents limit offset actorCn action result =>
    obtain rfl := Option.some.inj hbody
    dsimp only
    split
    next => exact fun hr => absurd hr (by simp)
    next =>
      refine ⟨hcalm, fun es => ?_, fun e he hr => absurd (Except.error.inj hr) he.2⟩
      show Prog.Upholds _ _ _ _ (if es.all AuditEventRead.ok = true then _ else _)
      split
      next => exact fun hr => absurd hr (by simp)
      next hbad =>
        intro _ _
        obtain ⟨e, he, hno⟩ : ∃ e ∈ es, ¬ AuditEventRead.ok e = true := by simpa using hbad
        exact .events (List.mem_append_right _ (List.mem_singleton_self _)) he hno

/-- **The account of a whole request.** -/
theorem app_accounted (settings : Settings) (req : Request) :
    (app settings req).Upholds CallFails (Accounts settings req.headers) (Blames req.endpoint) [] := by
  unfold app
  rcases hbody : req.endpoint.body? with _ | body
  · exact ⟨trivial, fun _ hr => absurd hr (by simp), fun e he => absurd rfl he.1⟩
  · refine (mtlsIdentityDep_accounted settings req.headers).bind (fun h identity hpass => ?_)
      fun h e he hr => absurd (Except.error.inj hr) he
    obtain ⟨hid, hcalm, hlive⟩ := hpass
    exact body_accounted hbody hid hcalm hlive

/-! ## In a run -/

variable {reqs : Rid → Request} {w₀ : World} {ls : List (Label Call Ans Exc Rid Env)}
  {c c' : Cfg Call Ans Exc Response Rid Session World} {i : Rid}

/-- In a run a call fails only in a way that its kind allows. -/
theorem serving_callFails (h : Run settings reqs w₀ ls c) (i : Rid) {d : Call} {e : Exc}
    (hd : ⟨d, .error e⟩ ∈ acts i ls) : CallFails d e := by
  refine ⟨serving_sessionFails h i d e hd, ?_⟩
  rintro rfl
  by_cases hne : ∀ id, d ≠ .refresh id
  · rcases serving_raised h (mem_acts.mp hd) hne with hlocked | hint
    · rcases hlocked with he | ⟨site, -, he⟩
      · simp at he
      · simp at he
    · simp at hint
  · obtain ⟨id, rfl⟩ : ∃ id, d = .refresh id := by simpa using hne
    obtain ⟨front, rest, he⟩ := List.append_of_mem (mem_acts.mp hd)
    obtain ⟨m, m', -, hs, -⟩ := h.of_mem he
    cases hs with
    | raised _ hr =>
      rcases raises_cases hr with hserve | ⟨site, -, hsite, -⟩
      · exact absurd (refresh_error hserve).1 (by simp)
      · simp at hsite

/-- A request that has only read sees the committed rows. -/
theorem calm_view (hw : w₀.Fresh) (h : Run settings reqs w₀ ls c) (hcalm : Calm (acts i ls)) :
    c.world.view i = c.world.db := by
  refine NotMine.view_eq fun t ht hi => ?_
  obtain ⟨ids, hflush⟩ := serving_tx hw h ht
  rw [hi] at hflush
  exact absurd (hcalm _ (mem_acts.mpr hflush)) (by simp [Call.quiet])

/-- What a request had done when it made a call. -/
theorem serving_accounts (h : Run settings reqs w₀ ls c) {a : Act Call Ans Exc}
    {h₁ h₂ : History} (hcut : acts i ls = h₁ ++ a :: h₂) :
    Accounts settings (reqs i).headers h₁ a.call := by
  obtain ⟨q, hq⟩ := serving_party h i
  rw [hcut] at hq
  have hE : ∀ d e, ⟨d, .error e⟩ ∈ h₁ → CallFails d e := fun d e hd =>
    serving_callFails h i (hcut ▸ List.mem_append_left _ hd)
  simpa using hq.upholds_at hE (app_accounted settings (reqs i))

/-- A query before anything was written was answered from the rows committed
at that moment. -/
theorem serving_answered (hw : w₀.Fresh) (h : Run settings reqs w₀ ls c) {d : Call} {x : Ans d}
    (hd : ⟨d, .ok x⟩ ∈ acts i ls)
    (hquery : ∀ h', Accounts settings (reqs i).headers h' d → Calm h') :
    ∃ ls₁ ls₂ m l', ls = ls₁ ++ ls₂ ∧ Run settings reqs w₀ ls₁ m ∧ Steps controller m ls₂ c ∧
      m.world.view i = m.world.db ∧ ∃ w', serve i d l' m.world = (.ok x, w') := by
  obtain ⟨h₁, h₂, hcut⟩ := List.append_of_mem hd
  obtain ⟨ls₁, ls₂, rfl, hfront, -⟩ := acts_cut hcut
  obtain ⟨m, m', h₁m, hs, h₂m⟩ := h.of_mem rfl
  have hview := calm_view hw h₁m (hfront ▸ hquery _ (serving_accounts h hcut))
  cases hs with
  | served hp hserve =>
    exact ⟨ls₁, _, m, _, rfl, h₁m, (Steps.single (.served hp hserve)).trans h₂m, hview, _, hserve⟩

/-- A row read was a committed one. -/
theorem serving_readUnfit (hw : w₀.Fresh) (h : Run settings reqs w₀ ls c)
    (hbad : ReadUnfit (acts i ls)) :
    ∃ ls₁ ls₂ m, ls = ls₁ ++ ls₂ ∧ Run settings reqs w₀ ls₁ m ∧ Steps controller m ls₂ c ∧
      ((∃ e ∈ m.world.db.events.rows, ¬ AuditEventRead.ok e = true) ∨
        ∃ n ∈ m.world.db.nodes.rows, ¬ NodeRead.ok n = true) := by
  -- in each case what the select gave was stored when it was asked
  cases hbad with
  | @events q es e hsel he hno =>
    obtain ⟨ls₁, ls₂, m, l', hls, h₁m, h₂m, hview, w', hserve⟩ :=
      serving_answered hw h hsel fun _ hh => hh
    have hans : q.answer (m.world.view i) = es := Except.ok.inj (congrArg Prod.fst hserve)
    rw [hview] at hans
    rw [← hans] at he
    refine ⟨ls₁, ls₂, m, hls, h₁m, h₂m, .inl ⟨e, ?_, hno⟩⟩
    have hsorted := List.mem_of_mem_drop (List.mem_of_mem_take he)
    exact (List.mem_filter.mp ((q.found_perm _).mem_iff.mp (List.mem_mergeSort.mp hsorted))).1
  | @nodes ns n hsel hn hno =>
    obtain ⟨ls₁, ls₂, m, l', hls, h₁m, h₂m, hview, w', hserve⟩ :=
      serving_answered hw h hsel fun _ hh => hh
    have hans : _ = ns := Except.ok.inj (congrArg Prod.fst hserve)
    rw [hview] at hans
    rw [← hans] at hn
    exact ⟨ls₁, ls₂, m, hls, h₁m, h₂m, .inr ⟨n, List.mem_mergeSort.mp hn, hno⟩⟩
  | @node nodeId ns n hsel hn hno =>
    obtain ⟨ls₁, ls₂, m, l', hls, h₁m, h₂m, hview, w', hserve⟩ :=
      serving_answered hw h hsel fun _ hh => hh
    have hans : _ = ns := Except.ok.inj (congrArg Prod.fst hserve)
    rw [hview] at hans
    rw [← hans] at hn
    exact ⟨ls₁, ls₂, m, hls, h₁m, h₂m, .inr ⟨n, (List.mem_filter.mp hn).1, hno⟩⟩

/-- Every stored row passes its response model. -/
structure ReadsBack (db : Database) : Prop where
  nodes : ∀ n ∈ db.nodes.rows, NodeRead.ok n = true
  events : ∀ e ∈ db.events.rows, AuditEventRead.ok e = true

/-- What a row keeps decides whether it can be returned. -/
theorem readOk_kept {r r' : Node} (hk : Kept r r') : NodeRead.ok r' = NodeRead.ok r := by
  unfold NodeRead.ok
  rw [hk.id, tooLong_kept hk]

/-- **Node rows** always do. -/
theorem serving_nodes_ok (hw : w₀.Fresh) (h₀ : ReadsBack w₀.db) (h : Run settings reqs w₀ ls c) :
    ∀ n ∈ c.world.db.nodes.rows, NodeRead.ok n = true := by
  intro n hn
  rcases serving_inserted hw h hn with ⟨r₀, hr₀, hk⟩ | ⟨i, ws, hws, row, hrow, hk⟩
  · rw [readOk_kept hk]
    exact h₀.nodes r₀ hr₀
  · obtain ⟨kind, ht⟩ := serving_journal hw h hws
    obtain ⟨-, payload, -, createdAt, updatedAt, k, rfl⟩ := ht.insert hrow
    rw [readOk_kept hk]
    unfold NodeRead.ok
    simp [Record.setPk, newNode, payload.within]

/-- An audit row committed, and what its request had done when it was added. -/
theorem serving_audited (hw : w₀.Fresh) (h : Run settings reqs w₀ ls c) {ws : List Write}
    (hws : ws ∈ c.world.own i) {e : AuditEvent} (he : .insertEvent e ∈ ws) :
    e.id.isSome = true ∧ ∃ identity e₀ h₁ h₂,
      identityOf settings (reqs i).headers = .ok identity ∧ e.actorCn = identity.commonName ∧
      acts i ls = h₁ ++ ⟨.add (.event e₀), .ok ()⟩ :: h₂ ∧ Targets h₁ e.target := by
  obtain ⟨p, ⟨db, hp⟩, hadd⟩ := serving_added hw h hws he
  obtain ⟨h₁, h₂, hcut⟩ := List.append_of_mem hadd
  have haccounts := serving_accounts h hcut
  cases p with
  | node n => simp [Pending.toWrite] at hp
  | dirty loaded current => simp [Pending.toWrite] at hp
  | event e₀ =>
    obtain rfl : Record.setPk db.events.next e₀ = e := by simpa [Pending.toWrite] using hp
    obtain ⟨identity, hid, hactor, htarget⟩ := haccounts
    exact ⟨rfl, identity, e₀, h₁, h₂, hid, hactor, hcut, htarget⟩

/-- The request has committed an audit row. -/
def Audits (i : Rid) (w : World) : Prop := ∃ ws ∈ w.own i, ∃ e, .insertEvent e ∈ ws

/-- The CN and, if it was found revoked, the serial of a request are within
the limits of `actor_cn` and `target`. -/
def Fits (settings : Settings) (req : Request) (h : History) : Prop :=
  ∀ identity, identityOf settings req.headers = .ok identity →
    identity.commonName.length ≤ 255 ∧
    ∀ n, ⟨.isRevoked n, .ok true⟩ ∈ h → (hex n).length ≤ 250

/-- An audit row can be returned just when its actor and its target are short
enough. -/
theorem auditOk_iff {e : AuditEvent} (hid : e.id.isSome = true) :
    AuditEventRead.ok e = true ↔ e.actorCn.length ≤ 255 ∧ (e.target.getD "").length ≤ 255 := by
  unfold AuditEventRead.ok
  simp [hid]

/-- The target of a revocation is as long as its serial is printed, and five
more. -/
theorem length_certTarget (n : Int) :
    ("cert:" ++ String.ofList (hex n)).length = 5 + (hex n).length := by
  have hprefix : "cert:".length = 5 := rfl
  rw [String.length_append, hprefix, String.length_ofList]

/-- A target is within its limit, a certificate's as long as its serial is. -/
theorem Targets.length_le (hw : w₀.Fresh) (h₀ : ReadsBack w₀.db) (h : Run settings reqs w₀ ls c)
    {h₁ h₂ : History} (hcut : acts i ls = h₁ ++ h₂) {target : Option String}
    (ht : Targets h₁ target)
    (hserial : ∀ n, ⟨.isRevoked n, .ok true⟩ ∈ acts i ls → (hex n).length ≤ 250) :
    (target.getD "").length ≤ 255 := by
  cases ht with
  | cert n hrev =>
    have hn := hserial n (hcut ▸ List.mem_append_left _ hrev)
    have hlen := length_certTarget n
    simp only [Option.getD_some]
    omega
  | node nodeId _ hid =>
    have hlen : ("node:" ++ nodeId).length = 5 + nodeId.length := by
      rw [String.length_append]
      rfl
    have hnode : nodeId.length ≤ 64 := by
      rcases hid with hle | ⟨asked, row, hsel, hasked⟩
      · exact hle
      · -- a lookup finds a stored row, under the name it was asked for
        have hmem : Label.call i ⟨.selectNode asked, .ok [row]⟩ ∈ ls :=
          mem_acts.mp (hcut ▸ List.mem_append_left _ hsel)
        obtain ⟨front, rest, he⟩ := List.append_of_mem hmem
        obtain ⟨m, m', hm, hs, -⟩ := h.of_mem he
        obtain ⟨hstored, hname⟩ := serving_found hw hm hs
        have hok := serving_nodes_ok hw h₀ hm row hstored
        unfold NodeRead.ok at hok
        have hshort := nodeId_length (b := row.toNodeBase) (by
          simpa using (Bool.and_eq_true_iff.mp hok).2)
        rcases hasked with rfl | rfl
        · rwa [hname] at hshort
        · exact hshort
    simp only [Option.getD_some]
    omega

/-- The target of a request found revoked is its serial. -/
theorem Targets.of_revoked (h : Run settings reqs w₀ ls c) {h₁ h₂ : History} {e : AuditEvent}
    (hcut : acts i ls = h₁ ++ ⟨.add (.event e), .ok ()⟩ :: h₂) {target : Option String}
    (ht : Targets h₁ target) {n : Int} (hn : ⟨.isRevoked n, .ok true⟩ ∈ acts i ls) :
    target = some ("cert:" ++ String.ofList (hex n)) := by
  -- a check comes before anything is added, and is of the identity's serial
  have hbefore : ⟨.isRevoked n, .ok true⟩ ∈ h₁ := by
    rw [hcut] at hn
    rcases List.mem_append.mp hn with hn | hn
    · exact hn
    · have hn : ⟨.isRevoked n, .ok true⟩ ∈ h₂ := by simpa using hn
      obtain ⟨mid, rest, rfl⟩ := List.append_of_mem hn
      have hcut' : acts i ls = (h₁ ++ ⟨.add (.event e), .ok ()⟩ :: mid) ++
          ⟨.isRevoked n, .ok true⟩ :: rest := by rw [hcut]; simp
      have hcalm := (serving_accounts h hcut').1
      exact absurd (hcalm ⟨.add (.event e), .ok ()⟩ (by simp)) (by simp [Call.quiet])
  cases ht with
  | node nodeId hlive => exact absurd hbefore (hlive n)
  | cert m hrev =>
    have hserial : ∀ k, (⟨.isRevoked k, .ok true⟩ : Act Call Ans Exc) ∈ h₁ →
        ∃ identity, identityOf settings (reqs i).headers = .ok identity ∧
          identity.serial = some k := by
      intro k hk
      obtain ⟨front, rest, rfl⟩ := List.append_of_mem hk
      rw [List.append_assoc] at hcut
      exact (serving_accounts h hcut).2
    obtain ⟨identity, hid, hm⟩ := hserial m hrev
    obtain ⟨identity', hid', hn'⟩ := hserial n hbefore
    obtain rfl := Except.ok.inj (hid.symm.trans hid')
    rw [Option.some.inj (hm.symm.trans hn')]

theorem events_grow (hw : w₀.Fresh) (h : Run settings reqs w₀ ls c)
    {ls' : List (Label Call Ans Exc Rid Env)} (h' : Steps controller c ls' c') :
    c.world.db.events.rows <+: c'.world.db.events.rows := by
  rw [serving_events hw h, serving_events hw (h.trans h')]
  obtain ⟨js, hjs⟩ := (serving_grows hw h h').2
  rw [← hjs, List.flatMap_append, List.filterMap_append, ← List.append_assoc]
  exact List.prefix_append _ _

/-- **What is written can be read back** just when every request that has
committed an audit row fits its columns. Being read back is passing the
response model, and for a request that reads, not failing there. -/
theorem readback_iff (hw : w₀.Fresh) (h₀ : ReadsBack w₀.db) (h : Run settings reqs w₀ ls c) :
    (ReadsBack c.world.db ∧ ∀ i, (reqs i).endpoint.reads = true →
      (c.party i).status ≠ .done (.error .responseValidation)) ↔
    ∀ i, Audits i c.world → Fits settings (reqs i) (acts i ls) := by
  constructor
  · -- a row that reads back has a CN and a target that fit
    rintro ⟨hback, -⟩ i ⟨ws, hws, e, he⟩ identity hid
    obtain ⟨hsome, identity', e₀, h₁, h₂, hid', hactor, hcut, htarget⟩ := serving_audited hw h hws he
    obtain rfl := Except.ok.inj (hid.symm.trans hid')
    obtain ⟨hcn, hlen⟩ := (auditOk_iff hsome).mp (hback.events e (event_of_own hw h hws he))
    rw [hactor] at hcn
    refine ⟨hcn, fun n hn => ?_⟩
    rw [htarget.of_revoked h hcut hn, Option.getD_some, length_certTarget] at hlen
    omega
  · intro hfits
    have hevents : ∀ e ∈ c.world.db.events.rows, AuditEventRead.ok e = true := by
      intro e he
      rw [serving_events hw h] at he
      rcases List.mem_append.mp he with he | he
      · exact h₀.events e he
      · obtain ⟨v, hv, hev⟩ := List.mem_filterMap.mp he
        obtain ⟨⟨i, ws⟩, hj, hvws⟩ := List.mem_flatMap.mp hv
        obtain rfl : v = .insertEvent e := by
          cases v <;> simp [Write.event?] at hev
          rw [hev]
        have hws : ws ∈ c.world.own i := mem_own.mpr hj
        obtain ⟨hsome, identity, e₀, h₁, h₂, hid, hactor, hcut, htarget⟩ :=
          serving_audited hw h hws hvws
        obtain ⟨hcn, hserial⟩ := hfits i ⟨ws, hws, e, hvws⟩ identity hid
        exact (auditOk_iff hsome).mpr
          ⟨hactor ▸ hcn, htarget.length_le hw h₀ h hcut hserial⟩
    refine ⟨⟨serving_nodes_ok hw h₀ h, hevents⟩, fun i hreads hd => ?_⟩
    obtain ⟨q, hq, hr⟩ := serving_reaches h hd
    -- a failed read has read a row that does not fit, and none is stored
    have hblames := hq.upholds_end (fun d e hde => serving_callFails h i hde)
      (app_accounted settings (reqs i)) hr
    obtain ⟨ls₁, ls₂, m, -, hm, hrest, hbad⟩ := serving_readUnfit hw h (hblames rfl hreads)
    rcases hbad with ⟨e, he, hno⟩ | ⟨n, hn, hno⟩
    · exact hno (hevents e ((events_grow hw hm hrest).subset he))
    · exact hno (serving_nodes_ok hw h₀ hm n hn)

/-! ## One row too long -/

/-- The node of the refused registrations. -/
def refusedNode : NodeCreate :=
  ⟨⟨"pi-02", "pi-02.thesis.local", "sensor", .onboarding, none, none⟩, by decide⟩

/-- Somebody registers a node of another name. -/
def refused (headers : Headers) : Request :=
  ⟨headers, .registerNode (some refusedNode.toNodeBase)⟩

/-- The first page of the audit log. -/
def firstPage : Request := ⟨nodeHeaders, .listAuditEvents 100 0 none none none⟩

/-- A refusal, and a node that reads the log after it. -/
def refusedThenRead (headers : Headers) : List Event :=
  [.request (refused headers), .request firstPage]

/-- A certificate with a CN of 256 characters. -/
def longHeaders : Headers :=
  ⟨some "SUCCESS", some (String.ofList ('C' :: 'N' :: '=' :: List.replicate 256 'x')), none⟩

/-- The headers of the example are those of a very long CN. -/
theorem identityOf_longHeaders : identityOf {} longHeaders
    = .ok ⟨String.ofList (List.replicate 256 'x'),
        String.ofList ('C' :: 'N' :: '=' :: List.replicate 256 'x'), true, none⟩ := by
  have hsearch : cnSearch ('C' :: 'N' :: '=' :: List.replicate 256 'x')
      = some (List.replicate 256 'x') := by decide +kernel
  have hstrip : Text.strip (List.replicate 256 'x') = List.replicate 256 'x' := by decide +kernel
  unfold longHeaders
  rw [identityOf_verified, String.toList_ofList, hsearch]
  simp only [hstrip]
  rfl

/-- The refusal, and its row. -/
theorem respond_refused {identity : MTLSIdentity} {now : Time} {db : Database}
    (hid : identityOf {} headers = .ok identity)
    (hmay : mayRegister identity refusedNode.toNodeBase = false) :
    respond {} (refused headers) ∅ now db
      = reject db (registerForbiddenEvent identity refusedNode.toNodeBase now) 403
          "Cannot register a node on behalf of another identity" := by
  have hvalid : NodeCreate.validate refusedNode.toNodeBase = .ok refusedNode :=
    dif_pos refusedNode.within
  rw [respond_admitted (by simp [refused, Endpoint.body?]) hid (revokedSerial_empty identity)]
  unfold refused replyBody
  dsimp only
  rw [hvalid]
  dsimp only
  unfold replyRegister
  rw [if_pos hmay]

/-- The first page of the example is answered when its one row can be
returned. -/
theorem respond_firstPage {now : Time} {db : Database} {e : AuditEvent}
    (hrows : db.events.rows = [e]) :
    respond {} firstPage ∅ now db = (if AuditEventRead.ok e = true then .ok ⟨200, .events [e]⟩
      else .error .responseValidation, []) := by
  have hans : (⟨100, 0, none, none, none⟩ : AuditQuery).answer db = [e] := by
    unfold AuditQuery.answer AuditQuery.found
    rw [hrows]
    simp [AuditQuery.keeps, AuditQuery.filtered]
  rw [respond_admitted (by simp [firstPage, Endpoint.body?]) (identityOf_nodeHeaders {})
    (revokedSerial_empty _)]
  unfold firstPage replyBody
  dsimp only
  rw [if_neg (by decide)]
  simp [hans]

/-- A refusal and a read, from the start: the row it leaves, and the answer. -/
theorem refusedThenRead_serves {identity : MTLSIdentity}
    (hid : identityOf {} headers = .ok identity)
    (hmay : mayRegister identity refusedNode.toNodeBase = false) :
    ∃ ls c e, Run {} (arrivals (refusedThenRead headers)) .start ls c ∧
      e.actorCn = identity.commonName ∧ c.world.db.events.rows = [e] ∧
      (c.party 1).status = .done (if AuditEventRead.ok e = true then .ok ⟨200, .events [e]⟩
        else .error .responseValidation) := by
  obtain ⟨ls, c, h, hw, hdone⟩ := serial_serving {} (refusedThenRead headers) .start
  obtain ⟨w₁, h₁, hf₁⟩ := handle_respond {} 0 (refused headers) (w := .start) rfl
  obtain ⟨w₂, h₂, hf₂⟩ := handle_respond {} 1 firstPage (w := w₁) hf₁.tx
  have hrefused := hf₁.db
  rw [show World.start.revokedSerials = ∅ from rfl, respond_refused hid hmay] at hrefused
  have hrows : w₁.db.events.rows = _ := (Database.applyAll_rows hrefused).2
  have hread := @respond_firstPage w₁.clock w₁.db _ hrows
  rw [show w₁.revokedSerials = ∅ from hf₁.cache, hread] at h₂ hf₂
  have hsame : w₂.db = w₁.db := (Option.some.inj hf₂.db).symm
  obtain ⟨r, hserial⟩ : ∃ r, serial {} 0 (refusedThenRead headers) .start = ([r, _], w₂) :=
    ⟨_, by simp only [refusedThenRead, serial, h₁, h₂]; rfl⟩
  rw [hserial] at hw hdone
  exact ⟨ls, c, _, h, rfl, by rw [hw, hsame]; exact hrows, hdone 1 _ rfl⟩

/-- The refusal is recorded under the long CN, and the log can no longer be
read. -/
theorem long_cn_unreadable :
    ∃ ls c, Run {} (arrivals (refusedThenRead longHeaders)) .start ls c ∧
      identityOf {} firstPage.headers
        = .ok ⟨"pi-01.thesis.local", "CN=pi-01.thesis.local", true, some 1⟩ ∧
      (c.party 1).status = .done (.error .responseValidation) ∧ ¬ ReadsBack c.world.db := by
  have hmay : ∀ dn, mayRegister ⟨String.ofList (List.replicate 256 'x'), dn, true, none⟩
      refusedNode.toNodeBase = false := by
    intro dn
    have hnode : Text.startsWith "pi-".toList (List.replicate 256 'x') = false := by decide +kernel
    have hctl : Text.startsWith "controller.".toList (List.replicate 256 'x') = false := by
      decide +kernel
    unfold mayRegister MTLSIdentity.isNode MTLSIdentity.isController
    dsimp only
    rw [String.toList_ofList (l := List.replicate 256 'x'), hnode, hctl]
    rfl
  obtain ⟨ls, c, e, h, hactor, hrows, hread⟩ :=
    refusedThenRead_serves identityOf_longHeaders (hmay _)
  have hbad : ¬ AuditEventRead.ok e = true := by
    unfold AuditEventRead.ok
    rw [hactor, String.length_ofList, List.length_replicate]
    simp
  rw [if_neg hbad] at hread
  refine ⟨ls, c, h, identityOf_nodeHeaders {}, hread, fun hback => hbad (hback.events e ?_)⟩
  rw [hrows]
  exact List.mem_singleton_self e

/-- Under a CN that fits, it can. -/
theorem short_cn_readable :
    ∃ ls c, Run {} (arrivals (refusedThenRead nodeHeaders)) .start ls c ∧
      c.world.db.events.rows.length = 1 ∧ ReadsBack c.world.db ∧
      ∀ i, (arrivals (refusedThenRead nodeHeaders) i).endpoint.reads = true →
        (c.party i).status ≠ .done (.error .responseValidation) := by
  obtain ⟨ls, c, e, h, -, hrows, -⟩ :=
    refusedThenRead_serves (identityOf_nodeHeaders {}) (by decide)
  have hstart : ReadsBack World.start.db := ⟨by simp [World.start, Database.empty],
    by simp [World.start, Database.empty]⟩
  refine ⟨ls, c, h, by rw [hrows]; rfl,
    (readback_iff World.start_fresh hstart h).mpr fun i _ identity hid => ?_⟩
  have hheaders : (arrivals (refusedThenRead nodeHeaders) i).headers = nodeHeaders ∨
      (arrivals (refusedThenRead nodeHeaders) i).headers = {} := by
    rcases i with _ | _ | i
    · exact .inl rfl
    · exact .inl rfl
    · exact .inr rfl
  rcases hheaders with hh | hh
  · rw [hh, identityOf_nodeHeaders] at hid
    obtain rfl := Except.ok.inj hid
    refine ⟨by decide, fun n hn => ?_⟩
    obtain ⟨h₁, h₂, hcut⟩ := List.append_of_mem hn
    obtain ⟨-, identity, hid, hserial⟩ := serving_accounts h hcut
    rw [hh, identityOf_nodeHeaders] at hid
    obtain rfl := Except.ok.inj hid
    obtain rfl : 1 = n := Option.some.inj hserial
    decide
  · rw [hh, identityOf_eq] at hid
    simp at hid

end ZeroTrustLab.Controller
