import ZeroTrustLab.Lib.Path
import ZeroTrustLab.Controller.Identity

/-!
# The paths through a request

What the code of a request can have done so far, read off its program alone
(`Prog.Reaches`), without any semantics of the calls:

* `mtlsIdentityDep_reaches`: a request with a serial makes notes, then one
  check of that serial, and then what follows from the answer;
* `body_looks`: an endpoint body makes no such check, and looks a node up by
  its `node_id` at most once;
* `app_checks`, `app_selects_once`: both, of a whole request.

`Admitted` is defined here: the point of a history at which the endpoint body
starts.

The lemmas are of two kinds. A predicate on programs such as `Routine`, `Looks`
or `All` is proved by following the source once, one lemma for each helper;
what it says of histories is then an induction over the path. Nothing here
needs to know what a call does, so the same lemmas serve runs in which calls
fail.
-/

namespace ZeroTrustLab.Controller

open Lib (Act Prog Text.hex)

/-! ## The dependency -/

def IsNote : Call → Prop
  | .note _ => True
  | _ => False

/-- The call is not a check of a serial. -/
def NoCheck (c : Call) : Prop := ∀ n, c ≠ .isRevoked n

def IsSelect (c : Call) : Prop := ∃ nodeId, c = .selectNode nodeId

/-- No check has found the certificate revoked. -/
def Live (h : History) : Prop := ∀ n, ⟨.isRevoked n, .ok true⟩ ∉ h

@[simp] theorem live_append {h h' : History} : Live (h ++ h') ↔ Live h ∧ Live h' := by
  unfold Live
  simp only [List.mem_append, not_or]
  exact forall_and

@[simp] theorem live_nil : Live [] := by simp [Live]

@[simp] theorem live_cons {h : History} {a : Act Call Ans Exc} :
    Live (a :: h) ↔ (∀ n, (⟨.isRevoked n, .ok true⟩ : Act Call Ans Exc) ≠ a) ∧ Live h := by
  unfold Live
  simp only [List.mem_cons, not_or]
  exact forall_and

/-- Neither a check of a serial nor a lookup of a node. -/
def Call.routine : Call → Bool
  | .isRevoked _ => false
  | .selectNode _ => false
  | _ => true

/-- The code checks no serial and looks no node up. -/
abbrev Routine {α : Type} (p : Handler α) : Prop := p.All (·.routine = true)

theorem noCheck_of_routine {c : Call} (h : c.routine = true) : NoCheck c := by
  rintro n rfl
  simp [Call.routine] at h

theorem not_isSelect_of_routine {c : Call} (h : c.routine = true) : ¬ IsSelect c := by
  rintro ⟨nodeId, rfl⟩
  simp [Call.routine] at h

/-- Only a call on the session ends in an exception. -/
def CanFail (c : Call) (_ : Exc) : Prop := c.site? ≠ none

/-- Only calls on the session ended in an exception. -/
def SessionFails (h : History) : Prop := ∀ c e, ⟨c, .error e⟩ ∈ h → c.site? ≠ none

theorem SessionFails.of_append {h h' : History} (hh : SessionFails (h ++ h')) :
    SessionFails h ∧ SessionFails h' :=
  ⟨fun c e hc => hh c e (List.mem_append_left _ hc),
    fun c e hc => hh c e (List.mem_append_right _ hc)⟩

/-- A handler that only notes makes nothing but notes on its way. -/
theorem Notes.reaches {α : Type} {p q : Handler α} {r : Except Exc α} {h : History}
    (hp : Notes p r) (hr : p.Reaches h q) (hh : SessionFails h) :
    (∀ a ∈ h, IsNote a.call) ∧ Notes q r := by
  induction hp generalizing h with
  | pure a =>
    cases hr
    exact ⟨by simp, .pure a⟩
  | throw e =>
    cases hr
    exact ⟨by simp, .throw e⟩
  | @note n k r hk ih =>
    cases hr with
    | refl => exact ⟨by simp, .note hk⟩
    | raised => exact absurd rfl (hh _ _ (List.mem_singleton_self _))
    | answered hrest =>
      obtain ⟨hn, hq⟩ := ih hrest fun c e hc => hh c e (List.mem_cons_of_mem _ hc)
      refine ⟨fun a ha => ?_, hq⟩
      rcases List.mem_cons.mp ha with rfl | ha
      · trivial
      · exact hn a ha

/-- Code that only logs ends with its result, some notes later. -/
theorem Notes.upholds {α : Type} {E : Call → Exc → Prop} {P : History → Call → Prop}
    {Q : History → Except Exc α → Prop} {p : Handler α} {r : Except Exc α} (hp : Notes p r)
    (hP : ∀ h n, P h (.note n)) (hE : ∀ n e, ¬ E (.note n) e) {h : History}
    (hQ : ∀ h', (∀ a ∈ h', IsNote a.call) → Q (h ++ h') r) : p.Upholds E P Q h := by
  induction hp generalizing h with
  | pure a => simpa [Prog.Upholds] using hQ [] (by simp)
  | throw e => simpa [Prog.Upholds] using hQ [] (by simp)
  | @note n k r _ ih =>
    refine ⟨hP h n, fun x => ih fun h' hh' => ?_, fun e he => absurd he (hE n e)⟩
    rw [List.append_assoc]
    refine hQ _ fun a ha => ?_
    rcases List.mem_cons.mp ha with rfl | ha
    · trivial
    · exact hh' a ha

theorem recordEvent_routine (actorCn : String) (action : AuditAction) (target : Option String)
    (result : AuditResult) (details : Option Details) :
    Routine (recordEvent actorCn action target result details) :=
  ⟨rfl, fun _ => ⟨rfl, fun _ => ⟨rfl, fun _ => ⟨rfl, fun _ => ⟨rfl, fun _ => trivial⟩⟩⟩⟩⟩

private theorem revoked_routine (identity : MTLSIdentity) (n : Int) : Routine
    (recordEvent identity.commonName .authFailure (some ("cert:" ++ String.ofList (Text.hex n)))
        .rejected (some [("reason", some "certificate revoked"),
          ("serial", some (String.ofList (Text.hex n)))]) >>= fun _ => do
      ask .commit
      log "mtls_cert_revoked"
        [("cn", some identity.commonName), ("serial", some (String.ofList (Text.hex n)))]
      raiseHttp (α := MTLSIdentity) 403 revokedDetail) :=
  (recordEvent_routine _ _ _ _ _).bind fun _ => ⟨rfl, fun _ => ⟨rfl, fun _ => trivial⟩⟩

/-- Where the dependency stands, having checked the serial: through, or on the
way to the rejection. -/
def Checked (identity : MTLSIdentity) (q : Handler MTLSIdentity) (rest : History) :
    Except Exc Bool → Prop
  | .ok false => rest = [] ∧ q = .pure identity
  | .ok true => (∀ a ∈ rest, NoCheck a.call) ∧ q.NeverReturns
  | .error _ => False

/-- The liveness dependency makes one check, and then does what its answer asks
for. -/
theorem requireLiveIdentity_reaches {identity : MTLSIdentity} {n : Int} {h : History}
    {q : Handler MTLSIdentity} (hn : identity.serial = some n)
    (hr : (requireLiveIdentity identity).Reaches h q) (hh : SessionFails h) :
    (h = [] ∧ ∃ c k, q = .call c k) ∨
    ∃ x rest, h = ⟨.isRevoked n, x⟩ :: rest ∧ Checked identity q rest x := by
  unfold requireLiveIdentity at hr
  rw [hn] at hr
  cases hr with
  | refl => exact .inl ⟨rfl, _, _, rfl⟩
  | raised => exact absurd rfl (hh _ _ (List.mem_singleton_self _))
  | @answered _ _ b rest _ hrest =>
    refine .inr ⟨.ok b, rest, rfl, ?_⟩
    cases b with
    | false =>
      change (Prog.pure identity : Handler MTLSIdentity).Reaches rest q at hrest
      cases hrest
      exact ⟨rfl, rfl⟩
    | true =>
      refine ⟨hrest.all ?_, hrest.neverReturns ?_⟩
      · exact ⟨by simp [NoCheck], fun _ => (revoked_routine identity n).mono fun _ =>
          noCheck_of_routine⟩
      · show ∀ _ : Unit, Prog.NeverReturns (recordEvent _ _ _ _ _ >>= _)
        exact fun _ => Prog.NeverReturns.bind _ fun _ _ _ => trivial

/-- **The paths through `MTLSIdentityDep`** of a request with a serial: notes,
then the check, then what follows from it. -/
theorem mtlsIdentityDep_reaches {settings : Settings} {headers : Headers} {identity : MTLSIdentity}
    {n : Int} {h : History} {q : Handler MTLSIdentity}
    (hid : identityOf settings headers = .ok identity) (hn : identity.serial = some n)
    (hr : (mtlsIdentityDep settings headers).Reaches h q) (hh : SessionFails h) :
    ((∀ a ∈ h, IsNote a.call) ∧ ∃ c k, q = .call c k) ∨
    ∃ front x rest, h = front ++ ⟨.isRevoked n, x⟩ :: rest ∧ (∀ a ∈ front, IsNote a.call) ∧
      Checked identity q rest x := by
  have hnotes := hid ▸ notes_getMtlsIdentity settings headers
  rcases hr.bind_inv with ⟨q', hq', rfl⟩ | ⟨front, h₂, a, rfl, ha, h₂q⟩
  · obtain ⟨hfront, hrest⟩ := hnotes.reaches hq' hh
    refine .inl ⟨hfront, ?_⟩
    cases hrest with
    | pure =>
      show ∃ c k, requireLiveIdentity identity = .call c k
      unfold requireLiveIdentity
      rw [hn]
      exact ⟨_, _, rfl⟩
    | note => exact ⟨_, _, rfl⟩
  · obtain ⟨hhfront, hh₂⟩ := hh.of_append
    obtain ⟨hfront, hrest⟩ := hnotes.reaches ha hhfront
    cases hrest
    rcases requireLiveIdentity_reaches hn h₂q hh₂ with ⟨rfl, hq⟩ | ⟨x, rest, rfl, hx⟩
    · exact .inl ⟨by simpa using hfront, hq⟩
    · exact .inr ⟨front, x, rest, rfl, hfront, hx⟩

/-- The history takes the dependency to its return: the endpoint body starts
here. -/
def Admitted (settings : Settings) (headers : Headers) (h : History) (identity : MTLSIdentity) :
    Prop :=
  (mtlsIdentityDep settings headers).Reaches h (.pure identity)

/-- What `require_live_identity` returns is what it was given, its serial checked
if there is one. -/
theorem requireLiveIdentity_returns {a identity : MTLSIdentity} {h : History}
    (hr : (requireLiveIdentity a).Reaches h (.pure identity)) (hh : SessionFails h) :
    a = identity ∧ ((identity.serial = none ∧ h = []) ∨
      ∃ n, identity.serial = some n ∧ h = [⟨.isRevoked n, .ok false⟩]) := by
  rcases hs : a.serial with _ | n
  · unfold requireLiveIdentity at hr
    rw [hs] at hr
    cases hr
    exact ⟨rfl, .inl ⟨hs, rfl⟩⟩
  · rcases requireLiveIdentity_reaches hs hr hh with ⟨-, c, k, hq⟩ | ⟨x, rest, rfl, hx⟩
    · exact absurd hq (by simp)
    · rcases x with e | b
      · exact absurd hx id
      · cases b with
        | false =>
          obtain ⟨rfl, hq⟩ := hx
          obtain rfl := Prog.pure.inj hq
          exact ⟨rfl, .inr ⟨n, hs, rfl⟩⟩
        | true => exact absurd hx.2 id

/-- **The way to the endpoint body**: notes, and then the check of a serial, if
the identity has one. -/
theorem Admitted.way {settings : Settings} {headers : Headers} {h : History}
    {identity : MTLSIdentity} (ha : Admitted settings headers h identity) (hh : SessionFails h) :
    identityOf settings headers = .ok identity ∧ ∃ front, (∀ a ∈ front, IsNote a.call) ∧
      ((identity.serial = none ∧ h = front) ∨
        ∃ n, identity.serial = some n ∧ h = front ++ [⟨.isRevoked n, .ok false⟩]) := by
  have hnotes := notes_getMtlsIdentity settings headers
  generalize identityOf settings headers = r at hnotes ⊢
  obtain ⟨front, rest, a, rfl, hfront, hrest⟩ := ha.bind_returns
  obtain ⟨hhfront, hhrest⟩ := hh.of_append
  obtain ⟨hnote, hend⟩ := hnotes.reaches hfront hhfront
  cases hend
  obtain ⟨rfl, ⟨hs, rfl⟩ | ⟨n, hs, rfl⟩⟩ := requireLiveIdentity_returns hrest hhrest
  · exact ⟨rfl, front, hnote, .inl ⟨hs, List.append_nil _⟩⟩
  · exact ⟨rfl, front, hnote, .inr ⟨n, hs, rfl⟩⟩

/-- An admitted identity is the extracted one, and its serial was checked last. -/
theorem Admitted.checked {settings : Settings} {headers : Headers} {h : History}
    {identity : MTLSIdentity} (ha : Admitted settings headers h identity) (hh : SessionFails h) :
    identityOf settings headers = .ok identity ∧
    ∀ n, identity.serial = some n → ∃ front, h = front ++ [⟨.isRevoked n, .ok false⟩] := by
  obtain ⟨hid, front, -, ⟨hnone, -⟩ | ⟨m, hm, rfl⟩⟩ := ha.way hh
  · exact ⟨hid, fun n hn => absurd (hnone.symm.trans hn) (by simp)⟩
  · refine ⟨hid, fun n hn => ?_⟩
    obtain rfl := Option.some.inj (hm.symm.trans hn)
    exact ⟨front, rfl⟩

/-- Without a serial nothing was checked. -/
theorem Admitted.unchecked {settings : Settings} {headers : Headers} {h : History}
    {identity : MTLSIdentity} (ha : Admitted settings headers h identity) (hh : SessionFails h)
    (hnone : identity.serial = none) : ∀ a ∈ h, IsNote a.call := by
  obtain ⟨-, front, hnote, ⟨-, rfl⟩ | ⟨n, hn, -⟩⟩ := ha.way hh
  · exact hnote
  · exact absurd (hnone.symm.trans hn) (by simp)

/-! ## The endpoint bodies -/

/-- The code checks no serial, and looks a node up with its first call only. -/
def Looks {α : Type} (p : Handler α) : Prop := p.All NoCheck ∧ p.AtFront IsSelect

theorem Looks.of_routine {α : Type} {p : Handler α} (h : Routine p) : Looks p :=
  ⟨h.mono fun _ => noCheck_of_routine, (h.mono fun _ => not_isSelect_of_routine).atFront⟩

theorem Looks.select {α : Type} {nodeId : String} {k : List Node → Handler α}
    (h : ∀ rows, Routine (k rows)) : Looks (.call (.selectNode nodeId) k) :=
  ⟨⟨by simp [NoCheck], fun rows => (h rows).mono fun _ => noCheck_of_routine⟩,
    fun rows => (h rows).mono fun _ => not_isSelect_of_routine⟩

theorem Looks.bind {α β : Type} {p : Handler α} {f : α → Handler β} (h : Looks p)
    (hf : ∀ a, Routine (f a)) : Looks (p >>= f) :=
  ⟨h.1.bind fun a => (hf a).mono fun _ => noCheck_of_routine,
    h.2.bind fun a => (hf a).mono fun _ => not_isSelect_of_routine⟩

theorem scalarOneOrNone_routine {α : Type} (rows : List α) : Routine (scalarOneOrNone rows) := by
  unfold scalarOneOrNone
  split
  next => trivial
  next => trivial
  next => trivial

private theorem rejection_routine {α : Type} (actorCn : String) (target : Option String)
    (details : Option Details) (status : Nat) (detail : String) : Routine
      (recordEvent actorCn .authFailure target .rejected details >>= fun _ => do
        ask .commit
        raiseHttp (α := α) status detail) :=
  (recordEvent_routine _ _ _ _ _).bind fun _ => ⟨rfl, fun _ => trivial⟩

theorem registerNode_looks (payload : NodeCreate) (identity : MTLSIdentity) :
    Looks (registerNode payload identity) := by
  unfold registerNode
  split
  next => exact .of_routine (rejection_routine _ _ _ _ _)
  next =>
    refine .select fun rows => (scalarOneOrNone_routine rows).bind fun existing => ?_
    rcases existing with _ | row
    · refine ⟨rfl, fun _ => ⟨rfl, fun _ => ⟨rfl, fun _ => ⟨rfl, fun _ =>
        (recordEvent_routine _ _ _ _ _).bind fun _ => ?_⟩⟩⟩⟩
      exact ⟨rfl, fun _ => ⟨rfl, fun _ => trivial⟩⟩
    · exact ⟨rfl, fun _ => trivial⟩

theorem heartbeat_looks (nodeId : String) (body : NodeHeartbeat) (identity : MTLSIdentity) :
    Looks (heartbeat nodeId body identity) := by
  unfold heartbeat
  refine .select fun rows => (scalarOneOrNone_routine rows).bind fun node => ?_
  rcases node with _ | node
  · trivial
  · refine Prog.All.ite (rejection_routine _ _ _ _ _) ⟨rfl, fun now => ⟨rfl, fun _ => ?_⟩⟩
    refine Prog.All.ite ?_ ?_
    · exact (recordEvent_routine _ _ _ _ _).bind fun _ => ⟨rfl, fun _ => ⟨rfl, fun _ => trivial⟩⟩
    · exact ⟨rfl, fun _ => ⟨rfl, fun _ => ⟨rfl, fun _ => trivial⟩⟩⟩

/-- **No endpoint body** checks a serial, or looks a node up later than first
thing. -/
theorem body_looks {ep : Endpoint} {body : MTLSIdentity → Handler Response}
    (hbody : ep.body? = some body) (identity : MTLSIdentity) : Looks (body identity) := by
  cases ep with
  | health => simp [Endpoint.body?] at hbody
  | whoami =>
    obtain rfl := Option.some.inj hbody
    exact .of_routine trivial
  | listNodes =>
    obtain rfl := Option.some.inj hbody
    exact .of_routine ⟨rfl, fun _ => ⟨rfl, fun _ => Prog.All.ite trivial trivial⟩⟩
  | registerNode b =>
    obtain rfl := Option.some.inj hbody
    rcases b with _ | b
    · exact .of_routine trivial
    · dsimp only
      split
      next => exact .of_routine trivial
      next => exact (registerNode_looks _ _).bind fun _ => Prog.All.ite trivial trivial
  | getNode nodeId =>
    obtain rfl := Option.some.inj hbody
    refine Looks.bind (.select fun rows => (scalarOneOrNone_routine rows).bind fun node => ?_)
      fun _ => Prog.All.ite trivial trivial
    rcases node with _ | node <;> trivial
  | heartbeat nodeId b =>
    obtain rfl := Option.some.inj hbody
    rcases b with _ | b
    · exact .of_routine trivial
    · exact (heartbeat_looks _ _ _).bind fun _ => Prog.All.ite trivial trivial
  | listAuditEvents limit offset actorCn action result =>
    obtain rfl := Option.some.inj hbody
    exact .of_routine (Prog.All.ite trivial ⟨rfl, fun _ => Prog.All.ite trivial trivial⟩)

/-- The calls of endpoint bodies: neither a check of a serial, nor the counter
of authentications. -/
def Call.ofBody : Call → Bool
  | .isRevoked _ => false
  | .note (.mtlsAuth _) => false
  | _ => true

theorem recordEvent_ofBody (actorCn : String) (action : AuditAction) (target : Option String)
    (result : AuditResult) (details : Option Details) :
    (recordEvent actorCn action target result details).All (·.ofBody = true) :=
  ⟨rfl, fun _ => ⟨rfl, fun _ => ⟨rfl, fun _ => ⟨rfl, fun _ => ⟨rfl, fun _ => trivial⟩⟩⟩⟩⟩

private theorem rejection_ofBody {α : Type} (actorCn : String) (target : Option String)
    (details : Option Details) (status : Nat) (detail : String) :
    (recordEvent actorCn .authFailure target .rejected details >>= fun _ => do
        ask .commit
        raiseHttp (α := α) status detail).All (·.ofBody = true) :=
  (recordEvent_ofBody _ _ _ _ _).bind fun _ => ⟨rfl, fun _ => trivial⟩

theorem registerNode_ofBody (payload : NodeCreate) (identity : MTLSIdentity) :
    (registerNode payload identity).All (·.ofBody = true) := by
  unfold registerNode
  refine Prog.All.ite (rejection_ofBody _ _ _ _ _) ⟨rfl, fun rows => ?_⟩
  rcases rows with _ | ⟨row, _ | ⟨row', rows⟩⟩
  · refine ⟨rfl, fun _ => ⟨rfl, fun _ => ⟨rfl, fun _ => ⟨rfl, fun _ =>
      (recordEvent_ofBody _ _ _ _ _).bind fun _ => ?_⟩⟩⟩⟩
    exact ⟨rfl, fun _ => ⟨rfl, fun _ => trivial⟩⟩
  · exact ⟨rfl, fun _ => trivial⟩
  · trivial

theorem heartbeat_ofBody (nodeId : String) (body : NodeHeartbeat) (identity : MTLSIdentity) :
    (heartbeat nodeId body identity).All (·.ofBody = true) := by
  unfold heartbeat
  refine ⟨rfl, fun rows => ?_⟩
  rcases rows with _ | ⟨row, _ | ⟨row', rows⟩⟩
  · trivial
  · refine Prog.All.ite (rejection_ofBody _ _ _ _ _) ⟨rfl, fun now => ⟨rfl, fun _ => ?_⟩⟩
    refine Prog.All.ite ?_ ⟨rfl, fun _ => ⟨rfl, fun _ => ⟨rfl, fun _ => trivial⟩⟩⟩
    exact (recordEvent_ofBody _ _ _ _ _).bind fun _ => ⟨rfl, fun _ => ⟨rfl, fun _ => trivial⟩⟩
  · trivial

/-- What endpoint bodies call. -/
theorem body_ofBody {ep : Endpoint} {body : MTLSIdentity → Handler Response}
    (hbody : ep.body? = some body) (identity : MTLSIdentity) :
    (body identity).All (·.ofBody = true) := by
  have hrespond : ∀ status n, (respondNode status n).All (·.ofBody = true) :=
    fun _ _ => Prog.All.ite trivial trivial
  cases ep with
  | health => simp [Endpoint.body?] at hbody
  | whoami =>
    obtain rfl := Option.some.inj hbody
    trivial
  | listNodes =>
    obtain rfl := Option.some.inj hbody
    exact ⟨rfl, fun _ => ⟨rfl, fun _ => Prog.All.ite trivial trivial⟩⟩
  | registerNode b =>
    obtain rfl := Option.some.inj hbody
    rcases b with _ | b
    · trivial
    · dsimp only
      split
      next => trivial
      next => exact (registerNode_ofBody _ _).bind (hrespond 201)
  | getNode nodeId =>
    obtain rfl := Option.some.inj hbody
    refine Prog.All.bind ⟨rfl, fun rows => ?_⟩ (hrespond 200)
    rcases rows with _ | ⟨row, _ | ⟨row', rows⟩⟩
    · trivial
    · trivial
    · trivial
  | heartbeat nodeId b =>
    obtain rfl := Option.some.inj hbody
    rcases b with _ | b
    · trivial
    · exact (heartbeat_ofBody _ _ _).bind (hrespond 200)
  | listAuditEvents limit offset actorCn action result =>
    obtain rfl := Option.some.inj hbody
    exact Prog.All.ite trivial ⟨rfl, fun _ => Prog.All.ite trivial trivial⟩

/-! ## Whole requests -/

variable {settings : Settings}

/-- The history of an answered request with a serial: notes, its one check,
and nothing that checks again. -/
theorem app_checks {req : Request} {identity : MTLSIdentity} {n : Int} {h : History}
    {q : Handler Response} {r : Except Exc Response} (hreq : req.endpoint.body? ≠ none)
    (hid : identityOf settings req.headers = .ok identity) (hn : identity.serial = some n)
    (hr : (app settings req).Reaches h q) (hq : q.result? = some r) (hh : SessionFails h) :
    ∃ front b rest, h = front ++ ⟨.isRevoked n, .ok b⟩ :: rest ∧ (∀ a ∈ front, IsNote a.call) ∧
      (∀ a ∈ rest, NoCheck a.call) ∧
      (b = false → Admitted settings req.headers (front ++ [⟨.isRevoked n, .ok b⟩]) identity) := by
  obtain ⟨body, hbody⟩ := Option.ne_none_iff_exists'.mp hreq
  unfold app at hr
  rw [hbody] at hr
  rcases hr.bind_inv with ⟨q', hq', rfl⟩ | ⟨h₁, h₂, a, rfl, ha, h₂q⟩
  · -- the dependency has not returned, or the body has made no call
    -- was the certificate's serial asked for, and what was the answer?
    rcases mtlsIdentityDep_reaches hid hn hq' hh with ⟨-, d, k, rfl⟩ |
      ⟨front, x, rest, rfl, hfront, hx⟩
    · simp [Prog.result?] at hq
    · rcases x with e | b
      · exact absurd hx id
      · cases b with
        | false =>
          obtain ⟨rfl, rfl⟩ := hx
          exact ⟨front, false, [], rfl, hfront, by simp, fun _ => hq'⟩
        | true => exact ⟨front, true, rest, rfl, hfront, hx.1, by simp⟩
  · rcases mtlsIdentityDep_reaches hid hn ha hh.of_append.1 with ⟨-, d, k, hd⟩ |
      ⟨front, x, rest, rfl, hfront, hx⟩
    · exact absurd hd (by simp)
    · rcases x with e | b
      · exact absurd hx id
      · cases b with
        | false =>
          obtain ⟨rfl, hpure⟩ := hx
          refine ⟨front, false, h₂, by simp, hfront, h₂q.all (body_looks hbody a).1, fun _ => ?_⟩
          rw [hpure] at ha
          exact ha
        | true => exact absurd hx.2 id

/-- A handler that only notes calls nothing else. -/
theorem Notes.all {α : Type} {p : Handler α} {r : Except Exc α} (hp : Notes p r) :
    p.All IsNote := by
  induction hp with
  | pure a => trivial
  | throw e => trivial
  | note _ ih => exact ⟨trivial, fun _ => ih⟩

theorem mtlsIdentityDep_selects (settings : Settings) (headers : Headers) :
    (mtlsIdentityDep settings headers).All (¬ IsSelect ·) := by
  refine Prog.All.bind ?_ fun identity => ?_
  · refine (notes_getMtlsIdentity settings headers).all.mono fun c hc => ?_
    rintro ⟨nodeId, rfl⟩
    exact hc
  · unfold requireLiveIdentity
    rcases identity.serial with _ | n
    · trivial
    · refine ⟨by simp [IsSelect], fun b => ?_⟩
      cases b with
      | false => trivial
      | true =>
        exact ⟨by simp [IsSelect], fun _ => (revoked_routine identity n).mono fun _ =>
          not_isSelect_of_routine⟩

/-- A request looks at most one node up. -/
theorem app_selects_once {req : Request} {h : History} {q : Handler Response}
    (hr : (app settings req).Reaches h q) :
    ∀ a ∈ h, ∀ b ∈ h, IsSelect a.call → IsSelect b.call → a = b := by
  intro a ha b hb hsa hsb
  unfold app at hr
  rcases hbody : req.endpoint.body? with _ | body
  · rw [hbody] at hr
    have hhealth : (health : Handler Response).All (¬ IsSelect ·) :=
      ⟨by simp [IsSelect], fun _ => trivial⟩
    exact absurd hsa (hr.all hhealth a ha)
  · rw [hbody] at hr
    rcases hr.bind_inv with ⟨q', hq', rfl⟩ | ⟨h₁, h₂, identity, rfl, h₁q, h₂q⟩
    · exact absurd hsa (hq'.all (mtlsIdentityDep_selects settings req.headers) a ha)
    · -- what looks a node up is the first call of the body
      have hin : ∀ d ∈ h₁ ++ h₂, IsSelect d.call → d ∈ h₂ := by
        intro d hd hs
        refine (List.mem_append.mp hd).resolve_left fun hd => ?_
        exact absurd hs (h₁q.all (mtlsIdentityDep_selects settings req.headers) d hd)
      obtain ⟨rest, rfl, hrest⟩ :=
        h₂q.atFront (body_looks hbody identity).2 a (hin a ha hsa) hsa
      rcases List.mem_cons.mp (hin b hb hsb) with rfl | hb
      · rfl
      · exact absurd hsb (hrest b hb)

/-- **A node is looked up on admission**, before anything else is done. -/
theorem app_select_admitted {req : Request} {h : History} {nodeId : String}
    {k : List Node → Handler Response}
    (hr : (app settings req).Reaches h (.call (.selectNode nodeId) k)) :
    ∃ identity, Admitted settings req.headers h identity := by
  unfold app at hr
  rcases hbody : req.endpoint.body? with _ | body
  · rw [hbody] at hr
    change (Prog.call .utcnow _).Reaches h _ at hr
    cases hr with
    | answered hrest => cases hrest
  · rw [hbody] at hr
    rcases hr.bind_inv with ⟨q', hq', hq⟩ | ⟨h₁, h₂, identity, rfl, h₁q, h₂q⟩
    · cases q' with
      | pure a => exact ⟨a, hq'⟩
      | throw e => exact absurd hq (by simp)
      | call c k' =>
        rw [Prog.call_bind] at hq
        obtain ⟨rfl, -⟩ := Prog.call.inj hq
        exact absurd ⟨nodeId, rfl⟩
          (hq'.all_rest (mtlsIdentityDep_selects settings req.headers)).1
    · obtain rfl := h₂q.eq_nil_of_atFront (body_looks hbody identity).2 ⟨nodeId, rfl⟩
      rw [List.append_nil]
      exact ⟨identity, h₁q⟩

/-- Up to its admission a request has only noted and checked. -/
theorem Admitted.calls {headers : Headers} {h : History} {identity : MTLSIdentity}
    (ha : Admitted settings headers h identity) (hh : SessionFails h) :
    ∀ a ∈ h, IsNote a.call ∨ ∃ n, a.call = .isRevoked n := by
  obtain ⟨h₁, h₂, identity', rfl, h₁q, h₂q⟩ := ha.bind_returns
  obtain ⟨hh₁, hh₂⟩ := hh.of_append
  have hnotes := ((notes_getMtlsIdentity settings headers).reaches h₁q hh₁).1
  intro a ha
  rcases List.mem_append.mp ha with ha | ha
  · exact .inl (hnotes a ha)
  · rcases hs : identity'.serial with _ | n
    · unfold requireLiveIdentity at h₂q
      rw [hs] at h₂q
      cases h₂q
      exact absurd ha (by simp)
    · rcases requireLiveIdentity_reaches hs h₂q hh₂ with ⟨rfl, -⟩ | ⟨x, rest, rfl, hx⟩
      · exact absurd ha (by simp)
      · rcases List.mem_cons.mp ha with rfl | hrest
        · exact .inr ⟨n, rfl⟩
        · rcases x with e | b
          · exact absurd hx id
          · cases b with
            | false =>
              rw [hx.1] at hrest
              exact absurd hrest (by simp)
            | true => exact absurd hx.2 id

/-- No check up to the admission of a request has found it revoked. -/
theorem Admitted.live {headers : Headers} {h : History} {identity : MTLSIdentity}
    (ha : Admitted settings headers h identity) (hh : SessionFails h) : Live h := by
  obtain ⟨h₁, h₂, identity', rfl, h₁q, h₂q⟩ := ha.bind_returns
  obtain ⟨hh₁, hh₂⟩ := hh.of_append
  have hnotes := ((notes_getMtlsIdentity settings headers).reaches h₁q hh₁).1
  intro n hmem
  rcases List.mem_append.mp hmem with hmem | hmem
  · exact hnotes _ hmem
  · rcases hs : identity'.serial with _ | n'
    · unfold requireLiveIdentity at h₂q
      rw [hs] at h₂q
      cases h₂q
      exact absurd hmem (by simp)
    · rcases requireLiveIdentity_reaches hs h₂q hh₂ with ⟨rfl, -⟩ | ⟨x, rest, rfl, hx⟩
      · exact absurd hmem (by simp)
      · rcases x with e | b
        · exact absurd hx id
        · cases b with
          | false =>
            rw [hx.1] at hmem
            simp at hmem
          | true => exact absurd hx.2 id

/-- No check of a request that has looked a node up has found it revoked. -/
theorem app_live {req : Request} {h : History} {q : Handler Response} {a : Act Call Ans Exc}
    (hr : (app settings req).Reaches h q) (hh : SessionFails h) (ha : a ∈ h)
    (hsel : IsSelect a.call) : Live h := by
  intro n hmem
  unfold app at hr
  rcases hbody : req.endpoint.body? with _ | body
  · rw [hbody] at hr
    have hhealth : (health : Handler Response).All (¬ IsSelect ·) :=
      ⟨by simp [IsSelect], fun _ => trivial⟩
    exact absurd hsel (hr.all hhealth a ha)
  · rw [hbody] at hr
    rcases hr.bind_inv with ⟨q', hq', rfl⟩ | ⟨h₁, h₂, identity, rfl, h₁q, h₂q⟩
    · exact absurd hsel (hq'.all (mtlsIdentityDep_selects settings req.headers) a ha)
    · rcases List.mem_append.mp hmem with hmem | hmem
      · exact @Admitted.live settings _ _ _ h₁q hh.of_append.1 n hmem
      · exact absurd rfl (h₂q.all (body_looks hbody identity).1 _ hmem n)

end ZeroTrustLab.Controller
