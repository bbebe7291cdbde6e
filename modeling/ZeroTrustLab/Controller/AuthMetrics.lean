import ZeroTrustLab.Controller.Counters
import ZeroTrustLab.Controller.Confinement
import ZeroTrustLab.Controller.Serial

/-!
# `mtls_auth_total`

Two chained dependencies bump this counter. `get_mtls_identity` counts one of
three rejections, or a success; `require_live_identity`, which runs after it,
counts a revoked certificate. A revoked certificate has by then been counted
as a success.

`authPartition_iff` says that this is the only way in which the labels fail to
partition the attempts: they do just when no request was found revoked.

What a request counts is read off its program: `mtlsIdentityDep_counts` follows
the two dependencies and says what the history of notes holds at each end. An
attempt is a request that has moved and whose endpoint has a body, which is to
say the two dependencies. The totals are then a sum over attempts, and a sum of
ones equals the number of summands just when no summand is two.
-/

namespace ZeroTrustLab.Controller

open Lib

variable {settings : Settings} {headers : Headers} {req : Request} {h : History}

/-! ## What is counted, and what happened -/

def Note.outcome? : Note → Option AuthOutcome
  | .mtlsAuth r => some r
  | _ => none

/-- The labels a request has bumped. -/
def outcomes (h : History) : List AuthOutcome := (notesOf h).filterMap Note.outcome?

@[simp] theorem outcomes_append (h h' : History) : outcomes (h ++ h') = outcomes h ++ outcomes h' := by
  unfold outcomes
  rw [notesOf_append, List.filterMap_append]

/-- The rejections that the headers alone decide. -/
inductive HeadersReject : Headers → AuthOutcome → Prop where
  | missing {headers : Headers} (h : headers.xClientVerify = none ∨ headers.xClientDn = none) :
      HeadersReject headers .missingHeaders
  | unverified {headers : Headers} {verify dn : String} (hv : headers.xClientVerify = some verify)
      (hd : headers.xClientDn = some dn) (hne : verify ≠ "SUCCESS") :
      HeadersReject headers .verifyFailed
  | nameless {headers : Headers} {dn : String} (hv : headers.xClientVerify = some "SUCCESS")
      (hd : headers.xClientDn = some dn) (hcn : cnSearch dn.toList = none) :
      HeadersReject headers .cnParseFailed

/-- The calls of a body count no authentication and find nothing revoked. -/
theorem ofBody_quiet {a : Act Call Ans Exc} (ha : a.call.ofBody = true) :
    outcomes [a] = [] ∧ Live [a] := by
  obtain ⟨d, x⟩ := a
  cases d with
  | isRevoked n => simp [Call.ofBody] at ha
  | note n =>
    cases n with
    | mtlsAuth r => simp [Call.ofBody] at ha
    | log event fields => rcases x with e | x <;> exact ⟨rfl, by simp⟩
    | auditLogged e => rcases x with e | x <;> exact ⟨rfl, by simp⟩
    | auditCount action result => rcases x with e | x <;> exact ⟨rfl, by simp⟩
  | _ => exact ⟨rfl, by simp⟩

/-- What became of an attempt. -/
inductive Happened (settings : Settings) (headers : Headers) (h : History) : AuthOutcome → Prop where
  /-- Both dependencies let it through; its body may still be answered 422. -/
  | admitted {h₁ h₂ : History} {identity : MTLSIdentity} (hh : h = h₁ ++ h₂)
      (ha : Admitted settings headers h₁ identity) : Happened settings headers h .success
  | rejected {r : AuthOutcome} (hr : HeadersReject headers r) : Happened settings headers h r
  | revoked {n : Int} (hn : ⟨.isRevoked n, .ok true⟩ ∈ h) : Happened settings headers h .revoked

theorem HeadersReject.unique {r r' : AuthOutcome} (hr : HeadersReject headers r)
    (hr' : HeadersReject headers r') : r = r' := by
  cases hr with
  | missing hm =>
    cases hr' with
    | missing => rfl
    | unverified hv hd => simp [hv, hd] at hm
    | nameless hv hd => simp [hv, hd] at hm
  | unverified hv hd hne =>
    cases hr' with
    | missing hm => simp [hv, hd] at hm
    | unverified => rfl
    | nameless hv' =>
      rw [hv] at hv'
      exact absurd (Option.some.inj hv') hne
  | nameless hv hd hcn =>
    cases hr' with
    | missing hm => simp [hv, hd] at hm
    | unverified hv' _ hne =>
      rw [hv] at hv'
      exact absurd (Option.some.inj hv').symm hne
    | nameless => rfl

/-- Such headers give no identity. -/
theorem HeadersReject.no_identity (hs : settings.allowUnauthenticated = false) {r : AuthOutcome}
    (hr : HeadersReject headers r) (identity : MTLSIdentity) :
    identityOf settings headers ≠ .ok identity := by
  intro hid
  obtain ⟨dn, group, hv, hd, hcn, -⟩ := identityOf_ok hs hid
  cases hr with
  | missing hm => simp [hv, hd] at hm
  | unverified hv' _ hne =>
    rw [hv] at hv'
    exact hne (Option.some.inj hv').symm
  | nameless _ hd' hnone =>
    rw [hd] at hd'
    obtain rfl := Option.some.inj hd'
    rw [hcn] at hnone
    simp at hnone

/-! ## Down the two dependencies -/

/-- What has been counted when `get_mtls_identity` ends. -/
def IdentityCounts (headers : Headers) (h : History) : Except Exc MTLSIdentity → Prop
  | .ok _ => outcomes h = [.success] ∧ Live h
  | .error _ => ∃ r, outcomes h = [r] ∧ Live h ∧ HeadersReject headers r

private theorem parseSerial_counts (raw : Option String) {h : History}
    (hcount : outcomes h = [.success]) (hlive : Live h) :
    (parseSerial raw).Upholds CanFail (fun _ _ => True)
      (fun h' r => r = .ok (serialOf raw) ∧ outcomes h' = [.success] ∧ Live h') h := by
  unfold parseSerial serialOf
  rcases raw with _ | raw
  · exact ⟨rfl, hcount, hlive⟩
  · by_cases he : raw = ""
    · subst he
      exact ⟨rfl, hcount, hlive⟩
    · simp only [he, if_false, Option.bind_some]
      rcases Text.int16? raw.toList with _ | n
      · refine ⟨trivial, fun _ => ⟨rfl, ?_, by simp [hlive]⟩, fun e he => absurd rfl he⟩
        rw [outcomes_append, hcount]
        rfl
      · exact ⟨rfl, hcount, hlive⟩

private theorem reject_counts {r : AuthOutcome} {event : String} {fields : Details} {status : Nat}
    {detail : String} (hr : HeadersReject headers r) :
    (do
      ask (.note (.mtlsAuth r))
      log event fields
      raiseHttp status detail : Handler MTLSIdentity).Upholds CanFail (fun _ _ => True)
      (IdentityCounts headers) [] :=
  ⟨trivial, fun _ => ⟨trivial, fun _ => ⟨r, rfl, by simp, hr⟩, fun e he => absurd rfl he⟩,
    fun e he => absurd rfl he⟩

/-- Reading the identity counts one outcome, which is the one the headers call
for. -/
theorem getMtlsIdentity_counts (hs : settings.allowUnauthenticated = false) (headers : Headers) :
    (getMtlsIdentity settings headers).Upholds CanFail (fun _ _ => True)
      (IdentityCounts headers) [] := by
  unfold getMtlsIdentity
  rw [if_neg (by simp [hs])]
  rcases hv : headers.xClientVerify with _ | verify
  · exact reject_counts (.missing (.inl hv))
  · rcases hd : headers.xClientDn with _ | dn
    · exact reject_counts (.missing (.inr hd))
    · dsimp only
      by_cases hne : verify ≠ "SUCCESS"
      · rw [if_pos hne]
        exact reject_counts (.unverified hv hd hne)
      · rw [if_neg hne]
        rcases hg : cnSearch dn.toList with _ | group
        · have hok : verify = "SUCCESS" := not_not.mp hne
          exact reject_counts (.nameless (hok ▸ hv) hd hg)
        · refine ⟨trivial, fun _ => ?_, fun e he => absurd rfl he⟩
          refine (parseSerial_counts headers.xClientSerial rfl (by simp)).bind ?_ ?_
          · rintro h serial ⟨-, hcount, hlive⟩
            exact ⟨hcount, hlive⟩
          · rintro h e ⟨he, -⟩
            exact absurd he (by simp)

/-- What follows the count of a revoked certificate: it raises, and counts no
more. -/
private theorem revoked_rest (identity : MTLSIdentity) (n : Int) :
    let rest : Handler MTLSIdentity :=
      recordEvent identity.commonName .authFailure (some ("cert:" ++ String.ofList (Text.hex n)))
        .rejected (some [("reason", some "certificate revoked"),
          ("serial", some (String.ofList (Text.hex n)))]) >>= fun _ => do
        ask .commit
        log "mtls_cert_revoked"
          [("cn", some identity.commonName), ("serial", some (String.ofList (Text.hex n)))]
        raiseHttp 403 revokedDetail
    rest.NeverReturns ∧ rest.All (·.ofBody = true) :=
  ⟨Prog.NeverReturns.bind _ fun _ _ _ => trivial,
    (recordEvent_ofBody _ _ _ _ _).bind fun _ => ⟨rfl, fun _ => ⟨rfl, fun _ => trivial⟩⟩⟩

/-- What has been counted when both have ended: one label, or two. -/
def GateCounts (headers : Headers) (h : History) : Except Exc MTLSIdentity → Prop
  | .ok _ => outcomes h = [.success] ∧ Live h
  | .error _ => (∃ r, outcomes h = [r] ∧ Live h ∧ HeadersReject headers r) ∨
      (outcomes h = [.success, .revoked] ∧ ¬ Live h)

/-- The whole dependency counts that outcome, and a revocation besides. -/
theorem mtlsIdentityDep_counts (hs : settings.allowUnauthenticated = false) (headers : Headers) :
    (mtlsIdentityDep settings headers).Upholds CanFail (fun _ _ => True) (GateCounts headers) [] := by
  refine (getMtlsIdentity_counts hs headers).bind (fun h identity hcounts => ?_)
    fun h e he => .inl he
  obtain ⟨hcount, hlive⟩ := hcounts
  unfold requireLiveIdentity
  rcases identity.serial with _ | n
  · exact ⟨hcount, hlive⟩
  · refine ⟨trivial, fun b => ?_, fun e he => absurd rfl he⟩
    cases b with
    | false =>
      refine ⟨?_, by simp [hlive]⟩
      rw [outcomes_append, hcount]
      rfl
    | true =>
      -- counted a second time, whatever becomes of the audit row
      refine ⟨trivial, fun _ => ?_, fun e he => absurd rfl he⟩
      refine (revoked_rest identity n).1.upholds ((revoked_rest identity n).2.upholds
        (I := fun h' => outcomes h' = [.success, .revoked] ∧ ¬ Live h') ?_ ?_) fun _ _ he => .inr he
      · rintro h' a ha ⟨hcount', hrevoked⟩
        obtain ⟨hnone, -⟩ := ofBody_quiet ha
        exact ⟨by rw [outcomes_append, hcount', hnone]; rfl, by simp [hrevoked]⟩
      · refine ⟨?_, by simp⟩
        rw [outcomes_append, outcomes_append, hcount]
        rfl

/-! ## Of a whole request -/

/-- The calls of a body, all of them. -/
theorem ofBody_quiet_all {h : History} (hh : ∀ a ∈ h, a.call.ofBody = true) :
    outcomes h = [] ∧ Live h := by
  induction h with
  | nil => exact ⟨rfl, live_nil⟩
  | cons a h ih =>
    obtain ⟨hnone, hlive⟩ := ofBody_quiet (hh a (List.mem_cons_self ..))
    obtain ⟨hnone', hlive'⟩ := ih fun b hb => hh b (List.mem_cons_of_mem _ hb)
    rw [show a :: h = [a] ++ h from rfl, outcomes_append, hnone, hnone', live_append]
    exact ⟨rfl, hlive, hlive'⟩

/-- **What an attempt has counted**: its outcome, if nothing was found revoked;
two outcomes, if something was. -/
theorem app_counts (hs : settings.allowUnauthenticated = false) {q : Handler Response}
    {r : Except Exc Response} (hreq : req.endpoint.body? ≠ none)
    (hr : (app settings req).Reaches h q) (hq : q.result? = some r) (hh : SessionFails h) :
    (∃ o, outcomes h = [o] ∧ Live h ∧ Happened settings req.headers h o) ∨
      (outcomes h = [.success, .revoked] ∧ ¬ Live h) := by
  have hgate := mtlsIdentityDep_counts hs req.headers
  obtain ⟨body, hbody⟩ := Option.ne_none_iff_exists'.mp hreq
  unfold app at hr
  rw [hbody] at hr
  -- once the dependency has let the request in, the endpoint body counts nothing more
  have hin : ∀ {h₁ h₂ : History} {identity : MTLSIdentity}, SessionFails h₁ →
      Admitted settings req.headers h₁ identity → (body identity).Reaches h₂ q →
      outcomes (h₁ ++ h₂) = [.success] ∧ Live (h₁ ++ h₂) := by
    intro h₁ h₂ identity hh₁ ha hrest
    obtain ⟨hcount, hlive⟩ : outcomes h₁ = [.success] ∧ Live h₁ := ha.upholds_end hh₁ hgate rfl
    obtain ⟨hnone, hlive'⟩ := ofBody_quiet_all (hrest.all (body_ofBody hbody identity))
    rw [outcomes_append, hcount, hnone, live_append]
    exact ⟨rfl, hlive, hlive'⟩
  -- it ends inside the dependency, or in the endpoint body
  rcases hr.bind_inv with ⟨q', hq', rfl⟩ | ⟨h₁, h₂, identity, rfl, ha, hrest⟩
  · cases q' with
    | pure identity =>
      obtain ⟨hcount, hlive⟩ := @hin h [] identity hh hq' (.refl _)
      rw [List.append_nil] at hcount hlive
      exact .inl ⟨.success, hcount, hlive, .admitted (List.append_nil h).symm hq'⟩
    | throw e =>
      rcases hq'.upholds_end hh hgate rfl with ⟨o, hcount, hlive, hreject⟩ | htwice
      · exact .inl ⟨o, hcount, hlive, .rejected hreject⟩
      · exact .inr htwice
    | call d k => simp [Prog.result?] at hq
  · obtain ⟨hcount, hlive⟩ := hin hh.of_append.1 ha hrest
    exact .inl ⟨.success, hcount, hlive, .admitted rfl ha⟩

/-- One outcome happened to an attempt with nothing revoked. -/
theorem Happened.unique (hs : settings.allowUnauthenticated = false) (hh : SessionFails h)
    (hlive : Live h) {r r' : AuthOutcome} (hr : Happened settings headers h r)
    (hr' : Happened settings headers h r') : r = r' := by
  have hadmitted : ∀ {h₁ h₂ : History} {identity : MTLSIdentity} {o : AuthOutcome}, h = h₁ ++ h₂ →
      Admitted settings headers h₁ identity → ¬ HeadersReject headers o := by
    rintro h₁ h₂ identity o rfl ha hreject
    exact hreject.no_identity hs identity (ha.checked hh.of_append.1).1
  cases hr with
  | admitted hsplit ha =>
    cases hr' with
    | admitted => rfl
    | rejected hreject => exact absurd hreject (hadmitted hsplit ha)
    | revoked hn => exact absurd hn (hlive _)
  | rejected hreject =>
    cases hr' with
    | admitted hsplit ha => exact absurd hreject (hadmitted hsplit ha)
    | rejected hreject' => exact hreject.unique hreject'
    | revoked hn => exact absurd hn (hlive _)
  | revoked hn => exact absurd hn (hlive _)

/-- The health route counts nothing, and checks nothing. -/
theorem health_quiet {q : Handler Response} (hreq : req.endpoint.body? = none)
    (hr : (app settings req).Reaches h q) : outcomes h = [] ∧ Live h := by
  unfold app at hr
  rw [hreq] at hr
  have hhealth : (health : Handler Response).All (·.ofBody = true) := ⟨rfl, fun _ => trivial⟩
  exact ofBody_quiet_all (hr.all hhealth)

/-! ## Of a run -/

variable {reqs : Rid → Request} {w₀ : World} {ls : List (Label Call Ans Exc Rid Env)}
  {c : Cfg Call Ans Exc Response Rid Session World}

/-- The increments of `mtls_auth_total` since process start. -/
def World.mtlsAuth (w : World) : List AuthOutcome := w.notes.filterMap Note.outcome?

/-- The requests that went through `require_live_identity`. -/
def attempts (reqs : Rid → Request) (ls : List (Label Call Ans Exc Rid Env)) : Finset Rid :=
  (movers ls).filter fun i => (reqs i).endpoint.body?.isSome

open Classical in
/-- The labels partition the attempts of a run by what became of them. -/
structure AuthPartition (settings : Settings) (reqs : Rid → Request) (w₀ : World)
    (ls : List (Label Call Ans Exc Rid Env))
    (c : Cfg Call Ans Exc Response Rid Session World) : Prop where
  /-- Each attempt bumps one label, once: that of the one thing that happened. -/
  once : ∀ i ∈ attempts reqs ls, ∃ r, outcomes (acts i ls) = [r] ∧
    ∀ r', Happened settings (reqs i).headers (acts i ls) r' ↔ r' = r
  /-- A label counts the attempts it is the outcome of. -/
  totals : ∀ r, c.world.mtlsAuth.count r = w₀.mtlsAuth.count r +
    ((attempts reqs ls).filter fun i => Happened settings (reqs i).headers (acts i ls) r).card
  /-- The labels together count the attempts. -/
  total : c.world.mtlsAuth.length = w₀.mtlsAuth.length + (attempts reqs ls).card

/-- The counter shows what the attempts have counted; nobody else counts. -/
private theorem serving_mtlsAuth (h : Run settings reqs w₀ ls c) (p : AuthOutcome → Bool) :
    c.world.mtlsAuth.countP p
      = w₀.mtlsAuth.countP p + ∑ i ∈ attempts reqs ls, (outcomes (acts i ls)).countP p := by
  have hall : ∑ i ∈ attempts reqs ls, (outcomes (acts i ls)).countP p
      = ∑ i ∈ movers ls, (outcomes (acts i ls)).countP p := by
    refine Finset.sum_filter_of_ne fun i _ hne => ?_
    rcases hbody : (reqs i).endpoint.body? with _ | body
    · obtain ⟨q, hr⟩ := serving_party h i
      rw [(health_quiet hbody hr).1] at hne
      exact absurd rfl hne
    · rfl
  rw [hall]
  unfold World.mtlsAuth outcomes
  simp only [List.countP_filterMap]
  exact serving_counts h _

/-- What each attempt of a settled run has counted. -/
private theorem settled_counts (hs : settings.allowUnauthenticated = false)
    (h : Run settings reqs w₀ ls c) (hdone : Settled ls c) {i : Rid} (hi : i ∈ attempts reqs ls) :
    (∃ o, outcomes (acts i ls) = [o] ∧ Live (acts i ls) ∧
        Happened settings (reqs i).headers (acts i ls) o) ∨
      (outcomes (acts i ls) = [.success, .revoked] ∧ ¬ Live (acts i ls)) := by
  obtain ⟨hmoved, hbody⟩ := Finset.mem_filter.mp hi
  obtain ⟨r, hr⟩ := hdone i hmoved
  obtain ⟨q, hreach, hq⟩ := serving_reaches h hr
  exact app_counts hs (Option.isSome_iff_ne_none.mp hbody) hreach hq (serving_sessionFails h i)

open Classical in
/-- **One label for each attempt** gives the totals. -/
theorem AuthPartition.of_once (h : Run settings reqs w₀ ls c)
    (once : ∀ i ∈ attempts reqs ls, ∃ r, outcomes (acts i ls) = [r] ∧
      ∀ r', Happened settings (reqs i).headers (acts i ls) r' ↔ r' = r) :
    AuthPartition settings reqs w₀ ls c where
  once := once
  totals r := by
    rw [Finset.card_filter]
    refine (serving_mtlsAuth h (· == r)).trans (congrArg (_ + ·) (Finset.sum_congr rfl ?_))
    intro i hi
    obtain ⟨o, hone, ho⟩ := once i hi
    rw [hone, if_congr (ho r) rfl rfl, List.countP_singleton]
    exact if_congr (by rw [beq_iff_eq, eq_comm]) rfl rfl
  total := by
    rw [Finset.card_eq_sum_ones]
    have hcount := serving_mtlsAuth h fun _ => true
    simp only [List.countP_true] at hcount
    rw [hcount]
    refine congrArg (_ + ·) (Finset.sum_congr rfl fun i hi => ?_)
    obtain ⟨o, hone, -⟩ := once i hi
    rw [hone]
    rfl

/-- **The labels partition the attempts just when nothing was found revoked**,
in every settled run: each attempt is counted under one label, unless its check
has found the serial revoked, and then it is counted under two. -/
theorem authPartition_iff (hs : settings.allowUnauthenticated = false)
    (h : Run settings reqs w₀ ls c) (hdone : Settled ls c) :
    AuthPartition settings reqs w₀ ls c ↔ ∀ i n, ⟨.isRevoked n, .ok true⟩ ∉ acts i ls := by
  constructor
  · intro hpart i n hn
    have hi : i ∈ attempts reqs ls := by
      refine Finset.mem_filter.mpr ⟨?_, ?_⟩
      · exact mem_movers.mpr ⟨_, mem_acts.mp hn, rfl⟩
      · obtain ⟨q, hr⟩ := serving_party h i
        rcases hbody : (reqs i).endpoint.body? with _ | body
        · exact absurd hn ((health_quiet hbody hr).2 n)
        · rfl
    obtain ⟨r, hone, -⟩ := hpart.once i hi
    rcases settled_counts hs h hdone hi with ⟨o, -, hlive, -⟩ | ⟨htwice, -⟩
    · exact hlive n hn
    · rw [htwice] at hone
      simp at hone
  · intro hlive
    refine .of_once h fun i hi => ?_
    rcases settled_counts hs h hdone hi with ⟨o, hone, -, ho⟩ | ⟨-, hrevoked⟩
    · refine ⟨o, hone, fun r' => ⟨fun hr' => ?_, ?_⟩⟩
      · exact hr'.unique hs (serving_sessionFails h i) (hlive i) ho
      · rintro rfl
        exact ho
    · exact absurd (hlive i) hrevoked

/-! ## One request of a node -/

/-- It asks who it is. -/
def asksWhoami : Rid → Request := arrivals [.request ⟨nodeHeaders, .whoami⟩]

/-- A new process that holds these serials revoked. -/
def World.holding (revoked : Finset Int) : World := { World.start with revokedSerials := revoked }

/-- It runs alone. -/
private def whoamiRun (revoked : Finset Int) :
    List (Label Call Ans Exc Rid Env) × Cfg Call Ans Exc Response Rid Session World :=
  controller.play (serving {} asksWhoami (.holding revoked)) (List.replicate 15 0)

private theorem whoamiRun_run (revoked : Finset Int) :
    Run {} asksWhoami (.holding revoked) (whoamiRun revoked).1 (whoamiRun revoked).2 :=
  controller.play_steps _ _

private theorem whoamiRun_attempts {revoked : Finset Int}
    (hmoved : movers (whoamiRun revoked).1 = {0}) :
    attempts asksWhoami (whoamiRun revoked).1 = {0} := by
  unfold attempts
  rw [hmoved]
  rfl

/-- A request with a revoked certificate is one attempt, counted as a success
and as a rejection. -/
theorem revoked_counted_twice :
    ∃ ls c, Run {} asksWhoami (.holding {1}) ls c ∧ Settled ls c ∧ attempts asksWhoami ls = {0} ∧
      (c.party 0).status = .done (.error (.http 403 revokedDetail)) ∧
      c.world.mtlsAuth = [.success, .revoked] ∧
      ¬ AuthPartition {} asksWhoami (.holding {1}) ls c := by
  have hmoved : movers (whoamiRun {1}).1 = {0} := by decide +kernel
  have hcount : (whoamiRun {1}).2.world.mtlsAuth = [.success, .revoked] := by decide +kernel
  have hattempts := whoamiRun_attempts hmoved
  refine ⟨_, _, whoamiRun_run {1}, settled_single hmoved (by decide +kernel), hattempts,
    Status.eq_done (by decide +kernel), hcount, fun hpart => ?_⟩
  have htotal := hpart.total
  rw [hcount, hattempts] at htotal
  exact absurd htotal (by decide)

/-- The move finds nothing revoked. -/
private def clears : Label Call Ans Exc Rid Env → Bool
  | .call _ ⟨.isRevoked _, .ok true⟩ => false
  | _ => true

/-- A request with a live certificate is counted once. -/
theorem live_counted_once :
    ∃ ls c, Run {} asksWhoami (.holding ∅) ls c ∧ Settled ls c ∧ attempts asksWhoami ls = {0} ∧
      c.world.mtlsAuth = [.success] ∧ AuthPartition {} asksWhoami (.holding ∅) ls c := by
  have hmoved : movers (whoamiRun ∅).1 = {0} := by decide +kernel
  have hcleared : (whoamiRun ∅).1.all clears = true := by decide +kernel
  have hsettled : Settled (whoamiRun ∅).1 (whoamiRun ∅).2 :=
    settled_single hmoved (by decide +kernel)
  refine ⟨_, _, whoamiRun_run ∅, hsettled, whoamiRun_attempts hmoved, by decide +kernel,
    (authPartition_iff rfl (whoamiRun_run ∅) hsettled).mpr fun i n hn => ?_⟩
  exact absurd (List.all_eq_true.mp hcleared _ (mem_acts.mp hn)) (by simp [clears])

end ZeroTrustLab.Controller
