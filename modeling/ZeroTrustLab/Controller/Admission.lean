import ZeroTrustLab.Controller.Runs
import ZeroTrustLab.Controller.Serial

/-!
# Admission

What `MTLSIdentityDep` lets through, and what it turns away, in every run.

`Admitted settings headers h identity` says that the history `h` takes the
dependency to its return: the endpoint body starts there, with that identity.
The paths through the dependency (`mtlsIdentityDep_reaches`) show that a
request with a serial makes one check of it, as its first call that is not a
note; `serving_check` says what that check sees. Together they give
`admitted_only`, what can be said of every admitted request, and
`revocation_enforced`, what happens to every request that carries a serial.

A request without a usable serial makes no check: `identity.serial is not
None` guards it, in `require_live_identity`. And before the first successful
refresh the check finds every serial unrevoked.
-/

namespace ZeroTrustLab.Controller

open Lib (Act Cfg Label Party Prog Record Status Step Steps Text.strip acts acts_append
  acts_call_self acts_cut)

/-! ## In a run -/

variable {settings : Settings} {reqs : Rid → Request} {w₀ : World}
  {ls ls₁ ls₂ : List (Label Call Ans Exc Rid Env)}
  {c : Cfg Call Ans Exc Response Rid Session World}

/-- What the search returns is not empty. -/
theorem cnSearch_ne_nil : ∀ {t g : List Char}, cnSearch t = some g → g ≠ []
  | [], g, h => by simp [cnSearch] at h
  | c :: cs, g, h => by
    rw [cnSearch] at h
    split at h
    next hhit =>
      obtain rfl := Option.some.inj h
      exact hhit.2
    next => exact cnSearch_ne_nil h

/-- **Whoever is admitted**, without the development bypass: nginx said
`SUCCESS`, the subject had a `CN=` with something after it, and a serial that
could be read was not in the last good CRL when it was checked. Without such a
serial nothing was checked. -/
theorem admitted_only {i : Rid} {identity : MTLSIdentity}
    (hs : settings.allowUnauthenticated = false) (h : Run settings reqs .start (ls₁ ++ ls₂) c)
    (ha : Admitted settings (reqs i).headers (acts i ls₁) identity) :
    (reqs i).headers.xClientVerify = some "SUCCESS" ∧
    (∃ dn group, (reqs i).headers.xClientDn = some dn ∧ cnSearch dn.toList = some group ∧
      group ≠ [] ∧ identity.commonName = String.ofList (Text.strip group)) ∧
    identity.serial = serialOf (reqs i).headers.xClientSerial ∧
    (∀ n, identity.serial = some n → ∃ before after,
      ls₁ = before ++ .call i ⟨.isRevoked n, .ok false⟩ :: after ∧
      n ∉ lastGood (crls before)) ∧
    (identity.serial = none → ∀ n x, .call i ⟨.isRevoked n, x⟩ ∉ ls₁) := by
  have hh : SessionFails (acts i ls₁) := by
    have hall := serving_sessionFails h i
    rw [acts_append] at hall
    exact hall.of_append.1
  obtain ⟨hid, hcheck⟩ := ha.checked hh
  obtain ⟨dn, group, hverify, hdn, hsearch, rfl⟩ := identityOf_ok hs hid
  refine ⟨hverify, ⟨dn, group, hdn, hsearch, cnSearch_ne_nil hsearch, rfl⟩, rfl, ?_, ?_⟩
  · intro n hn
    obtain ⟨front, hfront⟩ := hcheck n hn
    obtain ⟨before, after, rfl, -, -⟩ := acts_cut hfront
    refine ⟨before, after, rfl, ?_⟩
    have hcut : before ++ .call i ⟨.isRevoked n, .ok false⟩ :: after ++ ls₂
        = before ++ .call i ⟨.isRevoked n, .ok false⟩ :: (after ++ ls₂) := by simp
    exact of_decide_eq_false (serving_check h hcut).symm
  · intro hnone n x hmem
    exact ha.unchecked hh hnone _ (Lib.mem_acts.mpr hmem)

/-- A node's request without a serial header. -/
def unnumbered : Request := ⟨⟨some "SUCCESS", some "CN=pi-01.thesis.local", none⟩, .whoami⟩

/-- A request whose subject has nothing but a space after `CN=`. -/
def nameless : Request := ⟨⟨some "SUCCESS", some "CN= ,O=x", none⟩, .whoami⟩

/-- Both are admitted in a run in which no CRL was ever fetched, the second with
an empty name. -/
theorem unnumbered_admitted :
    (∃ ls c identity, Run {} (fun _ => unnumbered) .start ls c ∧
      Admitted {} unnumbered.headers (acts 0 ls) identity ∧ identity.serial = none ∧
      crls ls = []) ∧
    ∃ ls c identity, Run {} (fun _ => nameless) .start ls c ∧
      Admitted {} nameless.headers (acts 0 ls) identity ∧ identity.commonName = "" ∧ crls ls = [] :=
  ⟨⟨[.call 0 ⟨.note (.mtlsAuth .success), .ok ()⟩], _, _, .single (.served rfl rfl),
      .answered (.refl _), rfl, rfl⟩,
    ⟨[.call 0 ⟨.note (.mtlsAuth .success), .ok ()⟩], _, _, .single (.served rfl rfl),
      .answered (.refl _), by decide, rfl⟩⟩

/-- The same request with a serial. -/
def numbered : Request := ⟨⟨some "SUCCESS", some "CN=pi-01.thesis.local", some "2A"⟩, .whoami⟩

/-- It is admitted after a refresh that revoked another certificate. -/
theorem numbered_admitted_only :
    ∃ ls c identity, Run {} (fun _ => numbered) .start ls c ∧
      Admitted {} numbered.headers (acts 0 ls) identity ∧ identity.serial = some 42 ∧
      ∃ before after, ls = before ++ .call 0 ⟨.isRevoked 42, .ok false⟩ :: after ∧
        42 ∉ lastGood (crls before) := by
  let ls : List (Label Call Ans Exc Rid Env) :=
    [.env (.crl (.ok ⟨200, .ok [.ok 7]⟩)), .call 0 ⟨.note (.mtlsAuth .success), .ok ()⟩,
      .call 0 ⟨.isRevoked 42, .ok false⟩]
  obtain ⟨c, hrun⟩ : ∃ c, Run {} (fun _ => numbered) .start (ls ++ []) c :=
    ⟨_, ((Steps.single (.env _)).snoc (.served rfl rfl)).snoc (.served rfl rfl)⟩
  have hadm : Admitted {} numbered.headers (acts 0 ls) _ := .answered (.answered (.refl _))
  exact ⟨ls, c, _, hrun, hadm, rfl, (admitted_only rfl hrun hadm).2.2.2.1 42 rfl⟩

/-! ## Revoked certificates -/

/-- A rejection for revocation comes of a check that said so. -/
theorem Outcome.check_of_revoked {req : Request} {F₀ : Fact} {h : History} {d : Database}
    {own : List (List Write)} {identity : MTLSIdentity}
    (ho : Outcome settings req F₀ h d (.error (.http 403 revokedDetail)) own)
    (hid : identityOf settings req.headers = .ok identity) :
    ∃ n, ⟨.isRevoked n, .ok true⟩ ∈ h := by
  generalize hr : (Except.error (.http 403 revokedDetail) : Except Exc Response) = r at ho
  cases ho with
  | health => simp at hr
  | unidentified _ hid' => rw [hid] at hid'; simp at hid'
  | failed hf =>
    obtain ⟨hb, -⟩ := hf
    rcases hb with rfl | ⟨site, -, rfl⟩ <;> simp at hr
  | revoked _ _ _ hrev => exact ⟨_, hrev⟩
  | answered _ ha =>
    cases ha with
    | read _ hread =>
      rcases hread with ⟨body, rfl⟩ | rfl | ⟨detail, rfl⟩ <;> simp at hr
    | beaten _ _ _ hbeat =>
      rcases hbeat with ⟨n, rfl⟩ | rfl | ⟨rfl, -⟩ <;> simp at hr
    | registerForbidden => simp [revokedDetail] at hr
    | heartbeatForbidden => simp [revokedDetail] at hr
    | invalid => simp at hr
    | duplicate => simp at hr
    | clash => simp at hr
    | registered => simp at hr
    | unread => simp at hr
    | missing => simp at hr

/-- A request told that its certificate is revoked ended there: rejected with
the audit row committed, or by a failure of the database. -/
theorem Outcome.of_check {req : Request} {F₀ : Fact} {h : History} {d : Database}
    {r : Except Exc Response} {own : List (List Write)} {identity : MTLSIdentity} {n : Int}
    (ho : Outcome settings req F₀ h d r own) (hreq : req.endpoint.body? ≠ none)
    (hid : identityOf settings req.headers = .ok identity) (hn : identity.serial = some n)
    (hlive : ⟨.isRevoked n, .ok false⟩ ∉ h) :
    (own = [] ∧ ∃ d e, ⟨d, .error e⟩ ∈ h) ∨
    (r = .error (.http 403 revokedDetail) ∧
      ∃ t k, own = [[.insertEvent (Record.setPk k (revokedEvent identity n t))]]) := by
  cases ho with
  | health hnone => exact absurd hnone hreq
  | unidentified _ hid' => rw [hid] at hid'; simp at hid'
  | failed hf => exact .inl ⟨rfl, hf.2.imp fun _ hc => ⟨_, hc⟩⟩
  | revoked _ _ _ _ ht =>
    cases ht with
    | revoked t k hid' hn' =>
      obtain rfl := Except.ok.inj (hid.symm.trans hid')
      obtain rfl := Option.some.inj (hn.symm.trans hn')
      exact .inr ⟨rfl, t, k, rfl⟩
  | answered hp =>
    obtain rfl := Except.ok.inj (hid.symm.trans hp.extracted)
    exact absurd (hp.live n hn) hlive

/-- How a run treated request `i`, whose certificate has the serial `n`: the
trace is cut at its check, which answered `b`. -/
structure Enforced (settings : Settings) (reqs : Rid → Request)
    (ls : List (Label Call Ans Exc Rid Env)) (c : Cfg Call Ans Exc Response Rid Session World)
    (i : Rid) (identity : MTLSIdentity) (n : Int) (r : Except Exc Response)
    (front : List (Label Call Ans Exc Rid Env)) (b : Bool)
    (rest : List (Label Call Ans Exc Rid Env)) : Prop where
  cut : ls = front ++ .call i ⟨.isRevoked n, .ok b⟩ :: rest
  once : ∀ m x, .call i ⟨.isRevoked m, x⟩ ∉ front ++ rest
  sees : b = true ↔ n ∈ lastGood (crls front)
  /-- Not revoked: the endpoint body runs, and the request is not rejected so. -/
  live : b = false →
    Admitted settings (reqs i).headers (acts i (front ++ [.call i ⟨.isRevoked n, .ok b⟩])) identity ∧
    r ≠ .error (.http 403 revokedDetail)
  /-- When the check finds the certificate revoked, no endpoint body runs. -/
  noBody : b = true → ∀ ls₁ ls₂, ls = ls₁ ++ ls₂ → ∀ identity',
    ¬ Admitted settings (reqs i).headers (acts i ls₁) identity'
  /-- When the check finds the certificate revoked, no move of the request
  changes a node. -/
  nodes : b = true → ∀ m m', Moves settings reqs .start ls c i m m' →
    m'.world.db.nodes = m.world.db.nodes
  /-- When the check finds the certificate revoked and no database call of the
  request fails, it is answered 403, having committed one audit row. -/
  rejected : b = true → (∀ d e, .call i ⟨d, .error e⟩ ∉ ls) →
    r = .error (.http 403 revokedDetail) ∧
    ∃ t k, c.world.own i = [[.insertEvent (Record.setPk k (revokedEvent identity n t))]] ∧
      Record.setPk k (revokedEvent identity n t) ∈ c.world.db.events.rows

/-- **Revocation is enforced**: every answered request with a serial checked it
once, against the last good CRL, and was treated accordingly. The CRL is the
last one that had been fetched successfully when the check was made, which may
be older than the request. -/
theorem revocation_enforced {i : Rid} {identity : MTLSIdentity} {n : Int}
    {r : Except Exc Response} (h : Run settings reqs .start ls c)
    (hreq : (reqs i).endpoint.body? ≠ none)
    (hid : identityOf settings (reqs i).headers = .ok identity) (hn : identity.serial = some n)
    (hd : (c.party i).status = .done r) :
    ∃ front b rest, Enforced settings reqs ls c i identity n r front b rest := by
  have hh := serving_sessionFails h i
  obtain ⟨q, hr, hq⟩ := serving_reaches h hd
  obtain ⟨hfront, b, hrest, hcut, hnotes, hno, hadm⟩ := app_checks hreq hid hn hr hq hh
  obtain ⟨front, rest, rfl, rfl, rfl⟩ := acts_cut hcut
  have honce : ∀ m x, .call i ⟨.isRevoked m, x⟩ ∉ front ++ rest := by
    intro m x hmem
    rcases List.mem_append.mp hmem with hmem | hmem
    · exact hnotes _ (Lib.mem_acts.mpr hmem)
    · exact hno _ (Lib.mem_acts.mpr hmem) m rfl
  -- so what its history says of a check is said of this one
  have honly : ∀ m x, ⟨.isRevoked m, x⟩ ∈ acts i (front ++ .call i ⟨.isRevoked n, .ok b⟩ :: rest) →
      (⟨.isRevoked m, x⟩ : Act Call Ans Exc) = ⟨.isRevoked n, .ok b⟩ := by
    intro m x hmem
    have hmem := Lib.mem_acts.mp hmem
    rcases List.mem_append.mp hmem with hm | hm
    · exact absurd (List.mem_append_left _ hm) (honce m x)
    · rcases List.mem_cons.mp hm with he | hm
      · exact (Label.call.inj he).2
      · exact absurd (List.mem_append_right _ hm) (honce m x)
  have hlive : b = true → ⟨.isRevoked n, .ok false⟩
      ∉ acts i (front ++ .call i ⟨.isRevoked n, .ok b⟩ :: rest) := by
    rintro rfl hm
    simpa using honly n _ hm
  have ho := serving_outcome World.start_fresh h hd
  have hsees := serving_check h rfl
  refine ⟨front, b, rest, rfl, honce, by rw [hsees]; exact decide_eq_true_iff, ?_, ?_, ?_, ?_⟩
  · intro hb
    refine ⟨?_, ?_⟩
    · rw [acts_append, acts_call_self]
      exact hadm hb
    · rintro rfl
      obtain ⟨m, hm⟩ := ho.check_of_revoked hid
      have he := honly m _ hm
      subst hb
      simp at he
  · rintro rfl ls₁ ls₂ hls identity' ha
    have hacts : acts i (front ++ .call i ⟨.isRevoked n, .ok true⟩ :: rest)
        = acts i ls₁ ++ acts i ls₂ := by rw [hls, acts_append]
    rw [hacts] at hh honly
    obtain ⟨hid', hlast⟩ := ha.checked hh.of_append.1
    obtain rfl := Except.ok.inj (hid.symm.trans hid')
    obtain ⟨pre, hpre⟩ := hlast n hn
    have he := honly n (.ok false) (List.mem_append_left _ (by rw [hpre]; simp))
    simp at he
  · intro hb m m' hmove
    rcases hmove.own World.start_fresh with hdb | ⟨kind, ws, hws, -, -, ha⟩
    · rw [hdb]
    · -- its own transaction is the audit row, or there is none
      rcases ho.of_check hreq hid hn (hlive hb) with ⟨hown, -⟩ | ⟨-, t, k, hown⟩
      · rw [hown] at hws
        simp at hws
      · rw [hown] at hws
        obtain rfl := List.mem_singleton.mp hws
        exact Lib.Table.ext (Database.applyAll_rows ha).1
  · intro hb hok
    rcases ho.of_check hreq hid hn (hlive hb) with ⟨-, d, e, hf⟩ | ⟨hrej, t, k, hown⟩
    · exact absurd (Lib.mem_acts.mp hf) (hok d e)
    · refine ⟨hrej, t, k, hown, event_of_own World.start_fresh h (i := i) ?_
        (List.mem_singleton_self _)⟩
      rw [hown]
      exact List.mem_singleton_self _

/-- A refresh delivers the serial of a node, whose next request is rejected. -/
theorem numbered_revocation_enforced :
    ∃ ls c identity front b rest, Run {} (fun _ => numbered) .start ls c ∧
      (c.party 0).status = .done (.error (.http 403 revokedDetail)) ∧
      Enforced {} (fun _ => numbered) ls c 0 identity 42 (.error (.http 403 revokedDetail))
        front b rest := by
  obtain ⟨ls, c, hrun, -, -, hdone⟩ := serial_run {} (fun _ => numbered)
    [.env (.crl (.ok ⟨200, .ok [.ok 42]⟩)), .request numbered] 0 (serving {} (fun _ => numbered) .start)
    (by rintro (_ | k) req hk <;> simp_all [requests]) fun _ _ => rfl
  have hd := hdone 0 (.error (.http 403 revokedDetail)) (by decide +kernel)
  obtain ⟨front, b, rest, he⟩ :=
    revocation_enforced hrun (by simp [numbered, Endpoint.body?]) rfl rfl hd
  exact ⟨ls, c, _, front, b, rest, hrun, hd, he⟩

end ZeroTrustLab.Controller
