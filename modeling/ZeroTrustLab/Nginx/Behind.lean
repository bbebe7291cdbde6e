import ZeroTrustLab.Nginx.FrontDoor
import ZeroTrustLab.Controller.Progress
import ZeroTrustLab.Controller.SerialText

/-!
# Requests that come through nginx

The application alone lets a request pass that carries no serial, and with
`allow_unauthenticated` one that carries nothing at all. Behind nginx it meets
neither: `Brought cert req` says that `req` is what has become of some raw
request of a client with the certificate `cert`, and of every such request the
three headers are nginx's (`through_api`).

So `admitted_through_nginx` can say of every run and all settings what the
application alone cannot: whoever is admitted is the holder of the certificate,
whose serial was checked and was not in the last good CRL. And
`revoked_powerless` says what revocation comes to: from the refresh on that
delivers the serial, no request made with the certificate, to whatever target and
with whatever headers, is answered with a success or changes a node.

Both rest on the same chain: the route that serves a request says where its
path resolves, so it has come through the location `/api/`, so its headers are
nginx's, so its serial is one the controller can parse. The rest is what
`Admission` says of requests with a serial, and every fact of `FrontDoor` about
spoofed headers has been used up on the way.
-/

namespace ZeroTrustLab.Nginx

open Lib
open Lib.Text (Spells)
open Lib.Url (octets unquote)
open Controller (Admitted AuditAction CrlAnswer controller Endpoint Env Exc Headers MTLSIdentity
  Method Outcome Response Rid Route Run Session SessionFails Settings Time World Write crls
  identityOf lastGood render resolve revokedDetail serialOf serving serving_check
  serving_outcome serving_sessionFails statusOf)

/-! ## The identity of a certificate -/

private theorem toLower_toUpper {d : ℕ} (hd : d < 16) :
    (Nat.digitChar d).toUpper.toLower = Nat.digitChar d := by
  interval_cases d <;> rfl

/-- nginx's text of a serial is a spelling of it. -/
theorem spells_serialText (n : ℕ) : Spells n (serialText n) := by
  have hback : ((Nat.toDigits 16 n).map Char.toUpper).map Char.toLower = Nat.toDigits 16 n := by
    rw [List.map_map]
    conv_rhs => rw [← List.map_id (Nat.toDigits 16 n)]
    refine List.map_congr_left fun c hc => ?_
    obtain ⟨d, hd, rfl⟩ := Text.mem_toDigits hc
    exact toLower_toUpper hd
  unfold serialText
  dsimp only
  split
  next => exact ⟨0, _, rfl, hback⟩
  next => exact ⟨1, _, rfl, hback⟩

/-- The controller parses the serial that nginx prints. -/
theorem serialOf_serialText (n : ℕ) :
    serialOf (some (String.ofList (serialText n))) = some (n : ℤ) := by
  unfold serialOf
  rw [Option.bind_some, String.toList_ofList]
  exact Text.int16?_spells (spells_serialText n)

/-- The identity is what the application reads out of the certificate: its printed
subject, the CN that the search finds in that text, and the serial. -/
structure Holds (cert : Certificate) (identity : MTLSIdentity) : Prop where
  fullDn : identity.fullDn = String.ofList (render cert.subject)
  commonName : ∃ group, Controller.cnSearch (render cert.subject) = some group ∧
    identity.commonName = String.ofList (Text.strip group)
  verified : identity.verified = true
  serial : identity.serial = some (cert.serial : ℤ)

/-- The identity that is read out of a certificate's headers is that
certificate's. -/
theorem holds_of_identityOf {settings : Settings} {cert : Certificate} {identity : MTLSIdentity}
    (h : identityOf settings cert.headers = .ok identity) : Holds cert identity := by
  unfold Certificate.headers at h
  split at h
  next =>
    -- nginx sends no empty header, and a missing one is no identity
    rw [Controller.identityOf_eq] at h
    simp at h
  next =>
    rw [Controller.identityOf_verified, String.toList_ofList] at h
    rcases hg : Controller.cnSearch (render cert.subject) with _ | group
    · rw [hg] at h
      simp at h
    · rw [hg] at h
      obtain rfl := Except.ok.inj h
      refine ⟨rfl, ⟨group, hg, rfl⟩, rfl, ?_⟩
      dsimp only
      exact serialOf_serialText cert.serial

/-! ## Requests -/

/-- The endpoint is this route, with its parameters. -/
def Serves : Route → Endpoint → Prop
  | .health, .health => True
  | .whoami, .whoami => True
  | .listNodes, .listNodes => True
  | .registerNode, .registerNode _ => True
  | .getNode nodeId, .getNode nodeId' => nodeId = nodeId'
  | .heartbeat nodeId, .heartbeat nodeId' _ => nodeId = nodeId'
  | .listAuditEvents, .listAuditEvents .. => True
  | _, _ => False

/-- A client with this certificate has sent something that nginx passed on and
that came to the application as `req`. -/
def Brought (cert : Certificate) (req : Controller.Request) : Prop :=
  ∃ conn target client t headers p method route, conn.peer = .verified cert ∧
    handle conn target client = .passed .controller t headers ∧ unquote (pathOf t) = some p ∧
    resolve method p = .found route ∧ Serves route req.endpoint ∧ req.headers = mtlsHeaders headers

/-- A request that nginx brings for a certificate has its headers. -/
theorem Brought.headers {cert : Certificate} {req : Controller.Request} (h : Brought cert req) :
    req.headers = cert.headers := by
  obtain ⟨conn, target, client, t, headers, p, method, route, hpeer, hpass, hp, hr, -, he⟩ := h
  obtain ⟨cert', hpeer', rfl⟩ := through_api hpass hp hr
  obtain rfl := Peer.verified.inj (hpeer.symm.trans hpeer')
  exact he.trans (mtlsHeaders_api hpeer)

/-- What the application makes of a `GET` of `/api/v1/whoami` by the node. -/
def nodeAsks : Controller.Request :=
  ⟨⟨some "SUCCESS", some "CN=pi-01.thesis.local", some "2A"⟩, .whoami⟩

/-- The request of the example is brought by nginx. -/
theorem nodeAsks_brought : Brought nodeCert nodeAsks := by
  have huri : uri? "/api/v1/whoami".toList = some (octets "/api/v1/whoami") := by decide +kernel
  refine ⟨nodeConn, "/api/v1/whoami".toList, [], _, _, _, .get, .whoami, rfl,
    handle_passes rfl huri (by decide +kernel) (locate_api (octets "v1/whoami")),
    show _ = some "/api/v1/whoami".toList by decide +kernel, by decide +kernel, trivial, ?_⟩
  decide +kernel

/-! ## Admission -/

variable {settings : Settings} {reqs : Rid → Controller.Request} {i : Rid} {cert : Certificate}
  {ls ls' ls₁ ls₂ : List (Label Controller.Call Controller.Ans Exc Rid Env)}
  {c c' : Cfg Controller.Call Controller.Ans Exc Response Rid Session World}

/-- **Whoever is admitted through nginx** has the identity that is read out of the
certificate, whose serial was checked and was not in the last good CRL, whatever
the settings. -/
theorem admitted_through_nginx {identity : MTLSIdentity} (hb : Brought cert (reqs i))
    (h : Run settings reqs .start (ls₁ ++ ls₂) c)
    (ha : Admitted settings (reqs i).headers (acts i ls₁) identity) :
    Holds cert identity ∧ ∃ before after,
      ls₁ = before ++ .call i ⟨.isRevoked cert.serial, .ok false⟩ :: after ∧
      (cert.serial : ℤ) ∉ lastGood (crls before) := by
  have hh : SessionFails (acts i ls₁) := by
    have hall := serving_sessionFails h i
    rw [acts_append] at hall
    exact hall.of_append.1
  obtain ⟨hid, hcheck⟩ := ha.checked hh
  rw [hb.headers] at hid
  have hholds := holds_of_identityOf hid
  obtain ⟨front, hfront⟩ := hcheck _ hholds.serial
  obtain ⟨before, after, rfl, -, -⟩ := acts_cut hfront
  refine ⟨hholds, before, after, rfl, ?_⟩
  have hcut : before ++ .call i ⟨.isRevoked cert.serial, .ok false⟩ :: after ++ ls₂
      = before ++ .call i ⟨.isRevoked cert.serial, .ok false⟩ :: (after ++ ls₂) := by simp
  exact of_decide_eq_false (serving_check h hcut).symm

/-- The node is admitted after a refresh that revoked another certificate. -/
theorem nodeAsks_admitted :
    ∃ ls c identity, Run {} (fun _ => nodeAsks) .start ls c ∧
      Admitted {} nodeAsks.headers (acts 0 ls) identity ∧ Holds nodeCert identity ∧
      ∃ before after, ls = before ++ .call 0 ⟨.isRevoked nodeCert.serial, .ok false⟩ :: after ∧
        (nodeCert.serial : ℤ) ∉ lastGood (crls before) := by
  let ls : List (Label Controller.Call Controller.Ans Exc Rid Env) :=
    [.env (.crl (.ok ⟨200, .ok [.ok 7]⟩)), .call 0 ⟨.note (.mtlsAuth .success), .ok ()⟩,
      .call 0 ⟨.isRevoked 42, .ok false⟩]
  obtain ⟨c, hrun⟩ : ∃ c, Run {} (fun _ => nodeAsks) .start (ls ++ []) c :=
    ⟨_, ((Steps.single (.env _)).snoc (.served rfl rfl)).snoc (.served rfl rfl)⟩
  have hadm : Admitted {} nodeAsks.headers (acts 0 ls) _ := .answered (.answered (.refl _))
  exact ⟨ls, c, _, hrun, hadm, admitted_through_nginx nodeAsks_brought hrun hadm⟩

/-! ## Revocation -/

/-- In `ls'`, which comes after `ls`, the cache holds the serial throughout. -/
def StaysRevoked (n : ℤ) (ls ls' : List (Label Controller.Call Controller.Ans Exc Rid Env)) : Prop :=
  ∀ front, front <+: ls' → n ∈ lastGood (crls (ls ++ front))

/-- Requests deliver nothing to the cache. -/
theorem crls_requests (hby : ∀ lab ∈ ls', lab.by? ≠ none) : crls (ls ++ ls') = crls ls := by
  have hnone : crls ls' = [] := by
    refine List.filterMap_eq_nil_iff.mpr fun lab hlab => ?_
    have hlab := hby lab hlab
    cases lab with
    | call j a => rfl
    | exit j => rfl
    | env e => exact absurd rfl hlab
  unfold crls at hnone ⊢
  rw [List.filterMap_append, hnone, List.append_nil]

/-- What is left to a request with a revoked certificate: it may be recorded,
and it is refused. -/
structure Powerless (i : Rid) (c : Cfg Controller.Call Controller.Ans Exc Response Rid Session World) :
    Prop where
  recorded : ∀ ws ∈ c.world.own i, ∃ e : Controller.AuditEvent, ws = [.insertEvent e] ∧
    e.action = .authFailure
  refused : ∀ r, (c.party i).status = .done r →
    statusOf r = 400 ∨ statusOf r = 401 ∨ statusOf r = 403 ∨ statusOf r = 500

/-- An answered request that has never been told that its serial is live. -/
theorem powerless_of_done {r : Except Exc Response} (hb : Brought cert (reqs i))
    (hreq : (reqs i).endpoint.body? ≠ none) (h : Run settings reqs .start ls c)
    (hlive : ⟨.isRevoked cert.serial, .ok false⟩ ∉ acts i ls) (hd : (c.party i).status = .done r) :
    Powerless i c := by
  have ho := serving_outcome Controller.World.start_fresh h hd
  generalize hown : c.world.own i = own at ho
  suffices hlast : (∀ ws ∈ own, ∃ e : Controller.AuditEvent, ws = [.insertEvent e] ∧
      e.action = .authFailure) ∧
      (statusOf r = 400 ∨ statusOf r = 401 ∨ statusOf r = 403 ∨ statusOf r = 500) by
    refine ⟨hown ▸ hlast.1, fun r' hd' => ?_⟩
    rw [hd] at hd'
    exact (Status.done.inj hd') ▸ hlast.2
  cases ho with
  | health hnone => exact absurd hnone hreq
  | unidentified _ hid =>
    refine ⟨by simp, ?_⟩
    rw [Controller.identityOf_error hid]
    rcases Controller.identityError_status (reqs i).headers.xClientVerify
        (reqs i).headers.xClientDn with hs | hs | hs
    · exact .inl hs
    · exact .inr (.inl hs)
    · exact .inr (.inr (.inl hs))
  | failed hf =>
    refine ⟨by simp, .inr (.inr (.inr ?_))⟩
    rcases hf.1 with rfl | ⟨site, -, rfl⟩ <;> rfl
  | revoked _ _ _ _ ht =>
    refine ⟨fun ws hws => ?_, .inr (.inr (.inl rfl))⟩
    obtain rfl := List.mem_singleton.mp hws
    cases ht with
    | revoked t k _ _ => exact ⟨_, rfl, rfl⟩
  | answered hp =>
    -- behind the check it has been told so
    have hid := hp.extracted
    rw [hb.headers] at hid
    exact absurd (hp.live _ (holds_of_identityOf hid).serial) hlive

/-- **A revoked certificate is powerless**: a request that starts after the
refresh has delivered its serial is refused and changes no node, however it is
interleaved with the others and whatever its client sent. -/
theorem revoked_powerless (hb : Brought cert (reqs i)) (hreq : (reqs i).endpoint.body? ≠ none)
    (h : Run settings reqs .start ls c) (hi : ∀ lab ∈ ls, lab.by? ≠ some i)
    (h' : Steps controller c ls' c') (hrev : StaysRevoked cert.serial ls ls') : Powerless i c' := by
  obtain ⟨ls₃, c'', h'', hby, r, hd⟩ := Controller.can_finish c' i
  have hrun : Run settings reqs .start (ls ++ (ls' ++ ls₃)) c'' := h.trans (h'.trans h'')
  -- it comes to its end without having been told that the serial is live
  have hlive : ⟨.isRevoked cert.serial, .ok false⟩ ∉ acts i (ls ++ (ls' ++ ls₃)) := by
    intro hmem
    rcases List.mem_append.mp (mem_acts.mp hmem) with hmem | hmem
    · exact hi _ hmem rfl
    · obtain ⟨front, rest, he⟩ := List.append_of_mem hmem
      have hcut : ls ++ (ls' ++ ls₃)
          = (ls ++ front) ++ .call i ⟨.isRevoked cert.serial, .ok false⟩ :: rest := by
        rw [he]
        simp
      refine of_decide_eq_false (serving_check hrun hcut).symm ?_
      have hfront : front <+: ls' ++ ls₃ := ⟨_, he.symm⟩
      rcases List.prefix_or_prefix_of_prefix hfront (List.prefix_append ls' ls₃) with hp | ⟨more, rfl⟩
      · exact hrev front hp
      · -- in what follows there is no refresh
        have hmore : more <+: ls₃ := (List.prefix_append_right_inj ls').mp hfront
        have hquiet : ∀ lab ∈ more, lab.by? ≠ none := by
          intro lab hlab hnone
          rw [hby lab (hmore.subset hlab)] at hnone
          exact absurd hnone (by simp)
        rw [← List.append_assoc, crls_requests hquiet]
        exact hrev ls' List.prefix_rfl
  have hend := powerless_of_done hb hreq hrun hlive hd
  have hgrow := (Controller.serving_grows Controller.World.start_fresh (h.trans h') h'').2
  refine ⟨fun ws hws => ?_, fun r' hd' => ?_⟩
  · exact hend.recorded ws ((Controller.own_grows hgrow i).subset hws)
  · refine hend.refused r' ?_
    rw [h''.done_stays hd']
    exact hd'

/-- A refresh delivers the serial of the node, which then asks in vain. -/
theorem nodeAsks_powerless :
    ∃ ls c c' ls', Run {} (fun _ => nodeAsks) .start ls c ∧ Steps controller c ls' c' ∧
      (c'.party 0).status.result?.isSome ∧ Powerless 0 c' := by
  have hrun : Run {} (fun _ => nodeAsks) .start [.env (.crl (.ok ⟨200, .ok [.ok 42]⟩))] _ :=
    Steps.single (.env _)
  refine ⟨_, _, _, _, hrun, controller.play_steps (List.replicate 16 0) _, by decide +kernel, ?_⟩
  refine revoked_powerless nodeAsks_brought (by simp [nodeAsks, Endpoint.body?]) hrun
    (by simp [Label.by?])
    (controller.play_steps _ _) fun front hfront => ?_
  have hquiet : ∀ lab ∈ front, lab.by? ≠ none := by
    intro lab hlab hnone
    obtain ⟨i, -, hi⟩ := controller.play_by _ _ lab (hfront.subset hlab)
    rw [hi] at hnone
    exact absurd hnone (by simp)
  rw [crls_requests hquiet]
  decide +kernel

end ZeroTrustLab.Nginx
