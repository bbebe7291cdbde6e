import ZeroTrustLab.Lib.UriPath
import ZeroTrustLab.Controller.Routes
import ZeroTrustLab.Controller.SubjectName

/-!
# The TLS server of nginx

`nginx/conf.d/mtls.conf`: the server on port 443 asks every client for a
certificate, chooses a location by the longest prefix of the normalized path,
and answers by itself or passes the request on with the `X-Client-*` headers
set from the certificate.

`proxy_pass` has a variable and no URI part, so the upstream gets the target
as the client sent it: nginx decides on one path and the controller routes
another. `reachable_iff` and `api_identity` say that the two never disagree
about what matters. A path that the controller serves as it stands is reached
under `/api/`, `/docs` and `/openapi.json` only, which keeps `/metrics` inside;
and what comes to an endpoint of the API has come through `/api/`, the one
location that sets all three headers, whatever headers the client sent.

Mirroring notes vs the configuration:
- The path of a target begins with `/` and ends at `?` or `#`. nginx turns away
  one whose escapes are malformed or contain NUL, or which leads above the root.
- A location that ends in `/` and passes its requests on answers the path
  without that `/` with a redirect, unless another location has this name.
- A header set to an empty value is not sent. Of the client's headers, those
  that a `proxy_set_header` names are dropped, in any case of letters, and those
  whose name holds other characters than letters, digits and hyphens.
- The values of the variables that no function of the controller reads are
  left to `Connection.expand`.
-/

namespace ZeroTrustLab.Nginx

open Lib.Url hiding render
open Controller (Headers MTLSIdentity Method Route Settings Subject render resolve)

/-! ## The configuration -/

/-- The values of `proxy_set_header`. -/
inductive Value where
  | sslClientVerify
  | sslClientSDn
  | sslClientSerial
  /-- Any other, as it is written. -/
  | text (t : String)
  deriving DecidableEq, Repr

inductive Upstream where
  | controller
  | grafana
  deriving DecidableEq, Repr

inductive Action where
  /-- `return`. -/
  | answer (status : Nat)
  /-- `proxy_pass`, with the headers set there. -/
  | proxyPass (upstream : Upstream) (setHeaders : List (String × Value))
  deriving DecidableEq, Repr

structure Location where
  name : String
  action : Action
  deriving DecidableEq, Repr

/-- The headers of the one location that serves the API. -/
def apiHeaders : List (String × Value) :=
  [("Host", .text "$host"), ("X-Real-IP", .text "$remote_addr"),
    ("X-Forwarded-For", .text "$proxy_add_x_forwarded_for"), ("X-Forwarded-Proto", .text "$scheme"),
    ("X-Forwarded-Host", .text "$host"), ("X-Client-Verify", .sslClientVerify),
    ("X-Client-DN", .sslClientSDn), ("X-Client-Serial", .sslClientSerial),
    ("Upgrade", .text "$http_upgrade"), ("Connection", .text "upgrade")]

def api : Location := ⟨"/api/", .proxyPass .controller apiHeaders⟩

def docs : Location where
  name := "/docs"
  action := .proxyPass .controller
    [("Host", .text "$host"), ("X-Real-IP", .text "$remote_addr"),
      ("X-Forwarded-For", .text "$proxy_add_x_forwarded_for"), ("X-Client-Verify", .sslClientVerify),
      ("X-Client-DN", .sslClientSDn)]

def openapi : Location where
  name := "/openapi.json"
  action := .proxyPass .controller
    [("Host", .text "$host"), ("X-Client-Verify", .sslClientVerify), ("X-Client-DN", .sslClientSDn)]

def grafana : Location where
  name := "/grafana/"
  action := .proxyPass .grafana
    [("Host", .text "$host"), ("X-Real-IP", .text "$remote_addr"),
      ("X-Forwarded-For", .text "$proxy_add_x_forwarded_for"), ("X-Forwarded-Proto", .text "$scheme"),
      ("X-Forwarded-Host", .text "$host"), ("Upgrade", .text "$http_upgrade"),
      ("Connection", .text "upgrade"), ("X-Client-DN", .sslClientSDn),
      ("X-Client-Verify", .sslClientVerify)]

def grafanaLive : Location where
  name := "/grafana/api/live/"
  action := .proxyPass .grafana
    [("Upgrade", .text "$http_upgrade"), ("Connection", .text "upgrade"), ("Host", .text "$host")]

/-- The `location` blocks, in order. -/
def locations : List Location :=
  [⟨"/health", .answer 200⟩, api, docs, openapi, grafana, grafanaLive, ⟨"/", .answer 404⟩]

/-! ## Requests -/

structure Certificate where
  subject : Subject
  serial : ℕ

/-- How the handshake went. -/
inductive Peer where
  | absent
  | failed (reason : String)
  | verified (cert : Certificate)

structure Connection where
  peer : Peer
  /-- The other variables. -/
  expand : String → String

/-- Hexadecimal digits in upper case, two for each octet of the serial. -/
def serialText (n : ℕ) : List Char :=
  let digits := (Nat.toDigits 16 n).map Char.toUpper
  if digits.length % 2 = 0 then digits else '0' :: digits

def Connection.value (conn : Connection) : Value → String
  | .sslClientVerify =>
    match conn.peer with
    | .absent => "NONE"
    | .failed reason => "FAILED:" ++ reason
    | .verified _ => "SUCCESS"
  | .sslClientSDn =>
    match conn.peer with
    | .verified cert => String.ofList (render cert.subject)
    | _ => ""
  | .sslClientSerial =>
    match conn.peer with
    | .verified cert => String.ofList (serialText cert.serial)
    | _ => ""
  | .text t => conn.expand t

/-- A name that nginx does not ignore. -/
def validName (name : String) : Bool := name.toList.all fun c => c.isAlphanum || c == '-'

/-- Names are compared without regard to case. -/
def lower (name : String) : List Char := name.toList.map Char.toLower

/-- The headers that are sent upstream. -/
def forwarded (conn : Connection) (setHeaders : List (String × Value))
    (client : List (String × String)) : List (String × String) :=
  (setHeaders.map fun h => (h.1, conn.value h.2)).filter (fun h => h.2 ≠ "") ++
    client.filter fun h => validName h.1 && setHeaders.all fun g => lower g.1 ≠ lower h.1

/-- The path of a request target. -/
def pathOf (target : List Char) : List Char := target.takeWhile fun c => c ≠ '?' && c ≠ '#'

/-- `$uri`: the normalized path. -/
def uri? (target : List Char) : Option (List UInt8) :=
  if target.head? = some '/' ∧ wellEscaped (pathOf target) then
    normalizePath (unquoteBytes (pathOf target))
  else none

def locate (uri : List UInt8) : Option Location := longest (fun l => octets l.name) locations uri

/-- The path lacks the `/` its location ends in. -/
def redirects (uri : List UInt8) : Bool :=
  locations.all (fun l => octets l.name ≠ uri) && locations.any fun l =>
    match l.action with
    | .proxyPass _ _ => octets l.name = uri ++ [slash]
    | .answer _ => false

inductive Handled where
  | answered (status : Nat)
  | passed (upstream : Upstream) (target : List Char) (headers : List (String × String))
  deriving DecidableEq, Repr

/-- `ssl_verify_client on`: the certificate, without which nothing is served. -/
def Peer.cert? : Peer → Option Certificate
  | .verified cert => some cert
  | _ => none

/-- What the server does with a request. -/
def handle (conn : Connection) (target : List Char) (client : List (String × String)) : Handled :=
  match uri? target with
  | none => .answered 400
  | some uri =>
    if conn.peer.cert?.isNone then .answered 400
    else if redirects uri then .answered 301
    else
      match (locate uri).map Location.action with
      | some (.proxyPass upstream setHeaders) =>
        .passed upstream target (forwarded conn setHeaders client)
      | some (.answer status) => .answered status
      | none => .answered 404

/-! ## What the controller reads -/

/-- `request.headers.get(name)`, for a name in lower case. -/
def header (headers : List (String × String)) (name : String) : Option String :=
  (headers.find? fun h => lower h.1 = name.toList).map Prod.snd

def mtlsHeaders (headers : List (String × String)) : Headers where
  xClientVerify := header headers "x-client-verify"
  xClientDn := header headers "x-client-dn"
  xClientSerial := header headers "x-client-serial"

/-- The headers of a certificate. -/
def Certificate.headers (cert : Certificate) : Headers where
  xClientVerify := some "SUCCESS"
  xClientDn :=
    if render cert.subject = [] then none else some (String.ofList (render cert.subject))
  xClientSerial := some (String.ofList (serialText cert.serial))

/-! ## What is passed on -/

variable {conn : Connection} {target t : List Char} {client : List (String × String)}
  {headers : List (String × String)} {upstream : Upstream}

/-- What is passed on has come with a verified certificate, to a location that
passes on. -/
theorem handle_passed (h : handle conn target client = .passed upstream t headers) :
    t = target ∧ ∃ cert uri name setHeaders, conn.peer = .verified cert ∧ uri? target = some uri ∧
      locate uri = some ⟨name, .proxyPass upstream setHeaders⟩ ∧
      headers = forwarded conn setHeaders client := by
  unfold handle at h
  split at h
  next => simp at h
  next uri huri =>
    split at h
    next => simp at h
    next hcert =>
      split at h
      next => simp at h
      next =>
        split at h
        next up setHeaders hloc =>
          obtain ⟨rfl, rfl, rfl⟩ := Handled.passed.inj h
          obtain ⟨⟨name, action⟩, hlocate, rfl⟩ := Option.map_eq_some_iff.mp hloc
          have hpeer : ∃ cert, conn.peer = .verified cert := by
            rcases hp : conn.peer with _ | _ | cert
            · simp [hp, Peer.cert?] at hcert
            · simp [hp, Peer.cert?] at hcert
            · exact ⟨cert, rfl⟩
          obtain ⟨cert, hcert⟩ := hpeer
          exact ⟨rfl, cert, uri, name, setHeaders, hcert, huri, hlocate, rfl⟩
        next => simp at h
        next => simp at h

/-- What comes with one, to such a location and without a redirect, is passed
on. -/
theorem handle_passes {cert : Certificate} {uri : List UInt8} {name : String}
    {setHeaders : List (String × Value)} (hc : conn.peer = .verified cert)
    (huri : uri? target = some uri) (hr : redirects uri = false)
    (hloc : locate uri = some ⟨name, .proxyPass upstream setHeaders⟩) :
    handle conn target client = .passed upstream target (forwarded conn setHeaders client) := by
  unfold handle
  simp [huri, hc, Peer.cert?, hr, hloc]

/-- The header that one `proxy_set_header` sets, and no other. -/
theorem header_forwarded {setHeaders : List (String × Value)} {name : String} {g : String × Value}
    (hset : setHeaders.filter (fun h => lower h.1 = name.toList) = [g]) :
    header (forwarded conn setHeaders client) name
      = if conn.value g.2 = "" then none else some (conn.value g.2) := by
  have hg : g ∈ setHeaders ∧ lower g.1 = name.toList := by
    have hmem : g ∈ setHeaders.filter (fun h => lower h.1 = name.toList) := by
      rw [hset]
      exact List.mem_singleton_self g
    simpa using hmem
  -- a header of the client's under the same name is dropped
  have hclient : (client.filter fun h =>
      validName h.1 && setHeaders.all fun g => lower g.1 ≠ lower h.1).find? (fun h => lower h.1 = name.toList) = none := by
    rw [List.find?_eq_none]
    intro h hh hname
    have hne := (Bool.and_eq_true_iff.mp (List.mem_filter.mp hh).2).2
    have hne := List.all_eq_true.mp hne g hg.1
    exact absurd (hg.2.trans (of_decide_eq_true hname).symm) (of_decide_eq_true hne)
  have hsent : (setHeaders.filter fun h => lower h.1 = name.toList).filter
      (fun h => conn.value h.2 ≠ "") = setHeaders.filter
        ((fun h : String × String => decide (lower h.1 = name.toList) && decide (h.2 ≠ "")) ∘
          fun h => (h.1, conn.value h.2)) := by
    rw [List.filter_filter]
    refine List.filter_congr fun h _ => ?_
    exact Bool.and_comm _ _
  unfold header forwarded
  rw [List.find?_append, hclient, Option.or_none, ← List.head?_filter, List.filter_filter,
    List.filter_map, ← hsent, hset]
  by_cases hv : conn.value g.2 = ""
  · simp [hv]
  · simp [hv]

theorem serialText_ne_nil (n : ℕ) : serialText n ≠ [] := by
  unfold serialText
  dsimp only
  split
  next => simp [Nat.toDigits_ne_nil]
  next => simp

/-- The three headers that `/api/` sends. -/
theorem mtlsHeaders_api {cert : Certificate} (hc : conn.peer = .verified cert) :
    mtlsHeaders (forwarded conn apiHeaders client) = cert.headers := by
  have hverify : header (forwarded conn apiHeaders client) "x-client-verify" = _ :=
    @header_forwarded conn client _ _ ("X-Client-Verify", .sslClientVerify) (by decide +kernel)
  have hdn : header (forwarded conn apiHeaders client) "x-client-dn" = _ :=
    @header_forwarded conn client _ _ ("X-Client-DN", .sslClientSDn) (by decide +kernel)
  have hserial : header (forwarded conn apiHeaders client) "x-client-serial" = _ :=
    @header_forwarded conn client _ _ ("X-Client-Serial", .sslClientSerial) (by decide +kernel)
  unfold mtlsHeaders Certificate.headers
  rw [hverify, hdn, hserial]
  simp [Connection.value, hc, serialText_ne_nil]

/-! ## Which location -/

/-- Whatever begins with `/api/` is taken by that location. -/
theorem locate_api (rest : List UInt8) : locate (octets "/api/" ++ rest) = some api := rfl

/-! ## The paths of the endpoints -/

/-- The segments of a path that some route takes. At most one of them, the
parameter, can be `..`, and it has a fixed one before it. -/
structure ApiPath (p : List Char) (seg : List UInt8) (tail : List (List UInt8)) : Prop where
  path : utf8 p = join (octets "api" :: octets "v1" :: seg :: tail)
  named : ¬ Special seg
  noSlash : slash ∉ seg ∧ ∀ s ∈ tail, slash ∉ s
  parents : tail.count [dot, dot] ≤ 1

/-- A path that some route takes consists of `api`, `v1`, a plain segment and
what follows it. -/
theorem apiPath_of_found {method : Method} {p : List Char} {route : Route}
    (h : resolve method p = .found route) : ∃ seg tail, ApiPath p seg tail := by
  have hmem : route ∈ Controller.candidates method p :=
    List.mem_of_head? (Controller.resolve_found.mp h)
  obtain ⟨entry, hentry, hmatch⟩ := List.mem_filterMap.mp hmem
  obtain ⟨vs, hvs, -⟩ := Option.map_eq_some_iff.mp hmatch
  obtain ⟨last, hend, hp, hlen, hparam⟩ := render_of_match hvs
  -- the line feed that `$` lets through goes with the last segment
  have hlast : last = [] ∨ last = ['\n'] := by simpa [atEnd] using hend
  have hnoSlash : ∀ v ∈ vs, slash ∉ utf8 v := fun v hv => slash_notMem_utf8 (hparam v hv).2
  have hplain : ∀ name : String, name ∈ ["health", "whoami", "nodes", "audit", "heartbeat"] →
      ¬ Special (utf8 (name.toList ++ last)) ∧ slash ∉ utf8 (name.toList ++ last) ∧
        utf8 (name.toList ++ last) ≠ [dot, dot] := by
    rcases hlast with rfl | rfl <;> decide +kernel
  -- the five routes whose path has no parameter
  have hlit : ∀ name : String, name ∈ ["health", "whoami", "nodes", "audit", "heartbeat"] →
      p = "/api/v1/".toList ++ (name.toList ++ last) → ∃ seg tail, ApiPath p seg tail := by
    intro name hname hp
    obtain ⟨hnamed, hslash, -⟩ := hplain name hname
    refine ⟨utf8 (name.toList ++ last), [], ⟨?_, hnamed, ⟨hslash, by simp⟩, by simp⟩⟩
    rw [hp, utf8_append "/api/v1/".toList]
    show utf8 "/api/v1/".toList ++ utf8 (name.toList ++ last) = _
    simp [join]
    rfl
  have hmem := (List.mem_filter.mp hentry).1
  simp only [Controller.routes, List.mem_cons, List.not_mem_nil, or_false] at hmem
  rcases hmem with rfl | rfl | rfl | rfl | rfl | rfl | rfl
  · exact hlit "health" (by simp) hp
  · exact hlit "whoami" (by simp) hp
  · exact hlit "nodes" (by simp) hp
  · exact hlit "nodes" (by simp) hp
  · obtain ⟨v, rfl⟩ := List.length_eq_one_iff.mp (hlen.trans (by simp))
    have hp : p = "/api/v1/nodes/".toList ++ (v ++ last) := by
      simpa [Lib.Url.render] using hp
    have hslash : slash ∉ utf8 (v ++ last) := by
      refine slash_notMem_utf8 fun hmem => ?_
      rcases List.mem_append.mp hmem with hmem | hmem
      · exact (hparam v (List.mem_singleton_self v)).2 hmem
      · rcases hlast with rfl | rfl
        · simp at hmem
        · simp at hmem
    refine ⟨octets "nodes", [utf8 (v ++ last)], ⟨?_, by decide, ⟨by decide, by simpa using hslash⟩, ?_⟩⟩
    · rw [hp, utf8_append "/api/v1/nodes/".toList]
      simp [join]
      rfl
    · exact List.count_le_length
  · obtain ⟨v, rfl⟩ := List.length_eq_one_iff.mp (hlen.trans (by simp))
    have hp : p = "/api/v1/nodes/".toList ++ (v ++ ('/' :: ("heartbeat".toList ++ last))) := by
      simpa [Lib.Url.render] using hp
    obtain ⟨-, hslash, hdots⟩ := hplain "heartbeat" (by simp)
    refine ⟨octets "nodes", [utf8 v, utf8 ("heartbeat".toList ++ last)],
      ⟨?_, by decide, ⟨by decide, ?_⟩, ?_⟩⟩
    · rw [hp, utf8_append "/api/v1/nodes/".toList, utf8_append v, utf8_cons]
      simp [join]
      rfl
    · intro s hs
      rcases List.mem_cons.mp hs with rfl | hs
      · exact hnoSlash v (List.mem_singleton_self v)
      · rw [List.mem_singleton.mp hs]
        exact hslash
    · rw [List.count_cons, List.count_cons_of_ne hdots, List.count_nil]
      split <;> omega
  · exact hlit "audit" (by simp) hp

/-- A path that some route takes is read by nginx as one under `/api/`. -/
theorem ApiPath.under {p : List Char} {seg : List UInt8} {tail : List (List UInt8)}
    {uri : List UInt8} (h : ApiPath p seg tail) (huri : normalizePath (utf8 p) = some uri) :
    octets "/api/" <+: uri := by
  obtain ⟨hpath, hnamed, ⟨hseg, htail⟩, hparents⟩ := h
  have hno : ∀ s ∈ octets "api" :: octets "v1" :: seg :: tail, slash ∉ s := by
    simp only [List.forall_mem_cons]
    exact ⟨by decide, by decide, hseg, htail⟩
  rw [hpath, normalizePath_join (by simp) hno] at huri
  obtain ⟨kept, hkept, rfl⟩ := Option.map_eq_some_iff.mp huri
  have hplain : ∀ s ∈ [octets "api", octets "v1", seg], ¬ Special s := by
    simp only [List.forall_mem_cons]
    exact ⟨by decide, by decide, hnamed, by simp⟩
  have hresolve : resolveDots [seg, octets "v1", octets "api"] tail = some kept := by
    rw [← hkept]
    exact (resolveDots_plain hplain [] tail).symm
  -- the one `..` there may be takes away no more than the third segment
  have hfront : [octets "api", octets "v1"] <+: kept := by
    refine List.IsPrefix.trans ?_ (resolveDots_keeps hresolve)
    show [octets "api", octets "v1", seg].take 2 <+: [octets "api", octets "v1", seg].take _
    refine List.take_prefix_take_left ?_
    rw [List.length_cons, List.length_cons, List.length_cons, List.length_nil]
    omega
  obtain ⟨more, rfl⟩ := hfront
  rw [List.append_assoc, join_append]
  exact (show octets "/api/" <+: join [octets "api", octets "v1"] by decide).trans
    (List.prefix_append _ _)

/-- What the controller reads is normalized to what nginx has normalized, but
for what stands beyond ASCII. -/
theorem normalize_of_uri {p : List Char} {uri : List UInt8} (huri : uri? target = some uri)
    (hp : unquote (pathOf target) = some p) :
    ∃ read, normalizePath (utf8 p) = some read ∧ Alike uri read := by
  unfold uri? at huri
  split at huri
  next =>
    have hrel := (alike_of_unquote hp).normalizePath
    rw [huri] at hrel
    generalize normalizePath (utf8 p) = read? at hrel
    cases hrel with
    | some halike => exact ⟨_, rfl, halike⟩
  next => simp at huri

/-- What comes to an endpoint of the API has come through `/api/`. -/
theorem through_api {method : Method} {p : List Char} {route : Route}
    (h : handle conn target client = .passed .controller t headers)
    (hp : unquote (pathOf t) = some p) (hr : resolve method p = .found route) :
    ∃ cert, conn.peer = .verified cert ∧ headers = forwarded conn apiHeaders client := by
  obtain ⟨rfl, cert, uri, name, setHeaders, hcert, huri, hloc, rfl⟩ := handle_passed h
  obtain ⟨seg, tail, hapi⟩ := apiPath_of_found hr
  obtain ⟨read, hread, halike⟩ := normalize_of_uri huri hp
  obtain ⟨rest, rfl⟩ := halike.symm.prefix_of_ascii (by decide) (hapi.under hread)
  obtain ⟨rfl, hact⟩ := Location.mk.inj (Option.some.inj ((locate_api rest).symm.trans hloc))
  obtain ⟨-, rfl⟩ := Action.proxyPass.inj hact
  exact ⟨cert, hcert, rfl⟩

/-- **No endpoint believes the client**: what comes to one has come with a
certificate and carries its headers, whatever the client sent of its own. -/
theorem api_identity {method : Method} {p : List Char} {route : Route}
    (h : handle conn target client = .passed .controller t headers)
    (hp : unquote (pathOf t) = some p) (hr : resolve method p = .found route) :
    ∃ cert, conn.peer = .verified cert ∧ mtlsHeaders headers = cert.headers := by
  obtain ⟨cert, hcert, rfl⟩ := through_api h hp hr
  exact ⟨cert, hcert, mtlsHeaders_api hcert⟩

theorem nodeType_ok : Controller.cnType.all Controller.typeChar = true := rfl

theorem nodeName_ok : "pi-01.thesis.local".toList.all Controller.printable = true := rfl

/-- The certificate of a node. -/
def nodeCert : Certificate where
  subject := [⟨[⟨Controller.cnType, "pi-01.thesis.local".toList, nodeType_ok, nodeName_ok⟩],
    List.cons_ne_nil _ _⟩]
  serial := 42

/-- A connection made with that certificate. -/
def nodeConn : Connection := ⟨.verified nodeCert, id⟩

/-- It claims to be the controller, under another serial, with a letter of the
path encoded. -/
theorem spoofed_identity :
    ∃ cert, nodeConn.peer = .verified cert ∧
      mtlsHeaders (forwarded nodeConn apiHeaders
        [("X-Client-DN", "CN=controller.thesis.local"), ("x-client-serial", "07")]) = cert.headers := by
  have huri : uri? "/api/v1/%77hoami".toList = some (octets "/api/v1/whoami") := by decide +kernel
  have hr : resolve .get "/api/v1/whoami".toList = .found .whoami := by decide +kernel
  exact api_identity (handle_passes rfl huri (by decide +kernel) (locate_api (octets "v1/whoami")))
    (by decide +kernel) hr

/-! ## What the controller keeps to itself -/

/-- Whatever begins with `/docs` is taken by that location. -/
theorem locate_docs (rest : List UInt8) : locate (octets "/docs" ++ rest) = some docs := rfl

/-- Whatever begins with `/openapi.json` is taken by that location. -/
theorem locate_openapi (rest : List UInt8) :
    locate (octets "/openapi.json" ++ rest) = some openapi := rfl

/-- A path under one of the three prefixes that lead to the controller. -/
def Proxied (path : List UInt8) : Prop :=
  octets "/api/" <+: path ∨ octets "/docs" <+: path ∨ octets "/openapi.json" <+: path

instance (path : List UInt8) : Decidable (Proxied path) := inferInstanceAs (Decidable (_ ∨ _))

/-- The decoded path is one that nginx normalizes to itself. -/
def Normal (p : List Char) : Prop := normalizePath (utf8 p) = some (utf8 p)

instance (p : List Char) : Decidable (Normal p) := inferInstanceAs (Decidable (_ = _))

/-- A normal path that is passed on begins with one of the three prefixes. -/
theorem proxied_of_passed {p : List Char}
    (h : handle conn target client = .passed .controller t headers)
    (hp : unquote (pathOf t) = some p) (hn : Normal p) : Proxied (utf8 p) := by
  obtain ⟨rfl, cert, uri, name, setHeaders, -, huri, hloc, -⟩ := handle_passed h
  obtain ⟨read, hread, halike⟩ := normalize_of_uri huri hp
  obtain rfl : read = utf8 p := Option.some.inj (hread.symm.trans hn)
  obtain ⟨hmem, hprefix⟩ := longest_mem hloc
  simp only [locations, List.mem_cons, List.not_mem_nil, or_false] at hmem
  rcases hmem with he | he | he | he | he | he | he
  · simp at he
  · obtain ⟨rfl, -⟩ := Location.mk.inj he
    exact .inl (halike.prefix_of_ascii (by decide) hprefix)
  · obtain ⟨rfl, -⟩ := Location.mk.inj he
    exact .inr (.inl (halike.prefix_of_ascii (by decide) hprefix))
  · obtain ⟨rfl, -⟩ := Location.mk.inj he
    exact .inr (.inr (halike.prefix_of_ascii (by decide) hprefix))
  · simp [grafana] at he
  · simp [grafanaLive] at he
  · simp at he

/-- Nothing is redirected under a name that no longer one extends. -/
theorem redirects_eq_false {front path : List UInt8} (hfront : front <+: path)
    (hlongest : ∀ l ∈ locations, front <+: octets l.name → (octets l.name).length ≤ front.length) :
    redirects path = false := by
  unfold redirects
  rw [Bool.and_eq_false_iff]
  right
  rw [List.any_eq_false]
  intro l hl hname
  split at hname
  next =>
    have hname := of_decide_eq_true hname
    have hle := hlongest l hl (hname ▸ hfront.trans (List.prefix_append _ _))
    rw [hname, List.length_append, List.length_singleton] at hle
    have hlen := hfront.length_le
    omega
  next => simp at hname

/-- A path that leads to the controller is not redirected. -/
theorem Proxied.located {path : List UInt8} (h : Proxied path) :
    redirects path = false ∧ ∃ name setHeaders,
      locate path = some ⟨name, .proxyPass .controller setHeaders⟩ := by
  rcases h with ⟨rest, rfl⟩ | ⟨rest, rfl⟩ | ⟨rest, rfl⟩
  · exact ⟨redirects_eq_false (List.prefix_append _ _) (by decide +kernel), _, _, locate_api rest⟩
  · exact ⟨redirects_eq_false (List.prefix_append _ _) (by decide +kernel), _, _, locate_docs rest⟩
  · exact ⟨redirects_eq_false (List.prefix_append _ _) (by decide +kernel), _, _, locate_openapi rest⟩

/-- A path as a target: its characters encoded one by one, after the first
slash. -/
theorem uri_quote {q : List Char} (hn : Normal ('/' :: q)) (hnul : (0 : UInt8) ∉ utf8 ('/' :: q)) :
    uri? ('/' :: quote q) = some (utf8 ('/' :: q)) ∧
      unquote (pathOf ('/' :: quote q)) = some ('/' :: q) := by
  have hpath : pathOf ('/' :: quote q) = '/' :: quote q := by
    refine List.takeWhile_eq_self_iff.mpr fun c hc => ?_
    rcases List.mem_cons.mp hc with rfl | hc
    · rfl
    · have hne := quote_chars q c hc
      simp [hne.1, hne.2]
  have hbytes := unquoteBytes_url (show Plain ['/'] by decide) (show Plain [] by decide) q
  have hback := unquote_url (show Plain ['/'] by decide) (show Plain [] by decide) q
  rw [List.append_nil, List.append_nil] at hbytes hback
  have hbytes : unquoteBytes ('/' :: quote q) = utf8 ('/' :: q) := hbytes
  have hback : unquote ('/' :: quote q) = some ('/' :: q) := hback
  rw [hpath]
  refine ⟨?_, hback⟩
  have hescaped : wellEscaped ('/' :: quote q) = true := by
    rw [wellEscaped.eq_def]
    exact wellEscaped_quote fun hmem => hnul (List.mem_cons_of_mem _ hmem)
  unfold uri?
  rw [hpath, if_pos ⟨rfl, hescaped⟩, hbytes]
  exact hn

/-- A plain path as a target is one that nginx reads as it stands. -/
theorem uri_plain (h : PlainPath target) :
    pathOf target = target ∧ uri? target = some (utf8 target) := by
  have hpath : pathOf target = target := by
    refine List.takeWhile_eq_self_iff.mpr fun c hc => ?_
    obtain ⟨-, -, hquery, hfragment⟩ := h.plain c hc
    simp [hquery, hfragment]
  have hslash : target.head? = some '/' := by
    obtain ⟨segs, hne, rfl, -⟩ := h
    obtain ⟨seg, segs, rfl⟩ := List.exists_cons_of_ne_nil hne
    rfl
  refine ⟨hpath, ?_⟩
  unfold uri?
  rw [hpath, if_pos ⟨hslash, wellEscaped_plain fun c hc => (h.plain c hc).2.1⟩,
    h.unquote.1]
  exact h.normal

/-- **The paths that can be reached from outside**: with a certificate, and
whatever the headers, a client can have the controller serve a path just when it
lies under one of the three prefixes. -/
theorem reachable_iff {cert : Certificate} {p : List Char} (hc : conn.peer = .verified cert)
    (hn : Normal p) (hnul : (0 : UInt8) ∉ utf8 p) :
    (∃ target headers, handle conn target client = .passed .controller target headers ∧
      unquote (pathOf target) = some p) ↔ Proxied (utf8 p) := by
  constructor
  · intro ⟨target, headers, h, hp⟩
    exact proxied_of_passed h hp hn
  · intro hproxied
    obtain ⟨hredirects, name, setHeaders, hloc⟩ := hproxied.located
    obtain ⟨rest, hrest⟩ : ∃ rest, utf8 p = slash :: rest := by
      rcases hutf : utf8 p with _ | ⟨c, cs⟩
      · have hnone : locate [] = none := by decide +kernel
        rw [hutf, hnone] at hloc
        simp at hloc
      · unfold Normal at hn
        rw [hutf, normalizePath] at hn
        split at hn
        next hslash => exact ⟨cs, by rw [hslash]⟩
        next => simp at hn
    obtain ⟨q, rfl⟩ := head_of_octet (show '/'.toNat < 128 by decide) hrest
    obtain ⟨huri, hp⟩ := uri_quote hn hnul
    exact ⟨_, _, handle_passes hc huri hredirects hloc, hp⟩

/-- The theorem at one path of the API. -/
theorem whoami_reachable :
    (∃ target headers, handle nodeConn target [] = .passed .controller target headers ∧
      unquote (pathOf target) = some "/api/v1/whoami".toList) ↔
        Proxied (utf8 "/api/v1/whoami".toList) :=
  reachable_iff rfl (by decide +kernel) (by decide +kernel)

/-- `/metrics` and what Starlette would redirect there are not among them. -/
theorem metrics_inside {p : List Char} (hm : p = "/metrics".toList ∨ p = "/metrics/".toList)
    (h : handle conn target client = .passed .controller t headers) :
    unquote (pathOf t) ≠ some p := by
  intro hp
  rcases hm with rfl | rfl
  · exact absurd (proxied_of_passed h hp (by decide +kernel)) (by decide +kernel)
  · exact absurd (proxied_of_passed h hp (by decide +kernel)) (by decide +kernel)

end ZeroTrustLab.Nginx
