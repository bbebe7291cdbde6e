import Mathlib.Data.Finset.Sort
import Mathlib.Data.String.Basic
import ZeroTrustLab.Lib.Path
import ZeroTrustLab.Lib.Split
import ZeroTrustLab.Agent.PeerName

/-!
# Who may scrape the agent

`app/metrics_server.py` of the node agent: a middleware in front of every
route, which lets a request through when the CN of the peer's certificate is
among `THESIS_ALLOWED_SCRAPER_CNS`.

`scraper_gate` says which requests those are, for every value of the setting
and every subject, without the set that the code builds in between: the first
commonName, not empty, is what is left of an entry after trimming.

Two small readings are put side by side: `peerCn_eq` says which attribute of
the subject the agent looks at, `mem_allowedCnsSet` which texts are in the set
that the setting is split into. The library module `Split` has the general
facts about separators and stripping; what is left here is the middleware's
decision on the two.

Mirroring notes vs the Python module:
- The wrapped handler is a call of the program, so that running it and
  answering what it answers are two things.
- What the middleware reads of a request is its peer's certificate and its
  address. `none` for the certificate stands for a missing transport, a missing
  SSL object, and `getpeercert()` without a result or with an empty one.
-/

namespace ZeroTrustLab.Agent

open Lib (Prog)
open Lib.Text (split strip isSpace Between mem_split strip_strip strip_pad)

/-- The part of `Settings` the metrics server reads. -/
structure ScraperSettings where
  allowedScraperCns : String := "prometheus.thesis.local"

/-- `allowed_cns_set`. -/
def ScraperSettings.allowedCnsSet (settings : ScraperSettings) : Finset String :=
  (((split ',' settings.allowedScraperCns.toList).filter fun s => strip s ≠ []).map fun s =>
    String.ofList (strip s)).toFinset

structure WebRequest where
  method : String
  path : String
  remote : Option String
  peercert : Option PeerCert

structure WebResponse where
  status : Nat
  text : String
  deriving DecidableEq, Repr

/-- What the middleware asks of its surroundings. -/
inductive WebCall where
  /-- `await handler(request)`. -/
  | handler (request : WebRequest)
  /-- The warning `metrics_scrape_rejected`. -/
  | scrapeRejected (peerCn : Option String) (allowed : List String) (peer : Option String)

@[reducible] def WebAns : WebCall → Type
  | .handler _ => WebResponse
  | .scrapeRejected .. => Unit

variable {ε : Type}

abbrev Web (ε α : Type) := Prog WebCall WebAns ε α

/-- `cn_allowlist_middleware`; what the handler raises, it raises. -/
def cnAllowlistMiddleware (settings : ScraperSettings) (request : WebRequest) :
    Web ε WebResponse :=
  let allowed := settings.allowedCnsSet
  let cn := peerCn request.peercert
  -- `cn is None or cn not in allowed`
  if cn.all (fun cn => decide (cn ∉ allowed)) = true then do
    Prog.ask (WebCall.scrapeRejected cn (allowed.sort (· ≤ ·)) request.remote)
    return ⟨403, "forbidden\n"⟩
  else Prog.ask (WebCall.handler request)

/-! ## What the gate is for -/

/-- The first commonName in certificate order. -/
def firstCommonName (cert : PeerCert) : Option String :=
  (cert.subject.flatten.find? fun attr => decide (attr.1 = "commonName")).map Prod.snd

/-- The peer may scrape: its first commonName, not empty, is what is left of an
entry of the list. -/
def Allows (raw : String) (peercert : Option PeerCert) : Prop :=
  ∃ cert cn e, peercert = some cert ∧ firstCommonName cert = some cn ∧ cn ≠ "" ∧
    Between ',' raw.toList e ∧ strip e = cn.toList

/-- The program runs the wrapped handler. -/
def RunsHandler (p : Web ε WebResponse) (request : WebRequest) : Prop :=
  ∃ h q, p.Reaches h q ∧ ∃ a ∈ h, a.call = .handler request

/-- A list of entries is another one with entries moved, repeated or padded. -/
inductive Restyles : List (List Char) → List (List Char) → Prop where
  | reordered {es es' : List (List Char)} (h : es.Perm es') : Restyles es es'
  | repeated {es : List (List Char)} {e : List Char} (h : e ∈ es) : Restyles es (e :: es)
  | padded (front rest : List (List Char)) {u e v : List Char}
      (hu : ∀ c ∈ u, isSpace c = true) (hv : ∀ c ∈ v, isSpace c = true) :
      Restyles (front ++ e :: rest) (front ++ (u ++ e ++ v) :: rest)
  | trans {es es' es'' : List (List Char)} (h : Restyles es es') (h' : Restyles es' es'') :
      Restyles es es''

/-- The commonName is one that no configuration lets in. -/
def Unlistable (cn : String) : Prop := cn = "" ∨ strip cn.toList ≠ cn.toList ∨ ',' ∈ cn.toList

/-- The gate lets in just whom the list names. -/
structure ScraperGate (ε : Type) (raw : String) : Prop where
  admits : ∀ request, RunsHandler (ε := ε) (cnAllowlistMiddleware ⟨raw⟩ request) request ↔
    Allows raw request.peercert
  /-- Everybody else is answered 403, with a warning and nothing more. -/
  rejects : ∀ request, ¬ Allows raw request.peercert → ∃ cn allowed peer,
    cnAllowlistMiddleware (ε := ε) ⟨raw⟩ request
      = .call (.scrapeRejected cn allowed peer) fun _ => .pure ⟨403, "forbidden\n"⟩
  /-- No certificate or commonName, or one no list can name: never. -/
  never : ∀ request, (∀ cert cn, request.peercert = some cert → firstCommonName cert = some cn →
      Unlistable cn) →
    ¬ RunsHandler (ε := ε) (cnAllowlistMiddleware ⟨raw⟩ request) request
  /-- Order, repetition and padding of the entries do not matter. -/
  stable : ∀ raw', Restyles (split ',' raw.toList) (split ',' raw'.toList) → ∀ request,
    RunsHandler (ε := ε) (cnAllowlistMiddleware ⟨raw⟩ request) request ↔
      RunsHandler (ε := ε) (cnAllowlistMiddleware ⟨raw'⟩ request) request

/-! ## The two sides of the membership test -/

/-- What `_peer_cn` returns is the first common name of the certificate. -/
theorem peerCn_eq (cert : PeerCert) : peerCn (some cert) = firstCommonName cert := by
  have hrdn : ∀ rdn : List (String × String),
      (rdn.findSome? fun attr => if attr.1 = "commonName" then some attr.2 else none)
        = (rdn.find? fun attr => decide (attr.1 = "commonName")).map Prod.snd := by
    intro rdn
    induction rdn with
    | nil => rfl
    | cons attr rdn ih =>
      by_cases hkey : attr.1 = "commonName"
      · simp [hkey]
      · simp [hkey, ih]
  show (cert.subject.findSome? fun rdn => rdn.findSome? fun attr =>
    if attr.1 = "commonName" then some attr.2 else none) = _
  unfold firstCommonName
  induction cert.subject with
  | nil => rfl
  | cons rdn subject ih =>
    rw [List.findSome?_cons, hrdn, List.flatten_cons, List.find?_append, Option.map_or, ← ih]
    split
    next cn hcn =>
      rw [hcn]
      rfl
    next hnone =>
      rw [hnone]
      rfl

/-- The allowed names are the entries between commas, stripped, without the
empty one. -/
theorem mem_allowedCnsSet {settings : ScraperSettings} {cn : String} :
    cn ∈ settings.allowedCnsSet ↔
      cn ≠ "" ∧ ∃ e, Between ',' settings.allowedScraperCns.toList e ∧ strip e = cn.toList := by
  unfold ScraperSettings.allowedCnsSet
  rw [List.mem_toFinset, List.mem_map]
  constructor
  · intro ⟨e, he, hcn⟩
    obtain ⟨hmem, hne⟩ := List.mem_filter.mp he
    subst hcn
    refine ⟨?_, e, mem_split.mp hmem, (String.toList_ofList).symm⟩
    intro hempty
    have hnil : strip e = [] := by
      have hlist := congrArg String.toList hempty
      rwa [String.toList_ofList] at hlist
    simp [hnil] at hne
  · intro ⟨hne, e, hmem, hcn⟩
    refine ⟨e, List.mem_filter.mpr ⟨mem_split.mpr hmem, ?_⟩, ?_⟩
    · have hnonempty : strip e ≠ [] := by
        intro hnil
        rw [hnil] at hcn
        exact hne (String.toList_eq_nil_iff.mp hcn.symm)
      simpa using hnonempty
    · rw [hcn, String.ofList_toList]

/-- What the configuration can name. -/
theorem listable_of_mem {settings : ScraperSettings} {cn : String}
    (hcn : cn ∈ settings.allowedCnsSet) : ¬ Unlistable cn := by
  obtain ⟨hne, e, ⟨hcomma, -⟩, hstrip⟩ := mem_allowedCnsSet.mp hcn
  intro hbad
  rcases hbad with hempty | hpadded | hmem
  · exact hne hempty
  · rw [← hstrip, strip_strip] at hpadded
    exact hpadded rfl
  · rw [← hstrip] at hmem
    exact hcomma (Lib.Text.mem_of_mem_trim hmem)

/-- Restyling keeps what the entries come to. -/
theorem Restyles.strip_mem {es es' : List (List Char)} (h : Restyles es es') (t : List Char) :
    (∃ e ∈ es, strip e = t) ↔ ∃ e ∈ es', strip e = t := by
  induction h with
  | reordered hperm => exact exists_congr fun e => and_congr_left fun _ => hperm.mem_iff
  | @repeated es e he =>
    constructor
    · intro ⟨x, hx, ht⟩
      exact ⟨x, List.mem_cons_of_mem _ hx, ht⟩
    · intro ⟨x, hx, ht⟩
      rcases List.mem_cons.mp hx with rfl | hx
      · exact ⟨x, he, ht⟩
      · exact ⟨x, hx, ht⟩
  | @padded front rest u e v hu hv =>
    have hsame : strip (u ++ e ++ v) = strip e := strip_pad hu hv
    simp only [List.mem_append, List.mem_cons, or_and_right, exists_or, exists_eq_left, hsame]
  | trans _ _ ih ih' => exact ih.trans ih'

/-! ## The gate -/

/-- The middleware, by the one test it makes. -/
theorem middleware_of_mem {settings : ScraperSettings} {request : WebRequest} {cn : String}
    (hpeer : peerCn request.peercert = some cn) (hcn : cn ∈ settings.allowedCnsSet) :
    cnAllowlistMiddleware (ε := ε) settings request = .call (.handler request) .pure := by
  unfold cnAllowlistMiddleware
  dsimp only
  rw [hpeer, if_neg (by simp [hcn])]
  rfl

/-- A peer whose name is not in the set is told 403, and the handler does not
run. -/
theorem middleware_of_not_mem {settings : ScraperSettings} {request : WebRequest}
    (hcn : ∀ cn, peerCn request.peercert = some cn → cn ∉ settings.allowedCnsSet) :
    cnAllowlistMiddleware (ε := ε) settings request
      = .call (.scrapeRejected (peerCn request.peercert)
          (settings.allowedCnsSet.sort (· ≤ ·)) request.remote)
        fun _ => .pure ⟨403, "forbidden\n"⟩ := by
  unfold cnAllowlistMiddleware
  dsimp only
  rw [if_pos]
  · rfl
  · rcases hpeer : peerCn request.peercert with _ | cn
    · rfl
    · simpa using hcn cn hpeer

/-- The handler runs just for a peer whose name is in the set. -/
theorem runsHandler_iff {settings : ScraperSettings} {request : WebRequest} :
    RunsHandler (ε := ε) (cnAllowlistMiddleware settings request) request ↔
      ∃ cn, peerCn request.peercert = some cn ∧ cn ∈ settings.allowedCnsSet := by
  constructor
  · intro ⟨h, q, hr, a, ha, hcall⟩
    by_contra hno
    have hmiddleware := middleware_of_not_mem (ε := ε) fun cn hpeer hmem => hno ⟨cn, hpeer, hmem⟩
    rw [hmiddleware] at hr
    have hwarns := hr.all (P := fun c => c ≠ .handler request) ⟨by simp, fun _ => trivial⟩
    exact hwarns a ha hcall
  · intro ⟨cn, hpeer, hmem⟩
    rw [middleware_of_mem hpeer hmem]
    exact ⟨[⟨.handler request, .ok ⟨200, ""⟩⟩], _, .answered (.refl _), _,
      List.mem_singleton_self _, rfl⟩

/-- The set is what the configured text allows. -/
theorem allows_iff {settings : ScraperSettings} {request : WebRequest} :
    Allows settings.allowedScraperCns request.peercert ↔
      ∃ cn, peerCn request.peercert = some cn ∧ cn ∈ settings.allowedCnsSet := by
  unfold Allows
  constructor
  · intro ⟨cert, cn, e, hcert, hfirst, hne, hmem, hstrip⟩
    refine ⟨cn, ?_, mem_allowedCnsSet.mpr ⟨hne, e, hmem, hstrip⟩⟩
    rw [hcert, peerCn_eq]
    exact hfirst
  · intro ⟨cn, hpeer, hmem⟩
    obtain ⟨hne, e, hmem, hstrip⟩ := mem_allowedCnsSet.mp hmem
    rcases hcert : request.peercert with _ | cert
    · rw [hcert] at hpeer
      simp [peerCn] at hpeer
    · rw [hcert, peerCn_eq] at hpeer
      exact ⟨cert, cn, e, rfl, hpeer, hne, hmem, hstrip⟩

/-- **The allow-list admits exactly the configured names**, for every text of
the setting and every subject: an empty setting admits no one, and a peer
without a common name is never admitted. -/
theorem scraper_gate (ε : Type) (raw : String) : ScraperGate ε raw where
  admits request := runsHandler_iff.trans allows_iff.symm
  rejects request hno := by
    refine ⟨_, _, _, middleware_of_not_mem fun cn hpeer hmem => hno ?_⟩
    exact allows_iff.mpr ⟨cn, hpeer, hmem⟩
  never request hbad hruns := by
    obtain ⟨cn, hpeer, hmem⟩ := runsHandler_iff.mp hruns
    rcases hcert : request.peercert with _ | cert
    · rw [hcert] at hpeer
      simp [peerCn] at hpeer
    · rw [hcert, peerCn_eq] at hpeer
      exact listable_of_mem hmem (hbad cert cn hcert hpeer)
  stable raw' hrestyles request := by
    have hset : ∀ cn, cn ∈ ScraperSettings.allowedCnsSet ⟨raw⟩ ↔
        cn ∈ ScraperSettings.allowedCnsSet ⟨raw'⟩ := by
      intro cn
      have hsame := hrestyles.strip_mem cn.toList
      simp only [mem_split] at hsame
      rw [mem_allowedCnsSet, mem_allowedCnsSet]
      exact and_congr_right fun _ => hsame
    rw [runsHandler_iff, runsHandler_iff]
    exact exists_congr fun cn => and_congr_right fun _ => hset cn

end ZeroTrustLab.Agent
