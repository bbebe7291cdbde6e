import ZeroTrustLab.Lib.Shell
import Mathlib.Data.List.Induction

/-!
# Renewing the service certificates

`scripts/renew-certs.sh`: the entries of a registry are processed one after
the other, each by `renew_cert`, and a failure of one is to be logged and not to
stop the others.

`renew_cert` stands on the left of `||`, so `errexit` is ignored in all of it:
`renewCert_courses` lists the three courses it can take, each of which ends in
success. `renewal_honest_iff` says for which outcomes of the commands that
success is none of a failure: just when nothing fails that the script does not
ask about.

A run is a log of acts, and each entry's part of it is one segment. `Obtained`
says that the certificate was renewed or issued anew in its own directory,
`Reported` that the entry's success is none of a failure; both are about the
log alone, and the exact condition is about the commands whose status the
script never looks at.

Mirroring notes vs the shell script:
- An entry is what `read` makes of a line of the registry. It has no newline.
- `log` prints the time and its arguments and has status 0, as have `local`,
  `read` and the assignments. With an empty SAN list, expanding the array
  without elements is no error (bash 4.4).
- The paths of the registry are absolute, so the working directory is the
  argument of the last `cd` that succeeded.
-/

namespace ZeroTrustLab.Scripts

open Lib (Prog Act ShellCall Shell ShellAct Flow)
open Lib.Shell

/-! ## `renew-certs.sh` -/

def caUrl : String := "https://ca.thesis.local:9000"
def renewThreshold : String := "8h"
def lifetime : String := "24h"

/-- The external commands. -/
inductive Command where
  | cd (dir : String)
  /-- `step certificate needs-renewal` -/
  | needsRenewal (crt expiresIn : String)
  /-- `step ca renew ... --force` -/
  | renew (crt key caUrl : String)
  /-- `step ca certificate ... --force` -/
  | certificate (cn crt key : String) (sans : List String)
      (provisioner provisionerPasswordFile notAfter : String)
  /-- `[ -f ... ]` -/
  | testFile (file : String)
  | cp (source target : String)
  | chmod (mode : String) (files : List String)
  /-- `docker ps --filter name=... --filter status=running -q` -/
  | dockerPs (name : String)
  | grep (pattern : String)
  | dockerExec (container : String) (command : List String)
  deriving DecidableEq

/-- The lines of the log. -/
inductive Line where
  /-- `checking renewal need...` -/
  | checking (name : String)
  /-- `still outside renewal window, skipping` -/
  | skipping (name : String)
  /-- `within renewal window; attempting cert-to-cert renew...` -/
  | attempting (name : String)
  /-- `renewed via existing cert` -/
  | renewed (name : String)
  /-- `renew failed (likely expired); re-issuing via ...` -/
  | reissuing (name provisioner : String)
  /-- `fresh cert issued via ...` -/
  | issued (name provisioner : String)
  /-- `running post-action` -/
  | runningPost (name : String)
  /-- `refreshed nginx server.crt/server.key` -/
  | refreshedNginx
  /-- `reloaded nginx` -/
  | reloadedNginx
  /-- `signaled Prometheus to reload (HUP)` -/
  | signaledPrometheus
  /-- `FAILED — continuing with next cert` -/
  | failed (name : String)
  /-- `done.` -/
  | finished
  deriving DecidableEq

abbrev Script := Shell Command Line

abbrev Log := List (ShellAct Command Line)

def postController : Script :=
  let crt := "/opt/thesis-lab/nginx/certs/server.crt"
  cond (run (.testFile crt))
    (block [
      run (.cp "/opt/thesis-lab/step-ca/issued/controller/controller.crt" crt),
      run (.cp "/opt/thesis-lab/step-ca/issued/controller/controller.key"
        "/opt/thesis-lab/nginx/certs/server.key"),
      run (.chmod "644" [crt, "/opt/thesis-lab/nginx/certs/server.key"]),
      echo .refreshedNginx,
      cond (pipe (.dockerPs "thesis-nginx") (.grep "."))
        (block [run (.dockerExec "thesis-nginx" ["nginx", "-s", "reload"]), echo .reloadedNginx])
        null])
    null

def postPrometheus : Script :=
  block [
    run (.chmod "644" ["/opt/thesis-lab/step-ca/issued/prometheus/prometheus.crt",
      "/opt/thesis-lab/step-ca/issued/prometheus/prometheus.key"]),
    cond (pipe (.dockerPs "thesis-prometheus") (.grep "."))
      (block [run (.dockerExec "thesis-prometheus" ["kill", "-HUP", "1"]),
        echo .signaledPrometheus])
      null]

/-- The functions `declare -F "post_${name}"` finds. -/
def post : String → Option Script
  | "controller" => some postController
  | "prometheus" => some postPrometheus
  | _ => none

/-- An entry of the registry. -/
structure Entry where
  /-- The tag used for logging and `post_<name>` dispatch. -/
  name : String
  dir : String
  cn : String
  provisioner : String
  pwFile : String
  sans : String

/-- `IFS=',' read -ra`: a separator at the end begins no field. -/
def sanArgs (csv : String) : List String :=
  let fields := csv.splitOn ","
  if fields.getLast? = some "" then fields.dropLast else fields

namespace Entry

variable (e : Entry)

def crt : String := e.name ++ ".crt"
def key : String := e.name ++ ".key"

def needsRenewal : Command := .needsRenewal e.crt renewThreshold

def renew : Command := .renew e.crt e.key caUrl

def reissue : Command :=
  .certificate e.cn e.crt e.key (sanArgs e.sans) e.provisioner e.pwFile lifetime

end Entry

/-- The dispatch of the post-action by name. -/
def postAction (name : String) : Script :=
  match post name with
  | some action => block [echo (.runningPost name), invoke action]
  | none => null

def renewCert (e : Entry) : Script :=
  block [
    echo (.checking e.name),
    run (.cd e.dir),
    cond (neg (run e.needsRenewal)) (block [echo (.skipping e.name), ret 0]) null,
    echo (.attempting e.name),
    cond (run e.renew)
      (echo (.renewed e.name))
      (block [
        echo (.reissuing e.name e.provisioner),
        run e.reissue,
        echo (.issued e.name e.provisioner)]),
    postAction e.name]

/-- The body of the loop over the registry. -/
def attempt (e : Entry) : Script := orElse (invoke (renewCert e)) (echo (.failed e.name))

def script (registry : List Entry) : Script :=
  seq (block (registry.map attempt)) (echo .finished)

/-- The registry of the script. -/
def certs : List Entry := [
  { name := "controller", dir := "/opt/thesis-lab/step-ca/issued/controller",
    cn := "controller.thesis.local", provisioner := "thesis-admin@vutp.bg",
    pwFile := "/secrets/provisioner-password.txt",
    sans := "controller.thesis.local,10.50.20.200,master-lab" },
  { name := "prometheus", dir := "/opt/thesis-lab/step-ca/issued/prometheus",
    cn := "prometheus.thesis.local", provisioner := "service-scraper",
    pwFile := "/secrets/service-scraper-password.txt",
    sans := "prometheus.thesis.local,prometheus" }]

/-! ## What the log of a run shows -/

/-- The outcome of every command, given what has been done before it. -/
abbrev Outcomes := Log → Command → ℕ

def Outcomes.reply (o : Outcomes) (h : Log) : (c : ShellCall Command Line) → Lib.ShellAns c
  | .command c => o h c
  | .echo _ => ()

/-- The command `c` ran and its status was `n`. -/
def ran (c : Command) (n : ℕ) : ShellAct Command Line := ⟨.command c, .ok n⟩

def said (l : Line) : ShellAct Command Line := ⟨.echo l, .ok ()⟩

/-- What the processing of each entry adds to the log, the run having come to `h`. -/
def segments (o : Outcomes) : List Entry → Log → List Log
  | [], _ => []
  | e :: rest, h =>
    let seg := ((attempt e true).feed o.reply h).1
    seg :: segments o rest (h ++ seg)

/-- Only a `cd` that succeeds changes the working directory. -/
def enter (d : Option String) : ShellAct Command Line → Option String
  | ⟨.command (.cd dir), .ok 0⟩ => some dir
  | _ => d

/-- The directory the `cd`s of this part of the log have led to. -/
def workdir (acts : Log) : Option String := acts.foldl enter none

/-- The command ran in this directory, with this status. -/
def RanIn (dir : String) (c : Command) (n : ℕ) (acts : Log) : Prop :=
  ∃ before after, acts = before ++ ran c n :: after ∧ workdir before = some dir

/-- A new certificate has been obtained by renewal or by re-issue. -/
def Obtained (e : Entry) (acts : Log) : Prop :=
  RanIn e.dir e.renew 0 acts ∨ RanIn e.dir e.reissue 0 acts

/-- The commands of the post-actions. -/
def Command.IsPost : Command → Prop
  | .testFile _ | .cp .. | .chmod .. | .dockerPs _ | .grep _ | .dockerExec .. => True
  | _ => False

/-- The commands of the post-actions that are no tests. -/
def Command.IsPostWork : Command → Prop
  | .cp .. | .chmod .. | .dockerPs _ | .dockerExec .. => True
  | _ => False

/-- The segment of an entry reports no failure as success. -/
structure Reported (e : Entry) (acts : Log) : Prop where
  /-- Without a `FAILED` line either no renewal was needed, or there is a new
  certificate and the post-action went through. -/
  success : said (.failed e.name) ∉ acts →
    RanIn e.dir e.needsRenewal 1 acts ∨
      Obtained e acts ∧ ∀ c n, c.IsPostWork → ran c n ∈ acts → n = 0
  /-- The post-action runs only after a new certificate was obtained. -/
  post : ∀ before c n after, acts = before ++ ran c n :: after → c.IsPost → Obtained e before

/-- A run of the script reports no failure as success. -/
structure Honest (registry : List Entry) (o : Outcomes) : Prop where
  /-- Every entry is processed, and the script comes to its end. -/
  processed : (script registry true).feed o.reply [] =
    ((segments o registry []).flatten ++ [said .finished], .ok (.next 0))
  reported : List.Forall₂ Reported registry (segments o registry [])

/-- A status of a command that is a failure and that the script does not tell
from success: any but 0 of a command whose status it does not ask for, and one of
`needs-renewal` that is no decision. A refused renewal is told, and so are the
answers of the tests. -/
def Unnoticed : Command → ℕ → Prop
  | .needsRenewal .., n => n ≠ 0 ∧ n ≠ 1
  | .renew .., _ => False
  | .testFile _, _ => False
  | .grep _, _ => False
  | _, n => n ≠ 0

/-! ## The courses of `renew_cert` -/

@[simp] theorem ran_inj {c d : Command} {n m : ℕ} : ran c n = ran d m ↔ c = d ∧ n = m := by
  simp [ran]

@[simp] theorem said_inj {l l' : Line} : said l = said l' ↔ l = l' := by
  simp [said]

@[simp] theorem ran_ne_said {c : Command} {n : ℕ} {l : Line} : ran c n ≠ said l := by
  simp [ran, said]

@[simp] theorem said_ne_ran {c : Command} {n : ℕ} {l : Line} : said l ≠ ran c n := by
  simp [ran, said]

/-- What the post-actions do and print. -/
def Afterwards : ShellCall Command Line → Prop
  | .command c => c.IsPost
  | .echo (.runningPost _) | .echo .refreshedNginx | .echo .reloadedNginx
  | .echo .signaledPrometheus => True
  | .echo _ => False

/-- The controller's post-action runs post-work only, and succeeds. -/
theorem postController_does : postController.Does Afterwards (· = 0) := by
  have hreload : (cond (pipe (.dockerPs "thesis-nginx") (.grep "."))
      (block [run (.dockerExec "thesis-nginx" ["nginx", "-s", "reload"]), echo .reloadedNginx])
      null : Script).Does Afterwards (· = 0) := by
    refine (does_pipe trivial trivial).cond ?_ (does_null rfl)
    exact (does_run trivial).seq (does_echo trivial rfl)
  refine (does_run trivial).cond ?_ (does_null rfl)
  -- whether the files were copied plays no part
  refine (does_run trivial).seq ((does_run trivial).seq ((does_run trivial).seq ?_))
  exact (does_echo (Q := fun _ => True) trivial trivial).seq hreload

/-- The post-action of Prometheus runs post-work only, and succeeds. -/
theorem postPrometheus_does : postPrometheus.Does Afterwards (· = 0) := by
  refine (does_run trivial).seq ((does_pipe trivial trivial).cond ?_ (does_null rfl))
  exact (does_run trivial).seq (does_echo trivial rfl)

/-- Whatever fails in a post-action, its status is 0. -/
theorem postAction_does (name : String) : (postAction name).Does Afterwards (· = 0) := by
  have hannounced : ∀ action : Script, action.Does Afterwards (· = 0) →
      (block [echo (.runningPost name), invoke action]).Does Afterwards (· = 0) := by
    intro action haction
    exact (does_echo (Q := fun _ => True) trivial trivial).seq haction.invoke
  unfold postAction post
  split
  next action h =>
    split at h
    · obtain rfl := Option.some.inj h
      exact hannounced _ postController_does
    · obtain rfl := Option.some.inj h
      exact hannounced _ postPrometheus_does
    · cases h
  next => exact does_null rfl

/-- What precedes the post-action after a renewal. -/
def renewedFront (e : Entry) (n : ℕ) : Log :=
  [said (.checking e.name), ran (.cd e.dir) n, ran e.needsRenewal 0, said (.attempting e.name),
    ran e.renew 0, said (.renewed e.name)]

/-- What precedes the post-action after a re-issue. -/
def reissuedFront (e : Entry) (n m k : ℕ) : Log :=
  [said (.checking e.name), ran (.cd e.dir) n, ran e.needsRenewal 0, said (.attempting e.name),
    ran e.renew m, said (.reissuing e.name e.provisioner), ran e.reissue k,
    said (.issued e.name e.provisioner)]

/-- The courses an entry can take. -/
inductive Course (e : Entry) : Log → Prop where
  | skipped {n m : ℕ} (hm : m ≠ 0) : Course e
      [said (.checking e.name), ran (.cd e.dir) n, ran e.needsRenewal m, said (.skipping e.name)]
  | renewed {n : ℕ} {post : Log} (hpost : ∀ a ∈ post, Afterwards a.call) :
      Course e (renewedFront e n ++ post)
  | reissued {n m k : ℕ} {post : Log} (hm : m ≠ 0) (hpost : ∀ a ∈ post, Afterwards a.call) :
      Course e (reissuedFront e n m k ++ post)

/-- One entry takes one of the courses, and the script goes on. -/
theorem renewCert_courses (e : Entry) : (renewCert e false).Makes fun acts r =>
    Course e acts ∧ ∃ flow, r = .ok flow ∧ flow.status = 0 := by
  refine Prog.makes_call fun _ => Prog.makes_call fun n => Prog.makes_call fun m => ?_
  rcases m with _ | m
  · refine Prog.makes_call fun _ => Prog.makes_call fun k => ?_
    rcases k with _ | k
    · refine Prog.makes_call fun _ => ?_
      refine (postAction_does e.name).mono fun post r ⟨hpost, s, hr, hs⟩ => ?_
      exact ⟨.renewed hpost, .next s, hr, hs⟩
    · refine Prog.makes_call fun _ => Prog.makes_call fun j => Prog.makes_call fun _ => ?_
      refine (postAction_does e.name).mono fun post r ⟨hpost, s, hr, hs⟩ => ?_
      exact ⟨.reissued (Nat.succ_ne_zero k) hpost, .next s, hr, hs⟩
  · exact Prog.makes_call fun _ => Prog.makes_pure ⟨.skipped (Nat.succ_ne_zero m), .ret 0, rfl, rfl⟩

/-- No entry is reported as failed. -/
theorem attempt_courses (e : Entry) : (attempt e true).Makes fun acts r =>
    Course e acts ∧ r = .ok (.next 0) := by
  have hcall : (invoke (renewCert e) false).Makes fun acts r =>
      Course e acts ∧ r = .ok (.next 0) := by
    refine (renewCert_courses e).bind (fun acts flow ⟨hacts, flow', hr, hstatus⟩ => ?_) ?_
    · obtain rfl := Except.ok.inj hr
      rw [hstatus]
      refine Prog.makes_pure ⟨?_, rfl⟩
      rwa [List.append_nil]
    · intro acts status ⟨_, flow, hr, _⟩
      cases hr
  refine hcall.bind (fun acts flow ⟨hacts, hr⟩ => ?_) ?_
  · obtain rfl := Except.ok.inj hr
    refine Prog.makes_pure ⟨?_, rfl⟩
    rwa [List.append_nil]
  · intro acts status ⟨_, hr⟩
    cases hr

/-- Fed with outcomes, one entry ends with status 0. -/
theorem attempt_feed (e : Entry) (o : Outcomes) (h : Log) :
    (attempt e true).feed o.reply h = (((attempt e true).feed o.reply h).1, .ok (.next 0)) :=
  Prod.ext rfl (attempt_courses e o.reply h).2

/-- The loop comes to its end, with a segment for every entry. -/
theorem loop_feed (o : Outcomes) : ∀ (registry : List Entry) (h : Log),
    (block (registry.map attempt) true).feed o.reply h =
      ((segments o registry h).flatten, .ok (.next 0))
  | [], _ => rfl
  | [e], h => by
    show (attempt e true).feed o.reply h = _
    rw [attempt_feed]
    simp [segments]
  | e :: e' :: rest, h => by
    show (seq (attempt e) (block ((e' :: rest).map attempt)) true).feed o.reply h = _
    rw [seq, Prog.feed_bind_ok (attempt_feed e o h)]
    show (_ ++ ((block ((e' :: rest).map attempt) true).feed o.reply _).1,
      ((block ((e' :: rest).map attempt) true).feed o.reply _).2) = _
    rw [loop_feed o (e' :: rest)]
    rfl

/-- Fed with outcomes, the script is its entries one after the other, and its
last line. -/
theorem script_feed (registry : List Entry) (o : Outcomes) :
    (script registry true).feed o.reply [] =
      ((segments o registry []).flatten ++ [said .finished], .ok (.next 0)) := by
  rw [script, seq, Prog.feed_bind_ok (loop_feed o registry [])]
  rfl

/-- Every entry's segment takes one of the courses. -/
theorem segments_courses (o : Outcomes) : ∀ (registry : List Entry) (h : Log),
    List.Forall₂ Course registry (segments o registry h)
  | [], _ => .nil
  | e :: rest, h => .cons (attempt_courses e o.reply h).1 (segments_courses o rest _)

/-- A segment takes the course of some entry. -/
theorem course_of_mem {o : Outcomes} {registry : List Entry} {h acts : Log}
    (hacts : acts ∈ segments o registry h) : ∃ e, Course e acts := by
  induction registry generalizing h with
  | nil => cases hacts
  | cons e rest ih =>
    rcases List.mem_cons.mp hacts with rfl | hacts
    · exact ⟨e, (attempt_courses e o.reply h).1⟩
    · exact ih hacts

/-! ## When an entry is reported -/

variable {e : Entry} {acts : Log} {c : Command} {n : ℕ} {dir : String}

/-- What ran in a directory ran, and a `cd` had led there. -/
theorem RanIn.mem (h : RanIn dir c n acts) : ran c n ∈ acts ∧ ran (.cd dir) 0 ∈ acts := by
  obtain ⟨before, after, rfl, hdir⟩ := h
  refine ⟨by simp, List.mem_append_left _ ?_⟩
  unfold workdir at hdir
  induction before using List.reverseRecOn with
  | nil => cases hdir
  | append_singleton before a ih =>
    rw [List.foldl_append] at hdir
    change enter (before.foldl enter none) a = some dir at hdir
    unfold enter at hdir
    split at hdir
    next d =>
      obtain rfl := Option.some.inj hdir
      exact List.mem_append_right _ (List.mem_singleton_self _)
    next => exact List.mem_append_left _ (ih hdir)

theorem RanIn.append (h : RanIn dir c n acts) (acts' : Log) : RanIn dir c n (acts ++ acts') := by
  obtain ⟨before, after, rfl, hdir⟩ := h
  exact ⟨before, after ++ acts', by simp, hdir⟩

theorem Obtained.append (h : Obtained e acts) (acts' : Log) : Obtained e (acts ++ acts') :=
  h.imp (fun h => h.append acts') (fun h => h.append acts')

/-- Of a post-action, the failures that are not noticed are those of its work. -/
theorem unnoticed_post (hc : c.IsPost) : Unnoticed c n ↔ c.IsPostWork ∧ n ≠ 0 := by
  cases c with
  | testFile | grep => simp [Unnoticed, Command.IsPostWork]
  | cp | chmod | dockerPs | dockerExec => simp [Unnoticed, Command.IsPostWork]
  | cd | needsRenewal | renew | certificate => cases hc

theorem Command.IsPostWork.isPost (hc : c.IsPostWork) : c.IsPost := by
  cases c with
  | cp | chmod | dockerPs | dockerExec => trivial
  | _ => cases hc

theorem Course.not_failed (h : Course e acts) (name : String) : said (.failed name) ∉ acts := by
  have hquiet : ∀ {post : Log}, (∀ a ∈ post, Afterwards a.call) → said (.failed name) ∉ post :=
    fun hpost hmem => hpost _ hmem
  cases h with
  | skipped => simp
  | renewed hpost => simp [renewedFront, hquiet hpost]
  | reissued _ hpost => simp [reissuedFront, hquiet hpost]

/-- What leads up to a post-action, a certificate being obtained on the way. -/
structure Obtaining (e : Entry) (front : Log) : Prop where
  due : ran e.needsRenewal 1 ∉ front
  post : ∀ c n, ran c n ∈ front → ¬ c.IsPost
  /-- Where the certificate was obtained in the right place, nothing failed
  unnoticed. -/
  noticed : ran (.cd e.dir) 0 ∈ front → ran e.renew 0 ∈ front ∨ ran e.reissue 0 ∈ front →
    ∀ c n, ran c n ∈ front → ¬ Unnoticed c n
  /-- Where nothing failed unnoticed, the certificate was obtained in the right
  place. -/
  obtained : (∀ c n, ran c n ∈ front → ¬ Unnoticed c n) → Obtained e front

theorem ran_mem_renewedFront {m : ℕ} : ran c m ∈ renewedFront e n ↔
    c = .cd e.dir ∧ m = n ∨ c = e.needsRenewal ∧ m = 0 ∨ c = e.renew ∧ m = 0 := by
  simp [renewedFront]

theorem ran_mem_reissuedFront {m k j : ℕ} : ran c m ∈ reissuedFront e n k j ↔
    c = .cd e.dir ∧ m = n ∨ c = e.needsRenewal ∧ m = 0 ∨ c = e.renew ∧ m = k ∨
      c = e.reissue ∧ m = j := by
  simp [reissuedFront]

/-- Up to the renewal, a course is one of obtaining. -/
theorem renewedFront_obtaining (e : Entry) (n : ℕ) : Obtaining e (renewedFront e n) where
  due := by simp [ran_mem_renewedFront, Entry.needsRenewal, Entry.renew]
  post c m hc hpost := by
    rcases ran_mem_renewedFront.mp hc with ⟨rfl, -⟩ | ⟨rfl, -⟩ | ⟨rfl, -⟩
    · cases hpost
    · cases hpost
    · cases hpost
  noticed hcd _ c m hc hun := by
    obtain rfl : 0 = n := by simpa [ran_mem_renewedFront, Entry.needsRenewal, Entry.renew] using hcd
    rcases ran_mem_renewedFront.mp hc with ⟨rfl, rfl⟩ | ⟨rfl, rfl⟩ | ⟨rfl, rfl⟩
    · exact hun rfl
    · exact hun.1 rfl
    · exact hun
  obtained hnone := by
    obtain rfl : n = 0 := not_not.mp (hnone (.cd e.dir) n (by simp [renewedFront]))
    exact .inl ⟨(renewedFront e 0).take 4, _, rfl, rfl⟩

/-- Up to the re-issue, a course is one of obtaining. -/
theorem reissuedFront_obtaining (e : Entry) (n : ℕ) {m : ℕ} (hm : m ≠ 0) (k : ℕ) :
    Obtaining e (reissuedFront e n m k) where
  due := by simp [ran_mem_reissuedFront, Entry.needsRenewal, Entry.renew, Entry.reissue]
  post c j hc hpost := by
    rcases ran_mem_reissuedFront.mp hc with ⟨rfl, -⟩ | ⟨rfl, -⟩ | ⟨rfl, -⟩ | ⟨rfl, -⟩
    · cases hpost
    · cases hpost
    · cases hpost
    · cases hpost
  noticed hcd hobt c j hc hun := by
    obtain rfl : 0 = n := by
      simpa [ran_mem_reissuedFront, Entry.needsRenewal, Entry.renew, Entry.reissue] using hcd
    -- the renewal was refused, so it is the re-issue that went through
    obtain rfl : 0 = k := by
      simpa [ran_mem_reissuedFront, Entry.needsRenewal, Entry.renew, Entry.reissue, hm.symm]
        using hobt
    rcases ran_mem_reissuedFront.mp hc with ⟨rfl, rfl⟩ | ⟨rfl, rfl⟩ | ⟨rfl, rfl⟩ | ⟨rfl, rfl⟩
    · exact hun rfl
    · exact hun.1 rfl
    · exact hun
    · exact hun rfl
  obtained hnone := by
    obtain rfl : n = 0 := not_not.mp (hnone (.cd e.dir) n (by simp [reissuedFront]))
    obtain rfl : k = 0 := not_not.mp (hnone e.reissue k (by simp [reissuedFront]))
    exact .inr ⟨(reissuedFront e 0 m 0).take 6, _, rfl, rfl⟩

/-- What stands before a command of the post-action is the whole front, and more. -/
theorem Obtaining.front_of_post {front post before after : Log} (hf : Obtaining e front)
    (he : front ++ post = before ++ ran c n :: after) (hc : c.IsPost) :
    ∃ mid, before = front ++ mid := by
  rcases List.append_eq_append_iff.mp he with ⟨mid, rfl, _⟩ | ⟨mid, rfl, hmid⟩
  · exact ⟨mid, rfl⟩
  · cases mid with
    | nil => exact ⟨[], by simp⟩
    | cons a mid =>
      obtain rfl := (List.cons_eq_cons.mp hmid).1
      exact absurd hc (hf.post c n (by simp))

/-- A course without a report of failure reports rightly just when nothing
failed unnoticed. -/
theorem Obtaining.reported_iff {front post : Log} (hf : Obtaining e front)
    (hpost : ∀ a ∈ post, Afterwards a.call) (hfailed : said (.failed e.name) ∉ front ++ post) :
    Reported e (front ++ post) ↔ ∀ c n, ran c n ∈ front ++ post → ¬ Unnoticed c n := by
  have hin : ∀ {c n}, ran c n ∈ post → c.IsPost := fun hc => hpost _ hc
  have hback : ∀ {c n}, ran c n ∈ front ++ post → ¬ c.IsPost → ran c n ∈ front := by
    intro c n hc hno
    exact (List.mem_append.mp hc).resolve_right fun hc => hno (hin hc)
  constructor
  · intro hr
    rcases hr.success hfailed with hran | ⟨hobt, hwork⟩
    · exact absurd (hback hran.mem.1 id) hf.due
    · have hnone : ∀ c n, ran c n ∈ front → ¬ Unnoticed c n := by
        rcases hobt with hran | hran
        · exact hf.noticed (hback hran.mem.2 id) (.inl (hback hran.mem.1 id))
        · exact hf.noticed (hback hran.mem.2 id) (.inr (hback hran.mem.1 id))
      intro c n hc hun
      rcases List.mem_append.mp hc with hc' | hc'
      · exact hnone c n hc' hun
      · obtain ⟨hw, hn⟩ := (unnoticed_post (hin hc')).mp hun
        exact hn (hwork c n hw hc)
  · intro hnone
    have hobt := hf.obtained fun c n hc => hnone c n (List.mem_append_left _ hc)
    refine ⟨fun _ => .inr ⟨hobt.append post, fun c n hw hc => ?_⟩, fun before c n after he hc => ?_⟩
    · by_contra hn
      exact hnone c n hc ((unnoticed_post hw.isPost).mpr ⟨hw, hn⟩)
    · obtain ⟨mid, rfl⟩ := hf.front_of_post he hc
      exact hobt.append mid

/-- Where the certificate was taken for good enough: it was, and in the right place. -/
theorem skipped_reported_iff {m : ℕ} (hm : m ≠ 0) {acts : Log}
    (hacts : acts = [said (.checking e.name), ran (.cd e.dir) n, ran e.needsRenewal m,
      said (.skipping e.name)]) :
    Reported e acts ↔ ∀ c n, ran c n ∈ acts → ¬ Unnoticed c n := by
  have hmem : ∀ {c j}, ran c j ∈ acts ↔ c = .cd e.dir ∧ j = n ∨ c = e.needsRenewal ∧ j = m := by
    intro c j
    simp [hacts]
  constructor
  · intro hr
    rcases hr.success (by simp [hacts]) with hran | ⟨hran | hran, -⟩
    · obtain rfl : 0 = n := by simpa [hmem, Entry.needsRenewal] using hran.mem.2
      -- 1 says that none is due; the script takes every other failure for the same
      obtain rfl : 1 = m := by simpa [hmem, Entry.needsRenewal] using hran.mem.1
      intro c j hc hun
      rcases hmem.mp hc with ⟨rfl, rfl⟩ | ⟨rfl, rfl⟩
      · exact hun rfl
      · exact hun.2 rfl
    · exact absurd hran.mem.1 (by simp [hmem, Entry.needsRenewal, Entry.renew])
    · exact absurd hran.mem.1 (by simp [hmem, Entry.needsRenewal, Entry.reissue])
  · intro hnone
    obtain rfl : n = 0 := not_not.mp (hnone (.cd e.dir) n (by simp [hmem]))
    obtain rfl : m = 1 := by
      by_contra hne
      exact hnone e.needsRenewal m (by simp [hmem]) ⟨hm, hne⟩
    refine ⟨fun _ => .inl ⟨[said (.checking e.name), ran (.cd e.dir) 0], _, hacts, rfl⟩, ?_⟩
    intro before c n after he hc
    have hran : ran c n ∈ acts := by simp [he]
    rcases hmem.mp hran with ⟨rfl, -⟩ | ⟨rfl, -⟩
    · cases hc
    · cases hc

/-- An entry is reported just when nothing has failed unnoticed. -/
theorem Course.reported_iff (h : Course e acts) :
    Reported e acts ↔ ∀ c n, ran c n ∈ acts → ¬ Unnoticed c n := by
  have hfailed := h.not_failed e.name
  cases h with
  | skipped hm => exact skipped_reported_iff hm rfl
  | renewed hpost => exact (renewedFront_obtaining e _).reported_iff hpost hfailed
  | reissued hm hpost => exact (reissuedFront_obtaining e _ hm _).reported_iff hpost hfailed

/-! ## When a run is honest -/

/-- Of the commands of a run, none has failed unnoticed. -/
def Noticed (registry : List Entry) (o : Outcomes) : Prop :=
  ∀ c n, ran c n ∈ ((script registry true).feed o.reply []).1 → ¬ Unnoticed c n

/-- Whatever fails, the script ends with status 0 and has logged no failure. -/
theorem script_ends (registry : List Entry) (o : Outcomes) :
    ((script registry true).feed o.reply []).2 = .ok (.next 0) ∧
    ∀ name, said (.failed name) ∉ ((script registry true).feed o.reply []).1 := by
  rw [script_feed]
  refine ⟨rfl, fun name hmem => ?_⟩
  rcases List.mem_append.mp hmem with hmem | hmem
  · obtain ⟨acts, hacts, hmem⟩ := List.mem_flatten.mp hmem
    obtain ⟨e, hcourse⟩ := course_of_mem hacts
    exact hcourse.not_failed name hmem
  · simp at hmem

/-- All entries report rightly just when nothing failed unnoticed in any of
them. -/
theorem reported_iff {registry : List Entry} {segs : List Log}
    (h : List.Forall₂ Course registry segs) : List.Forall₂ Reported registry segs ↔
      ∀ acts ∈ segs, ∀ c n, ran c n ∈ acts → ¬ Unnoticed c n := by
  induction h with
  | nil => simp
  | cons hcourse _ ih => rw [List.forall₂_cons, ih, hcourse.reported_iff, List.forall_mem_cons]

/-- The script is honest just when every entry reports rightly. -/
theorem honest_iff_reported (registry : List Entry) (o : Outcomes) :
    Honest registry o ↔ List.Forall₂ Reported registry (segments o registry []) :=
  ⟨fun h => h.reported, fun h => ⟨script_feed registry o, h⟩⟩

/-- Everything is noticed just when nothing failed unnoticed in any entry. -/
theorem noticed_iff (registry : List Entry) (o : Outcomes) :
    Noticed registry o ↔ ∀ acts ∈ segments o registry [],
      ∀ c n, ran c n ∈ acts → ¬ Unnoticed c n := by
  unfold Noticed
  rw [script_feed]
  constructor
  · intro h acts hacts c n hc
    exact h c n (List.mem_append_left _ (List.mem_flatten.mpr ⟨acts, hacts, hc⟩))
  · intro h c n hc
    rcases List.mem_append.mp hc with hc | hc
    · obtain ⟨acts, hacts, hc⟩ := List.mem_flatten.mp hc
      exact h acts hacts c n hc
    · simp at hc

/-- **No failure is reported as success** just when none goes unnoticed,
whatever the registry and whatever the commands do. Both sides are about the log
of the run. -/
theorem renewal_honest_iff (registry : List Entry) (o : Outcomes) :
    Honest registry o ↔ Noticed registry o := by
  rw [honest_iff_reported, noticed_iff]
  exact reported_iff (segments_courses o registry [])

/-- The certificates are not there, and nothing else fails. -/
def missing : Outcomes := fun _ c => match c with
  | .needsRenewal .. => 2
  | _ => 0

/-- That is logged as outside the renewal window. -/
theorem missing_skipped : ¬ Honest certs missing := by
  intro h
  have hfirst : ∃ e, Reported e [said (.checking e.name), ran (.cd e.dir) 0,
      ran e.needsRenewal 2, said (.skipping e.name)] := ⟨_, (List.forall₂_cons.mp h.reported).1⟩
  obtain ⟨e, hr⟩ := hfirst
  have hnone := (Course.skipped (by decide)).reported_iff.mp hr
  exact hnone e.needsRenewal 2 (by simp) ⟨by decide, by decide⟩

end ZeroTrustLab.Scripts
