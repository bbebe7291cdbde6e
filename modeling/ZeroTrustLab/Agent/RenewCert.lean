import ZeroTrustLab.Lib.Shell
import ZeroTrustLab.Lib.Lease
import Mathlib.Algebra.Order.Group.Int

/-!
# A node renews its certificate

`deploy/renew-cert.sh` of the node agent, which a timer starts every eight
hours. `script` is the text of it; `onNode` is the node it runs on, where the
commands are answered by the tools of that occasion. The tools are parameters:
`step`, `systemctl` and the CA are not part of the repository, and what the
script relies on is said of them by name (`Documented`).

`once_eq` says what one run does with such tools, and `once_check` that it is a
check of a lease: the certificate is good for 168 hours, and renewed when less
than 48 are left.

Over whole schedules: a certificate that has 48 hours left never expires while of
every five runs one finds the CA at work (`cert_never_expires`). Once it has
expired the script leaves everything as it is, and says so each time it can read
the certificate (`expired_is_final`). And an agent whose restart failed is left
with the old certificate until the new one is due (`stale_after_restart`), for
the script looks at the file and never at the agent.

Mirroring notes vs the shell script:
- `agent.env` is given by what the three variables hold when it has been
  sourced. `:?` ends the script with status 1 for an unset and for an empty one.
- There is no `errexit`. `log` prints a line and has status 0.
- `[[ -f ... ]]` is the shell's own, and so is a line of the log; every other
  command goes to the tools.
- Times are in seconds. What happens between the runs is not said.
-/

namespace ZeroTrustLab.Agent.RenewCert

open Lib (Lease Check Attended Flow Machine Paced Prog Shell ShellAns ShellCall lastTime)
open Lib.Shell

/-! ## `renew-cert.sh` -/

def caUrl : String := "https://ca.thesis.local:9000"
def renewThreshold : String := "48h"
def agent : String := "thesis-node-agent.service"

/-- The variables of `agent.env`. -/
structure Vars where
  clientCert : Option String
  clientKey : Option String
  controllerCa : Option String

/-- The external commands. -/
inductive Command where
  /-- `[[ -f ... ]]` -/
  | testFile (file : String)
  /-- `step certificate needs-renewal` -/
  | needsRenewal (cert expiresIn : String)
  /-- `step ca renew ... --force` -/
  | renew (cert key caUrl root : String)
  /-- `systemctl is-active --quiet` -/
  | isActive (unit : String)
  /-- `sudo systemctl restart` -/
  | restart (unit : String)
  deriving DecidableEq

/-- The lines of the log. -/
inductive Line where
  /-- `FATAL: cert or key missing` -/
  | missing (cert key : String)
  /-- `Cert within renewal window` -/
  | within
  /-- `Renewal SUCCESS — fresh cert installed (key reused).` -/
  | success
  /-- `Restarted ... to load the renewed cert.` -/
  | restarted
  /-- `WARN: renewal succeeded but agent restart failed` -/
  | restartFailed
  /-- `FATAL: 'step ca renew' FAILED.` -/
  | failed
  /-- `Cert valid beyond ...; no renewal needed.` -/
  | validBeyond
  deriving DecidableEq

abbrev Script := Shell Command Line

/-- The script, when its variables are set. -/
def renewal (cert key caRoot : String) : Script :=
  block [
    cond (orElse (neg (run (.testFile cert))) (neg (run (.testFile key))))
      (block [echo (.missing cert key), exit 1])
      null,
    cond (run (.needsRenewal cert renewThreshold))
      (block [
        echo .within,
        cond (run (.renew cert key caUrl caRoot))
          (block [
            echo .success,
            cond (run (.isActive agent))
              (cond (run (.restart agent)) (echo .restarted) (echo .restartFailed))
              null,
            exit 0])
          (block [echo .failed, exit 1])])
      (block [echo .validBeyond, exit 0])]

/-- `${NAME:?...}` -/
def required (value : Option String) : Option String := value.filter fun v => v ≠ ""

def script (vars : Vars) : Script :=
  match required vars.clientCert, required vars.clientKey, required vars.controllerCa with
  | some cert, some key, some caRoot => renewal cert key caRoot
  | _, _, _ => exit 1

/-! ## The node -/

def hour : ℤ := 3600

/-- `node_cert_lifetime`, and the threshold of the script. -/
def lease : Lease ℤ where
  life := 168 * hour
  window := 48 * hour

/-- `OnUnitActiveSec` -/
def period : ℤ := 8 * hour

structure Node where
  /-- Which files there are. -/
  files : String → Bool
  /-- When the certificate on disk expires. -/
  notAfter : ℤ
  /-- When the one expires that the agent has loaded; `none` when it is down. -/
  held : Option ℤ

/-- The commands outside the shell, as they are on one occasion: their exit
status, and what they leave of the node. -/
structure Tools where
  needsRenewal : (cert expiresIn : String) → Node → ℕ
  renew : (cert key caUrl root : String) → Node → ℕ × Node
  isActive : (unit : String) → Node → ℕ
  restart : (unit : String) → Node → ℕ × Node

/-- A run, and what it meets. -/
structure Occasion where
  time : ℤ
  /-- `step` can read the certificate. -/
  readable : Bool
  /-- The CA is at work. -/
  ca : Bool
  tools : Tools

/-- The check that a run is. -/
def Occasion.check (x : Occasion) : Check ℤ := ⟨x.time, x.readable && x.ca⟩

/-- How the node answers a command. -/
def onNode (x : Occasion) : Machine (ShellCall Command Line) ShellAns ℕ Unit Unit Node Empty where
  serve _ c l n :=
    match c with
    | .echo _ => (.ok (), l, n)
    | .command (.testFile file) => (.ok (if n.files file then 0 else 1), l, n)
    | .command (.needsRenewal cert expiresIn) => (.ok (x.tools.needsRenewal cert expiresIn n), l, n)
    | .command (.renew cert key caUrl root) =>
      (.ok (x.tools.renew cert key caUrl root n).1, l, (x.tools.renew cert key caUrl root n).2)
    | .command (.isActive unit) => (.ok (x.tools.isActive unit n), l, n)
    | .command (.restart unit) => (.ok (x.tools.restart unit n).1, l, (x.tools.restart unit n).2)
  fault _ _ _ _ := none
  close _ l n := (l, n)
  env e _ := e.elim

/-- One run: its exit status, and the node after it. -/
def once (vars : Vars) (n : Node) (x : Occasion) : ℕ × Node :=
  match (onNode x).run () (script vars false) () n with
  | (.ok flow, _, n') => (flow.status, n')
  | (.error status, _, n') => (status, n')

/-- The runs of a schedule. -/
def runs (vars : Vars) (n : Node) (xs : List Occasion) : Node :=
  xs.foldl (fun n x => (once vars n x).2) n

/-! ## The tools -/

/-- A certificate that has been renewed at this time. -/
def Node.reissued (n : Node) (time : ℤ) : Node := { n with notAfter := time + lease.life }

/-- What the script relies on, for the paths it has been given. -/
structure Documented (vars : Vars) (x : Occasion) : Prop where
  /-- `step certificate needs-renewal` has status 0 when it can read the
  certificate and less than the window is left. -/
  needs : ∀ cert ∈ required vars.clientCert, ∀ n, x.tools.needsRenewal cert renewThreshold n = 0 ↔
    x.readable = true ∧ n.notAfter - x.time < lease.window
  /-- `step ca renew` shows the CA the certificate itself, which has to be good
  for that. -/
  granted : ∀ cert ∈ required vars.clientCert, ∀ key ∈ required vars.clientKey,
    ∀ root ∈ required vars.controllerCa, ∀ n, (x.tools.renew cert key caUrl root n).1 = 0 ↔
      x.readable = true ∧ x.ca = true ∧ x.time < n.notAfter
  /-- The new certificate takes the place of the old one and has its lifetime
  (`node_cert_lifetime`). -/
  installs : ∀ cert ∈ required vars.clientCert, ∀ key ∈ required vars.clientKey,
    ∀ root ∈ required vars.controllerCa, ∀ n, (x.tools.renew cert key caUrl root n).1 = 0 →
      (x.tools.renew cert key caUrl root n).2 = n.reissued x.time
  /-- A renewal that fails writes nothing. -/
  keeps : ∀ cert ∈ required vars.clientCert, ∀ key ∈ required vars.clientKey,
    ∀ root ∈ required vars.controllerCa, ∀ n, (x.tools.renew cert key caUrl root n).1 ≠ 0 →
      (x.tools.renew cert key caUrl root n).2 = n
  /-- `systemctl is-active` -/
  active : ∀ n, x.tools.isActive agent n = 0 ↔ n.held.isSome = true
  /-- An agent that comes up has loaded the certificate on disk. -/
  restarted : ∀ n, (x.tools.restart agent n).1 = 0 →
    (x.tools.restart agent n).2 = { n with held := some n.notAfter }
  /-- One whose restart fails runs on, or is down. -/
  unrestarted : ∀ n, (x.tools.restart agent n).1 ≠ 0 →
    (x.tools.restart agent n).2 = n ∨ (x.tools.restart agent n).2 = { n with held := none }

/-! ## One run -/

variable {vars : Vars} {n : Node} {x : Occasion} {xs : List Occasion}

/-- The variables are set, and the files are there. -/
def Installed (vars : Vars) (n : Node) : Prop :=
  ∃ cert key caRoot, required vars.clientCert = some cert ∧ required vars.clientKey = some key ∧
    required vars.controllerCa = some caRoot ∧ n.files cert = true ∧ n.files key = true

/-- The new certificate is there, and an agent that runs is restarted. -/
def Node.renew (n : Node) (x : Occasion) : Node :=
  if n.held.isSome then (x.tools.restart agent (n.reissued x.time)).2 else n.reissued x.time

/-- A restart leaves the files and the certificate alone. -/
theorem Documented.restart_keeps (hdoc : Documented vars x) (n : Node) :
    (x.tools.restart agent n).2.files = n.files ∧
      (x.tools.restart agent n).2.notAfter = n.notAfter := by
  by_cases hs : (x.tools.restart agent n).1 = 0
  · rw [hdoc.restarted n hs]
    exact ⟨rfl, rfl⟩
  · rcases hdoc.unrestarted n hs with he | he
    · rw [he]
      exact ⟨rfl, rfl⟩
    · rw [he]
      exact ⟨rfl, rfl⟩

/-- A renewal leaves the two other files alone and the certificate with its full
life. -/
theorem Documented.renew_keeps (hdoc : Documented vars x) (n : Node) :
    (n.renew x).files = n.files ∧ (n.renew x).notAfter = x.time + lease.life := by
  unfold Node.renew
  split
  · exact hdoc.restart_keeps (n.reissued x.time)
  · exact ⟨rfl, rfl⟩

/-- An agent that runs is restarted. -/
theorem renew_running {old : ℤ} (hheld : n.held = some old) :
    n.renew x = (x.tools.restart agent (n.reissued x.time)).2 := by
  unfold Node.renew
  exact if_pos (by rw [hheld]; rfl)

/-- Neither file is missing. -/
theorem files_there {cert key : String} (hc : n.files cert = true) (hk : n.files key = true)
    (fatal : Script) :
    Ends (onNode x) () (Shell.cond (orElse (neg (run (.testFile cert))) (neg (run (.testFile key))))
      fatal null) () n (.ok (.next 0)) () n := by
  have htest : ∀ {file}, n.files file = true →
      Ends (onNode x) () (neg (run (.testFile file))) () n (.ok (.next 1)) () n := by
    intro file hfile
    refine Ends.neg (n := 0) (ends_run ?_)
    show (Except.ok (if n.files file then 0 else 1), (), n) = _
    rw [if_pos hfile]
  exact ((htest hc).orElse (htest hk)).cond ends_null

/-- The restart of an agent that runs. -/
theorem Documented.restarts (hdoc : Documented vars x) (n : Node) :
    Ends (onNode x) () (Shell.cond (run (.isActive agent))
      (Shell.cond (run (.restart agent)) (echo .restarted) (echo .restartFailed)) null) () n
      (.ok (.next 0)) () (if n.held.isSome then (x.tools.restart agent n).2 else n) := by
  have hactive : Ends (onNode x) () (run (.isActive agent)) () n
      (.ok (.next (x.tools.isActive agent n))) () n := ends_run rfl
  by_cases hheld : n.held.isSome = true
  · have hrestart : Ends (onNode x) () (run (.restart agent)) () n
        (.ok (.next (x.tools.restart agent n).1)) () (x.tools.restart agent n).2 := ends_run rfl
    rw [if_pos hheld]
    refine hactive.cond ?_
    rw [if_pos ((hdoc.active n).mpr hheld)]
    refine hrestart.cond ?_
    split
    · exact ends_echo rfl
    · exact ends_echo rfl
  · rw [if_neg hheld]
    refine hactive.cond ?_
    rw [if_neg fun hzero => hheld ((hdoc.active n).mp hzero)]
    exact ends_null

/-- What the script comes to, with the files there. -/
theorem Documented.renewal_ends (hdoc : Documented vars x) {cert key caRoot : String}
    (hcert : required vars.clientCert = some cert) (hkey : required vars.clientKey = some key)
    (hroot : required vars.controllerCa = some caRoot) (hc : n.files cert = true)
    (hk : n.files key = true) :
    (¬ (x.readable = true ∧ n.notAfter - x.time < lease.window) →
      Ends (onNode x) () (renewal cert key caRoot) () n (.error 0) () n) ∧
    (x.readable = true ∧ n.notAfter - x.time < lease.window →
      ¬ (x.ca = true ∧ x.time < n.notAfter) →
      Ends (onNode x) () (renewal cert key caRoot) () n (.error 1) () n) ∧
    (x.readable = true ∧ n.notAfter - x.time < lease.window → x.ca = true ∧ x.time < n.notAfter →
      Ends (onNode x) () (renewal cert key caRoot) () n (.error 0) () (n.renew x)) := by
  have hfiles := files_there (x := x) hc hk (block [echo (.missing cert key), exit 1])
  have hneeds : Ends (onNode x) () (run (.needsRenewal cert renewThreshold)) () n
      (.ok (.next (x.tools.needsRenewal cert renewThreshold n))) () n := ends_run rfl
  have hzero := hdoc.needs cert hcert n
  have hgranted := hdoc.granted cert hcert key hkey caRoot hroot n
  refine ⟨fun hno => hfiles.seq (hneeds.cond ?_), fun hw hno => hfiles.seq (hneeds.cond ?_),
    fun hw hgood => hfiles.seq (hneeds.cond ?_)⟩
  · -- => `needs-renewal` says no
    rw [if_neg fun hs => hno (hzero.mp hs)]
    exact (ends_echo rfl).seq ends_exit
  · -- it says yes, and the renewal fails
    have hfails : (x.tools.renew cert key caUrl caRoot n).1 ≠ 0 := fun hs =>
      hno (hgranted.mp hs).2
    have hrenew : Ends (onNode x) () (run (.renew cert key caUrl caRoot)) () n
        (.ok (.next (x.tools.renew cert key caUrl caRoot n).1)) () n := by
      refine ends_run ?_
      show (_, _, (x.tools.renew cert key caUrl caRoot n).2) = _
      rw [hdoc.keeps cert hcert key hkey caRoot hroot n hfails]
    rw [if_pos (hzero.mpr hw)]
    refine (ends_echo rfl).seq (hrenew.cond ?_)
    rw [if_neg hfails]
    exact (ends_echo rfl).seq ends_exit
  · -- it says yes, and the renewal goes through
    have hdone : (x.tools.renew cert key caUrl caRoot n).1 = 0 := hgranted.mpr ⟨hw.1, hgood⟩
    have hrenew : Ends (onNode x) () (run (.renew cert key caUrl caRoot)) () n
        (.ok (.next 0)) () (n.reissued x.time) := by
      refine ends_run ?_
      show (Except.ok (x.tools.renew cert key caUrl caRoot n).1, _,
        (x.tools.renew cert key caUrl caRoot n).2) = _
      rw [hdone, hdoc.installs cert hcert key hkey caRoot hroot n hdone]
    rw [if_pos (hzero.mpr hw)]
    exact (ends_echo rfl).seq (hrenew.cond
      ((ends_echo rfl).seq ((hdoc.restarts (n.reissued x.time)).seq ends_exit)))

/-- With a file missing the renewal ends at once. -/
theorem renewal_missing {cert key caRoot : String}
    (h : ¬ (n.files cert = true ∧ n.files key = true)) :
    Ends (onNode x) () (renewal cert key caRoot) () n (.error 1) () n := by
  have htest : ∀ file, Ends (onNode x) () (neg (run (.testFile file))) () n
      (.ok (.next (if n.files file then 1 else 0))) () n := by
    intro file
    have hneg := Ends.neg (ends_run (M := onNode x) (i := ()) (k := ()) (w := n)
      (c := .testFile file) rfl)
    by_cases hfile : n.files file = true
    · simpa [hfile] using hneg
    · simpa [hfile] using hneg
  have hmissing : Ends (onNode x) () (orElse (neg (run (.testFile cert))) (neg (run (.testFile key))))
      () n (.ok (.next 0)) () n := by
    refine (htest cert).orElse ?_
    by_cases hc : n.files cert = true
    · have hk : n.files key ≠ true := fun hk => h ⟨hc, hk⟩
      have hsecond := htest key
      rw [if_neg hk] at hsecond
      rw [if_pos hc, if_neg Nat.one_ne_zero]
      exact hsecond
    · rw [if_neg hc, if_pos rfl]
      exact ends_null
  exact (hmissing.cond ((ends_echo rfl).seq ends_exit)).seq_exit

/-- **What one run does**: a certificate that can be read and has less than the
window left is renewed, if it is still good and the CA at work; a renewal that
fails, and a node that is not set up, are errors. All else is status 0. -/
theorem once_eq (hdoc : Documented vars x) (n : Node) :
    (Installed vars n → once vars n x =
      if x.readable = true ∧ n.notAfter - x.time < lease.window then
        if x.ca = true ∧ x.time < n.notAfter then (0, n.renew x) else (1, n)
      else (0, n)) ∧
    (¬ Installed vars n → once vars n x = (1, n)) := by
  have hends : ∀ {status : ℕ} {n' : Node},
      Ends (onNode x) () (script vars) () n (.error status) () n' → once vars n x = (status, n') := by
    intro status n' h
    have h : (onNode x).run () (script vars false) () n = _ := h
    unfold once
    rw [h]
  constructor
  · intro ⟨cert, key, caRoot, hcert, hkey, hca, hc, hk⟩
    have hscript : script vars = renewal cert key caRoot := by
      unfold script
      rw [hcert, hkey, hca]
    obtain ⟨hbeyond, hfailed, hdone⟩ := hdoc.renewal_ends hcert hkey hca hc hk
    rw [← hscript] at hbeyond hfailed hdone
    split
    next hneeds =>
      split
      next hgranted => exact hends (hdone hneeds hgranted)
      next hno => exact hends (hfailed hneeds hno)
    next hno => exact hends (hbeyond hno)
  · intro hno
    refine hends ?_
    unfold script
    split
    next cert key caRoot hcert hkey hca =>
      exact renewal_missing fun hfiles => hno ⟨cert, key, caRoot, hcert, hkey, hca, hfiles⟩
    next => exact ends_exit

/-! ## Schedules -/

/-- A run is a check of the lease. -/
theorem once_check (hdoc : Documented vars x) (h : Installed vars n) :
    (once vars n x).2.notAfter = lease.check n.notAfter x.check ∧ Installed vars (once vars n x).2 := by
  obtain ⟨hfiles, hnotAfter⟩ := hdoc.renew_keeps n
  rw [(once_eq hdoc n).1 h]
  unfold Lease.check Occasion.check
  by_cases hneeds : x.readable = true ∧ n.notAfter - x.time < lease.window
  · rw [if_pos hneeds]
    by_cases hgranted : x.ca = true ∧ x.time < n.notAfter
    · rw [if_pos hgranted, if_pos ⟨hneeds.2, hgranted.2, by simp [hneeds.1, hgranted.1]⟩]
      refine ⟨hnotAfter, ?_⟩
      unfold Installed
      rw [hfiles]
      exact h
    · rw [if_neg hgranted, if_neg fun hyes => hgranted ⟨(Bool.and_eq_true_iff.mp hyes.2.2).2, hyes.2.1⟩]
      exact ⟨rfl, h⟩
  · rw [if_neg hneeds, if_neg fun hyes => hneeds ⟨(Bool.and_eq_true_iff.mp hyes.2.2).1, hyes.1⟩]
    exact ⟨rfl, h⟩

/-- Over any sequence of occasions, what happens to the certificate is what
happens to the lease. -/
theorem runs_checks (hdoc : ∀ x ∈ xs, Documented vars x) (h : Installed vars n) :
    (runs vars n xs).notAfter = lease.checks n.notAfter (xs.map Occasion.check) := by
  induction xs generalizing n with
  | nil => rfl
  | cons x xs ih =>
    obtain ⟨hx, hxs⟩ := List.forall_mem_cons.mp hdoc
    obtain ⟨hcheck, hinst⟩ := once_check hx h
    show (runs vars (once vars n x).2 xs).notAfter = _
    rw [ih hxs hinst, hcheck]
    rfl

/-- Runs of which none changes the node. -/
theorem runs_same (h : ∀ x ∈ xs, (once vars n x).2 = n) : runs vars n xs = n := by
  unfold runs
  induction xs with
  | nil => rfl
  | cons x xs ih =>
    obtain ⟨hx, hxs⟩ := List.forall_mem_cons.mp h
    rw [List.foldl_cons, hx]
    exact ih hxs

/-- **The certificate never expires** on a node that is set up and has 48 hours
left, while of every five runs, eight hours apart at most, one finds the CA at
work: it is good at each of them and until the next one is due. -/
theorem cert_never_expires {t now : ℤ} (hdoc : ∀ x ∈ xs, Documented vars x) (h : Installed vars n)
    (hstart : 48 * hour ≤ n.notAfter - t) (hp : Paced period t (xs.map Occasion.check))
    (ha : Attended 5 (xs.map Occasion.check))
    (hnow : now ≤ lastTime t (xs.map Occasion.check) + period) :
    now < (runs vars n xs).notAfter := by
  rw [runs_checks hdoc h]
  exact lease.alive hstart (by decide) (by decide) (by decide) hp ha hnow

/-- The paths of a node's `agent.env`. -/
def piVars : Vars :=
  ⟨some "/etc/thesis-lab/certs/pi-01.crt", some "/etc/thesis-lab/certs/pi-01.key",
    some "/etc/thesis-lab/certs/root_ca.crt"⟩

/-- A node whose certificate expires at hour 168, and whose agent has loaded it. -/
def piNode : Node := ⟨fun _ => true, 168 * hour, some (168 * hour)⟩

theorem pi_installed : Installed piVars piNode := ⟨_, _, _, rfl, rfl, rfl, rfl, rfl⟩

/-- An hour at which the certificate can be read and the CA is at work; a restart
comes through, or is refused. -/
def atWork (time : ℤ) (restarts : Bool) : Occasion where
  time := time
  readable := true
  ca := true
  tools := {
    needsRenewal := fun _ _ n => if n.notAfter - time < lease.window then 0 else 1
    renew := fun _ _ _ _ n => if time < n.notAfter then (0, n.reissued time) else (1, n)
    isActive := fun _ n => if n.held.isSome then 0 else 3
    restart := fun _ n => if restarts then (0, { n with held := some n.notAfter }) else (1, n) }

/-- An occasion with everything at work is one that the documentation allows. -/
theorem atWork_documented (time : ℤ) (restarts : Bool) : Documented piVars (atWork time restarts) where
  needs := by simp [atWork]
  granted cert _ key _ root _ n := by
    by_cases ht : time < n.notAfter
    · simp [atWork, ht]
    · simp [atWork, ht]
  installs cert _ key _ root _ n hs := by
    by_cases ht : time < n.notAfter
    · simp [atWork, ht]
    · simp [atWork, ht] at hs
  keeps cert _ key _ root _ n hs := by
    by_cases ht : time < n.notAfter
    · simp [atWork, ht] at hs
    · simp [atWork, ht]
  active n := by
    cases hheld : n.held with
    | none => simp [atWork, hheld]
    | some old => simp [atWork, hheld]
  restarted n hs := by
    cases restarts with
    | true => rfl
    | false => simp [atWork] at hs
  unrestarted n hs := by
    cases restarts with
    | true => simp [atWork] at hs
    | false => exact .inl rfl

/-- At hour 128 it is renewed, and good for another week. -/
theorem pi_never_expires :
    295 * hour < (runs piVars piNode [atWork (128 * hour) true]).notAfter ∧
      136 * hour < (runs piVars piNode [atWork (128 * hour) true]).notAfter := by
  have hdoc : ∀ x ∈ [atWork (128 * hour) true], Documented piVars x := by
    simpa using atWork_documented _ _
  have hp : Paced period (120 * hour) [⟨128 * hour, true⟩] := by
    intro front c back he
    obtain ⟨rfl, rfl, rfl⟩ | ⟨_, rfl, he⟩ := List.cons_eq_append_iff.mp he
    · exact ⟨by decide, by decide⟩
    · simp at he
  have ha : Attended 5 [(⟨128 * hour, true⟩ : Check ℤ)] := by
    intro front mid back he hlen
    have htotal := congrArg List.length he
    simp only [List.length_append, List.length_cons, List.length_nil] at htotal
    omega
  exact ⟨by decide, cert_never_expires hdoc pi_installed (by decide) hp ha (by decide)⟩

/-- **An expired certificate is final**: no run changes anything any more, in
whatever state the CA is, and each that can read the certificate ends in an
error. -/
theorem expired_is_final (hdoc : ∀ x ∈ xs, Documented vars x) (hx : ∀ x ∈ xs, n.notAfter ≤ x.time) :
    runs vars n xs = n ∧ ∀ x ∈ xs, x.readable = true → (once vars n x).1 = 1 := by
  have hone : ∀ x ∈ xs, (once vars n x).2 = n ∧ (x.readable = true → (once vars n x).1 = 1) := by
    intro x hmem
    have hexpired := hx x hmem
    by_cases hinst : Installed vars n
    · rw [(once_eq (hdoc x hmem) n).1 hinst]
      have hleft : n.notAfter - x.time < lease.window := by
        have hpos : (0 : ℤ) < lease.window := by decide
        omega
      split
      · rw [if_neg fun hyes => absurd hyes.2 (not_lt.mpr hexpired)]
        exact ⟨rfl, fun _ => rfl⟩
      next hno => exact ⟨rfl, fun hr => absurd ⟨hr, hleft⟩ hno⟩
    · rw [(once_eq (hdoc x hmem) n).2 hinst]
      exact ⟨rfl, fun _ => rfl⟩
  exact ⟨runs_same fun x hmem => (hone x hmem).1, fun x hmem => (hone x hmem).2⟩

/-- An example of the finality: two hours after its end, a run with the CA at
work changes nothing. -/
theorem pi_is_final : runs piVars piNode [atWork (170 * hour) true] = piNode ∧
    ∀ x ∈ [atWork (170 * hour) true], x.readable = true → (once piVars piNode x).1 = 1 :=
  expired_is_final (by simpa using atWork_documented _ _) (by simp [atWork, piNode, hour])

/-- While the certificate on disk has more than the window left, a run does
nothing. -/
theorem runs_beyond (hdoc : ∀ x ∈ xs, Documented vars x) (h : Installed vars n)
    (hx : ∀ x ∈ xs, lease.window ≤ n.notAfter - x.time) :
    runs vars n xs = n ∧ ∀ x ∈ xs, (once vars n x).1 = 0 := by
  have hone : ∀ x ∈ xs, once vars n x = (0, n) := by
    intro x hmem
    rw [(once_eq (hdoc x hmem) n).1 h,
      if_neg fun hyes => absurd hyes.2 (not_lt.mpr (hx x hmem))]
  exact ⟨runs_same fun x hmem => by rw [hone x hmem], fun x hmem => by rw [hone x hmem]⟩

/-- An agent whose restarts all come through holds the certificate on disk. -/
theorem agent_current (hdoc : ∀ x ∈ xs, Documented vars x) (h : Installed vars n)
    (hheld : n.held = some n.notAfter) (hx : ∀ x ∈ xs, ∀ n, (x.tools.restart agent n).1 = 0) :
    (runs vars n xs).held = some (runs vars n xs).notAfter := by
  induction xs generalizing n with
  | nil => exact hheld
  | cons x xs ih =>
    obtain ⟨hdone, hxs⟩ := List.forall_mem_cons.mp hx
    obtain ⟨hx, hdoc⟩ := List.forall_mem_cons.mp hdoc
    refine ih hdoc (once_check hx h).2 ?_ hxs
    show (once vars n x).2.held = some (once vars n x).2.notAfter
    rw [(once_eq hx n).1 h]
    split
    · split
      · rw [renew_running hheld, hx.restarted _ (hdone _)]
      · exact hheld
    · exact hheld

/-- **An agent that was not restarted is forgotten**: when a renewal goes through
and the restart after it does not, every run of the next 120 hours ends in
success and leaves the agent with its old certificate, which expires within 48 of
them. -/
theorem stale_after_restart (hdoc : ∀ y ∈ x :: xs, Documented vars y) (h : Installed vars n)
    (hheld : n.held = some n.notAfter)
    (hneeds : x.readable = true ∧ n.notAfter - x.time < 48 * hour)
    (hgranted : x.ca = true ∧ x.time < n.notAfter)
    (hrestart : (x.tools.restart agent (n.reissued x.time)).2 = n.reissued x.time)
    (hxs : ∀ y ∈ xs, x.time ≤ y.time ∧ y.time ≤ x.time + 120 * hour) :
    (once vars n x).1 = 0 ∧ (∀ y ∈ xs, (once vars (once vars n x).2 y).1 = 0) ∧
      (runs vars (once vars n x).2 xs).notAfter = x.time + 168 * hour ∧
      ∃ old, (runs vars (once vars n x).2 xs).held = some old ∧ old < x.time + 48 * hour := by
  obtain ⟨hx, hdoc⟩ := List.forall_mem_cons.mp hdoc
  have hinst := (once_check hx h).2
  have hrun : once vars n x = (0, n.reissued x.time) := by
    have hwindow : x.readable = true ∧ n.notAfter - x.time < lease.window := hneeds
    rw [(once_eq hx n).1 h, if_pos hwindow, if_pos hgranted, renew_running hheld, hrestart]
  rw [hrun] at hinst ⊢
  -- none of the runs that follow finds the new certificate in its window
  have hbeyond : ∀ y ∈ xs, lease.window ≤ x.time + lease.life - y.time := by
    intro y hy
    obtain ⟨-, hle⟩ := hxs y hy
    show 48 * hour ≤ x.time + 168 * hour - y.time
    unfold hour at hle ⊢
    omega
  obtain ⟨hsame, hzero⟩ := runs_beyond hdoc hinst hbeyond
  refine ⟨rfl, hzero, ?_, n.notAfter, ?_, ?_⟩
  · rw [hsame]
    rfl
  · rw [hsame]
    exact hheld
  · have hleft := hneeds.2
    omega

/-- Renewed at hour 128 without a restart, the agent holds at hour 200 what has
expired at hour 168. -/
theorem pi_stale : (once piVars piNode (atWork (128 * hour) false)).1 = 0 ∧
    (∀ y ∈ [atWork (200 * hour) true],
      (once piVars (once piVars piNode (atWork (128 * hour) false)).2 y).1 = 0) ∧
    (runs piVars (once piVars piNode (atWork (128 * hour) false)).2
      [atWork (200 * hour) true]).notAfter = 128 * hour + 168 * hour ∧
    ∃ old, (runs piVars (once piVars piNode (atWork (128 * hour) false)).2
      [atWork (200 * hour) true]).held = some old ∧ old < 128 * hour + 48 * hour := by
  have hdoc : ∀ y ∈ [atWork (128 * hour) false, atWork (200 * hour) true], Documented piVars y := by
    simpa using ⟨atWork_documented _ _, atWork_documented _ _⟩
  exact stale_after_restart hdoc pi_installed rfl ⟨rfl, by decide⟩ ⟨rfl, by decide⟩ rfl
    (by simp [atWork, hour])

end ZeroTrustLab.Agent.RenewCert
