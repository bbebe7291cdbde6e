import ZeroTrustLab.Agent.CertGuard
import ZeroTrustLab.Agent.Conduct
import ZeroTrustLab.Lib.Tasks

/-!
# The agent's process

`app/main.py` of the node agent: the certificate gate, then the heartbeat loop
and the metrics server as two tasks, a third one that waits for a signal, and a
supervisor that ends all three as soon as one of them has ended.

systemd restarts the process when it fails and leaves it alone when it exits
with status 0, so what the status says matters (`Exits`): 0 is for a requested
stop and nothing else, 1 for a certificate that was refused or a task that
crashed, and whatever it is, no task is left behind. Once the supervisor has
cancelled, the process is over within eleven moves of its own (`shutdown_ends`).
A stop that comes while both workers are at work can be followed to the end with
status 0, and only a crash after it can bring another one (`stop_heard`).

Mirroring notes vs the Python module:
- `Lib.Tasks` is the event loop. Its order is any order, of which asyncio's is
  one; a cancellation may interrupt a task at any call, also at those that do
  not suspend.
- `asyncio.wait` hands out sets. The lists here are in the order in which they
  are gone through, which is any.
- `run` of the heartbeat is `agent settings n` and after it a call that is never
  answered: a run of the process with fewer than `n` iterations is one of these.
- What opens and closes resources may raise. The answers of the calls of the
  client and of `step` are any.
- Signals before `add_signal_handler` end the process at once, with the status
  of the signal, and are no part of a run.
- The log line of the metrics server is left out.
-/

namespace ZeroTrustLab.Agent.Main

open Lib (Prog Act)
open Lib.Tasks (Coro Failure Awaited Op OpAns Sys Label Runs Step coro ensuring mainHistory
  taskHistory Within Yields Answered)

/-! ## The tasks -/

inductive Worker where
  | heartbeat
  | metricsServer
  | stopper
  deriving DecidableEq, Repr

/-- The `name` the task is given. -/
def Worker.name : Worker → String
  | .heartbeat => "heartbeat"
  | .metricsServer => "metrics_server"
  | .stopper => "stopper"

/-- What opens and closes the resources of a task. -/
inductive Resource where
  | buildClient
  /-- `client.__aexit__`. -/
  | closeClient
  /-- `runner.setup()`. -/
  | setup
  | buildSslContext
  /-- `site.start()`. -/
  | startSite
  /-- `runner.cleanup()`. -/
  | cleanup
  deriving DecidableEq, Repr

inductive TaskCall where
  /-- The first step of a task. -/
  | begin
  | loop (c : LoopCall)
  | resource (r : Resource)
  /-- `stop_event.wait()`. -/
  | waitStop
  /-- The iterations after the `n`-th. -/
  | beyond

@[reducible] def TaskAns : TaskCall → Type
  | .begin => Unit
  | .loop c => LoopAns c
  | .resource _ => Except String Unit
  | .waitStop => Unit
  | .beyond => Empty

inductive TaskExc where
  | loop (e : LoopExc)
  | os (error : String)
  deriving DecidableEq, Repr

abbrev Body := Coro TaskCall TaskAns TaskExc

abbrev await (c : TaskCall) : Body (TaskAns c) := Lib.Tasks.await c

/-- A call that returns or raises. -/
def attempt (r : Resource) : Body Unit :=
  await (.resource r) >>= fun
    | .ok () => .pure ()
    | .error e => .throw (.raised (.os e))

/-- `run` of `heartbeat.py`. -/
def runHeartbeat (settings : LoopSettings) (n : ℕ) : Body Unit := do
  await .begin
  attempt .buildClient
  ensuring
    (coro TaskCall.loop (fun _ x => x) TaskExc.loop (agent settings n) >>= fun _ =>
      await .beyond >>= Empty.elim)
    (attempt .closeClient)

/-- `_serve_metrics`. -/
def serveMetrics : Body Unit := do
  await .begin
  attempt .setup
  attempt .buildSslContext
  attempt .startSite
  ensuring (await .waitStop) (attempt .cleanup)

/-- `stop_event.wait()`, as a task. -/
def waitForStop : Body Unit := do
  await .begin
  await .waitStop

/-! ## The supervisor -/

/-- What `main` asks of its surroundings. -/
inductive MainCall where
  | agentStarting
  /-- `step certificate inspect`, and the time afterwards. -/
  | inspect
  | guardLog (lines : List GuardLine)
  /-- `loop.add_signal_handler(sig, stop_event.set)`. -/
  | addSignalHandlers
  | agentStopped
  | taskCrashed (task : String) (error : TaskExc)

@[reducible] def MainAns : MainCall → Type
  | .inspect => Outcome × ℤ
  | _ => Unit

/-- What ends the process when `main` does not return. -/
inductive MainExc where
  | systemExit (status : ℤ)
  | escaped (e : PyExc)
  | crashed (e : TaskExc)
  | cancelledError
  deriving DecidableEq, Repr

abbrev Supervisor (α : Type) := Prog (Op Worker MainCall) (OpAns TaskExc Unit MainAns) MainExc α

abbrev op (o : Op Worker MainCall) : Supervisor (OpAns TaskExc Unit MainAns o) := Prog.ask o

/-- `for t in done`: the first exception that is met is raised. -/
def surface : List Worker → Supervisor Unit
  | [] => .pure ()
  | t :: done =>
    if t = .stopper then surface done
    else op (.result t) >>= fun
      | .ok () => surface done
      -- `t.exception()` raises for a task that was cancelled
      | .error .cancelled => .throw .cancelledError
      | .error (.raised e) => do
        op (.other (.taskCrashed t.name e))
        .throw (.crashed e)

/-- `main` when the pending tasks have been cancelled. -/
def conclude (done pending : List Worker) : Supervisor Unit := do
  op (.gather pending)
  if .stopper ∈ done then op (.other .agentStopped) else surface done

def workers : List Worker := [.heartbeat, .metricsServer, .stopper]

/-- What `main` does with the two sets when the wait is over. -/
def settle : List Worker × List Worker → Supervisor Unit
  | (done, pending) => op (.cancel pending) >>= fun _ => conclude done pending

/-- What `main` does once it has created its tasks. -/
def supervise : Supervisor Unit := op (.wait workers) >>= settle

/-- `main` from the certificate gate on. -/
def afterGate : Left → Supervisor Unit
  | .returned => do
    op (.other .addSignalHandlers)
    op (.create .heartbeat)
    op (.create .metricsServer)
    op (.create .stopper)
    supervise
  | .exited status => .throw (.systemExit status)
  | .escaped e => .throw (.escaped e)

def main (lib : Library) : Supervisor Unit := do
  op (.other .agentStarting)
  let (outcome, now) ← op (.other .inspect)
  let (lines, left) := assertCertUsable lib outcome now
  op (.other (.guardLog lines))
  afterGate left

/-- What the process exits with. -/
def exitStatus : Except MainExc Unit → ℤ
  | .ok () => 0
  | .error (.systemExit status) => status
  | .error _ => 1

/-! ## The process -/

structure Signals where
  handled : Bool := false
  /-- `stop_event` is set. -/
  stop : Bool := false

/-- How the calls of the tasks are answered: a wait only when the event is set. -/
def answers (w : Signals) : (c : TaskCall) → TaskAns c → Signals → Prop
  | .waitStop, _, w' => w.stop = true ∧ w' = w
  | _, _, w' => w' = w

def serves (w : Signals) : (d : MainCall) → MainAns d → Signals → Prop
  | .addSignalHandlers, _, w' => w' = { w with handled := true }
  | _, _, w' => w' = w

/-- SIGTERM or SIGINT. -/
def signal (w w' : Signals) : Prop := w.handled = true ∧ w' = { w with stop := true }

def process (settings : LoopSettings) (n : ℕ) :
    Lib.Tasks.Loop TaskCall TaskAns TaskExc Unit Worker MainCall MainAns Signals where
  body
    | .heartbeat => runHeartbeat settings n
    | .metricsServer => serveMetrics
    | .stopper => waitForStop
  answers := answers
  serves := serves
  pauses _ := False
  env := signal

abbrev Process := Sys TaskCall TaskAns TaskExc Unit Worker MainCall MainAns MainExc Unit Signals

abbrev Moves := List (Label TaskCall TaskAns TaskExc Unit Worker MainCall MainAns)

/-- The process when it is started. -/
def start (lib : Library) : Process := .init (main lib) {}

variable {settings : LoopSettings} {n : ℕ} {lib : Library} {s s' : Process} {ls ls' : Moves}

/-! ## What a task does -/

/-- The calls that are always answered. -/
def Prompt : TaskCall → Prop
  | .waitStop => False
  | .beyond => False
  | _ => True

theorem within_attempt (r : Resource) : Within Prompt (attempt r) 1 := by
  refine ⟨trivial, 0, rfl, fun x => ?_⟩
  rcases x with _ | (e | u)
  · trivial
  · trivial
  · trivial

/-- Setting up a resource can fail, and then no move is left. -/
theorem yields_attempt (r : Resource) : Yields Prompt 0 (attempt r) := by
  refine (Lib.Tasks.yields_await _).bind fun x => ?_
  rcases x with e | u
  · trivial
  · trivial

/-- Setting up a resource never ends as cancelled without having been cancelled. -/
theorem uncancelled_attempt (r : Resource) : Lib.Tasks.Uncancelled (attempt r) := by
  refine (Lib.Tasks.uncancelled_await _).bind fun x => ?_
  rcases x with e | u
  · exact fun he => by cases he
  · trivial

/-- Interrupted, a task is over after one more call. -/
theorem yields_body (i : Worker) : Yields Prompt 1 ((process settings n).body i) := by
  have hbegin : Yields Prompt 1 (await .begin) := (Lib.Tasks.yields_await _).mono (Nat.zero_le 1)
  have hattempt : ∀ r, Yields Prompt 1 (attempt r) := fun r =>
    (yields_attempt r).mono (Nat.zero_le 1)
  cases i with
  | heartbeat =>
    refine hbegin.bind fun _ => (hattempt _).bind fun _ => ?_
    refine Yields.ensuring (n := 0) ?_ (within_attempt _) (hattempt _)
    exact (Lib.Tasks.yields_coro _).bind fun _ => (Lib.Tasks.yields_await _).bind fun x => x.elim
  | metricsServer =>
    refine hbegin.bind fun _ => (hattempt _).bind fun _ => (hattempt _).bind fun _ =>
      (hattempt _).bind fun _ => ?_
    exact Yields.ensuring (n := 0) (Lib.Tasks.yields_await _) (within_attempt _) (hattempt _)
  | stopper => exact hbegin.bind fun _ => (Lib.Tasks.yields_await _).mono (Nat.zero_le 1)

theorem uncancelled_body (i : Worker) : Lib.Tasks.Uncancelled ((process settings n).body i) := by
  have hawait : ∀ c, Lib.Tasks.Uncancelled (await c) := Lib.Tasks.uncancelled_await
  cases i with
  | heartbeat =>
    refine (hawait _).bind fun _ => (uncancelled_attempt _).bind fun _ => ?_
    refine Lib.Tasks.Uncancelled.ensuring ?_ (uncancelled_attempt _)
    exact (Lib.Tasks.uncancelled_coro _).bind fun _ => (hawait _).bind fun x => x.elim
  | metricsServer =>
    refine (hawait _).bind fun _ => (uncancelled_attempt _).bind fun _ =>
      (uncancelled_attempt _).bind fun _ => (uncancelled_attempt _).bind fun _ => ?_
    exact (hawait _).ensuring (uncancelled_attempt _)
  | stopper => exact (hawait _).bind fun _ => hawait _

/-- Only a stop lets a task return. -/
theorem returns_stopped {i : Worker} {h : List (Act TaskCall (Awaited TaskAns) (Failure TaskExc))}
    (hr : ((process settings n).body i).Reaches h (.pure ())) :
    ⟨.waitStop, .ok (some ())⟩ ∈ h := by
  cases i with
  | heartbeat =>
    have hnever : (runHeartbeat settings n).NeverReturns := by
      refine Prog.NeverReturns.bind _ fun _ => Prog.NeverReturns.bind _ fun _ => ?_
      refine Lib.Tasks.ensuring_neverReturns (Prog.NeverReturns.bind _ fun _ => ?_)
      exact Prog.NeverReturns.bind _ fun x => x.elim
    exact absurd (hr.neverReturns hnever) id
  | metricsServer =>
    obtain ⟨_, _, _, rfl, -, hr⟩ := Prog.Reaches.bind_returns hr
    obtain ⟨_, _, _, rfl, -, hr⟩ := Prog.Reaches.bind_returns hr
    obtain ⟨_, _, _, rfl, -, hr⟩ := Prog.Reaches.bind_returns hr
    obtain ⟨_, _, _, rfl, -, hr⟩ := Prog.Reaches.bind_returns hr
    obtain ⟨_, _, rfl, hwait⟩ := Lib.Tasks.ensuring_returns hr
    have hmem := Lib.Tasks.await_returns hwait
    simp only [List.mem_append]
    exact .inr (.inr (.inr (.inr (.inl hmem))))
  | stopper =>
    obtain ⟨_, _, _, rfl, -, hr⟩ := Prog.Reaches.bind_returns hr
    exact List.mem_append_right _ (Lib.Tasks.await_returns hr)

/-- The stopper raises nothing of its own. -/
theorem stopper_raises {h : List (Act TaskCall (Awaited TaskAns) (Failure TaskExc))}
    {e : Failure TaskExc} (hr : waitForStop.Reaches h (.throw e)) (hok : Answered h) :
    e = .cancelled := by
  rcases Lib.Tasks.await_reaches hr hok with ⟨-, he⟩ | ⟨-, he⟩ | ⟨_, h', rfl, hrest⟩
  · cases he
  · cases he
    rfl
  · cases hrest with
    | raised =>
      obtain ⟨x, hx⟩ := hok _ (List.mem_cons_of_mem _ (List.mem_singleton_self _))
      exact absurd hx (by simp)
    | @answered _ _ x _ _ hlast =>
      cases x with
      | none =>
        cases hlast
        rfl
      | some x => cases hlast

/-- A stop that was requested is never taken back. -/
theorem lasting_stop : Lib.Tasks.Lasting (process settings n) fun w => w.stop = true where
  answers w c x w' hw hans := by
    cases c with
    | waitStop => rw [hans.2]; exact hw
    | _ => rw [show w' = w from hans]; exact hw
  serves w d x w' hw hserve := by
    cases d with
    | addSignalHandlers => rw [show w' = _ from hserve]; exact hw
    | _ => rw [show w' = w from hserve]; exact hw
  env w w' hw henv := by rw [henv.2]

/-- A task has returned: a stop has been requested. -/
theorem stopped_of_returned {i : Worker} (hr : Runs (process settings n) (start lib) ls s)
    (hres : s.Result i (.ok ())) : s.world.stop = true := by
  obtain ⟨t, ht, hok⟩ := hres
  have hpure : t.code = .pure () := by
    rcases Prog.result?_cases hok with ⟨a, hcode, -⟩ | ⟨e, -, he⟩
    · exact hcode
    · cases he
  have hreach := hr.reaches_code ht
  rw [hpure] at hreach
  refine hr.shown lasting_stop (fun w w' hans => ?_) (returns_stopped hreach)
  rw [hans.2]
  exact hans.1

/-- The stopper never crashes: it ends with a stop or by being cancelled. -/
theorem stopper_uncrashed {e : TaskExc} (hr : Runs (process settings n) (start lib) ls s) :
    ¬ s.Result .stopper (.error (.raised e)) := by
  rintro ⟨t, ht, hres⟩
  have hreach := hr.reaches_code ht
  rcases Prog.result?_cases hres with ⟨u, -, he⟩ | ⟨e', hthrow, he⟩
  · cases he
  · obtain rfl := Except.error.inj he
    rw [hthrow] at hreach
    cases stopper_raises hreach (Lib.Tasks.answered_taskHistory _ _)

/-- When the stopper has ended and was not cancelled, a stop has been requested. -/
theorem stopped_of_stopper (hr : Runs (process settings n) (start lib) ls s)
    (hended : s.Ended .stopper) (hno : ¬ s.Result .stopper (.error .cancelled)) :
    s.world.stop = true := by
  obtain ⟨r, hres⟩ := hended
  rcases r with e | u
  · cases e with
    | cancelled => exact absurd hres hno
    | raised e => exact absurd hres (stopper_uncrashed hr)
  · exact stopped_of_returned hr hres

/-! ## What the supervisor does -/

abbrev MainHistory := List (Act (Op Worker MainCall) (OpAns TaskExc Unit MainAns) MainExc)

/-- An answered operation. -/
abbrev did (o : Op Worker MainCall) (x : OpAns TaskExc Unit MainAns o) :
    Act (Op Worker MainCall) (OpAns TaskExc Unit MainAns) MainExc := ⟨o, .ok x⟩

def Unstarted (h : MainHistory) : Prop := ∀ i, did (.create i) () ∉ h

def Created (h : MainHistory) : Prop := ∀ i, did (.create i) () ∈ h

def Uncancelled (h : MainHistory) : Prop := ∀ is, did (.cancel is) () ∉ h

/-- `step` has shown a certificate that is still valid. -/
def Gated (lib : Library) (h : MainHistory) : Prop :=
  ∃ outcome now, did (.other .inspect) (outcome, now) ∈ h ∧ Usable lib outcome now

/-- All tasks have been waited for. -/
def Joined (h : MainHistory) (done pending : List Worker) : Prop :=
  did (.wait workers) (done, pending) ∈ h ∧ did (.gather pending) () ∈ h

/-- The gate did not let the certificate pass. -/
def Refused (lib : Library) (h : MainHistory) : Prop :=
  ∃ outcome now, did (.other .inspect) (outcome, now) ∈ h ∧
    (assertCertUsable lib outcome now).2 ≠ .returned

/-- Where the supervisor is, by what it has been told. -/
def Stands (lib : Library) (h : MainHistory) : Supervisor Unit → Prop
  | .pure _ => ∃ done pending, Joined h done pending ∧
      (.stopper ∈ done ∨ ∀ t ∈ done, did (.result t) (.ok ()) ∈ h)
  | .throw (.systemExit status) => status = 1 ∧ Unstarted h ∧ Refused lib h
  | .throw (.escaped _) => Unstarted h ∧ Refused lib h
  | .throw (.crashed e) => ∃ done pending, Joined h done pending ∧
      ∃ t ∈ done, did (.result t) (.error (.raised e)) ∈ h
  | .throw .cancelledError => ∃ done pending, Joined h done pending ∧
      ∃ t ∈ done, did (.result t) (.error .cancelled) ∈ h
  | .call (.create _) _ => Gated lib h
  | .call (.wait is) k => Created h ∧ Uncancelled h ∧ is = workers ∧ ∀ x, k x = settle x
  | .call (.cancel is) k => Created h ∧ Uncancelled h ∧
      ∃ done, did (.wait workers) (done, is) ∈ h ∧ ∀ x, k x = conclude done is
  | .call (.gather _) _ => True
  | .call (.result t) _ => ∃ done pending, did (.wait workers) (done, pending) ∈ h ∧ t ∈ done
  | .call (.other _) _ => True

abbrev Standing (lib : Library) (h : MainHistory) (p : Supervisor Unit) : Prop :=
  Lib.Tasks.Always (Stands lib) h p

variable {h : MainHistory} {done pending : List Worker}

theorem Joined.concat (hj : Joined h done pending)
    (a : Act (Op Worker MainCall) (OpAns TaskExc Unit MainAns) MainExc) :
    Joined (h ++ [a]) done pending :=
  ⟨List.mem_append_left _ hj.1, List.mem_append_left _ hj.2⟩

theorem Gated.concat (hg : Gated lib h)
    (a : Act (Op Worker MainCall) (OpAns TaskExc Unit MainAns) MainExc) : Gated lib (h ++ [a]) := by
  obtain ⟨outcome, now, hmem, husable⟩ := hg
  exact ⟨outcome, now, List.mem_append_left _ hmem, husable⟩

/-- A history in which nothing has been cancelled stays so under any other act. -/
theorem Uncancelled.concat (hc : Uncancelled h)
    {a : Act (Op Worker MainCall) (OpAns TaskExc Unit MainAns) MainExc}
    (ha : ∀ is, a.call ≠ .cancel is) : Uncancelled (h ++ [a]) := by
  intro is hmem
  rcases List.mem_append.mp hmem with hmem | hmem
  · exact hc is hmem
  · rw [← List.mem_singleton.mp hmem] at ha
    exact ha is rfl

/-- Going through the done ones: those before have returned. -/
theorem surface_standing {rest : List Worker} (hj : Joined h done pending)
    (hstop : .stopper ∉ done) (hrest : ∀ t ∈ rest, t ∈ done)
    (hbefore : ∀ t ∈ done, t ∈ rest ∨ did (.result t) (.ok ()) ∈ h) :
    Standing lib h (surface rest) := by
  induction rest generalizing h with
  | nil =>
    refine ⟨done, pending, hj, .inr fun t ht => (hbefore t ht).resolve_left ?_⟩
    exact List.not_mem_nil
  | cons t rest ih =>
    have ht : t ∈ done := hrest t (List.mem_cons_self ..)
    have hne : t ≠ .stopper := fun he => hstop (he ▸ ht)
    unfold surface
    rw [if_neg hne]
    refine ⟨⟨done, pending, hj.1, ht⟩, fun x => ?_⟩
    have hj := hj.concat (did (.result t) x)
    have hlast : did (.result t) x ∈ h ++ [did (.result t) x] :=
      List.mem_append_right _ (List.mem_singleton_self _)
    -- the task was cancelled, it raised, or it returned and the next one is asked
    rcases x with e | u
    · cases e with
      | cancelled => exact ⟨done, pending, hj, t, ht, hlast⟩
      | raised e =>
        refine ⟨trivial, fun _ => ?_⟩
        exact ⟨done, pending, hj.concat _, t, ht, List.mem_append_left _ hlast⟩
    · refine ih hj (fun t' ht' => hrest t' (List.mem_cons_of_mem _ ht')) fun t' ht' => ?_
      rcases hbefore t' ht' with hmem | hmem
      · rcases List.mem_cons.mp hmem with rfl | hmem
        · exact .inr hlast
        · exact .inl hmem
      · exact .inr (List.mem_append_left _ hmem)

/-- From the moment the wait is over, `main` stands by what it promises. -/
theorem conclude_standing (hw : did (.wait workers) (done, pending) ∈ h) :
    Standing lib h (conclude done pending) := by
  refine ⟨trivial, fun _ => ?_⟩
  have hj : Joined (h ++ [did (.gather pending) ()]) done pending :=
    ⟨List.mem_append_left _ hw, List.mem_append_right _ (List.mem_singleton_self _)⟩
  show Standing lib _ (if .stopper ∈ done then op (.other .agentStopped) else surface done)
  by_cases hstop : .stopper ∈ done
  · rw [if_pos hstop]
    exact ⟨trivial, fun _ => ⟨done, pending, hj.concat _, .inl hstop⟩⟩
  · rw [if_neg hstop]
    exact surface_standing hj hstop (fun _ ht => ht) fun _ ht => .inl ht

/-- From the moment the tasks exist, it does so too. -/
theorem supervise_standing (hcreated : Created h) (hc : Uncancelled h) :
    Standing lib h supervise := by
  refine ⟨⟨hcreated, hc, rfl, fun _ => rfl⟩, fun x => ?_⟩
  obtain ⟨done, pending⟩ := x
  have hw : did (.wait workers) (done, pending) ∈ h ++ [did (.wait workers) (done, pending)] :=
    List.mem_append_right _ (List.mem_singleton_self _)
  have hcreated : Created (h ++ [did (.wait workers) (done, pending)]) := fun i =>
    List.mem_append_left _ (hcreated i)
  refine ⟨⟨hcreated, hc.concat (by simp), done, hw, fun _ => rfl⟩, fun _ => ?_⟩
  exact conclude_standing (List.mem_append_left _ hw)

/-- The gate was passed for the reason `R`, or exited with status 1. -/
def Passed (R : Prop) : Left → Prop
  | .returned => R
  | .exited status => status = 1
  | .escaped _ => True

theorem Passed.mono {R R' : Prop} {left : Left} (hl : Passed R left) (hR : R → R') :
    Passed R' left := by
  cases left with
  | returned => exact hR hl
  | exited status => exact hl
  | escaped e => trivial

theorem gate_passed (lib : Library) (outcome : Outcome) (now : ℤ) :
    Passed (Usable lib outcome now) (assertCertUsable lib outcome now).2 := by
  cases outcome with
  | fileNotFound => rfl
  | timeoutExpired => rfl
  | completed returncode stdout stderr =>
    unfold assertCertUsable
    by_cases hzero : returncode = 0
    · subst hzero
      dsimp only
      rw [if_neg (by simp)]
      unfold checkValidity
      rcases hread : notAfter lib stdout with e | d
      · by_cases he : e.caught = true
        · simp [he, Passed]
        · simp [he, Passed]
      · rcases hd : d.instant with _ | t
        · simp [hd, Passed]
        · by_cases hle : t ≤ now
          · simp [hd, hle, Passed]
          · simp only [hd, if_neg hle]
            exact usable_iff.mpr ⟨d, t, hread, hd, by omega⟩
    · simp [hzero, Passed]

/-- Behind the guard, `main` stands by what it promises, however the guard was
left. -/
theorem afterGate_standing {left : Left} (hleft : Passed (Gated lib h) left)
    (href : left ≠ .returned → Refused lib h) (hu : Unstarted h) (hc : Uncancelled h) :
    Standing lib h (afterGate left) := by
  cases left with
  | returned =>
    have hg : Gated lib h := hleft
    have hg := hg.concat (did (.other .addSignalHandlers) ())
    refine ⟨trivial, fun _ => ⟨hg, fun _ => ⟨hg.concat _, fun _ => ?_⟩⟩⟩
    refine ⟨(hg.concat _).concat _, fun _ => ?_⟩
    have hc := hc.concat (a := did (.other .addSignalHandlers) ()) (by simp)
    have hc := hc.concat (a := did (.create .heartbeat) ()) (by simp)
    have hc := hc.concat (a := did (.create .metricsServer) ()) (by simp)
    refine supervise_standing (fun i => ?_) (hc.concat (by simp))
    cases i <;> simp
  | exited status => exact ⟨hleft, hu, href (by simp)⟩
  | escaped e => exact ⟨hu, href (by simp)⟩

/-- **Where the supervisor stands**, along each of its histories. -/
theorem main_standing (lib : Library) : Standing lib [] (main lib) := by
  refine ⟨trivial, fun _ => ⟨trivial, fun x => ?_⟩⟩
  obtain ⟨outcome, now⟩ := x
  refine ⟨trivial, fun _ => ?_⟩
  refine afterGate_standing ((gate_passed lib outcome now).mono fun husable => ?_)
    (fun hne => ⟨outcome, now, by simp, hne⟩) (fun i => by simp) fun is => by simp
  exact ⟨outcome, now, by simp, husable⟩

/-! ## How the process ends -/

/-- How the process ends, with the result `r` after the moves `ls`. -/
structure Exits (lib : Library) (ls : Moves) (s : Process) (r : Except MainExc Unit) : Prop where
  /-- A run that ends with status 0 has returned, and a stop was requested. -/
  clean : exitStatus r = 0 → r = .ok () ∧ s.world.stop = true
  /-- Any other status is 1. Either the gate did not let the certificate pass and
  nothing was started, or a task crashed. -/
  failed : exitStatus r ≠ 0 → exitStatus r = 1 ∧
    ((Refused lib (mainHistory MainExc ls) ∧ ∀ i, s.task i = none) ∨
      ∃ i e, r = .error (.crashed e) ∧ s.Result i (.error (.raised e)))
  /-- No task is left behind. -/
  joined : ∀ i, s.task i = none ∨ s.Ended i

/-- In every run the supervisor stands by what it promises. -/
theorem stands (hr : Runs (process settings n) (start lib) ls s) :
    Stands lib (mainHistory MainExc ls) s.main :=
  (main_standing lib).of_reaches hr.main_reaches (Lib.Tasks.answered_mainHistory ls)

theorem ended_of_joined (hr : Runs (process settings n) (start lib) ls s)
    (hj : Joined (mainHistory MainExc ls) done pending) (i : Worker) : s.Ended i := by
  obtain ⟨-, hperm, hdone⟩ := hr.held (Lib.Tasks.mem_mainHistory.mp hj.1)
  have hpending := hr.held (Lib.Tasks.mem_mainHistory.mp hj.2)
  have hi : i ∈ done ++ pending := by
    rw [hperm.mem_iff]
    cases i <;> simp [workers]
  rcases List.mem_append.mp hi with hi | hi
  · exact hdone i hi
  · exact hpending i hi

/-- A task that was not created does not exist. -/
theorem none_of_unstarted (hr : Runs (process settings n) (start lib) ls s)
    (hu : Unstarted (mainHistory MainExc ls)) (i : Worker) : s.task i = none := by
  exact hr.uncreated fun hmem => hu i (Lib.Tasks.mem_mainHistory.mpr hmem)

/-- In a history without a cancel no label is one. -/
theorem Uncancelled.not_mem (hc : Uncancelled (mainHistory MainExc ls)) (is : List Worker) :
    Label.main (.cancel is) () ∉ ls :=
  fun hmem => hc is (Lib.Tasks.mem_mainHistory.mpr hmem)

/-- Before the supervisor cancels, no task ends as cancelled. -/
theorem not_cancelled (hr : Runs (process settings n) (start lib) ls s)
    (hno : ∀ is, Label.main (.cancel is) () ∉ ls) (i : Worker) :
    ¬ s.Result i (.error .cancelled) :=
  hr.not_cancelled (uncancelled_body i) fun is _ => hno is

/-- No task that the supervisor finds done has ended as cancelled. -/
theorem done_not_cancelled (hr : Runs (process settings n) (start lib) ls s)
    (hw : Label.main (.wait workers) (done, pending) ∈ ls) {i : Worker} (hi : i ∈ done) :
    ¬ s.Result i (.error .cancelled) := by
  intro hres
  obtain ⟨ls₁, ls₂, rfl⟩ := List.append_of_mem hw
  obtain ⟨s₁, s₂, hrun, hstep, hrest⟩ := hr.cut
  have hstands := stands hrun
  obtain ⟨r, hended⟩ := hstep.held_main.2.2 i hi
  cases hstep with
  | main hmain hdoes =>
    rw [hmain] at hstands
    obtain ⟨r₁, hr₁⟩ := hdoes.2.2.1 i hi
    have hlast : s.Result i r₁ := hrest.result (by
      obtain ⟨-, -, -, -, rfl, rfl⟩ := hdoes
      exact hr₁)
    rw [hlast.unique hres] at hr₁
    exact not_cancelled hrun hstands.2.1.not_mem i hr₁

/-- A process that ends before its tasks exist has been refused by the guard,
and ends with status 1. -/
theorem exits_unstarted {r : Except MainExc Unit}
    (hr : Runs (process settings n) (start lib) ls s) (hu : Unstarted (mainHistory MainExc ls))
    (href : Refused lib (mainHistory MainExc ls)) (hstatus : exitStatus r = 1) :
    Exits lib ls s r where
  clean hzero := absurd (hstatus.symm.trans hzero) (by decide)
  failed _ := ⟨hstatus, .inl ⟨href, none_of_unstarted hr hu⟩⟩
  joined i := .inl (none_of_unstarted hr hu i)

/-- **How the process ends**, in every schedule: status 0 is a requested stop,
a failed gate starts nothing, a crash is passed on, and no task is left. -/
theorem process_exits {r : Except MainExc Unit}
    (hr : Runs (process settings n) (start lib) ls s) (hres : s.main.result? = some r) :
    Exits lib ls s r := by
  have hstands := stands hr
  rcases Prog.result?_cases hres with ⟨u, hmain, rfl⟩ | ⟨e, hmain, rfl⟩
  · rw [hmain] at hstands
    obtain ⟨done, pending, hj, hhow⟩ := hstands
    refine ⟨fun _ => ⟨rfl, ?_⟩, fun hne => absurd rfl hne, fun i => .inr (ended_of_joined hr hj i)⟩
    -- `main` returned with the stopper done, or with every task it found done asked for
    -- its result
    rcases hhow with hstop | hall
    · have hw := Lib.Tasks.mem_mainHistory.mp hj.1
      exact stopped_of_stopper hr ((hr.held hw).2.2 _ hstop) (done_not_cancelled hr hw hstop)
    · obtain ⟨hne, -, -⟩ := hr.held (Lib.Tasks.mem_mainHistory.mp hj.1)
      obtain ⟨t, ht⟩ := List.exists_mem_of_ne_nil _ hne
      exact stopped_of_returned hr (hr.held (Lib.Tasks.mem_mainHistory.mp (hall t ht)))
  · rw [hmain] at hstands
    cases e with
    | systemExit status =>
      obtain ⟨rfl, hu, href⟩ := hstands
      exact exits_unstarted hr hu href rfl
    | escaped e => exact exits_unstarted hr hstands.1 hstands.2 rfl
    | crashed e =>
      obtain ⟨done, pending, hj, t, ht, hmem⟩ := hstands
      have hcrash := hr.held (Lib.Tasks.mem_mainHistory.mp hmem)
      exact ⟨fun h => absurd h (by simp [exitStatus]), fun _ => ⟨rfl, .inr ⟨t, e, rfl, hcrash⟩⟩,
        fun i => .inr (ended_of_joined hr hj i)⟩
    -- => it would be that of a task found done, and those were not cancelled
    | cancelledError =>
      obtain ⟨done, pending, hj, t, ht, hmem⟩ := hstands
      have hcancelled := hr.held (Lib.Tasks.mem_mainHistory.mp hmem)
      exact absurd hcancelled (done_not_cancelled hr (Lib.Tasks.mem_mainHistory.mp hj.1) ht)

/-! ## The port is taken -/

/-- The default interval is long enough for the settings to be accepted. -/
theorem default_interval : (5 : ℤ) ≤ 30 := by omega

theorem default_jitter : (0 : ℤ) ≤ 5 := by omega

/-- The settings in an empty environment. -/
def defaults : LoopSettings where
  interval_ge := default_interval
  jitter_nonneg := default_jitter

/-- `step`'s JSON, cut down to the end date. -/
def datedText : String := r#"{"validity": {"end": "2030-01-01T00:00:00Z"}}"#

/-- The two functions, as far as this text needs them. -/
def datedLibrary : Library where
  loads text :=
    if text = datedText then
      .ok (.object [(codePoints "validity",
        .object [(codePoints "end", .string (codePoints "2030-01-01T00:00:00Z"))])])
    else .error .valueError
  fromisoformat s :=
    if s = codePoints "2030-01-01T00:00:00+00:00" then some ⟨1893456000000000, some 0⟩ else none

theorem dated_returned :
    (assertCertUsable datedLibrary (.completed 0 datedText "") 0).2 = .returned := by
  decide +kernel

/-- The moves up to the wait, with a certificate of 2030 in 1970. -/
def launch : Moves :=
  [.main (.other .agentStarting) (),
    .main (.other .inspect) (.completed 0 datedText "", (0 : ℤ)),
    .main (.other (.guardLog (assertCertUsable datedLibrary (.completed 0 datedText "") 0).1)) (),
    .main (.other .addSignalHandlers) (),
    .main (.create .heartbeat) (), .main (.create .metricsServer) (), .main (.create .stopper) ()]

/-- The process when it waits. -/
def launched : Process where
  main := supervise
  task i := some ⟨(process defaults 0).body i, false⟩
  world := ⟨true, false⟩

/-- A move of the supervisor. -/
theorem operated {s₀ : Process} {o : Op Worker MainCall}
    {k : OpAns TaskExc Unit MainAns o → Supervisor Unit} {x : OpAns TaskExc Unit MainAns o}
    {T : Worker → Option (Lib.Tasks.Task TaskCall TaskAns TaskExc Unit)} {w : Signals}
    (hr : Runs (process settings n) s₀ ls s) (hmain : s.main = .call o k)
    (hdoes : o.Does (process settings n) s x T w) :
    Runs (process settings n) s₀ (ls ++ [.main o x]) ⟨k x, T, w⟩ :=
  hr.snoc (.main hmain hdoes)

theorem runs_launch : Runs (process defaults 0) (start datedLibrary) launch launched := by
  let zero : Worker → Option (Lib.Tasks.Task TaskCall TaskAns TaskExc Unit) := fun _ => none
  let one := Function.update zero .heartbeat (some ⟨(process defaults 0).body .heartbeat, false⟩)
  let two := Function.update one .metricsServer
    (some ⟨(process defaults 0).body .metricsServer, false⟩)
  have htask : launched.task
      = Function.update two .stopper (some ⟨(process defaults 0).body .stopper, false⟩) := by
    funext i
    cases i <;> simp [launched, two, one]
  have h := Runs.refl (L := process defaults 0) (s := start datedLibrary)
  have h := operated (x := ()) (T := zero) (w := {}) h rfl ⟨rfl, rfl⟩
  have h := operated (x := ((.completed 0 datedText "", (0 : ℤ)) : Outcome × ℤ)) (T := zero)
    (w := {}) h rfl ⟨rfl, rfl⟩
  have h := operated (x := ()) (T := zero) (w := {}) h rfl ⟨rfl, rfl⟩
  have hgate : afterGate (assertCertUsable datedLibrary (.completed 0 datedText "") 0).2
      = afterGate .returned := by
    rw [dated_returned]
  have h := operated (o := .other .addSignalHandlers) (x := ()) (T := zero)
    (w := ⟨true, false⟩) h hgate ⟨rfl, rfl⟩
  have h := operated (x := ()) (T := one) (w := ⟨true, false⟩) h rfl ⟨rfl, rfl, rfl⟩
  have h := operated (x := ()) (T := two) (w := ⟨true, false⟩) h rfl ⟨rfl, rfl, rfl⟩
  exact operated (x := ()) h rfl ⟨rfl, htask, rfl⟩

/-- A prompt call leaves the world as it is. -/
theorem prompt_same {c : TaskCall} (x : TaskAns c) (w : Signals) (hc : Prompt c) :
    answers w c x w := by
  cases c with
  | waitStop => exact absurd hc id
  | beyond => exact absurd hc id
  | begin => rfl
  | loop c => rfl
  | resource r => rfl

/-- While the supervisor waits and no task is left to move, nothing can. -/
theorem waiting_idle (T : Worker → Option (Lib.Tasks.Task TaskCall TaskAns TaskExc Unit))
    (w : Signals) : Sys.Idle (process defaults 0) (⟨supervise, T, w⟩ : Process) :=
  ⟨.wait workers, settle, rfl, trivial⟩

/-- A prompt call of a task is answered while the supervisor waits. -/
theorem resumed_prompt {T : Worker → Option (Lib.Tasks.Task TaskCall TaskAns TaskExc Unit)}
    {w : Signals} (i : Worker) (c : TaskCall) (x : TaskAns c) {k : Awaited TaskAns c → Body Unit}
    (hr : Runs (process defaults 0) (start datedLibrary) ls ⟨supervise, T, w⟩)
    (ht : T i = some ⟨.call c k, false⟩) (hc : Prompt c) :
    Runs (process defaults 0) (start datedLibrary) (ls ++ [.task i c (some x)])
      ⟨supervise, Function.update T i (some ⟨k (some x), false⟩), w⟩ :=
  hr.snoc (.resumed (waiting_idle T w) ht (prompt_same x w hc))

/-- The port is taken, and the supervisor has cancelled the others. -/
def refused : Process where
  main := conclude [.metricsServer] [.heartbeat, .stopper]
  task
    | .heartbeat => some ⟨runHeartbeat defaults 0, true⟩
    | .metricsServer => some ⟨.throw (.raised (.os "address already in use")), false⟩
    | .stopper => some ⟨waitForStop, true⟩
  world := ⟨true, false⟩

def refusal : Moves :=
  launch ++ [.task .metricsServer .begin (some ())] ++
    [.task .metricsServer (.resource .setup) (some (.error "address already in use"))] ++
    [.main (.wait workers) ([.metricsServer], [.heartbeat, .stopper])] ++
    [.main (.cancel [.heartbeat, .stopper]) ()]

theorem runs_refusal : Runs (process defaults 0) (start datedLibrary) refusal refused := by
  have h := resumed_prompt .metricsServer .begin () runs_launch rfl trivial
  have h := resumed_prompt .metricsServer (.resource .setup) (.error "address already in use") h
    rfl trivial
  have h := operated (x := ([.metricsServer], [.heartbeat, .stopper]))
    (w := ⟨true, false⟩) h rfl ⟨by simp, by decide, fun i hi => ?_, fun i hi => ?_, rfl, rfl⟩
  · refine operated (x := ()) h rfl ⟨?_, rfl⟩
    funext i
    cases i <;> rfl
  · obtain rfl := List.mem_singleton.mp hi
    exact ⟨_, _, rfl, rfl⟩
  · intro ⟨r, t, ht, hres⟩
    rcases List.mem_pair.mp hi with rfl | rfl
    · obtain rfl := Option.some.inj (show some _ = some t from ht)
      cases hres
    · obtain rfl := Option.some.inj (show some _ = some t from ht)
      cases hres

/-- The process at its end: the other two have been interrupted. -/
def fallen : Process where
  main := .throw (.crashed (.os "address already in use"))
  task
    | .heartbeat => some ⟨.throw .cancelled, false⟩
    | .metricsServer => some ⟨.throw (.raised (.os "address already in use")), false⟩
    | .stopper => some ⟨.throw .cancelled, false⟩
  world := ⟨true, false⟩

/-- The moves that are left: the two are interrupted, and the crash is passed on. -/
def fall : Moves :=
  [.task .heartbeat .begin none, .task .stopper .begin none,
    .main (.gather [.heartbeat, .stopper]) (),
    .main (.result .metricsServer) (.error (.raised (.os "address already in use"))),
    .main (.other (.taskCrashed "metrics_server" (.os "address already in use"))) ()]

/-- From there, the moves of `fall` bring the process to its end. -/
theorem runs_fall : Runs (process defaults 0) refused fall fallen := by
  have hidle : ∀ T w, Sys.Idle (process defaults 0)
      (⟨conclude [.metricsServer] [.heartbeat, .stopper], T, w⟩ : Process) := fun _ _ =>
    ⟨.gather [.heartbeat, .stopper], _, rfl, trivial⟩
  have h := (Runs.refl (s := refused)).snoc (.interrupted (i := .heartbeat) (hidle _ _) rfl)
  have h := h.snoc (.interrupted (i := .stopper) (hidle _ _) rfl)
  have h := operated (x := ()) (T := fallen.task) (w := ⟨true, false⟩) h rfl
    ⟨fun i hi => ?_, ?_, rfl⟩
  · have h := operated (o := .result .metricsServer) (T := fallen.task) (w := ⟨true, false⟩)
      (x := .error (.raised (.os "address already in use"))) h rfl ⟨⟨_, rfl, rfl⟩, rfl, rfl⟩
    exact operated (x := ()) (T := fallen.task) (w := ⟨true, false⟩) h rfl ⟨rfl, rfl⟩
  · rcases List.mem_pair.mp hi with rfl | rfl
    · exact ⟨.error .cancelled, _, rfl, rfl⟩
    · exact ⟨.error .cancelled, _, rfl, rfl⟩
  · funext i
    cases i <;> rfl

/-- That end is the one that the general theorem describes. -/
theorem refusal_exits : Exits datedLibrary (refusal ++ fall) fallen
    (.error (.crashed (.os "address already in use"))) :=
  process_exits (runs_refusal.trans runs_fall) rfl

/-! ## When the process ends -/

/-- A move of the supervisor or of a task. -/
def own : Label TaskCall TaskAns TaskExc Unit Worker MainCall MainAns → Bool
  | .env => false
  | _ => true

/-- What is left to do when the tasks have been cancelled. -/
def Late : Op Worker MainCall → Prop
  | .create _ => False
  | .wait _ => False
  | .cancel _ => False
  | _ => True

/-- The moves of the process itself are the supervisor's and its three tasks'. -/
theorem countP_own (ls : Moves) : ls.countP own =
    (mainHistory MainExc ls).length + (Lib.Tasks.moves .heartbeat ls +
      Lib.Tasks.moves .metricsServer ls + Lib.Tasks.moves .stopper ls) := by
  unfold Lib.Tasks.moves
  induction ls with
  | nil => rfl
  | cons l ls ih =>
    rw [List.countP_cons, ih]
    unfold mainHistory taskHistory
    cases l with
    | main o x =>
      simp only [List.filterMap_cons, Lib.Tasks.Label.op?, Lib.Tasks.Label.act?, own,
        List.length_cons]
      simp only [if_true]
      omega
    | task i c x =>
      cases i <;>
        (simp only [List.filterMap_cons, Lib.Tasks.Label.op?, Lib.Tasks.Label.act?, own,
          reduceCtorEq, if_false, if_true, List.length_cons]; omega)
    | env =>
      simp only [List.filterMap_cons, Lib.Tasks.Label.op?, Lib.Tasks.Label.act?, own]
      simp

/-- Surfacing the outcome of the workers takes one move for each, and one to
return. -/
theorem within_surface (rest : List Worker) : Within Late (surface rest) (rest.length + 1) := by
  induction rest with
  | nil => trivial
  | cons t rest ih =>
    unfold surface
    split
    next => exact ih.mono (Nat.le_succ _)
    next =>
      refine ⟨trivial, rest.length + 1, rfl, fun x => ?_⟩
      rcases x with e | u
      · cases e with
        | cancelled => trivial
        | raised e => exact ⟨trivial, rest.length, rfl, fun _ => trivial⟩
      · exact ih

/-- From the end of the wait the supervisor has at most five moves. -/
theorem within_conclude (hlen : done.length ≤ 3) : Within Late (conclude done pending) 5 := by
  refine ⟨trivial, 4, rfl, fun _ => ?_⟩
  show Within Late (if .stopper ∈ done then op (.other .agentStopped) else surface done) 4
  split
  next => exact ⟨trivial, 3, rfl, fun _ => trivial⟩
  next => exact (within_surface done).mono (by omega)

/-- The state in which the tasks have just been cancelled. -/
structure Winding (s : Process) : Prop where
  main : ∃ done pending, s.main = conclude done pending ∧ done.length ≤ 3
  task : ∀ i, ∃ t, s.task i = some t ∧ t.Owes Prompt 1 2

/-- Once the supervisor has cancelled its tasks, the process winds up. -/
theorem winding_of_cancel {is : List Worker} {s₁ s₂ : Process}
    (hr : Runs (process settings n) (start lib) ls s₁)
    (hstep : Step (process settings n) s₁ (.main (.cancel is) ()) s₂) : Winding s₂ := by
  have hstands := stands hr
  cases hstep with
  | @main _ k _ task w hmain hdoes =>
    rw [hmain] at hstands
    obtain ⟨hcreated, hno, done, hwait, hk⟩ := hstands
    obtain ⟨-, hperm, hdone⟩ := hr.held (Lib.Tasks.mem_mainHistory.mp hwait)
    refine ⟨⟨done, is, hk (), ?_⟩, fun i => ?_⟩
    · -- what remains of `main` is bounded by the number of workers
      have hlen := hperm.length_eq
      rw [List.length_append] at hlen
      have hworkers : workers.length = 3 := rfl
      omega
    · obtain ⟨t, ht⟩ := hr.held (Lib.Tasks.mem_mainHistory.mp (hcreated i))
      have huncancelled : ∀ is, i ∈ is → Label.main (.cancel is) () ∉ ls :=
        fun is _ => hno.not_mem is
      show ∃ t, task i = some t ∧ _
      rw [hdoes.1]
      dsimp only
      by_cases hi : i ∈ is
      · rw [if_pos hi, ht]
        exact ⟨t.cancel, rfl, hr.owes_cancel (yields_body i) huncancelled ht⟩
      · -- it was done when the wait was over
        have hmem : i ∈ done ++ is := by
          rw [hperm.mem_iff]
          cases i <;> simp [workers]
        rw [if_neg hi, ht]
        obtain ⟨r, t', ht', hres⟩ := hdone i ((List.mem_append.mp hmem).resolve_right hi)
        obtain rfl := Option.some.inj (ht.symm.trans ht')
        refine ⟨t, rfl, .inr ⟨(hr.uncut huncancelled).1 t ht, ?_⟩⟩
        rcases Prog.result?_cases hres with ⟨u, hcode, -⟩ | ⟨e, hcode, -⟩
        · rw [hcode]
          trivial
        · rw [hcode]
          trivial

/-- From there on the supervisor does only what is left, and each task no more
than it owes. -/
theorem Winding.run (hw : Winding s) (hr : Runs (process settings n) s ls s') :
    (∃ m, Within Late s'.main m ∧ (mainHistory MainExc ls).length + m = 5) ∧
    ∀ i, ∃ t m, s'.task i = some t ∧ t.Owes Prompt 1 m ∧ Lib.Tasks.moves i ls + m = 2 := by
  obtain ⟨done, pending, hmain, hlen⟩ := hw.main
  have hreach := hr.main_reaches
  rw [hmain] at hreach
  have hall : Answered (mainHistory MainExc ls) := Lib.Tasks.answered_mainHistory ls
  obtain ⟨m, hm, hwithin⟩ := (within_conclude hlen).of_reaches hreach hall
  refine ⟨⟨m, hwithin, by omega⟩, fun i => ?_⟩
  obtain ⟨t, ht, howes⟩ := hw.task i
  refine hr.winds_down (fun o x hox => ?_) ht howes
  have hlate := hreach.all (within_conclude hlen).all _ (Lib.Tasks.mem_mainHistory.mpr hox)
  cases o with
  | create j => exact absurd hlate id
  | wait is => exact absurd hlate id
  | cancel is => exact absurd hlate id
  | gather is => trivial
  | result j => trivial
  | other d => trivial

/-- Every call that is answered at once has an answer. -/
theorem prompt_answered (c : TaskCall) (hc : Prompt c) (w : Signals) :
    ∃ x w', (process settings n).answers w c x w' := by
  cases c with
  | begin => exact ⟨(), w, rfl⟩
  | loop c =>
    cases c with
    | client c => exact ⟨.error (.other ""), w, rfl⟩
    | json => exact ⟨.ok (), w, rfl⟩
    | uniform low high => exact ⟨(0 : ℚ), w, rfl⟩
    | sleep delay => exact ⟨(), w, rfl⟩
    | inc result => exact ⟨(), w, rfl⟩
    | registerFailed attempt error => exact ⟨(), w, rfl⟩
    | loopStarting interval jitter => exact ⟨(), w, rfl⟩
    | heartbeatFailed error => exact ⟨(), w, rfl⟩
  | resource r => exact ⟨.ok (), w, rfl⟩
  | waitStop => exact absurd hc id
  | beyond => exact absurd hc id

/-- Every call of the supervisor has an answer. -/
theorem served (d : MainCall) (w : Signals) : ∃ x w', serves w d x w' := by
  cases d with
  | inspect => exact ⟨(.fileNotFound, (0 : ℤ)), w, rfl⟩
  | addSignalHandlers => exact ⟨(), _, rfl⟩
  | agentStarting => exact ⟨(), w, rfl⟩
  | guardLog lines => exact ⟨(), w, rfl⟩
  | agentStopped => exact ⟨(), w, rfl⟩
  | taskCrashed task error => exact ⟨(), w, rfl⟩

/-- Until the process has ended, a move of its own is possible. -/
theorem late_progress {m : ℕ} (hr : Runs (process settings n) (start lib) ls s)
    (hlate : Within Late s.main m) (howes : ∀ i, ∃ t m, s.task i = some t ∧ t.Owes Prompt 1 m)
    (hnot : s.main.result? = none) :
    ∃ l s', own l = true ∧ Step (process settings n) s l s' := by
  rcases hmain : s.main with u | e | ⟨o, k⟩
  · rw [hmain] at hnot
    cases hnot
  · rw [hmain] at hnot
    cases hnot
  · have hstands := stands hr
    rw [hmain] at hlate hstands
    -- of the operations that are late, the `gather` alone may have to wait
    cases o with
    | create i => exact absurd hlate.1 id
    | wait is => exact absurd hlate.1 id
    | cancel is => exact absurd hlate.1 id
    | gather is =>
      by_cases hall : ∀ i ∈ is, s.Ended i
      · exact ⟨_, _, rfl, .main (x := ()) hmain ⟨hall, rfl, rfl⟩⟩
      · -- one that has not ended can move
        push Not at hall
        obtain ⟨i, -, hnot⟩ := hall
        obtain ⟨t, m', ht, ho⟩ := howes i
        rcases ho.can_move ⟨_, k, hmain, trivial⟩ ht prompt_answered with hended | ⟨c, x, s', hstep⟩
        · exact absurd hended hnot
        · exact ⟨_, s', rfl, hstep⟩
    | result i =>
      obtain ⟨done, pending, hwait, hi⟩ := hstands
      obtain ⟨r, hres⟩ := (hr.held (Lib.Tasks.mem_mainHistory.mp hwait)).2.2 i hi
      exact ⟨_, _, rfl, .main (x := r) hmain ⟨hres, rfl, rfl⟩⟩
    | other d =>
      obtain ⟨x, w, hw⟩ := served d s.world
      have hserve : (process settings n).serves s.world d x w := hw
      exact ⟨_, _, rfl, .main (x := x) hmain ⟨hserve, rfl⟩⟩

/-- A process that winds up takes at most eleven moves of its own, and always
has one until it has ended. -/
theorem Winding.progress {ls₀ : Moves} (hw : Winding s)
    (hr : Runs (process settings n) (start lib) ls₀ s) (hr' : Runs (process settings n) s ls' s') :
    ls'.countP own ≤ 11 ∧
      (s'.main.result? = none → ∃ l s'', own l = true ∧ Step (process settings n) s' l s'') := by
  obtain ⟨⟨m, hlate, hm⟩, htask⟩ := hw.run hr'
  constructor
  · obtain ⟨_, m₁, -, -, h₁⟩ := htask .heartbeat
    obtain ⟨_, m₂, -, -, h₂⟩ := htask .metricsServer
    obtain ⟨_, m₃, -, -, h₃⟩ := htask .stopper
    rw [countP_own]
    omega
  · refine late_progress (hr.trans hr') hlate fun i => ?_
    obtain ⟨t, m', ht, ho, -⟩ := htask i
    exact ⟨t, m', ht, ho⟩

/-- **The end is near once the supervisor has cancelled**: from there every
schedule has at most eleven moves of the process, and is not stuck before the
process has ended. -/
theorem shutdown_ends {is : List Worker} (hr : Runs (process settings n) (start lib) ls s)
    (hc : Label.main (.cancel is) () ∈ ls) (hr' : Runs (process settings n) s ls' s') :
    ls'.countP own ≤ 11 ∧
      (s'.main.result? = none → ∃ l s'', own l = true ∧ Step (process settings n) s' l s'') := by
  obtain ⟨ls₁, ls₂, rfl⟩ := List.append_of_mem hc
  obtain ⟨s₁, s₂, hrun, hstep, hrest⟩ := hr.cut
  have hw := winding_of_cancel hrun hstep
  obtain ⟨hlen, hnext⟩ := hw.progress (hrun.snoc hstep) (hrest.trans hr')
  rw [List.countP_append] at hlen
  exact ⟨by omega, hnext⟩

/-- The five moves to the end are among the eleven. -/
theorem refusal_ends : fall.countP own ≤ 11 ∧
    (fallen.main.result? = none →
      ∃ l s', own l = true ∧ Step (process defaults 0) fallen l s') := by
  have hcancel : Label.main (.cancel [.heartbeat, .stopper]) () ∈ refusal :=
    List.mem_append_right _ (List.mem_singleton_self _)
  exact shutdown_ends runs_refusal hcancel runs_fall

/-- From there the process can be brought to its end. -/
theorem Winding.finish {ls₀ : Moves} {s₀ : Process} (hw : Winding s₀)
    (hr : Runs (process settings n) (start lib) ls₀ s₀) (k : ℕ) (hk : 11 ≤ ls.countP own + k)
    (hrun : Runs (process settings n) s₀ ls s) :
    ∃ ls' s' r, Runs (process settings n) s ls' s' ∧ ls'.length ≤ k + 1 ∧
      s'.main.result? = some r := by
  induction k generalizing ls s with
  | zero =>
    rcases hres : s.main.result? with _ | r
    · -- one move more would be one too many
      obtain ⟨l, s', hown, hstep⟩ := (hw.progress hr hrun).2 hres
      have hlen := (hw.progress hr (hrun.snoc hstep)).1
      rw [List.countP_append, List.countP_singleton, if_pos hown] at hlen
      omega
    · exact ⟨[], s, r, .refl, Nat.zero_le _, hres⟩
  | succ k ih =>
    rcases hres : s.main.result? with _ | r
    · obtain ⟨l, s', hown, hstep⟩ := (hw.progress hr hrun).2 hres
      have hk' : 11 ≤ (ls ++ [l]).countP own + k := by
        rw [List.countP_append, List.countP_singleton, if_pos hown]
        omega
      obtain ⟨ls', s'', r, hrest, hlen, hend⟩ := ih hk' (hrun.snoc hstep)
      refine ⟨l :: ls', s'', r, ?_, by simp; omega, hend⟩
      exact (Runs.refl.snoc hstep).trans hrest
    · exact ⟨[], s, r, .refl, Nat.zero_le _, hres⟩

/-- While the supervisor waits, the stopper hears of a stop. -/
theorem stopper_ends {is : List Worker} {k : List Worker × List Worker → Supervisor Unit}
    (hr : Runs (process settings n) (start lib) ls s) (hmain : s.main = .call (.wait is) k)
    (hstop : s.world.stop = true) :
    ∃ ls' s', Runs (process settings n) s ls' s' ∧ ls'.length ≤ 2 ∧ s'.main = s.main ∧
      s'.Ended .stopper := by
  have hstands := stands hr
  rw [hmain] at hstands
  obtain ⟨hcreated, hno, -, -⟩ := hstands
  obtain ⟨t, ht⟩ := hr.held (Lib.Tasks.mem_mainHistory.mp (hcreated .stopper))
  obtain ⟨hflag, hcut⟩ := hr.uncut (i := .stopper) fun is _ => hno.not_mem is
  have hidle : s.Idle (process settings n) := ⟨.wait is, k, hmain, trivial⟩
  obtain ⟨code, b⟩ := t
  obtain rfl : b = false := hflag _ ht
  -- the last of its two moves
  have hlast : ∀ s' : Process, s'.main = s.main → s'.world.stop = true →
      s'.task .stopper = some ⟨await .waitStop, false⟩ →
      ∃ s'', Step (process settings n) s' (.task .stopper .waitStop (some ())) s'' ∧
        s''.main = s.main ∧ s''.Ended .stopper := by
    intro s' hmain' hstop' ht'
    have hidle' : s'.Idle (process settings n) := ⟨.wait is, k, hmain'.trans hmain, trivial⟩
    let heard : Process :=
      ⟨s'.main, Function.update s'.task .stopper (some ⟨.pure (), false⟩), s'.world⟩
    have hended : heard.Ended .stopper := ⟨.ok (), ⟨.pure (), false⟩, by simp [heard], rfl⟩
    exact ⟨heard, .resumed hidle' ht' ⟨hstop', rfl⟩, hmain', hended⟩
  rcases hr.task_reaches .stopper with ⟨hnone, -⟩ | ⟨t', ht', hreach⟩
  · exact absurd (ht.symm.trans hnone) (by simp)
  · obtain rfl := Option.some.inj (ht.symm.trans ht')
    have hall := Lib.Tasks.answered_taskHistory Worker.stopper ls
    rcases Lib.Tasks.await_reaches hreach hall with
      ⟨-, hcode⟩ | ⟨hcancelled, -⟩ | ⟨_, h', hh, hrest⟩
    · obtain rfl : code = waitForStop := hcode
      let begun : Process :=
        ⟨s.main, Function.update s.task .stopper (some ⟨await .waitStop, false⟩), s.world⟩
      have hstep : Step (process settings n) s (.task .stopper .begin (some ())) begun :=
        .resumed hidle ht rfl
      obtain ⟨s'', hstep', hmain', hended⟩ := hlast begun rfl hstop (by simp [begun])
      exact ⟨_, s'', (Runs.refl.snoc hstep).snoc hstep', by simp, hmain', hended⟩
    · rw [hcancelled] at hcut
      obtain ⟨x, hx⟩ := hcut _ (List.mem_singleton_self _)
      exact absurd hx (by simp)
    · cases hrest with
      | refl =>
        obtain ⟨s'', hstep, hmain', hended⟩ := hlast s rfl hstop ht
        exact ⟨_, s'', Runs.refl.snoc hstep, by simp, hmain', hended⟩
      | @answered _ _ x _ _ hend =>
        have hsome := hcut ⟨.waitStop, .ok x⟩ (by rw [hh]; simp)
        obtain ⟨y, hy⟩ := hsome
        cases x with
        | none => exact absurd hy (by simp)
        | some x =>
          cases hend with
          | refl => exact ⟨[], s, .refl, by simp, rfl, .ok x, _, ht, rfl⟩
      | @raised _ _ e =>
        obtain ⟨y, hy⟩ := hcut ⟨.waitStop, .error e⟩ (by rw [hh]; simp)
        exact absurd hy (by simp)

/-- With the stopper among the tasks that are done and nothing raised, `main`
returns. -/
theorem conclude_ok {q : Supervisor Unit} {r : Except MainExc Unit} (hstop : .stopper ∈ done)
    (hr : (conclude done pending).Reaches h q) (hall : Answered h) (hres : q.result? = some r) :
    r = .ok () := by
  have hstands : Lib.Tasks.Always (fun _ p => ∀ r, Prog.result? p = some r → r = .ok ()) []
      (conclude done pending) := by
    refine ⟨fun r hr => (by cases hr), fun _ => ?_⟩
    show Lib.Tasks.Always _ _ (if .stopper ∈ done then op (.other .agentStopped) else surface done)
    rw [if_pos hstop]
    refine ⟨fun r hr => (by cases hr), fun _ r hr => ?_⟩
    exact (Option.some.inj hr).symm
  exact hstands.of_reaches hr hall r hres

/-- The way to the end: the stopper ends first, and then the supervisor finds it
done. -/
theorem stop_reached {is : List Worker} {k : List Worker × List Worker → Supervisor Unit}
    (hr : Runs (process settings n) (start lib) ls s) (hmain : s.main = .call (.wait is) k)
    (hstop : s.world.stop = true) :
    ∃ ls' s', Runs (process settings n) s ls' s' ∧ ls'.length ≤ 16 ∧
      s'.main.result? = some (.ok ()) := by
  obtain ⟨ls₁, s₁, hrun₁, hlen₁, hmain₁, hended⟩ := stopper_ends hr hmain hstop
  have hr₁ := hr.trans hrun₁
  have hstands := stands hr₁
  rw [hmain₁, hmain] at hstands
  obtain ⟨-, -, rfl, hk⟩ := hstands
  classical
  -- the wait is over: it finds the stopper done
  let done := workers.filter fun i => decide (s₁.Ended i)
  let pending := workers.filter fun i => !decide (s₁.Ended i)
  have hdone : ∀ i, i ∈ done ↔ i ∈ workers ∧ s₁.Ended i := fun i => by simp [done]
  have hstopper : .stopper ∈ done := (hdone _).mpr ⟨by simp [workers], hended⟩
  have hwait : Step (process settings n) s₁ (.main (.wait workers) (done, pending))
      ⟨k (done, pending), s₁.task, s₁.world⟩ := by
    refine .main (hmain₁.trans hmain) ⟨List.ne_nil_of_mem hstopper, ?_, ?_, ?_, rfl, rfl⟩
    · exact List.filter_append_perm _ _
    · exact fun i hi => ((hdone i).mp hi).2
    · intro i hi
      simpa [pending] using (List.mem_filter.mp hi).2
  have hr₂ := hr₁.snoc hwait
  have hnext : k (done, pending) = .call (.cancel pending) fun _ => conclude done pending :=
    hk (done, pending)
  have hcancel := Step.main (L := process settings n)
    (s := ⟨k (done, pending), s₁.task, s₁.world⟩) (x := ()) hnext ⟨rfl, rfl⟩
  have hw := winding_of_cancel hr₂ hcancel
  obtain ⟨ls₃, s₃, r, hrun₃, hlen₃, hres⟩ := hw.finish (hr₂.snoc hcancel) 11 (by simp) .refl
  have hok : r = .ok () := conclude_ok hstopper hrun₃.main_reaches
    (Lib.Tasks.answered_mainHistory ls₃) hres
  subst hok
  refine ⟨_, s₃, (hrun₁.trans ((Runs.refl.snoc hwait).snoc hcancel)).trans hrun₃, ?_, hres⟩
  simp only [List.length_append, List.length_cons, List.length_nil]
  omega

/-- What a process that has been told to stop comes to, from the state `s`. -/
structure Stops (settings : LoopSettings) (n : ℕ) (s : Process) : Prop where
  /-- It can come to its end with status 0, within sixteen moves. -/
  reached : ∃ ls' s', Runs (process settings n) s ls' s' ∧ ls'.length ≤ 16 ∧
    s'.main.result? = some (.ok ())
  /-- Whenever it ends, it ends with status 0, or a worker has crashed on the way. -/
  only : ∀ ls' s' r, Runs (process settings n) s ls' s' → s'.main.result? = some r →
    r = .ok () ∨ ∃ i e, r = .error (.crashed e) ∧ ¬ s.Ended i ∧ s'.Result i (.error (.raised e))

/-- **A stop is heard**: while the supervisor waits and neither worker has ended,
a process that has been told to stop can come to its end with status 0, and
nothing but a crash from then on can bring another one. -/
theorem stop_heard {is : List Worker} {k : List Worker × List Worker → Supervisor Unit}
    (hr : Runs (process settings n) (start lib) ls s) (hmain : s.main = .call (.wait is) k)
    (hstop : s.world.stop = true) (hwork : ∀ i, s.Ended i → i = .stopper) :
    Stops settings n s where
  reached := stop_reached hr hmain hstop
  only ls' s' r hr' hres := by
    have hexits := process_exits (hr.trans hr') hres
    by_cases hstatus : exitStatus r = 0
    · exact .inl (hexits.clean hstatus).1
    · refine .inr ?_
      rcases (hexits.failed hstatus).2 with ⟨-, hnone⟩ | ⟨i, e, rfl, hcrash⟩
      · -- the tasks have been created
        have hstands := stands hr
        rw [hmain] at hstands
        have hmem := Lib.Tasks.mem_mainHistory.mp (hstands.1 .stopper)
        obtain ⟨t, ht⟩ := (hr.trans hr').held (List.mem_append_left ls' hmem)
        rw [hnone .stopper] at ht
        exact absurd ht (by simp)
      · refine ⟨i, e, rfl, fun hended => ?_, hcrash⟩
        obtain rfl := hwork i hended
        exact stopper_uncrashed (hr.trans hr') hcrash

/-- The process of the examples when it waits and has been told to stop. -/
def signalled : Process := { launched with world := ⟨true, true⟩ }

/-- A signal that reaches the default process, with both workers at work, is one
it can stop by. -/
theorem pi_stops : Stops defaults 0 signalled := by
  have hr : Runs (process defaults 0) (start datedLibrary) (launch ++ [.env]) signalled :=
    runs_launch.snoc (.env (waiting_idle _ _) ⟨rfl, rfl⟩)
  refine stop_heard hr (k := settle) rfl rfl fun i ⟨r, t, ht, hres⟩ => ?_
  obtain rfl := Option.some.inj (show some _ = some t from ht)
  cases i with
  | heartbeat => cases hres
  | metricsServer => cases hres
  | stopper => rfl

/-! ## What the process asks for -/

/-- A call of the heartbeat loop that was answered. -/
def loopCall? : Act TaskCall (Awaited TaskAns) (Failure TaskExc) →
    Option (Act LoopCall LoopAns LoopExc)
  | ⟨.loop c, .ok (some x)⟩ => some ⟨c, .ok x⟩
  | _ => none

/-- What the heartbeat loop has done in the process. -/
def loopHistory (ls : Moves) : LoopHistory := (taskHistory .heartbeat ls).filterMap loopCall?

/-- No call of the heartbeat loop. -/
def Aside : TaskCall → Prop
  | .loop _ => False
  | _ => True

theorem attempt_aside (r : Resource) : (attempt r).All Aside := by
  refine ⟨trivial, fun x => ?_⟩
  rcases x with _ | (e | u)
  · trivial
  · trivial
  · trivial

theorem await_aside {c : TaskCall} (hc : Aside c) : (await c).All Aside := by
  refine ⟨hc, fun x => ?_⟩
  cases x with
  | none => trivial
  | some x => trivial

theorem ensuring_aside {p : Body Unit} {q : Body Unit} (hp : p.All Aside) (hq : q.All Aside) :
    (ensuring p q).All Aside := by
  induction p with
  | pure a => exact hq.bind fun _ => trivial
  | throw e => exact hq.bind fun _ => trivial
  | call c k ih => exact ⟨hp.1, fun x => ih x (hp.2 x)⟩

/-- What is left of a program that makes no call of the loop is not about to. -/
theorem not_loop {p : Body Unit} {h : List (Act TaskCall (Awaited TaskAns) (Failure TaskExc))}
    {c : LoopCall} {k : Awaited TaskAns (.loop c) → Body Unit} (hp : p.All Aside) :
    ¬ p.Reaches h (.call (.loop c) k) :=
  fun hr => (hr.all_rest hp).1

/-- The handlers of the loop are no part of it. -/
theorem ensured_reaches {p q : Body Unit}
    {h : List (Act TaskCall (Awaited TaskAns) (Failure TaskExc))} {c : LoopCall}
    {k : Awaited TaskAns (.loop c) → Body Unit} (hq : q.All Aside)
    (hr : (ensuring p q).Reaches h (.call (.loop c) k)) (hall : Answered h) :
    ∃ k', p.Reaches h (.call (.loop c) k') := by
  rcases Lib.Tasks.ensuring_reaches hr hall with ⟨p', hp', he⟩ | ⟨h₁, h₂, p', x, rfl, -, hx, hrest⟩
  · cases p' with
    | pure a =>
      have haside := ensuring_aside (p := .pure a) trivial hq
      rw [← he] at haside
      exact absurd haside.1 id
    | throw e =>
      have haside := ensuring_aside (p := .throw e) trivial hq
      rw [← he] at haside
      exact absurd haside.1 id
    | call c' k' =>
      cases he
      exact ⟨k', hp'⟩
  · refine absurd hrest (not_loop (ensuring_aside ?_ hq))
    rcases Prog.result?_cases hx with ⟨u, rfl, -⟩ | ⟨e, rfl, -⟩
    · trivial
    · trivial

/-- Where the task is about to make a call of the loop, the loop alone is, after
the same calls. -/
theorem runHeartbeat_reaches {h : List (Act TaskCall (Awaited TaskAns) (Failure TaskExc))}
    {c : LoopCall} {k : Awaited TaskAns (.loop c) → Body Unit}
    (hr : (runHeartbeat settings n).Reaches h (.call (.loop c) k)) (hall : Answered h) :
    ∃ k', (agent settings n).Reaches (h.filterMap loopCall?) (.call c k') := by
  rcases Lib.Tasks.await_reaches hr hall with ⟨-, he⟩ | ⟨-, he⟩ | ⟨_, h₁, rfl, hopen⟩
  · cases he
  · cases he
  have hall₁ : Answered h₁ := fun a ha => hall a (List.mem_cons_of_mem _ ha)
  unfold attempt at hopen
  rw [Prog.bind_assoc] at hopen
  rcases Lib.Tasks.await_reaches hopen hall₁ with ⟨-, he⟩ | ⟨-, he⟩ | ⟨x, h₂, rfl, hwith⟩
  · cases he
  · cases he
  have hall₂ : Answered h₂ := fun a ha => hall₁ a (List.mem_cons_of_mem _ ha)
  rcases x with e | u
  · cases hwith
  -- inside the `async with` it is the body that stands at a call of the loop
  obtain ⟨k', hbody⟩ := ensured_reaches (attempt_aside .closeClient) hwith hall₂
  rcases hbody.bind_inv with ⟨q, hq, he⟩ | ⟨h₃, h₄, u, rfl, -, hrest⟩
  · obtain ⟨p, hp, hor⟩ := Lib.Tasks.coro_reaches loopCall? (fun _ _ => rfl)
      (fun c => by cases c <;> rfl) hq hall₂
    rcases hor with rfl | rfl
    · cases p with
      | pure u => cases he
      | throw e => cases he
      | call c' k₁ =>
        cases he
        exact ⟨k₁, hp⟩
    · cases he
  · -- behind the loop there is no further call of it
    refine absurd hrest (not_loop ((await_aside (c := .beyond) trivial).bind fun x => x.elim))

/-- No task but the heartbeat makes a call of the loop. -/
theorem body_aside {i : Worker} (hi : i ≠ .heartbeat) :
    ((process settings n).body i).All Aside := by
  cases i with
  | heartbeat => exact absurd rfl hi
  | metricsServer =>
    refine (await_aside (c := .begin) trivial).bind fun _ => (attempt_aside _).bind fun _ =>
      (attempt_aside _).bind fun _ => (attempt_aside _).bind fun _ => ?_
    exact ensuring_aside (await_aside (c := .waitStop) trivial) (attempt_aside _)
  | stopper =>
    exact (await_aside (c := .begin) trivial).bind fun _ => await_aside (c := .waitStop) trivial

/-- A task has been created: the gate was passed. -/
theorem gated_of_task {i : Worker} {t : Lib.Tasks.Task TaskCall TaskAns TaskExc Unit}
    (hr : Runs (process settings n) (start lib) ls s) (ht : s.task i = some t) :
    Gated lib (mainHistory MainExc ls) := by
  obtain ⟨ls₁, ls₂, rfl⟩ := List.append_of_mem (hr.created ht)
  obtain ⟨s₁, s₂, hrun, hstep, -⟩ := hr.cut
  have hstands := stands hrun
  cases hstep with
  | main hmain hdoes =>
    rw [hmain] at hstands
    obtain ⟨outcome, now, hinspect, husable⟩ := hstands
    refine ⟨outcome, now, ?_, husable⟩
    rw [Lib.Tasks.mem_mainHistory] at hinspect ⊢
    exact List.mem_append_left _ hinspect

theorem answered_loopHistory (ls : Moves) (c : LoopCall) (e : LoopExc) :
    (⟨c, .error e⟩ : Act LoopCall LoopAns LoopExc) ∉ loopHistory ls := by
  intro hmem
  obtain ⟨a, -, ha⟩ := List.mem_filterMap.mp hmem
  unfold loopCall? at ha
  split at ha
  · cases ha
  · cases ha

/-- **What the process asks for**, in every schedule: a call of the loop is made
only with a certificate that was valid when the process started, it is one that
the loop alone would make after the same answers, and it is as it should be. -/
theorem process_calls {i : Worker} {c : LoopCall} {x : Option (LoopAns c)} {ls₂ : Moves}
    (hr : Runs (process settings n) (start lib) (ls ++ .task i (.loop c) x :: ls₂) s) :
    (∃ outcome now, Label.main (.other .inspect) (outcome, now) ∈ ls ∧ Usable lib outcome now) ∧
    (∃ k, (agent settings n).Reaches (loopHistory ls) (.call c k)) ∧
    Speaks settings (loopHistory ls) c := by
  obtain ⟨s₁, s₂, hrun, hstep, -⟩ := hr.cut
  have htask : ∃ k b, s₁.task i = some ⟨.call (.loop c) k, b⟩ := by
    cases hstep with
    | @resumed _ _ k _ _ hidle htask hans => exact ⟨k, false, htask⟩
    | @interrupted _ _ k hidle htask => exact ⟨k, true, htask⟩
  obtain ⟨k, b, ht⟩ := htask
  have hreach := hrun.reaches_code ht
  by_cases hi : i = .heartbeat
  · subst hi
    obtain ⟨k', hk⟩ := runHeartbeat_reaches hreach (Lib.Tasks.answered_taskHistory _ _)
    refine ⟨?_, ⟨k', hk⟩, ?_⟩
    · obtain ⟨outcome, now, hmem, husable⟩ := gated_of_task hrun ht
      exact ⟨outcome, now, Lib.Tasks.mem_mainHistory.mp hmem, husable⟩
    · have hsound := hk.upholds (fun c e he => absurd he (answered_loopHistory ls c e))
        (agent_sound settings n)
      exact hsound.1.2
  · exact absurd hreach (not_loop (body_aside hi))

def firstPost : Call :=
  .post (.registerNode (some (registration defaults.toSettings "10.50.20.11")))

/-- The agent's first request. -/
theorem pi_calls :
    (∃ outcome now, Usable datedLibrary outcome now) ∧
    (∃ k, (agent defaults 0).Reaches [⟨.client .primaryIp, .ok (.ok "10.50.20.11")⟩]
      (.call (.client firstPost) k)) ∧
    Speaks defaults [⟨.client .primaryIp, .ok (.ok "10.50.20.11")⟩]
      (.client firstPost) := by
  have h := resumed_prompt .heartbeat .begin () runs_launch rfl trivial
  have h := resumed_prompt .heartbeat (.resource .buildClient) (.ok ()) h rfl trivial
  have h := resumed_prompt .heartbeat (.loop (.client .primaryIp)) (.ok "10.50.20.11") h rfl trivial
  have h := resumed_prompt .heartbeat (.loop (.client firstPost)) (.ok (201 : ℕ)) h rfl trivial
  obtain ⟨⟨outcome, now, -, husable⟩, hreach, hspeaks⟩ := process_calls h
  exact ⟨⟨outcome, now, husable⟩, hreach, hspeaks⟩

end ZeroTrustLab.Agent.Main
