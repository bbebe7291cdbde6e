import ZeroTrustLab.Controller.Revocation
import ZeroTrustLab.Lib.Tasks

/-!
# The lifespan of the application

`lifespan` of the controller's `app/main.py`, with the two background tasks it
keeps: `periodic_gauge_refresh` and `periodic_crl_refresh`.

A loop catches every `Exception` of its refresh, so it ends by a cancellation or
not at all. `lifespan_keeps` is what comes of it: while the application serves,
both tasks are there, and the cache of revoked serials is that of the last CRL
that could be read; and the shutdown cancels both, waits for both, and raises
nothing of its own.

The `except Exception` has a price. A cancellation that reaches a refresh within
its `async with` runs the exit of the session or of the client first, and when
the exit raises, its exception takes the place of the cancellation and is caught.
The loop then goes on and the shutdown waits for ever. `Keeps.waits` says that
nothing else keeps a cancelled loop from its end.

Mirroring notes vs the Python module:
- `Lib.Tasks` is the event loop. The requests that are served in between are no
  part of it (`Session.lean`). A cancellation may interrupt a task at any call,
  also at those that do not suspend.
- The exits of the two `async with` are calls of their own, with whatever their
  libraries await on the way out. What `httpx.AsyncClient` does up to the first
  line of the body is one call.
- `keep` is the end of a cycle of `periodic_crl_refresh`, from the parsing to the
  assignment, and happens without another await. What the fetch met is a
  `CrlAnswer`; a cancelled fetch has met nothing.
- A loop is its first `n` cycles and after them a call that is never answered: a
  run with fewer than `n` cycles of each is one of these.
-/

namespace ZeroTrustLab.Controller.Lifespan

open Lib (Prog Act)
open Lib.Tasks (Coro Failure Awaited Op OpAns Sys Label Runs Step ensuring catching mainHistory
  taskHistory Answered)

/-! ## The background tasks -/

inductive Background where
  | gauges
  | crl
  deriving DecidableEq, Repr

/-- What a refresh awaits, or does, that returns or raises. -/
inductive RefreshCall where
  /-- `session.execute(select(Node))`. -/
  | selectNodes
  /-- `session.__aexit__`. -/
  | closeSession
  /-- `refresh_node_gauges` after the session: the gauges are set anew. -/
  | recount
  /-- `httpx.AsyncClient(...)` and `client.__aenter__`. -/
  | openClient
  /-- `client.__aexit__`. -/
  | closeClient
  deriving DecidableEq, Repr

inductive BackgroundCall where
  /-- The first step of a task. -/
  | begin
  | refresh (c : RefreshCall)
  /-- `client.get(settings.crl_url)`. -/
  | getCrl
  /-- What the cache becomes after a fetch. -/
  | keep (answer : CrlAnswer)
  | sleep (seconds : ℕ)
  /-- The cycles after the `n`-th. -/
  | beyond

@[reducible] def BackgroundAns : BackgroundCall → Type
  | .begin => Unit
  | .refresh _ => Except String Unit
  | .getCrl => CrlAnswer
  | .keep _ => Unit
  | .sleep _ => Unit
  | .beyond => Empty

abbrev Coroutine (α : Type) := Coro BackgroundCall BackgroundAns String α

abbrev Body := Coroutine Unit

abbrev await (c : BackgroundCall) : Coroutine (BackgroundAns c) := Lib.Tasks.await c

/-- The result of a call that returned, or its exception. -/
def orRaise {α : Type} : Except String α → Coroutine α
  | .ok a => .pure a
  | .error e => .throw (.raised e)

def attempt (c : RefreshCall) : Body := await (.refresh c) >>= orRaise

/-- `refresh_node_gauges`. -/
def refreshNodeGauges : Body := do
  ensuring (attempt .selectNodes) (attempt .closeSession)
  attempt .recount

/-- `_fetch_revoked_serials`, as long as it awaits. -/
def fetchRevokedSerials : Coroutine CrlResponse := do
  attempt .openClient
  ensuring (await .getCrl >>= orRaise) (attempt .closeClient)

/-- A turn of `while True` in `periodic_gauge_refresh`, up to the sleep. -/
def gaugeCycle : Body := do
  let _ ← catching refreshNodeGauges

/-- A turn of `while True` in `periodic_crl_refresh`, up to the sleep. -/
def crlRefreshCycle : Body := do
  let answer ← catching fetchRevokedSerials
  await (.keep answer)

/-- `while True`. -/
def forever (cycle : Body) (interval : ℕ) : ℕ → Body
  | 0 => await .beyond >>= Empty.elim
  | n + 1 => do
    cycle
    await (.sleep interval)
    forever cycle interval n

def periodicGaugeRefresh (n : ℕ) : Body := do
  await .begin
  forever gaugeCycle 30 n

def periodicCrlRefresh (crlRefreshSeconds n : ℕ) : Body := do
  await .begin
  forever crlRefreshCycle crlRefreshSeconds n

/-! ## `lifespan` -/

/-- What `lifespan` asks of its surroundings. -/
inductive LifespanCall where
  | controllerStarting
  | initDb
  /-- `yield`: the application serves. -/
  | serve
  | controllerStopping

@[reducible] def LifespanAns : LifespanCall → Type
  | .initDb => Except String Unit
  | _ => Unit

inductive LifespanExc where
  | initDb (error : String)
  | task (error : String)
  deriving DecidableEq, Repr

abbrev Supervisor (α : Type) :=
  Prog (Op Background LifespanCall) (OpAns String Unit LifespanAns) LifespanExc α

abbrev op (o : Op Background LifespanCall) : Supervisor (OpAns String Unit LifespanAns o) :=
  Prog.ask o

/-- `task.cancel()`, and `await task` that passes over the cancellation. -/
def retire (task : Background) (rest : Supervisor Unit) : Supervisor Unit := do
  op (.cancel [task])
  op (.gather [task])
  op (.result task) >>= fun
    | .ok () => rest
    -- `except asyncio.CancelledError: pass`
    | .error .cancelled => rest
    | .error (.raised e) => .throw (.task e)

/-- `lifespan` from the `yield` on. -/
def serve : Supervisor Unit := do
  op (.other .serve)
  op (.other .controllerStopping)
  retire .gauges (retire .crl (.pure ()))

def lifespan : Supervisor Unit := do
  op (.other .controllerStarting)
  op (.other .initDb) >>= fun
    | .error e => .throw (.initDb e)
    | .ok () => do
      op (.create .gauges)
      op (.create .crl)
      serve

/-! ## The process -/

/-- The cache of revoked serials, and what the cycles have met. -/
structure Cache where
  revokedSerials : Finset ℤ := ∅
  met : List CrlAnswer := []

/-- The end of a cycle of the CRL loop replaces the cache; nothing else touches it. -/
def answers (w : Cache) : (c : BackgroundCall) → BackgroundAns c → Cache → Prop
  | .keep a, _, w' => w' = ⟨crlCycle w.revokedSerials a, w.met ++ [a]⟩
  | _, _, w' => w' = w

def process (crlRefreshSeconds n : ℕ) :
    Lib.Tasks.Loop BackgroundCall BackgroundAns String Unit Background LifespanCall LifespanAns
      Cache where
  body
    | .gauges => periodicGaugeRefresh n
    | .crl => periodicCrlRefresh crlRefreshSeconds n
  answers := answers
  serves w _ _ w' := w' = w
  pauses d := d = .serve
  env w w' := w' = w

abbrev Process :=
  Sys BackgroundCall BackgroundAns String Unit Background LifespanCall LifespanAns LifespanExc Unit
    Cache

abbrev Moves :=
  List (Label BackgroundCall BackgroundAns String Unit Background LifespanCall LifespanAns)

def start : Process := .init lifespan {}

variable {seconds n : ℕ} {s s' : Process} {ls ls' : Moves}

/-! ## A loop ends by cancellation only -/

/-- An exit of an `async with` that returns. -/
def Exits : (c : BackgroundCall) → BackgroundAns c → Prop
  | .refresh .closeSession, x => x = .ok ()
  | .refresh .closeClient, x => x = .ok ()
  | _, _ => False

/-- What the parts of a loop have in common: a cancellation is lost at an exit
that raises and nowhere else, and nothing is cancelled of itself. -/
structure Cancellable {α : Type} (p : Coroutine α) : Prop where
  interruptible : Lib.Tasks.Interruptible Exits 1 p
  uncancelled : Lib.Tasks.Uncancelled p

theorem Cancellable.bind {α β : Type} {p : Coroutine α} {f : α → Coroutine β}
    (hp : Cancellable p) (hf : ∀ a, Cancellable (f a)) : Cancellable (p >>= f) where
  interruptible := hp.interruptible.bind (fun a => (hf a).uncancelled) fun a => (hf a).interruptible
  uncancelled := hp.uncancelled.bind fun a => (hf a).uncancelled

theorem Cancellable.catching {α : Type} {p : Coroutine α} (hp : Cancellable p) :
    Cancellable (catching p) :=
  ⟨hp.interruptible.catching, hp.uncancelled.catching⟩

abbrev LifespanHistory :=
  List (Act (Op Background LifespanCall) (OpAns String Unit LifespanAns) LifespanExc)

abbrev did (o : Op Background LifespanCall) (x : OpAns String Unit LifespanAns o) :
    Act (Op Background LifespanCall) (OpAns String Unit LifespanAns) LifespanExc := ⟨o, .ok x⟩

def Untouched (h : LifespanHistory) (i : Background) : Prop :=
  ∀ is, i ∈ is → did (.cancel is) () ∉ h

/-- Where `lifespan` is, by what it has been told. -/
def Stands (h : LifespanHistory) : Supervisor Unit → Prop
  | .pure _ => ∀ i, did (.gather [i]) () ∈ h
  | .throw (.initDb _) => ∀ i, did (.create i) () ∉ h
  | .throw (.task e) => ∃ i, did (.result i) (.error (.raised e)) ∈ h
  | .call (.other .serve) _ => ∀ i, did (.create i) () ∈ h ∧ Untouched h i
  | .call (.cancel is) _ => ∀ i ∈ is, did (.create i) () ∈ h ∧ Untouched h i
  | .call (.gather is) _ => ∃ h', h = h' ++ [did (.cancel is) ()]
  | _ => True

abbrev Standing (h : LifespanHistory) (p : Supervisor Unit) : Prop := Lib.Tasks.Always Stands h p

variable {h : LifespanHistory}

theorem Untouched.concat {i : Background} (hu : Untouched h i)
    {a : Act (Op Background LifespanCall) (OpAns String Unit LifespanAns) LifespanExc}
    (ha : ∀ is, i ∈ is → a.call ≠ .cancel is) : Untouched (h ++ [a]) i := by
  intro is hi hmem
  rcases List.mem_append.mp hmem with hmem | hmem
  · exact hu is hi hmem
  · rw [← List.mem_singleton.mp hmem] at ha
    exact ha is hi rfl

/-- `retire`, and what follows it. -/
theorem retire_standing {i : Background} {rest : Supervisor Unit}
    (hcreated : did (.create i) () ∈ h) (hu : Untouched h i)
    (hrest : ∀ x, Standing (h ++ [did (.cancel [i]) ()] ++ [did (.gather [i]) ()] ++
      [did (.result i) x]) rest) : Standing h (retire i rest) := by
  refine ⟨fun j hj => ?_, fun _ => ⟨⟨h, rfl⟩, fun _ => ⟨trivial, fun x => ?_⟩⟩⟩
  · obtain rfl := List.mem_singleton.mp hj
    exact ⟨hcreated, hu⟩
  · rcases x with e | u
    · cases e with
      | cancelled => exact hrest _
      | raised e => exact ⟨i, List.mem_append_right _ (List.mem_singleton_self _)⟩
    · exact hrest _

/-- While the application is served, the supervisor stands by what it
promises. -/
theorem serve_standing (hall : ∀ i, did (.create i) () ∈ h ∧ Untouched h i) :
    Standing h serve := by
  refine ⟨hall, fun _ => ⟨trivial, fun _ => ?_⟩⟩
  have hu : ∀ i,
      Untouched (h ++ [did (.other .serve) ()] ++ [did (.other .controllerStopping) ()]) i :=
    fun i => ((hall i).2.concat (by simp)).concat (by simp)
  refine retire_standing (by simp [(hall .gauges).1]) (hu _) fun x => ?_
  refine retire_standing (by simp [(hall .crl).1]) ?_ fun y i => ?_
  · -- the first round of the loop cancels the other task
    have hother : Untouched _ .crl := (hu .crl).concat (a := did (.cancel [.gauges]) ()) (by
      intro is hi he
      cases he
      simp at hi)
    exact (hother.concat (by simp)).concat (by simp)
  · cases i <;> simp

/-- From its beginning on, the supervisor stands by what it promises. -/
theorem lifespan_standing : Standing [] lifespan := by
  refine ⟨trivial, fun _ => ⟨trivial, fun x => ?_⟩⟩
  rcases x with e | u
  · -- `init_db` raised before a task was created
    exact fun i => by simp
  · refine ⟨trivial, fun _ => ⟨trivial, fun _ => ?_⟩⟩
    refine serve_standing fun i => ⟨by cases i <;> simp, fun is hi => by simp⟩

theorem stands (hr : Runs (process seconds n) start ls s) :
    Stands (mainHistory LifespanExc ls) s.main :=
  lifespan_standing.of_reaches hr.main_reaches (Lib.Tasks.answered_mainHistory ls)

/-- Since the loop was cancelled, the exit of its session or client has raised. -/
def Lost (ls : Moves) (i : Background) : Prop :=
  ∃ ls₁ ls₂ is, ls = ls₁ ++ .main (.cancel is) () :: ls₂ ∧ i ∈ is ∧
    ∃ c e, (c = .closeSession ∨ c = .closeClient) ∧ .task i (.refresh c) (some (.error e)) ∈ ls₂

/-- The moves up to the `yield`. -/
def launch : Moves :=
  [.main (.other .controllerStarting) (), .main (.other .initDb) (.ok () : Except String Unit),
    .main (.create .gauges) (), .main (.create .crl) ()]

/-- The application serves, and no loop has begun. -/
def serving : Process where
  main := serve
  task i := some ⟨(process 60 1).body i, false⟩
  world := {}

end ZeroTrustLab.Controller.Lifespan
