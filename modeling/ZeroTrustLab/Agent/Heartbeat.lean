import Mathlib.Algebra.Order.Ring.Rat
import Mathlib.Tactic.Linarith
import Mathlib.Tactic.NormNum
import ZeroTrustLab.Agent.HttpClient

/-!
# The agent's heartbeat loop

`app/heartbeat.py` of the node agent: registration with backoff, then one
heartbeat after the other. `agent settings n` is `run` up to the end of its
`n`-th iteration, so what the process has done at any moment is a history of
one of these programs.

`heartbeat_trace_iff` says for which answers and draws all these histories are
as the module intends. What the loop has done when it makes a call is a
function of what it was given (`Attempted`, `Beaten`); the rest is read off
that.

`I.Asks` and `I.Ends` are the two halves of one specification: at a call, what
the loop is about to ask for, given what it was given so far; at an end, how it
got there. Every part of the loop is shown to uphold them, from the single
attempt to all `n` iterations, and a call that is answered out of turn makes
both empty.

Mirroring notes vs the Python module:
- `register` and `heartbeat` are the programs of `HttpClient`. A call of theirs
  comes back with its answer or with what it raised (`tried`), of which
  `httpx.HTTPError` is one kind and everything else another.
- Only a POST raises `httpx.HTTPError`. That `r.json()` may fail on a response
  that is no JSON is an exception of the other kind: of the call that logs
  `registered`, and of the call `json` for a heartbeat.
- `sleep` takes whatever it is given; seconds are rationals. The cancellation
  at shutdown is no answer.
-/

namespace ZeroTrustLab.Agent

open Lib (Prog Act)

/-! ## `heartbeat.py` -/

/-- The settings of the loop, as their validators leave them. -/
structure LoopSettings extends Settings where
  heartbeatInterval : ℤ := 30
  heartbeatJitter : ℤ := 5
  interval_ge : 5 ≤ heartbeatInterval := by decide
  jitter_nonneg : 0 ≤ heartbeatJitter := by decide

/-- What a call of the client raises. -/
inductive Raised where
  | http (e : HttpError)
  | other (error : String)
  deriving DecidableEq, Repr

/-- What the loop asks of its surroundings. -/
inductive LoopCall where
  | client (c : Call)
  /-- `r.json()`. -/
  | json
  /-- `random.uniform`. -/
  | uniform (low high : ℚ)
  | sleep (delay : ℚ)
  /-- `heartbeats_total.labels(result=...).inc()`. -/
  | inc (result : String)
  | registerFailed (attempt : ℕ) (error : HttpError)
  | loopStarting (interval jitter : ℤ)
  | heartbeatFailed (error : HttpError)

@[reducible] def LoopAns : LoopCall → Type
  | .client c => Except Raised (Ans c)
  | .json => Except String Unit
  | .uniform .. => ℚ
  | .sleep _ => Unit
  | .inc _ => Unit
  | .registerFailed .. => Unit
  | .loopStarting .. => Unit
  | .heartbeatFailed _ => Unit

/-- What ends the loop. -/
inductive LoopExc where
  | raised (error : String)
  | runtimeError (message : String)
  deriving DecidableEq, Repr

abbrev Loop (α : Type) := Prog LoopCall LoopAns LoopExc α

abbrev await (c : LoopCall) : Loop (LoopAns c) := Prog.ask c

/-- What was raised goes up, an answer goes on to the rest. -/
def unlessRaised {α β : Type} (rest : β → Loop (Except Raised α)) :
    Except Raised β → Loop (Except Raised α)
  | .ok x => rest x
  | .error e => .pure (.error e)

/-- The body of a `try`: how the client's code ended. -/
def tried {α : Type} : Client α → Loop (Except Raised α)
  | .pure a => .pure (.ok a)
  | .throw e => .pure (.error (.http e))
  | .call c k => .call (.client c) (unlessRaised fun x => tried (k x))

/-- The loop of `_attempt_register`, over the attempts that are left. -/
def attempts (settings : LoopSettings) : List ℕ → ℚ → Loop Unit
  | [], _ => .throw (.runtimeError "could not register after 10 attempts")
  | attempt :: rest, delay =>
    tried (register settings.toSettings) >>= fun
      | .ok _ => .pure ()
      | .error (.http e) => do
        await (.registerFailed attempt e)
        await (.sleep delay)
        attempts settings rest (min (delay * (9 / 5)) 60)
      | .error (.other e) => .throw (.raised e)

/-- `_attempt_register`. -/
def attemptRegister (settings : LoopSettings) : Loop Unit :=
  attempts settings (List.range' 1 10) 2

/-- The end of an iteration: ±jitter around the configured interval. -/
def pause (settings : LoopSettings) : Loop Unit := do
  let j : ℚ := settings.heartbeatJitter
  let u ← await (.uniform (-j) j)
  await (.sleep (settings.heartbeatInterval + u))

/-- One iteration of the loop of `run`. -/
def beat (settings : LoopSettings) : Loop Unit :=
  tried (heartbeat settings.toSettings none) >>= fun
    | .ok () => do
      match ← await .json with
      | .ok () =>
        await (.inc "success")
        pause settings
      | .error e => .throw (.raised e)
    | .error (.http e) => do
      await (.inc "failure")
      await (.heartbeatFailed e)
      pause settings
    | .error (.other e) => .throw (.raised e)

def beats (settings : LoopSettings) : ℕ → Loop Unit
  | 0 => .pure ()
  | n + 1 => beats settings n >>= fun _ => beat settings

/-- `run`, to the end of the `n`-th iteration. -/
def agent (settings : LoopSettings) (n : ℕ) : Loop Unit := do
  attemptRegister settings
  await (.loopStarting settings.heartbeatInterval settings.heartbeatJitter)
  beats settings n

/-! ## What a history shows -/

abbrev LoopHistory := List (Act LoopCall LoopAns LoopExc)

/-- What has been seen of the agent. -/
structure Trace where
  /-- The answers to its registration calls, in order. -/
  registrations : List (Except Raised ℕ) := []
  /-- The answers to its heartbeats, in order. -/
  heartbeats : List (Except Raised ℕ) := []
  draws : ℕ := 0
  waits : List ℚ := []
  /-- The waits since the last heartbeat; `none` before the first. -/
  sinceBeat : Option (List ℚ) := none
  /-- The counter increments, by `result`. -/
  results : List String := []

def Trace.see (t : Trace) : Act LoopCall LoopAns LoopExc → Trace
  | ⟨.client (.post (.registerNode _)), .ok x⟩ => { t with registrations := t.registrations ++ [x] }
  | ⟨.client (.post (.heartbeat ..)), .ok x⟩ =>
    { t with heartbeats := t.heartbeats ++ [x], sinceBeat := some [] }
  | ⟨.uniform .., .ok _⟩ => { t with draws := t.draws + 1 }
  | ⟨.sleep delay, .ok _⟩ =>
    { t with waits := t.waits ++ [delay], sinceBeat := t.sinceBeat.map (· ++ [delay]) }
  | ⟨.inc result, .ok _⟩ => { t with results := t.results ++ [result] }
  | _ => t

def trace (h : LoopHistory) : Trace := h.foldl Trace.see {}

def LoopCall.IsRegistration (c : LoopCall) : Prop :=
  ∃ body, c = .client (.post (.registerNode body))

def LoopCall.IsHeartbeat (c : LoopCall) : Prop :=
  ∃ nodeId body, c = .client (.post (.heartbeat nodeId body))

/-- A 2xx status. -/
def Success {ε : Type} : Except ε ℕ → Prop
  | .ok status => 200 ≤ status ∧ status < 300
  | .error _ => False

instance {ε : Type} : DecidablePred (@Success ε)
  | .ok status => inferInstanceAs (Decidable (200 ≤ status ∧ status < 300))
  | .error _ => isFalse id

/-- The agent behaves well along the history `h`, which has led to `q`. -/
structure WellBehaved (h : LoopHistory) (q : Loop Unit) : Prop where
  /-- It sends no heartbeat before a registration call was answered 201 or 409. -/
  known : ∀ h₁ a h₂, h = h₁ ++ a :: h₂ → a.call.IsHeartbeat →
    ∃ x ∈ (trace h₁).registrations, x = .ok 201 ∨ x = .ok 409
  attempts : (trace h).registrations.length ≤ 10
  /-- Between two registration calls it waits once, not shorter than before. -/
  backoff : ∀ h₁ a h₂, h = h₁ ++ a :: h₂ → a.call.IsRegistration →
    (trace h₁).waits.length = (trace h₁).registrations.length ∧
    (trace h₁).waits.Pairwise (· ≤ ·) ∧ ∀ w ∈ (trace h₁).waits, 2 ≤ w ∧ w ≤ 60
  /-- When all ten calls have failed, it ends by raising. -/
  raises : ∀ r, q.result? = some r → (trace h).registrations.length = 10 →
    (∀ x ∈ (trace h).registrations, x ≠ .ok 201 ∧ x ≠ .ok 409) →
    r = .error (.runtimeError "could not register after 10 attempts")
  /-- Between two heartbeats it waits once, for some time. -/
  paced : ∀ h₁ a h₂, h = h₁ ++ a :: h₂ → a.call.IsHeartbeat →
    ∀ ws, (trace h₁).sinceBeat = some ws → ∃ w, ws = [w] ∧ 0 < w
  /-- At the end of an iteration the two counters make up all heartbeats, one of
  them those answered 2xx. -/
  counted : q = .pure () →
    (trace h).results.count "success" + (trace h).results.count "failure"
      = (trace h).heartbeats.length ∧
    (trace h).results.count "success" = (trace h).heartbeats.countP fun x => decide (Success x)

/-! ## What the agent is given -/

/-- The outcomes of the registration calls and of the heartbeats, and the draws
of the jitter. -/
structure Inputs (settings : LoopSettings) where
  registration : ℕ → Except HttpError ℕ
  heartbeat : ℕ → Except HttpError ℕ
  draw : ℕ → ℚ
  drawn : ∀ n, -(settings.heartbeatJitter : ℚ) ≤ draw n ∧ draw n ≤ settings.heartbeatJitter

variable {settings : LoopSettings}

/-- After the history `h`, this is how the next call is answered. -/
def Inputs.Fits (I : Inputs settings) (h : LoopHistory) : Act LoopCall LoopAns LoopExc → Prop
  | ⟨.client (.post (.registerNode _)), .ok x⟩ =>
    x = (I.registration (trace h).registrations.length).mapError .http
  | ⟨.client (.post (.heartbeat ..)), .ok x⟩ =>
    x = (I.heartbeat (trace h).heartbeats.length).mapError .http
  | ⟨.client _, .ok (.error (.http _))⟩ => False
  | ⟨.uniform .., .ok u⟩ => u = I.draw (trace h).draws
  | ⟨_, .ok _⟩ => True
  | ⟨_, .error _⟩ => False

def Inputs.Gives (I : Inputs settings) (h : LoopHistory) : Prop :=
  ∀ h₁ a h₂, h = h₁ ++ a :: h₂ → I.Fits h₁ a

/-- Something was raised that is no `httpx.HTTPError`. -/
def Act.Other : Act LoopCall LoopAns LoopExc → Prop
  | ⟨.client _, .ok (.error (.other _))⟩ => True
  | ⟨.json, .ok (.error _)⟩ => True
  | _ => False

def OtherRaised (h : LoopHistory) : Prop := ∃ a ∈ h, Act.Other a

/-! ## What the inputs lead to -/

/-- `register` returns on this outcome. -/
def Accepts : Except HttpError ℕ → Prop
  | .ok status => Accepted status
  | .error _ => False

/-- The wait after attempt `k`, counted from 0. -/
def backoff : ℕ → ℚ
  | 0 => 2
  | k + 1 => min (backoff k * (9 / 5)) 60

namespace Inputs

variable (I : Inputs settings)

/-- The outcome of registration `k`, as the `try` sees it. -/
def registered (k : ℕ) : Except Raised ℕ := (I.registration k).mapError .http

def beaten (n : ℕ) : Except Raised ℕ := (I.heartbeat n).mapError .http

/-- The wait after heartbeat `n`. -/
def wait (n : ℕ) : ℚ := settings.heartbeatInterval + I.draw n

/-- The counter increment after heartbeat `n`. -/
def result (n : ℕ) : String := if Success (I.heartbeat n) then "success" else "failure"

/-- What `k` failed attempts show. -/
def attempted (k : ℕ) : Trace where
  registrations := (List.range k).map I.registered
  waits := (List.range k).map backoff

/-- What attempt `k` shows when it has been answered. -/
def answered (k : ℕ) : Trace :=
  { I.attempted k with registrations := (List.range (k + 1)).map I.registered }

/-- What `n` heartbeats show, after the attempt `k` that went through. -/
def running (k n : ℕ) : Trace where
  registrations := (List.range (k + 1)).map I.registered
  heartbeats := (List.range n).map I.beaten
  draws := n
  waits := (List.range k).map backoff ++ (List.range n).map I.wait
  sinceBeat := if n = 0 then none else some [I.wait (n - 1)]
  results := (List.range n).map I.result

/-- What it shows when the next heartbeat has been answered. -/
def beating (k n : ℕ) : Trace :=
  { I.running k n with
    heartbeats := (List.range (n + 1)).map I.beaten
    sinceBeat := some [] }

/-- No attempt before `k` was accepted. -/
def Refused (k : ℕ) : Prop := ∀ j < k, ¬ Accepts (I.registration j)

/-- Where the agent makes a registration call or sends a heartbeat. -/
def Asks (h : LoopHistory) (c : LoopCall) : Prop :=
  I.Gives h →
    (c.IsRegistration → ∃ k < 10, I.Refused k ∧ trace h = I.attempted k) ∧
    (c.IsHeartbeat → ∃ k < 10, I.Refused k ∧ Accepts (I.registration k) ∧
      ∃ n, trace h = I.running k n)

/-- Something else was raised, and not after ten failed attempts. -/
def Broken (h : LoopHistory) : Prop :=
  OtherRaised h ∧ ¬ (I.Refused 10 ∧ (trace h).registrations.length = 10)

/-- How `register` or `heartbeat` ends. -/
def Tries {α : Type} (good : Prop) (t : Trace) (h : LoopHistory) :
    Except LoopExc (Except Raised α) → Prop
  | .ok (.ok _) => I.Gives h → good ∧ trace h = t
  | .ok (.error (.http _)) => I.Gives h → ¬ good ∧ trace h = t
  | .ok (.error (.other _)) => I.Gives h → I.Broken h
  | .error _ => False

/-- How the agent ends; `done k` is what it shows when it does not raise, having
registered at attempt `k`. -/
def Ends (done : ℕ → Trace) (h : LoopHistory) : Except LoopExc Unit → Prop
  | .ok () => I.Gives h → ∃ k < 10, I.Refused k ∧ Accepts (I.registration k) ∧ trace h = done k
  | .error (.runtimeError message) => I.Gives h →
    message = "could not register after 10 attempts" ∧ I.Refused 10 ∧ trace h = I.attempted 10
  | .error (.raised _) => I.Gives h → I.Broken h

end Inputs

/-! ## Histories, call by call -/

variable {I : Inputs settings} {h : LoopHistory}

theorem trace_concat (h : LoopHistory) (a : Act LoopCall LoopAns LoopExc) :
    trace (h ++ [a]) = (trace h).see a := by
  unfold trace
  rw [List.foldl_append]
  rfl

/-- A longer history fits its inputs just when the shorter one does and the last
act does. -/
theorem gives_concat {a : Act LoopCall LoopAns LoopExc} :
    I.Gives (h ++ [a]) ↔ I.Gives h ∧ I.Fits h a := by
  constructor
  · intro hg
    refine ⟨fun h₁ b h₂ he => hg h₁ b (h₂ ++ [a]) (by rw [he]; simp), hg h a [] rfl⟩
  · intro ⟨hg, ha⟩ h₁ b h₂ he
    rcases List.eq_nil_or_concat h₂ with rfl | ⟨h₂, a', rfl⟩
    · obtain ⟨rfl, hb⟩ := List.append_inj' he rfl
      obtain rfl := (List.cons_eq_cons.mp hb).1
      exact ha
    · rw [List.concat_eq_append, ← List.cons_append, ← List.append_assoc] at he
      exact hg h₁ b h₂ (List.append_inj' he rfl).1

/-- An exception of no kind the loop knows stays one in a longer history. -/
theorem OtherRaised.concat {a : Act LoopCall LoopAns LoopExc} (ha : Act.Other a) :
    OtherRaised (h ++ [a]) :=
  ⟨a, List.mem_append_right _ (List.mem_singleton_self a), ha⟩

/-- No call of the loop ends it. -/
def Unraised (_ : LoopCall) (_ : LoopExc) : Prop := False

/-- The rule for a call. -/
theorem upholds_call {α : Type} {c : LoopCall} {k : LoopAns c → Loop α}
    {Q : LoopHistory → Except LoopExc α → Prop} (hc : I.Asks h c)
    (hk : ∀ x, (k x).Upholds Unraised I.Asks Q (h ++ [⟨c, .ok x⟩])) :
    (Prog.call c k).Upholds Unraised I.Asks Q h :=
  ⟨hc, hk, fun _ he => absurd he id⟩

/-- Calls that are neither registrations nor heartbeats may be made at any time. -/
theorem asks_quiet {c : LoopCall} (hr : ¬ c.IsRegistration) (hb : ¬ c.IsHeartbeat) : I.Asks h c :=
  fun _ => ⟨fun h => absurd h hr, fun h => absurd h hb⟩

/-- The rule for a call that is none of the client. -/
theorem loop_call {α : Type} {c : LoopCall} {k : LoopAns c → Loop α}
    {Q : LoopHistory → Except LoopExc α → Prop} (hc : ∀ d, c ≠ .client d)
    (hk : ∀ x, (k x).Upholds Unraised I.Asks Q (h ++ [⟨c, .ok x⟩])) :
    (Prog.call c k).Upholds Unraised I.Asks Q h := by
  refine upholds_call (asks_quiet ?_ ?_) hk
  · intro ⟨body, hcall⟩
    exact hc _ hcall
  · intro ⟨nodeId, body, hcall⟩
    exact hc _ hcall

/-- A call of the client that is no POST: it is answered, or something is
raised that the loop does not catch. -/
theorem client_quiet {α : Type} {c : Call} (hc : ∀ ep, c ≠ .post ep) {good : Prop} {t : Trace}
    {k : Ans c → Client α}
    (hb : I.Gives h → ¬ (I.Refused 10 ∧ (trace h).registrations.length = 10))
    (hk : ∀ x, (tried (k x)).Upholds Unraised I.Asks (I.Tries good t)
      (h ++ [⟨.client c, .ok (.ok x)⟩])) :
    (tried (.call c k)).Upholds Unraised I.Asks (I.Tries good t) h := by
  refine upholds_call (asks_quiet ?_ ?_) fun x => ?_
  · intro ⟨body, hcall⟩
    exact hc _ (LoopCall.client.inj hcall)
  · intro ⟨nodeId, body, hcall⟩
    exact hc _ (LoopCall.client.inj hcall)
  · rcases x with e | x
    · cases e with
      | http e =>
        intro hg
        have hfits := (gives_concat.mp hg).2
        cases c with
        | post ep => exact absurd rfl (hc ep)
        | primaryIp => exact absurd hfits id
        | log event fields => exact absurd hfits id
      | other e =>
        intro hg
        refine ⟨.concat trivial, ?_⟩
        have hb := hb (gives_concat.mp hg).1
        rw [trace_concat]
        cases c with
        | post ep => exact absurd rfl (hc ep)
        | primaryIp => exact hb
        | log event fields => exact hb
    · exact hk x

/-- Reading the answer to a registration asks nothing more, and takes the answer
for good just when it is one. -/
theorem readResponse_tries {status : ℕ} {good : Prop} {t : Trace}
    (hgood : I.Gives h → (good ↔ Accepted status)) (ht : I.Gives h → trace h = t)
    (hb : good → ¬ I.Refused 10) :
    (tried (readResponse settings.toSettings status)).Upholds Unraised I.Asks
      (I.Tries good t) h := by
  have hlogged : ∀ (event : String) (fields : Controller.Details) (b : Bool), Accepted status →
      (tried (.call (.log event fields) fun _ => .pure b)).Upholds Unraised I.Asks
        (I.Tries good t) h := by
    intro event fields b hacc
    refine client_quiet (by simp) (fun hg hno => hb ((hgood hg).mpr hacc) hno.1) fun _ hg => ?_
    have hg := (gives_concat.mp hg).1
    rw [trace_concat]
    exact ⟨(hgood hg).mpr hacc, ht hg⟩
  unfold readResponse
  by_cases h201 : status = 201
  · rw [if_pos h201]
    exact hlogged _ _ _ (.inr (by omega))
  · rw [if_neg h201]
    by_cases h409 : status = 409
    · rw [if_pos h409]
      exact hlogged _ _ _ (.inl h409)
    · rw [if_neg h409]
      by_cases hs : 200 ≤ status ∧ status < 300
      · rw [raiseForStatus_pos hs]
        exact fun hg => ⟨(hgood hg).mpr (.inr hs), ht hg⟩
      · have hthrow : (raiseForStatus status >>= fun _ => (return false : Client Bool))
            = .throw (.status status) := by
          unfold raiseForStatus
          rw [if_neg hs]
          rfl
        rw [hthrow]
        refine fun hg => ⟨fun hyes => ?_, ht hg⟩
        rcases (hgood hg).mp hyes with hno | hno
        · exact h409 hno
        · exact hs hno

/-! What the `try` sees of an outcome says what the outcome was. -/

/-- An exception of the HTTP client is not one of any other kind. -/
theorem mapError_ne_other (x : Except HttpError ℕ) (e : String) :
    .error (.other e) ≠ x.mapError Raised.http := by
  cases x <;> simp [Except.mapError]

/-- A status that is read under the wider type of exceptions is a status. -/
theorem eq_ok_of_mapError {x : Except HttpError ℕ} {status : ℕ}
    (hx : .ok status = x.mapError Raised.http) : x = .ok status := by
  cases x with
  | ok status' => rw [Except.ok.inj hx]
  | error e => cases hx

/-- An exception of the client that is read under the wider type is the
client's. -/
theorem eq_error_of_mapError {x : Except HttpError ℕ} {e : HttpError}
    (hx : .error (.http e) = x.mapError Raised.http) : x = .error e := by
  cases x with
  | ok status => cases hx
  | error e' => rw [Raised.http.inj (Except.error.inj hx)]

/-- **One attempt**: the answer is the next registration outcome, and `register`
returns when it is accepted. -/
theorem register_tries {k : ℕ} (hk : k < 10) (hr : I.Refused k)
    (hat : I.Gives h → trace h = I.attempted k) :
    (tried (register settings.toSettings)).Upholds Unraised I.Asks
      (I.Tries (Accepts (I.registration k)) (I.answered k)) h := by
  refine client_quiet (by simp) (fun hg hno => ?_) fun ip => ?_
  · -- an exception that no one catches would be the eleventh attempt's
    have hlen := hno.2
    rw [hat hg] at hlen
    simp [Inputs.attempted] at hlen
    omega
  have hat : I.Gives (h ++ [⟨.client .primaryIp, .ok (.ok ip)⟩]) →
      trace (h ++ [⟨.client .primaryIp, .ok (.ok ip)⟩]) = I.attempted k := by
    intro hg
    rw [trace_concat]
    exact hat (gives_concat.mp hg).1
  -- from here on the call for the address is a part of the history like any other
  generalize h ++ [⟨.client .primaryIp, .ok (.ok ip)⟩] = h at hat
  refine upholds_call (fun hg => ⟨fun _ => ⟨k, hk, hr, hat hg⟩, ?_⟩) fun x => ?_
  · intro ⟨nodeId, body, hcall⟩
    cases hcall
  · let a : Act LoopCall LoopAns LoopExc :=
      ⟨.client (.post (.registerNode (some (registration settings.toSettings ip)))), .ok x⟩
    have hseen : I.Gives (h ++ [a]) → x = I.registered k ∧ trace (h ++ [a]) = I.answered k := by
      intro hg
      obtain ⟨hg, hx⟩ := gives_concat.mp hg
      have htrace := hat hg
      have hlen : (trace h).registrations.length = k := by
        rw [htrace]
        simp [Inputs.attempted]
      have hx : x = (I.registration (trace h).registrations.length).mapError .http := hx
      rw [hlen] at hx
      rw [trace_concat]
      refine ⟨hx, ?_⟩
      show { trace h with registrations := (trace h).registrations ++ [x] } = _
      rw [htrace, hx]
      simp [Inputs.attempted, Inputs.answered, Inputs.registered, List.range_succ]
    -- the POST has raised, or its status is read
    rcases x with e | status
    · cases e with
      | http e =>
        intro hg
        obtain ⟨hx, htrace⟩ := hseen hg
        refine ⟨fun hyes => ?_, htrace⟩
        rw [eq_error_of_mapError hx] at hyes
        exact hyes
      | other e => exact fun hg => absurd (hseen hg).1 (mapError_ne_other _ e)
    · refine readResponse_tries (fun hg => ?_) (fun hg => (hseen hg).2) fun hyes hno =>
        hno k hk hyes
      rw [eq_ok_of_mapError (hseen hg).1]
      exact Iff.rfl

/-- A history that was not given says nothing. -/
theorem upholds_of_not_gives {α : Type} {Q : LoopHistory → Except LoopExc α → Prop}
    (hQ : ∀ h r, ¬ I.Gives h → Q h r) (p : Loop α) :
    ∀ h, ¬ I.Gives h → p.Upholds Unraised I.Asks Q h := by
  induction p with
  | pure a => exact fun h hg => hQ h _ hg
  | throw e => exact fun h hg => hQ h _ hg
  | call c k ih =>
    intro h hg
    exact upholds_call (fun hg' => absurd hg' hg) fun x =>
      ih x _ fun hg' => hg (gives_concat.mp hg').1

/-- Nothing is promised of an end that does not fit the inputs. -/
theorem ends_of_not_gives {done : ℕ → Trace} {r : Except LoopExc Unit} (hg : ¬ I.Gives h) :
    I.Ends done h r := by
  rcases r with e | u
  · cases e with
    | raised e => exact fun hg' => absurd hg' hg
    | runtimeError message => exact fun hg' => absurd hg' hg
  · exact fun hg' => absurd hg' hg

/-! ## The two loops -/

/-- From the `k`-th attempt on, when all attempts before it were refused, the
registration makes the calls that the inputs ask for and ends as they say. -/
theorem attempts_upholds (rest : List ℕ) : ∀ (k : ℕ) (h : LoopHistory), k + rest.length = 10 →
    I.Refused k → (I.Gives h → trace h = I.attempted k) →
    (attempts settings rest (backoff k)).Upholds Unraised I.Asks (I.Ends I.answered) h := by
  induction rest with
  | nil =>
    intro k h hlen hr hat hg
    obtain rfl : k = 10 := hlen
    exact ⟨rfl, hr, hat hg⟩
  | cons attempt rest ih =>
    intro k h hlen hr hat
    rw [List.length_cons] at hlen
    refine (register_tries (by omega) hr hat).bind (fun h r htried => ?_) fun h e he => absurd he id
    by_cases hg : I.Gives h
    · rcases r with e | b
      · cases e with
        | other e => exact htried
        | http e =>
          obtain ⟨hno, htrace⟩ := htried hg
          have hr : I.Refused (k + 1) := by
            intro j hj
            rcases Nat.lt_succ_iff_lt_or_eq.mp hj with hj | rfl
            · exact hr j hj
            · exact hno
          -- a line in the log, and the wait
          refine loop_call (by simp) fun _ => ?_
          refine loop_call (by simp) fun _ => ?_
          refine ih (k + 1) _ (by omega) hr fun _ => ?_
          rw [trace_concat, trace_concat, htrace]
          simp [Trace.see, Inputs.answered, Inputs.attempted, List.range_succ]
      · exact fun hg => ⟨k, by omega, hr, htried hg⟩
    · exact upholds_of_not_gives (fun _ _ => ends_of_not_gives) _ h hg

theorem attemptRegister_upholds (hat : I.Gives h → trace h = {}) :
    (attemptRegister settings).Upholds Unraised I.Asks (I.Ends I.answered) h :=
  attempts_upholds _ 0 h rfl (fun j hj => absurd hj (Nat.not_lt_zero j)) hat

/-- **One heartbeat**: the answer is the next heartbeat outcome. -/
theorem heartbeat_tries {k n : ℕ} (hk : k < 10) (hr : I.Refused k)
    (ha : Accepts (I.registration k)) (hat : I.Gives h → trace h = I.running k n) :
    (tried (heartbeat settings.toSettings none)).Upholds Unraised I.Asks
      (I.Tries (Success (I.heartbeat n)) (I.beating k n)) h := by
  refine upholds_call (fun hg => ⟨?_, fun _ => ⟨k, hk, hr, ha, n, hat hg⟩⟩) fun x => ?_
  · intro ⟨body, hcall⟩
    cases hcall
  · let a : Act LoopCall LoopAns LoopExc :=
      ⟨.client (.post (.heartbeat settings.nodeId (some ⟨none⟩))), .ok x⟩
    have hseen : I.Gives (h ++ [a]) → x = I.beaten n ∧ trace (h ++ [a]) = I.beating k n := by
      intro hg
      obtain ⟨hg, hx⟩ := gives_concat.mp hg
      have htrace := hat hg
      have hlen : (trace h).heartbeats.length = n := by
        rw [htrace]
        simp [Inputs.running]
      have hx : x = (I.heartbeat (trace h).heartbeats.length).mapError .http := hx
      rw [hlen] at hx
      rw [trace_concat]
      refine ⟨hx, ?_⟩
      show { trace h with heartbeats := (trace h).heartbeats ++ [x], sinceBeat := some [] } = _
      rw [htrace, hx]
      simp [Inputs.running, Inputs.beating, Inputs.beaten, List.range_succ]
    -- the POST has raised, or its status is read
    rcases x with e | status
    · cases e with
      | http e =>
        intro hg
        obtain ⟨hx, htrace⟩ := hseen hg
        refine ⟨fun hyes => ?_, htrace⟩
        rw [eq_error_of_mapError hx] at hyes
        exact hyes
      | other e => exact fun hg => absurd (hseen hg).1 (mapError_ne_other _ e)
    · have hsuccess : I.Gives (h ++ [a]) →
          (Success (I.heartbeat n) ↔ 200 ≤ status ∧ status < 300) := by
        intro hg
        rw [eq_ok_of_mapError (hseen hg).1]
        exact Iff.rfl
      show (tried (raiseForStatus status)).Upholds _ _ _ _
      unfold raiseForStatus
      by_cases hs : 200 ≤ status ∧ status < 300
      · rw [if_pos hs]
        exact fun hg => ⟨(hsuccess hg).mpr hs, (hseen hg).2⟩
      · rw [if_neg hs]
        exact fun hg => ⟨fun hyes => hs ((hsuccess hg).mp hyes), (hseen hg).2⟩

/-- The counter has been incremented. -/
def Inputs.counted (I : Inputs settings) (k n : ℕ) : Trace :=
  { I.beating k n with results := (List.range (n + 1)).map I.result }

/-- The sleep after the `n`-th heartbeat brings the trace to where the next one
begins. -/
theorem pause_upholds {k n : ℕ} (hk : k < 10) (hr : I.Refused k)
    (ha : Accepts (I.registration k)) (hat : I.Gives h → trace h = I.counted k n) :
    (pause settings).Upholds Unraised I.Asks (I.Ends fun k => I.running k (n + 1)) h := by
  refine loop_call (by simp) fun u => ?_
  refine loop_call (by simp) fun _ hg => ⟨k, hk, hr, ha, ?_⟩
  obtain ⟨hg, hu⟩ := gives_concat.mp (gives_concat.mp hg).1
  have htrace := hat hg
  have hu : u = I.draw (trace h).draws := hu
  rw [trace_concat, trace_concat, htrace]
  rw [htrace] at hu
  have hu : u = I.draw n := hu
  simp [Trace.see, Inputs.counted, Inputs.beating, Inputs.running, List.range_succ, hu, Inputs.wait]

theorem beat_upholds {k n : ℕ} (hk : k < 10) (hr : I.Refused k)
    (ha : Accepts (I.registration k)) (hat : I.Gives h → trace h = I.running k n) :
    (beat settings).Upholds Unraised I.Asks (I.Ends fun k => I.running k (n + 1)) h := by
  refine (heartbeat_tries hk hr ha hat).bind (fun h r htried => ?_) fun h e he => absurd he id
  rcases r with e | u
  · cases e with
    | other e => exact htried
    | http e =>
      refine loop_call (by simp) fun _ => ?_
      refine loop_call (by simp) fun _ => ?_
      refine pause_upholds hk hr ha fun hg => ?_
      obtain ⟨hno, htrace⟩ := htried (gives_concat.mp (gives_concat.mp hg).1).1
      rw [trace_concat, trace_concat, htrace]
      simp [Trace.see, Inputs.counted, Inputs.beating, Inputs.running, List.range_succ,
        Inputs.result, hno]
  · refine loop_call (by simp) fun x => ?_
    rcases x with e | u
    · exact fun _ => ⟨.concat trivial, fun hno => hno.1 k hk ha⟩
    · refine loop_call (by simp) fun _ => ?_
      refine pause_upholds hk hr ha fun hg => ?_
      obtain ⟨hyes, htrace⟩ := htried (gives_concat.mp (gives_concat.mp hg).1).1
      rw [trace_concat, trace_concat, htrace]
      simp [Trace.see, Inputs.counted, Inputs.beating, Inputs.running, List.range_succ,
        Inputs.result, hyes]

theorem beats_upholds {k : ℕ} (hk : k < 10) (hr : I.Refused k)
    (ha : Accepts (I.registration k)) (hat : I.Gives h → trace h = I.running k 0) (n : ℕ) :
    (beats settings n).Upholds Unraised I.Asks (I.Ends fun k => I.running k n) h := by
  induction n with
  | zero => exact fun hg => ⟨k, hk, hr, ha, hat hg⟩
  | succ n ih =>
    refine ih.bind (fun h u hdone => ?_) fun h e he => ?_
    · by_cases hg : I.Gives h
      · obtain ⟨k, hk, hr, ha, htrace⟩ := hdone hg
        exact beat_upholds hk hr ha fun _ => htrace
      · exact upholds_of_not_gives (fun _ _ => ends_of_not_gives) _ h hg
    · cases e with
      | raised e => exact he
      | runtimeError message => exact he

/-- **What the agent does**, for given inputs: each of its calls to the
controller, and how it ends. -/
theorem agent_upholds (n : ℕ) :
    (agent settings n).Upholds Unraised I.Asks (I.Ends fun k => I.running k n) [] := by
  refine (attemptRegister_upholds fun _ => rfl).bind (fun h u hdone => ?_) fun h e he => ?_
  · by_cases hg : I.Gives h
    · obtain ⟨k, hk, hr, ha, htrace⟩ := hdone hg
      refine loop_call (by simp) fun _ => beats_upholds hk hr ha (fun _ => ?_) n
      rw [trace_concat, htrace]
      simp [Trace.see, Inputs.answered, Inputs.attempted, Inputs.running]
    · exact upholds_of_not_gives (fun _ _ => ends_of_not_gives) _ h hg
  · cases e with
    | raised e => exact he
    | runtimeError message => exact he

/-! ## Along one history -/

variable {n : ℕ} {q : Loop Unit}

/-- A call that failed leaves no mark on the trace. -/
theorem see_error (t : Trace) (c : LoopCall) (e : LoopExc) : t.see ⟨c, .error e⟩ = t := by
  cases c with
  | client c =>
    cases c with
    | post ep => cases ep <;> rfl
    | _ => rfl
  | _ => rfl

/-- A failed call is none of those the inputs give. -/
theorem not_fits_error (c : LoopCall) (e : LoopExc) : ¬ I.Fits h ⟨c, .error e⟩ := by
  cases c with
  | client c =>
    cases c with
    | post ep => cases ep <;> exact id
    | _ => exact id
  | _ => exact id

/-- In a history that fits its inputs no call has failed. -/
theorem Inputs.Gives.unraised (hg : I.Gives h) : ∀ c e, ⟨c, .error e⟩ ∈ h → Unraised c e := by
  intro c e hmem
  obtain ⟨h₁, h₂, he⟩ := List.append_of_mem hmem
  exact absurd (hg h₁ _ h₂ he) (not_fits_error c e)

theorem Inputs.Gives.front {h₁ h₂ : LoopHistory} (hg : I.Gives (h₁ ++ h₂)) : I.Gives h₁ :=
  fun h₃ a h₄ he => hg h₃ a (h₄ ++ h₂) (by rw [he]; simp)

/-- Where the agent makes a call. -/
theorem agent_asks (hr : (agent settings n).Reaches h q) (hg : I.Gives h) {h₁ h₂ : LoopHistory}
    {a : Act LoopCall LoopAns LoopExc} (he : h = h₁ ++ a :: h₂) :
    (a.call.IsRegistration → ∃ k < 10, I.Refused k ∧ trace h₁ = I.attempted k) ∧
    (a.call.IsHeartbeat → ∃ k < 10, I.Refused k ∧ Accepts (I.registration k) ∧
      ∃ n, trace h₁ = I.running k n) := by
  rw [he] at hr hg
  exact hr.upholds_at hg.front.unraised (agent_upholds n) hg.front

/-- How it ends. -/
theorem agent_ends (hr : (agent settings n).Reaches h q) (hg : I.Gives h)
    {r : Except LoopExc Unit} (hq : q.result? = some r) :
    I.Ends (fun k => I.running k n) h r :=
  hr.upholds_end hg.unraised (agent_upholds n) hq

/-- What only some calls add to was added to by the last of them. -/
theorem last_seen {f : Trace → ℕ} {P : LoopCall → Prop} (hnone : f {} = 0)
    (hsee : ∀ t a, f (Trace.see t a) = f t ∨ P a.call ∧ f (t.see a) = f t + 1) (h : LoopHistory) :
    f (trace h) = 0 ∨ ∃ h₁ a h₂, h = h₁ ++ a :: h₂ ∧ P a.call ∧ f (trace h) = f (trace h₁) + 1 := by
  induction h using List.reverseRecOn with
  | nil => exact .inl hnone
  | append_singleton h a ih =>
    rw [trace_concat]
    rcases hsee (trace h) a with hsame | ⟨hP, hmore⟩
    · rw [hsame]
      rcases ih with hzero | ⟨h₁, b, h₂, rfl, hP, hmore⟩
      · exact .inl hzero
      · exact .inr ⟨h₁, b, h₂ ++ [a], by simp, hP, hmore⟩
    · exact .inr ⟨h, a, [], rfl, hP, hmore⟩

/-- An act is an answered registration, or it leaves the registrations of the
trace as they are. -/
theorem see_registrations (a : Act LoopCall LoopAns LoopExc) :
    (∃ body x, a = ⟨.client (.post (.registerNode body)), .ok x⟩) ∨
      ∀ t : Trace, (t.see a).registrations = t.registrations := by
  obtain ⟨c, e | x⟩ := a
  · exact .inr fun t => congrArg _ (see_error t c e)
  · cases c with
    | client c =>
      cases c with
      | post ep =>
        cases ep with
        | registerNode body => exact .inl ⟨body, x, rfl⟩
        | _ => exact .inr fun _ => rfl
      | _ => exact .inr fun _ => rfl
    | _ => exact .inr fun _ => rfl

/-- The last registration of a history, when there has been one. -/
theorem last_registration (h : LoopHistory) : (trace h).registrations.length = 0 ∨
    ∃ h₁ a h₂, h = h₁ ++ a :: h₂ ∧ a.call.IsRegistration ∧
      (trace h).registrations.length = (trace h₁).registrations.length + 1 := by
  refine @last_seen (fun t => t.registrations.length) _ rfl (fun t a => ?_) h
  rcases see_registrations a with ⟨body, x, rfl⟩ | hsame
  · exact .inr ⟨⟨body, rfl⟩, by simp [Trace.see]⟩
  · exact .inl (congrArg _ (hsame t))

/-- The answers to the registration calls are the first outcomes. -/
theorem given_registrations (hg : I.Gives h) :
    (trace h).registrations
      = (List.range (trace h).registrations.length).map I.registered := by
  induction h using List.reverseRecOn with
  | nil => rfl
  | append_singleton h a ih =>
    obtain ⟨hfront, ha⟩ := gives_concat.mp hg
    rw [trace_concat]
    rcases see_registrations a with ⟨body, x, rfl⟩ | hsame
    · have hx : x = I.registered (trace h).registrations.length := ha
      show (trace h).registrations ++ [x]
        = (List.range ((trace h).registrations ++ [x]).length).map I.registered
      rw [List.length_append, List.length_singleton, List.range_succ, List.map_append, ← ih hfront,
        hx]
      rfl
    · rw [hsame]
      exact ih hfront

/-- The last heartbeat of a history, when there has been one. -/
theorem last_heartbeat (h : LoopHistory) : (trace h).heartbeats.length = 0 ∨
    ∃ h₁ a h₂, h = h₁ ++ a :: h₂ ∧ a.call.IsHeartbeat ∧
      (trace h).heartbeats.length = (trace h₁).heartbeats.length + 1 := by
  refine @last_seen (fun t => t.heartbeats.length) _ rfl (fun t a => ?_) h
  obtain ⟨c, e | x⟩ := a
  · rw [see_error]
    exact .inl rfl
  · cases c with
    | client c =>
      cases c with
      | post ep =>
        cases ep with
        | heartbeat nodeId body => exact .inr ⟨⟨nodeId, body, rfl⟩, by simp [Trace.see]⟩
        | _ => exact .inl rfl
      | _ => exact .inl rfl
    | _ => exact .inl rfl

/-! ## The agent is given something -/

/-- The answer to a call after the history `h`. -/
def Inputs.reply (I : Inputs settings) (h : LoopHistory) : (c : LoopCall) → LoopAns c
  | .client (.post (.registerNode _)) => I.registered (trace h).registrations.length
  | .client (.post (.heartbeat ..)) => I.beaten (trace h).heartbeats.length
  | .client (.post _) => .ok 200
  | .client .primaryIp => .ok ""
  | .client (.log ..) => .ok ()
  | .json => .ok ()
  | .uniform .. => I.draw (trace h).draws
  | .sleep _ => ()
  | .inc _ => ()
  | .registerFailed .. => ()
  | .loopStarting .. => ()
  | .heartbeatFailed _ => ()

/-- The inputs answer every call, with what fits them. -/
theorem reply_fits (I : Inputs settings) (h : LoopHistory) (c : LoopCall) :
    I.Fits h ⟨c, .ok (I.reply h c)⟩ ∧ ¬ Act.Other ⟨c, .ok (I.reply h c)⟩ := by
  cases c with
  | client c =>
    cases c with
    | post ep =>
      -- an outcome is a status or an `httpx.HTTPError`
      have hother : ∀ x : Except HttpError ℕ,
          ¬ Act.Other ⟨.client (.post ep), .ok (x.mapError Raised.http)⟩ := by
        intro x
        cases x <;> exact id
      cases ep with
      | registerNode body => exact ⟨rfl, hother _⟩
      | heartbeat nodeId body => exact ⟨rfl, hother _⟩
      | _ => exact ⟨trivial, id⟩
    | _ => exact ⟨trivial, id⟩
  | uniform low high => exact ⟨rfl, id⟩
  | _ => exact ⟨trivial, id⟩

/-- Whatever the inputs, any program can be run on them to its end. -/
theorem Inputs.plays {α : Type} (I : Inputs settings) (p : Loop α) : ∀ h, I.Gives h →
    ¬ OtherRaised h → ∃ h' q r, p.Reaches h' q ∧ q.result? = some r ∧ I.Gives (h ++ h') ∧
      ¬ OtherRaised (h ++ h') := by
  induction p with
  | pure a => exact fun h hg ho => ⟨[], _, _, .refl _, rfl, by simpa using hg, by simpa using ho⟩
  | throw e => exact fun h hg ho => ⟨[], _, _, .refl _, rfl, by simpa using hg, by simpa using ho⟩
  | call c k ih =>
    intro h hg ho
    obtain ⟨hfits, hother⟩ := reply_fits I h c
    have hnone : ¬ OtherRaised (h ++ [⟨c, .ok (I.reply h c)⟩]) := by
      rintro ⟨a, ha, hraised⟩
      rcases List.mem_append.mp ha with ha | ha
      · exact ho ⟨a, ha, hraised⟩
      · rw [List.mem_singleton.mp ha] at hraised
        exact hother hraised
    obtain ⟨h', q, r, hreach, hq, hg', ho'⟩ :=
      ih (I.reply h c) _ (gives_concat.mpr ⟨hg, hfits⟩) hnone
    refine ⟨⟨c, .ok (I.reply h c)⟩ :: h', q, r, .answered hreach, hq, ?_, ?_⟩
    · rwa [List.append_assoc] at hg'
    · rwa [List.append_assoc] at ho'

/-! ## Waits and counters -/

/-- Every delay lies between 2 and 60 seconds. -/
theorem backoff_bounds (k : ℕ) : 2 ≤ backoff k ∧ backoff k ≤ 60 := by
  induction k with
  | zero =>
    show (2 : ℚ) ≤ 2 ∧ (2 : ℚ) ≤ 60
    norm_num
  | succ k ih =>
    unfold backoff
    refine ⟨le_min ?_ (by norm_num), min_le_right _ _⟩
    linarith only [ih.1]

/-- Delays do not shrink from one attempt to the next. -/
theorem backoff_mono : Monotone backoff := by
  refine monotone_nat_of_le_succ fun k => ?_
  obtain ⟨hlow, hhigh⟩ := backoff_bounds k
  show backoff k ≤ min (backoff k * (9 / 5)) 60
  refine le_min ?_ hhigh
  linarith only [hlow]

/-- The delays of the first `k` attempts are in increasing order. -/
theorem backoff_waits (k : ℕ) : ((List.range k).map backoff).Pairwise (· ≤ ·) :=
  List.pairwise_map.mpr ((List.pairwise_lt_range).imp fun h => backoff_mono h.le)

/-- A heartbeat counts as a success just when the input that answers it is one. -/
theorem success_beaten {n : ℕ} : Success (I.beaten n) ↔ Success (I.heartbeat n) := by
  unfold Inputs.beaten
  cases I.heartbeat n <;> exact Iff.rfl

/-- The counters after `n` iterations. -/
theorem count_results (n : ℕ) :
    ((List.range n).map I.result).count "success" + ((List.range n).map I.result).count "failure"
      = n ∧
    ((List.range n).map I.result).count "success"
      = ((List.range n).map I.beaten).countP fun x => decide (Success x) := by
  induction n with
  | zero => exact ⟨rfl, rfl⟩
  | succ n ih =>
    obtain ⟨hall, hsuccess⟩ := ih
    simp only [List.range_succ, List.map_append, List.map_singleton, List.count_append,
      List.countP_append]
    by_cases hs : Success (I.heartbeat n)
    · have hresult : I.result n = "success" := if_pos hs
      have hbeaten := success_beaten.mpr hs
      rw [hresult]
      refine ⟨?_, by simp [hsuccess, hbeaten]⟩
      simp
      omega
    · have hresult : I.result n = "failure" := if_neg hs
      have hbeaten := success_beaten.not.mpr hs
      rw [hresult]
      refine ⟨?_, by simp [hsuccess, hbeaten]⟩
      simp
      omega

/-! ## When the agent behaves -/

/-- The inputs under which nothing goes wrong: the first registration outcome
that `register` takes for success is 201 or 409, and then no draw takes the
whole interval away. -/
structure Orderly (I : Inputs settings) : Prop where
  registration : ∀ k < 10, I.Refused k → Accepts (I.registration k) →
    I.registration k = .ok 201 ∨ I.registration k = .ok 409
  draw : ∀ k < 10, Accepts (I.registration k) →
    ∀ n, -(settings.heartbeatInterval : ℚ) < I.draw n

/-- A registration outcome that says the controller knows the node. -/
theorem accepts_known {x : Except HttpError ℕ} (h : x = .ok 201 ∨ x = .ok 409) : Accepts x := by
  rcases h with rfl | rfl
  · exact .inr (by omega)
  · exact .inl rfl

/-- An attempt of the bounded sequence is answered 201 or 409 just when the
input for it is. -/
theorem registered_known {k : ℕ} :
    (I.registered k = .ok 201 ∨ I.registered k = .ok 409) ↔
      (I.registration k = .ok 201 ∨ I.registration k = .ok 409) := by
  unfold Inputs.registered
  rcases I.registration k with e | status
  · simp [Except.mapError]
  · simp [Except.mapError]

/-- An agent with orderly inputs behaves well, wherever its loop stands. -/
theorem Orderly.wellBehaved (ho : Orderly I) (hr : (agent settings n).Reaches h q)
    (hg : I.Gives h) : WellBehaved h q where
  known h₁ a h₂ he hbeat := by
    obtain ⟨k, hk, hrefused, hacc, m, htrace⟩ := (agent_asks hr hg he).2 hbeat
    rw [htrace]
    refine ⟨I.registered k, ?_, registered_known.mpr (ho.registration k hk hrefused hacc)⟩
    exact List.mem_map.mpr ⟨k, List.mem_range.mpr (Nat.lt_succ_self k), rfl⟩
  attempts := by
    rcases last_registration h with hzero | ⟨h₁, a, h₂, he, hreg, hlen⟩
    · omega
    · obtain ⟨k, hk, -, htrace⟩ := (agent_asks hr hg he).1 hreg
      rw [htrace] at hlen
      simp [Inputs.attempted] at hlen
      omega
  backoff h₁ a h₂ he hreg := by
    obtain ⟨k, hk, -, htrace⟩ := (agent_asks hr hg he).1 hreg
    rw [htrace]
    refine ⟨by simp [Inputs.attempted], backoff_waits k, fun w hw => ?_⟩
    obtain ⟨j, -, rfl⟩ := List.mem_map.mp hw
    exact backoff_bounds j
  raises r hq hten hnone := by
    have hends := agent_ends hr hg hq
    rw [given_registrations hg, hten] at hnone
    -- by induction on the attempt: none of the ten was accepted
    have hrefused : ∀ k ≤ 10, I.Refused k := by
      intro k
      induction k with
      | zero => exact fun _ j hj => absurd hj (Nat.not_lt_zero j)
      | succ k ih =>
        intro hk j hj hacc
        have hrefused := ih (by omega)
        rcases Nat.lt_succ_iff_lt_or_eq.mp hj with hj | rfl
        · exact hrefused j hj hacc
        · -- an accepted outcome would be 201 or 409, and among the answers
          have hno := hnone _ (List.mem_map.mpr ⟨j, List.mem_range.mpr hk, rfl⟩)
          rcases registered_known.mpr (ho.registration j hk hrefused hacc) with hin | hin
          · exact hno.1 hin
          · exact hno.2 hin
    rcases r with e | u
    · cases e with
      | raised e => exact absurd ⟨hrefused 10 le_rfl, hten⟩ (hends hg).2
      | runtimeError message => rw [(hends hg).1]
    · obtain ⟨k, hk, -, hacc, -⟩ := hends hg
      exact absurd hacc (hrefused 10 le_rfl k hk)
  paced h₁ a h₂ he hbeat ws hws := by
    obtain ⟨k, hk, -, hacc, m, htrace⟩ := (agent_asks hr hg he).2 hbeat
    rw [htrace] at hws
    unfold Inputs.running at hws
    dsimp only at hws
    split at hws
    next => cases hws
    next hm =>
      refine ⟨_, (Option.some.inj hws).symm, ?_⟩
      -- the draw does not take the whole interval away
      have hdraw := ho.draw k hk hacc (m - 1)
      unfold Inputs.wait
      linarith only [hdraw]
  counted hq := by
    subst hq
    obtain ⟨k, -, -, -, htrace⟩ := agent_ends hr hg rfl hg
    rw [htrace]
    obtain ⟨hall, hsuccess⟩ := @count_results settings I n
    refine ⟨hall.trans ?_, hsuccess⟩
    simp [Inputs.running]

/-- On any inputs that are accepted at some attempt, `n` heartbeats are sent. -/
theorem agent_runs (I : Inputs settings) {k : ℕ} (hk : k < 10)
    (hacc : Accepts (I.registration k)) (n : ℕ) :
    ∃ h q, (agent settings n).Reaches h q ∧ I.Gives h ∧ (trace h).heartbeats.length = n := by
  have hempty : I.Gives [] := fun h₁ a h₂ he => absurd he (by simp)
  have hnone : ¬ OtherRaised [] := by
    intro ⟨a, ha, _⟩
    exact absurd ha List.not_mem_nil
  obtain ⟨h, q, r, hr, hq, hg, ho⟩ := I.plays (agent settings n) [] hempty hnone
  rw [List.nil_append] at hg ho
  refine ⟨h, q, hr, hg, ?_⟩
  have hends := agent_ends hr hg hq
  rcases r with e | u
  · cases e with
    | raised e => exact absurd (hends hg).1 ho
    | runtimeError message => exact absurd hacc ((hends hg).2.1 k hk)
  · obtain ⟨j, -, -, -, htrace⟩ := hends hg
    rw [htrace]
    simp [Inputs.running]

/-- The registration that precedes a heartbeat. -/
theorem known_registration (hr : (agent settings n).Reaches h q) (hg : I.Gives h)
    (hw : WellBehaved h q) (hsent : (trace h).heartbeats.length ≠ 0) {k : ℕ} (hrefused : I.Refused k)
    (hacc : Accepts (I.registration k)) :
    I.registration k = .ok 201 ∨ I.registration k = .ok 409 := by
  obtain ⟨h₁, a, h₂, he, hbeat, -⟩ := (last_heartbeat h).resolve_left hsent
  obtain ⟨x, hx, hknown⟩ := hw.known h₁ a h₂ he hbeat
  obtain ⟨j, hj, hrefused', hacc', m, htrace⟩ := (agent_asks hr hg he).2 hbeat
  -- both attempts are the first accepted one
  obtain rfl : j = k := by
    rcases lt_trichotomy j k with hlt | heq | hgt
    · exact absurd hacc' (hrefused j hlt)
    · exact heq
    · exact absurd hacc (hrefused' k hgt)
  rw [htrace] at hx
  obtain ⟨i, hi, rfl⟩ := List.mem_map.mp hx
  have hi : i < j + 1 := List.mem_range.mp hi
  rcases Nat.lt_succ_iff_lt_or_eq.mp hi with hi | rfl
  · exact absurd (accepts_known (registered_known.mp hknown)) (hrefused i hi)
  · exact registered_known.mp hknown

/-- The wait that precedes a heartbeat which is not the first. -/
theorem positive_wait (hr : (agent settings n).Reaches h q) (hg : I.Gives h)
    (hw : WellBehaved h q) {m : ℕ} (hsent : (trace h).heartbeats.length = m + 2) : 0 < I.wait m := by
  obtain ⟨h₁, a, h₂, he, hbeat, hlen⟩ := (last_heartbeat h).resolve_left (by omega)
  obtain ⟨k, -, -, -, m', htrace⟩ := (agent_asks hr hg he).2 hbeat
  obtain rfl : m' = m + 1 := by
    rw [htrace] at hlen
    simp [Inputs.running] at hlen
    omega
  obtain ⟨w, hws, hpos⟩ := hw.paced h₁ a h₂ he hbeat [I.wait m] (by rw [htrace]; rfl)
  rw [(List.cons_eq_cons.mp hws).1]
  exact hpos

/-- **When the agent is well-behaved**: just for the orderly inputs, whatever
the settings. Inputs are the outcomes of all requests and the draws of the
jitter, so the condition is about what the agent is given and not about what it
does. -/
theorem heartbeat_trace_iff (settings : LoopSettings) (I : Inputs settings) :
    (∀ n h q, (agent settings n).Reaches h q → I.Gives h → WellBehaved h q) ↔ Orderly I := by
  refine ⟨fun hall => ⟨fun k hk hrefused hacc => ?_, fun k hk hacc m => ?_⟩,
    fun ho n h q hr hg => ho.wellBehaved hr hg⟩
  · obtain ⟨h, q, hr, hg, hsent⟩ := agent_runs I hk hacc 1
    exact known_registration hr hg (hall 1 h q hr hg) (by omega) hrefused hacc
  · obtain ⟨h, q, hr, hg, hsent⟩ := agent_runs I hk hacc (m + 2)
    have hpos := positive_wait hr hg (hall _ h q hr hg) hsent
    unfold Inputs.wait at hpos
    linarith only [hpos]

/-- The answers of a controller that answers every registration with `status`,
and draws that are always the lowest. -/
def lowest (settings : LoopSettings) (status : ℕ) : Inputs settings where
  registration _ := .ok status
  heartbeat _ := .ok 200
  draw _ := -(settings.heartbeatJitter : ℚ)
  drawn _ := by
    have hjitter : (0 : ℚ) ≤ settings.heartbeatJitter := by exact_mod_cast settings.jitter_nonneg
    refine ⟨le_rfl, ?_⟩
    linarith only [hjitter]

/-- Registration is answered 200 and the agent starts beating; or the jitter is
the whole interval and two heartbeats follow each other without a wait. -/
theorem agent_misbehaves :
    (∃ n h q, (agent {} n).Reaches h q ∧ (lowest {} 200).Gives h ∧ ¬ WellBehaved h q) ∧
    ∃ n h q, (agent { heartbeatInterval := 5 } n).Reaches h q ∧
      (lowest { heartbeatInterval := 5 } 201).Gives h ∧ ¬ WellBehaved h q := by
  constructor
  · have hacc : Accepts ((lowest {} 200).registration 0) := .inr (by omega)
    obtain ⟨h, q, hr, hg, hsent⟩ := agent_runs (lowest {} 200) (by omega) hacc 1
    refine ⟨1, h, q, hr, hg, fun hw => ?_⟩
    have hrefused : (lowest {} 200).Refused 0 := fun j hj => absurd hj (Nat.not_lt_zero j)
    rcases known_registration hr hg hw (by omega) hrefused hacc with hno | hno
    · exact absurd (Except.ok.inj hno) (by decide)
    · exact absurd (Except.ok.inj hno) (by decide)
  · have hacc : Accepts ((lowest { heartbeatInterval := 5 } 201).registration 0) :=
      .inr (by omega)
    obtain ⟨h, q, hr, hg, hsent⟩ := agent_runs _ (by omega) hacc 2
    refine ⟨2, h, q, hr, hg, fun hw => ?_⟩
    have hpos := positive_wait hr hg hw hsent
    norm_num [Inputs.wait, lowest] at hpos

end ZeroTrustLab.Agent
