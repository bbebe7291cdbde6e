import ZeroTrustLab.Lib.Path
import ZeroTrustLab.Controller.App

/-!
# The agent's calls to the controller

`app/http_client.py` of the node agent: `register` and `heartbeat`, as programs
over the calls the agent makes of its surroundings.

What `register` returns is decided by the status alone, and `known_iff` says
for which: 409 is taken for "already known", 201 for success, any other 2xx
falls through to the last line and is taken for success too, and every other
status raises.

Mirroring notes vs the Python module:
- A POST is named by the operation it is meant for (`Endpoint`), with its body;
  its answer is the status of the response. Where it leads is up to its URL, which
  is `postUrl`, and what nginx adds to it, the identity of the agent's certificate,
  is not the agent's to say.
- `httpx.HTTPError` is `HttpError`: the request did not get through, or
  `raise_for_status` was called on a response that is no success.
- `node_id` goes into the URL of the heartbeat as it is, without any quoting, and
  nothing in `Settings` restricts it: the operation that the URL reaches can be
  another one than the one that was meant.
- `settings.controller_url`, which comes before the path, is that of nginx.
- The responses' JSON is only logged.
-/

namespace ZeroTrustLab.Agent

open Lib (Prog)
open Controller (Endpoint NodeBase NodeHeartbeat Details)

/-- The part of `Settings` these functions read. -/
structure Settings where
  nodeId : String := "pi-01"
  nodeCommonName : String := "pi-01.thesis.local"
  nodeRole : String := "valid"
  deriving DecidableEq, Repr

/-- `httpx.HTTPError`. -/
inductive HttpError where
  | transport (detail : String)
  | status (code : Nat)
  deriving DecidableEq, Repr

/-- What the agent asks of its surroundings. -/
inductive Call where
  /-- `_primary_ip()`; empty when there is no route. -/
  | primaryIp
  | post (endpoint : Endpoint)
  | log (event : String) (fields : Details)

/-- The answer to each call; to a POST it is the status. -/
@[reducible] def Ans : Call → Type
  | .primaryIp => String
  | .post _ => Nat
  | .log _ _ => Unit

abbrev Client (α : Type) := Prog Call Ans HttpError α

abbrev ask (c : Call) : Client (Ans c) := Prog.ask c

/-- `Response.raise_for_status`. -/
def raiseForStatus (status : Nat) : Client Unit :=
  if 200 ≤ status ∧ status < 300 then return () else .throw (.status status)

/-- The payload of `register`: `state` and `notes` are left to their defaults. -/
def registration (settings : Settings) (primaryIp : String) : NodeBase :=
  { nodeId := settings.nodeId
    commonName := settings.nodeCommonName
    role := settings.nodeRole
    ipAddress := if primaryIp = "" then none else some primaryIp }

/-- What `register` makes of the response. -/
def readResponse (settings : Settings) (status : Nat) : Client Bool :=
  if status = 201 then do
    ask (.log "registered" [("node_id", some settings.nodeId)])
    return true
  else if status = 409 then do
    ask (.log "already_registered" [("node_id", some settings.nodeId)])
    return false
  else do
    raiseForStatus status
    return false

/-- `register`: whether the node is newly registered. -/
def register (settings : Settings) : Client Bool := do
  let ip ← ask .primaryIp
  let status ← ask (.post (.registerNode (some (registration settings ip))))
  readResponse settings status

/-- `heartbeat`; an empty note is no note. -/
def heartbeat (settings : Settings) (note : Option String) : Client Unit := do
  let payload : NodeHeartbeat := ⟨if note.getD "" = "" then none else note⟩
  let status ← ask (.post (.heartbeat settings.nodeId (some payload)))
  raiseForStatus status

/-- The URL of a POST, as the source writes it; nothing is posted to the other
operations. -/
def postUrl : Endpoint → Option (List Char)
  | .registerNode _ => some "/api/v1/nodes".toList
  | .heartbeat nodeId _ => some ("/api/v1/nodes/".toList ++ nodeId.toList ++ "/heartbeat".toList)
  | _ => none

/-! ## What returning means -/

/-- The statuses that `register` takes for "known to the controller". -/
def Accepted (status : Nat) : Prop := status = 409 ∨ 200 ≤ status ∧ status < 300

/-- A status in the two hundreds raises nothing, so the answer is read as
`False`. -/
theorem raiseForStatus_pos {status : Nat} (hs : 200 ≤ status ∧ status < 300) :
    (raiseForStatus status >>= fun _ => (return false : Client Bool)) = .pure false := by
  unfold raiseForStatus
  rw [if_pos hs]
  rfl

/-- Reading the response returns just when its status is accepted, and only
logs. -/
theorem readResponse_returns {settings : Settings} {status : Nat} {b : Bool}
    {h : List (Lib.Act Call Ans HttpError)}
    (hr : (readResponse settings status).Reaches h (.pure b)) :
    Accepted status ∧ ∀ a ∈ h, ∃ event fields, a.call = .log event fields := by
  unfold readResponse at hr
  by_cases h201 : status = 201
  · rw [if_pos h201] at hr
    cases hr with
    | answered hr =>
      cases hr
      refine ⟨.inr (by omega), fun a ha => ?_⟩
      rw [List.mem_singleton.mp ha]
      exact ⟨_, _, rfl⟩
  · rw [if_neg h201] at hr
    by_cases h409 : status = 409
    · rw [if_pos h409] at hr
      cases hr with
      | answered hr =>
        cases hr
        refine ⟨.inl h409, fun a ha => ?_⟩
        rw [List.mem_singleton.mp ha]
        exact ⟨_, _, rfl⟩
    · rw [if_neg h409] at hr
      -- what is left goes to `raise_for_status`, and the 2xx fall through it
      by_cases hs : 200 ≤ status ∧ status < 300
      · rw [raiseForStatus_pos hs] at hr
        cases hr
        exact ⟨.inr hs, by simp⟩
      · unfold raiseForStatus at hr
        rw [if_neg hs] at hr
        change (Prog.throw _ : Client Bool).Reaches h _ at hr
        cases hr

/-- An accepted registration is read to its end without a further call that
could fail. -/
theorem readResponse_of_accepted {settings : Settings} {status : Nat} (hs : Accepted status) :
    ∃ h b, (readResponse settings status).Reaches h (.pure b) := by
  unfold readResponse
  by_cases h201 : status = 201
  · rw [if_pos h201]
    exact ⟨_, true, .answered (x := ()) (.refl _)⟩
  · rw [if_neg h201]
    by_cases h409 : status = 409
    · rw [if_pos h409]
      exact ⟨_, false, .answered (x := ()) (.refl _)⟩
    · rw [if_neg h409, raiseForStatus_pos (hs.resolve_left h409)]
      exact ⟨_, false, .refl _⟩

/-- `register` returns, its POST having been `ep` and answered `status`. -/
def Known (settings : Settings) (ep : Endpoint) (status : Nat) : Prop :=
  ∃ h b, (register settings).Reaches h (.pure b) ∧
    (⟨.post ep, .ok status⟩ : Lib.Act Call Ans HttpError) ∈ h

/-- **When `register` returns**: its one POST is the agent's own payload, and
the status is an accepted one, 201 and 409 among them. -/
theorem known_iff {settings : Settings} {ep : Endpoint} {status : Nat} :
    Known settings ep status ↔
      (∃ ip, ep = .registerNode (some (registration settings ip))) ∧ Accepted status := by
  constructor
  · intro ⟨h, b, hr, hmem⟩
    unfold register at hr
    cases hr with
    | @answered _ _ ip h₁ _ hr =>
      cases hr with
      | @answered _ _ status' h₂ _ hr =>
        obtain ⟨hacc, hlogs⟩ := readResponse_returns hr
        rcases List.mem_cons.mp hmem with he | hmem
        · cases he
        · rcases List.mem_cons.mp hmem with he | hmem
          · cases he
            exact ⟨⟨ip, rfl⟩, hacc⟩
          · obtain ⟨event, fields, hlog⟩ := hlogs _ hmem
            exact absurd hlog (by simp)
  · intro ⟨⟨ip, he⟩, hacc⟩
    subst he
    obtain ⟨h, b, hr⟩ := @readResponse_of_accepted settings _ hacc
    let ep (ip : String) : Endpoint := .registerNode (some (registration settings ip))
    have hpost : Prog.Reaches (.call (.post (ep ip)) (readResponse settings))
        (⟨.post (ep ip), .ok status⟩ :: h) (.pure b) := .answered hr
    have hall : Prog.Reaches (.call .primaryIp fun ip => .call (.post (ep ip))
          (readResponse settings))
        (⟨.primaryIp, .ok ip⟩ :: ⟨.post (ep ip), .ok status⟩ :: h) (.pure b) := .answered hpost
    exact ⟨_, b, hall, by simp [ep]⟩

end ZeroTrustLab.Agent
