import ZeroTrustLab.Lib.Interleave
import ZeroTrustLab.Controller.Nodes

/-!
# The application

Every route of `app/main.py`, as one program per request: dependencies first,
then the validation of parameters and body, then the endpoint body, then the
response model. This is FastAPI's order, so a revoked certificate is answered
403 whatever the body of the request looks like.

A body that is JSON of another shape than the model (`none` below) fails
validation like one that breaks a limit. A body that is no JSON at all is
answered 422 before any dependency runs, and such a request is not modelled.

The dependency that checks the identity comes first in every route but the
health check, and what it raises ends the request. The response model is
applied to what the body returns, so a stored row that breaks a limit is a 500
of the request that reads it, not of the one that wrote it.
-/

namespace ZeroTrustLab.Controller

open Lib (Act Prog Cfg Party Status)

/-- `WhoamiResponse`. -/
structure WhoamiResponse where
  commonName : String
  fullDn : String
  verified : Bool
  role : String
  nodeId : Option String
  deriving DecidableEq, Repr

/-- A response body, by the response model of the route. -/
inductive Body where
  | health (timestamp : Time)
  | whoami (r : WhoamiResponse)
  | node (n : Node)
  | nodes (ns : List Node)
  | events (es : List AuditEvent)
  deriving DecidableEq, Repr

structure Response where
  status : Nat
  body : Body
  deriving DecidableEq, Repr

/-- A route with its parameters, after path matching. -/
inductive Endpoint where
  | health
  | whoami
  | listNodes
  | registerNode (body : Option NodeBase)
  | getNode (nodeId : String)
  | heartbeat (nodeId : String) (body : Option NodeHeartbeat)
  | listAuditEvents (limit offset : Int) (actorCn action result : Option String)

structure Request where
  headers : Headers
  endpoint : Endpoint

/-- `whoami`. -/
def whoami (identity : MTLSIdentity) : WhoamiResponse :=
  { commonName := identity.commonName
    fullDn := identity.fullDn
    verified := identity.verified
    role :=
      if identity.isController then "controller"
      else if identity.isNode then "node"
      else "unknown"
    nodeId := identity.nodeId }

/-- A returned row through `NodeRead`. -/
def respondNode (status : Nat) (n : Node) : Handler Response :=
  if NodeRead.ok n then return ⟨status, .node n⟩ else .throw .responseValidation

/-- Returned rows through `list[NodeRead]`. -/
def respondNodes (ns : List Node) : Handler Response :=
  if ns.all NodeRead.ok then return ⟨200, .nodes ns⟩ else .throw .responseValidation

/-- Returned rows through `list[AuditEventRead]`. -/
def respondEvents (es : List AuditEvent) : Handler Response :=
  if es.all AuditEventRead.ok then return ⟨200, .events es⟩ else .throw .responseValidation

/-- The bounds of the `Query` parameters of `GET /audit`. -/
def badPage (limit offset : Int) : List String :=
  (if 1 ≤ limit ∧ limit ≤ 1000 then [] else ["limit"]) ++ (if 0 ≤ offset then [] else ["offset"])

/-- What a route does with the identity its `MTLSIdentityDep` yields; `none`
for the one route without it. -/
def Endpoint.body? : Endpoint → Option (MTLSIdentity → Handler Response)
  | .health => none
  | .whoami => some fun identity => return ⟨200, .whoami (Controller.whoami identity)⟩
  | .listNodes => some fun identity => Controller.listNodes identity >>= respondNodes
  | .registerNode body => some fun identity =>
    match body with
    | none => .throw (.validation ["body"])
    | some body =>
      match NodeCreate.validate body with
      | .error fields => .throw (.validation fields)
      | .ok payload => Controller.registerNode payload identity >>= respondNode 201
  | .getNode nodeId => some fun identity => Controller.getNode nodeId identity >>= respondNode 200
  | .heartbeat nodeId body => some fun identity =>
    match body with
    | none => .throw (.validation ["body"])
    | some payload => Controller.heartbeat nodeId payload identity >>= respondNode 200
  | .listAuditEvents limit offset actorCn action result => some fun _ =>
    if badPage limit offset ≠ [] then .throw (.validation (badPage limit offset))
    else
      ask (.selectEvents ⟨limit.toNat, offset.toNat, actorCn, action, result⟩) >>= respondEvents

/-- `health`: no mTLS, no database. -/
def health : Handler Response := do
  let now ← ask .utcnow
  return ⟨200, .health now⟩

/-- One request. -/
def app (settings : Settings) (req : Request) : Handler Response :=
  match req.endpoint.body? with
  | none => health
  | some body => mtlsIdentityDep settings req.headers >>= body

/-- The status the client receives. -/
def statusOf : Except Exc Response → Nat
  | .ok r => r.status
  | .error e => e.status

/-- The history of one request. -/
abbrev History := List (Act Call Ans Exc)

/-- The requests handed to the application, none of which has started. -/
def serving (settings : Settings) (reqs : Rid → Request) (w : World) :
    Cfg Call Ans Exc Response Rid Session World :=
  ⟨w, fun i => ⟨{}, .running (app settings (reqs i))⟩⟩

end ZeroTrustLab.Controller
