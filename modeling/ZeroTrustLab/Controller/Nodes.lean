import ZeroTrustLab.Controller.Security

/-!
# Node registration and management endpoints

The bodies of `app/api/nodes.py`, given the identity `require_live_identity`
let through. Each is the source's sequence of calls; the returned row goes
through the response model in `App.lean`.

Three things are taken over as the source has them, although each is open to
question: the authorization compares the CN of the payload and never the
`node_id`, the conflict is answered without an audit row, and the state of the
payload is stored as it was sent. What comes of them is in `Ownership`,
`Conflict` and `Replay`.
-/

namespace ZeroTrustLab.Controller


/-- `list_nodes`. -/
def listNodes (identity : MTLSIdentity) : Handler (List Node) := do
  let nodes ← ask .selectNodes
  log "nodes_listed"
    [("actor", some identity.commonName), ("count", some (toString nodes.length))]
  return nodes

/-- The authorization rule of `register_node`: the node whose CN the payload
names, or the controller. -/
def mayRegister (identity : MTLSIdentity) (payload : NodeBase) : Bool :=
  (identity.isNode && identity.commonName == payload.commonName) || identity.isController

/-- `Node(**payload.model_dump())`: the two timestamps have default factories. -/
def newNode (payload : NodeBase) (createdAt updatedAt : Time) : Node :=
  { toNodeBase := payload, createdAt := createdAt, updatedAt := updatedAt }

/-- `register_node`. -/
def registerNode (payload : NodeCreate) (identity : MTLSIdentity) : Handler Node :=
  if mayRegister identity payload.toNodeBase = false then do
    let _ ← recordEvent identity.commonName .authFailure (some ("node:" ++ payload.nodeId)) .rejected
      (some [("reason", some "actor not authorized to register this node")])
    ask .commit
    raiseHttp 403 "Cannot register a node on behalf of another identity"
  else do
    let rows ← ask (.selectNode payload.nodeId)
    let existing ← scalarOneOrNone rows
    match existing with
    | some _ => do
      log "node_register_duplicate"
        [("actor", some identity.commonName), ("node_id", some payload.nodeId)]
      raiseHttp 409 ("Node '" ++ payload.nodeId ++ "' is already registered")
    | none => do
      let createdAt ← ask .utcnow
      let updatedAt ← ask .utcnow
      let node := newNode payload.toNodeBase createdAt updatedAt
      ask (.add (.node node))
      let ids ← ask .flush
      let node := { node with id := ids.getLast? }
      let _ ← recordEvent identity.commonName .nodeRegister (some ("node:" ++ node.nodeId)) .success
        (some [("role", some node.role), ("ip", node.ipAddress)])
      ask .commit
      ask (.refresh node.id)

/-- `get_node`. -/
def getNode (nodeId : String) (_identity : MTLSIdentity) : Handler Node := do
  let rows ← ask (.selectNode nodeId)
  let node ← scalarOneOrNone rows
  match node with
  | none => raiseHttp 404 ("Node '" ++ nodeId ++ "' not found")
  | some node => return node

/-- The assignments of `heartbeat` to the row it loaded. -/
def Node.beaten (node : Node) (now : Time) : Node :=
  { node with
    state := if node.state == .onboarding then .active else node.state
    lastHeartbeatAt := some now
    updatedAt := now }

/-- `heartbeat`. -/
def heartbeat (nodeId : String) (payload : NodeHeartbeat) (identity : MTLSIdentity) :
    Handler Node := do
  let rows ← ask (.selectNode nodeId)
  let node ← scalarOneOrNone rows
  match node with
  | none => raiseHttp 404 ("Node '" ++ nodeId ++ "' not found")
  | some node =>
    -- strict authorization: the heartbeating identity must match the node
    if identity.commonName ≠ node.commonName then do
      let _ ← recordEvent identity.commonName .authFailure (some ("node:" ++ nodeId)) .rejected
        (some [("reason", some "heartbeat from non-matching identity"),
          ("claimed_node", some nodeId)])
      ask .commit
      raiseHttp 403 "Cannot heartbeat on behalf of another node"
    else do
      let now ← ask .utcnow
      let stateChanged : Bool := node.state == .onboarding
      let current := node.beaten now
      ask (.add (.dirty node current))
      if stateChanged then do
        let _ ← recordEvent identity.commonName .nodeStateChange (some ("node:" ++ current.nodeId))
          .success
          (some [("from", some node.state.value), ("to", some current.state.value),
            ("trigger", some "heartbeat")])
        ask .commit
        ask (.refresh current.id)
      else do
        -- routine heartbeat: structured log only, no audit row
        log "node_heartbeat"
          [("node_id", some current.nodeId), ("actor", some identity.commonName),
            ("state", some current.state.value), ("note", payload.statusNote)]
        ask .commit
        ask (.refresh current.id)

end ZeroTrustLab.Controller
