import ZeroTrustLab.Controller.Session

/-!
# The audit helper

`record_event` of `app/core/audit.py`: one database row, one log line, one
counter increment. The row is flushed, not committed; the commit is the
caller's.

All endpoints that write anything call the helper, and all of them commit right
after it. What follows from that order, and what becomes of the line and the
counter when the commit fails, is in `AuditMetrics`.
-/

namespace ZeroTrustLab.Controller


/-- `record_event`. -/
def recordEvent (actorCn : String) (action : AuditAction) (target : Option String)
    (result : AuditResult) (details : Option Details) : Handler AuditEvent := do
  -- `timestamp` has a default factory, called when the object is constructed
  let timestamp ← ask .utcnow
  let event : AuditEvent :=
    { timestamp := timestamp, actorCn := actorCn, action := action, target := target,
      result := result, details := details }
  ask (.add (.event event))
  let ids ← ask .flush
  -- the event was added last, so its key is the last one assigned
  let event := { event with id := ids.getLast? }
  ask (.note (.auditLogged event))
  ask (.note (.auditCount action result))
  return event

end ZeroTrustLab.Controller
