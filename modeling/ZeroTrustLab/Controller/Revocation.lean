import Mathlib.Data.Finset.Dedup
import Mathlib.Data.Finset.Empty
import Mathlib.Data.List.Induction

/-!
# The revoked-serial cache

`app/core/revocation.py`: a background loop fetches step-ca's CRL and keeps
the set of revoked serials; requests only ever read the set.

What one cycle meets outside the process is a `CrlAnswer`: the request may
fail to connect, the response may carry any status, its body may not decode,
and iterating the decoded entries may raise at any of them. A cycle that
raises anywhere is caught and logged, and the cache stays as it was.

`lastGood` is what the loop is for, said without the loop: the set delivered
by the most recent cycle that delivered one. `crlCache_eq_lastGood` is the
refinement, over any history of cycles.

Two things are worth keeping apart. A cycle that fails keeps the old set, so a
CA that cannot be reached leaves the last known serials in force; and before
the first success the set is empty, so until then no certificate counts as
revoked. What that means for requests is in `Admission`.
-/

namespace ZeroTrustLab.Controller

/-- A response of the CRL endpoint: its status, and what decoding its body
gives, which is the entries' serials or the exception raised in their place. -/
structure CrlResponse where
  status : Nat
  crl : Except String (List (Except String Int))

/-- What one refresh cycle meets: no connection, or a response. -/
abbrev CrlAnswer := Except String CrlResponse

/-- `_fetch_revoked_serials`. -/
def fetchRevokedSerials (answer : CrlAnswer) : Except String (Finset Int) := do
  let resp ← answer
  -- `raise_for_status`: anything but a 2xx raises
  unless 200 ≤ resp.status ∧ resp.status < 300 do
    throw s!"HTTP status {resp.status}"
  let crl ← resp.crl
  let serials ← crl.mapM id
  return serials.toFinset

/-- One turn of the loop in `periodic_crl_refresh`: `except Exception` keeps
the last good cache. -/
def crlCycle (revokedSerials : Finset Int) (answer : CrlAnswer) : Finset Int :=
  match fetchRevokedSerials answer with
  | .ok serials => serials
  | .error _ => revokedSerials

/-- `is_revoked`. -/
def isRevoked (revokedSerials : Finset Int) (serial : Int) : Bool :=
  decide (serial ∈ revokedSerials)

/-- The cache after a history of cycles, from the empty set it starts with. -/
def crlCache (answers : List CrlAnswer) : Finset Int := answers.foldl crlCycle ∅

/-- The sets that cycles of a history delivered. -/
def delivered (answers : List CrlAnswer) : List (Finset Int) :=
  answers.filterMap fun a => (fetchRevokedSerials a).toOption

/-- The set delivered by the most recent successful cycle; empty before any. -/
def lastGood (answers : List CrlAnswer) : Finset Int := (delivered answers).getLast?.getD ∅

theorem delivered_append (as bs : List CrlAnswer) :
    delivered (as ++ bs) = delivered as ++ delivered bs :=
  List.filterMap_append

theorem crlCache_concat (as : List CrlAnswer) (a : CrlAnswer) :
    crlCache (as ++ [a]) = crlCycle (crlCache as) a := by
  unfold crlCache
  rw [List.foldl_append]
  rfl

/-- A failed cycle delivers nothing, a successful one its set. -/
theorem lastGood_concat (as : List CrlAnswer) (a : CrlAnswer) :
    lastGood (as ++ [a]) = crlCycle (lastGood as) a := by
  unfold lastGood crlCycle
  rw [delivered_append]
  rcases h : fetchRevokedSerials a with e | s
  · rw [show delivered [a] = [] by simp [delivered, h, Except.toOption], List.append_nil]
  · rw [show delivered [a] = [s] by simp [delivered, h, Except.toOption], List.getLast?_append]
    rfl

/-- **The cache is the last good CRL**, whatever cycles failed in between. -/
theorem crlCache_eq_lastGood (answers : List CrlAnswer) : crlCache answers = lastGood answers := by
  induction answers using List.reverseRecOn with
  | nil => rfl
  | append_singleton as a ih => rw [crlCache_concat, lastGood_concat, ih]

end ZeroTrustLab.Controller
