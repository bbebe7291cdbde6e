import ZeroTrustLab.Lib.Text
import ZeroTrustLab.Controller.Audit

/-!
# mTLS identity extraction

`app/core/security.py`: the identity of a request comes from the three headers
nginx sets, and a revoked certificate is turned away before any endpoint body
runs.

Three decisions of the source are visible in the definitions: the development
bypass needs both the setting and a missing verification header; a serial that
cannot be parsed counts as none; and the check for revocation is made in a
second dependency, after the first has counted the attempt as a success.

Mirroring notes vs the Python module:
- `_CN_PATTERN.search` is `cnSearch`: the leftmost place of the subject where
  `CN=` is followed by at least one character other than `,` and `/`, and the
  longest run of such characters there. The class is greedy and the pattern
  ends with it, so the run never has to be given back.
- `serial` is an unbounded `int`, and may be negative: `int(raw, 16)` accepts
  a sign.
- Both functions are `Handler`s because they bump counters and log.
-/

namespace ZeroTrustLab.Controller

open Lib (Prog Text.startsWith Text.splitHead Text.strip Text.int16? Text.hex)

/-- The part of `Settings` these functions read. -/
structure Settings where
  allowUnauthenticated : Bool := false
  deriving DecidableEq, Repr

/-- The three headers; `none` is an absent one. -/
structure Headers where
  xClientVerify : Option String := none
  xClientDn : Option String := none
  xClientSerial : Option String := none
  deriving DecidableEq, Repr

/-- Verified identity extracted from a client certificate via nginx. -/
structure MTLSIdentity where
  commonName : String
  fullDn : String
  verified : Bool
  serial : Option Int := none
  deriving DecidableEq, Repr

def MTLSIdentity.isController (identity : MTLSIdentity) : Bool :=
  Text.startsWith "controller.".toList identity.commonName.toList

def MTLSIdentity.isNode (identity : MTLSIdentity) : Bool :=
  Text.startsWith "pi-".toList identity.commonName.toList

/-- The first label of a CN: `pi-01.thesis.local` gives `pi-01`. -/
def firstLabel (commonName : String) : String :=
  String.ofList (Text.splitHead '.' commonName.toList)

def MTLSIdentity.nodeId (identity : MTLSIdentity) : Option String :=
  if identity.isNode then some (firstLabel identity.commonName) else none

/-- `[^,/]`. -/
def cnChar (c : Char) : Bool := c != ',' && c != '/'

/-- `_CN_PATTERN.search`, its group 1. -/
def cnSearch : List Char → Option (List Char)
  | [] => none
  | c :: cs =>
    if Text.startsWith "CN=".toList (c :: cs) ∧ (((c :: cs).drop 3).takeWhile cnChar) ≠ [] then
      some (((c :: cs).drop 3).takeWhile cnChar)
    else cnSearch cs

/-- `_parse_serial`. -/
def parseSerial (raw : Option String) : Handler (Option Int) :=
  match raw with
  | none => return none
  | some raw =>
    if raw = "" then return none
    else
      match Text.int16? raw.toList with
      | some n => return some n
      | none => do
        log "mtls_serial_parse_failed" [("raw", some raw)]
        return none

/-- `get_mtls_identity`. -/
def getMtlsIdentity (settings : Settings) (headers : Headers) : Handler MTLSIdentity :=
  -- dev escape hatch
  if settings.allowUnauthenticated ∧ headers.xClientVerify.getD "" = "" then do
    log "unauthenticated_request_allowed" [("reason", some "dev_mode")]
    return { commonName := "dev-bypass", fullDn := "", verified := false }
  else
    match headers.xClientVerify, headers.xClientDn with
    | some verify, some dn =>
      if verify ≠ "SUCCESS" then do
        ask (.note (.mtlsAuth .verifyFailed))
        log "mtls_verify_failed" [("verify_status", some verify), ("dn", some dn)]
        raiseHttp 403 s!"Client certificate verification failed: {verify}"
      else
        match cnSearch dn.toList with
        | none => do
          ask (.note (.mtlsAuth .cnParseFailed))
          log "mtls_cn_parse_failed" [("dn", some dn)]
          raiseHttp 400 "Could not extract CN from client DN"
        | some group => do
          ask (.note (.mtlsAuth .success))
          let cn := String.ofList (Text.strip group)
          let serial ← parseSerial headers.xClientSerial
          return { commonName := cn, fullDn := dn, verified := true, serial := serial }
    | verify, dn => do
      ask (.note (.mtlsAuth .missingHeaders))
      log "mtls_headers_missing"
        [("has_verify", some (toString verify.isSome)), ("has_dn", some (toString dn.isSome))]
      raiseHttp 401
        "mTLS identity headers missing — request did not pass through Nginx mTLS proxy"

/-- The detail of a revoked certificate's rejection. -/
def revokedDetail : String := "Client certificate has been revoked"

/-- `require_live_identity`, given the identity its dependency extracted. -/
def requireLiveIdentity (identity : MTLSIdentity) : Handler MTLSIdentity :=
  match identity.serial with
  | none => return identity
  | some serial => do
    let revoked ← ask (.isRevoked serial)
    if revoked then do
      let hexSerial := String.ofList (Text.hex serial)
      ask (.note (.mtlsAuth .revoked))
      let _ ← recordEvent identity.commonName .authFailure (some ("cert:" ++ hexSerial)) .rejected
        (some [("reason", some "certificate revoked"), ("serial", some hexSerial)])
      ask .commit
      log "mtls_cert_revoked" [("cn", some identity.commonName), ("serial", some hexSerial)]
      raiseHttp 403 revokedDetail
    else
      return identity

/-- `MTLSIdentityDep`. -/
def mtlsIdentityDep (settings : Settings) (headers : Headers) : Handler MTLSIdentity :=
  getMtlsIdentity settings headers >>= requireLiveIdentity

end ZeroTrustLab.Controller
