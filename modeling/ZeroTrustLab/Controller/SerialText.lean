import ZeroTrustLab.Lib.Hexadecimal
import ZeroTrustLab.Controller.Paths

/-!
# The serial of a certificate, as text

nginx hands the serial over in hexadecimal, `require_live_identity` compares
the number it spells with the revocation cache and prints it into the audit
event. `serial_survives` says that all of these are one number, however the
header spells it.

The spelling relation is the library's (`Hexadecimal`). That nginx prints one
of the spellings is proved where nginx is modelled, and that no two serials
share one follows from reading being a function.
-/

namespace ZeroTrustLab.Controller

open Lib
open Lib.Text (Spells hex int16?_spells spells_hex)

/-- The call, where it names a serial, names this one: the check against the
revocation cache, and the two places of the audit event. -/
def NamesSerial (n : ℕ) : Call → Prop
  | .isRevoked m => m = n
  | .add (.event e) => ∃ text, e.target = some ("cert:" ++ text) ∧
      e.details = some [("reason", some "certificate revoked"), ("serial", some text)] ∧
      parseSerial (some text) = .pure (some (n : ℤ))
  | _ => True

/-- A serial keeps its value through the header and the audit trail. -/
structure SerialSurvives (n : ℕ) : Prop where
  /-- Every spelling of the serial is parsed as it. -/
  parsed : ∀ raw : String, Spells n raw.toList → parseSerial (some raw) = .pure (some (n : ℤ))
  /-- No spelling of another number is parsed as the same. -/
  apart : ∀ (m : ℕ) (raw raw' : String), Spells n raw.toList → Spells m raw'.toList → m ≠ n →
    parseSerial (some raw) ≠ parseSerial (some raw')
  /-- Whatever the dependency checks and records names the serial. -/
  named : ∀ (settings : Settings) (headers : Headers) (raw : String),
    headers.xClientSerial = some raw → Spells n raw.toList →
      (mtlsIdentityDep settings headers).All (NamesSerial n)

/-- A spelling of a number is parsed as it, without a log line. -/
theorem parseSerial_spells {n : ℕ} {raw : String} (hs : Spells n raw.toList) :
    parseSerial (some raw) = .pure (some (n : ℤ)) := by
  have hne : raw ≠ "" := by
    rintro rfl
    obtain ⟨k, t, hnil, ht⟩ := hs
    obtain ⟨-, rfl⟩ := List.append_eq_nil_iff.mp hnil.symm
    exact Nat.toDigits_ne_nil ht.symm
  unfold parseSerial
  dsimp only
  rw [if_neg hne, int16?_spells hs]
  rfl

/-- The rejection of a revoked certificate names its serial. -/
private theorem requireLiveIdentity_names {n : ℕ} {identity : MTLSIdentity}
    (hs : identity.serial = some (n : ℤ) ∨ identity.serial = none) :
    (requireLiveIdentity identity).All (NamesSerial n) := by
  have hprinted : Spells n (String.ofList (hex n)).toList := by
    rw [String.toList_ofList]
    exact spells_hex n
  unfold requireLiveIdentity
  rcases hs with hs | hs
  · rw [hs]
    refine ⟨rfl, fun b => ?_⟩
    cases b with
    | false => trivial
    | true =>
      have hrecord : (recordEvent identity.commonName .authFailure
          (some ("cert:" ++ String.ofList (hex n))) .rejected
          (some [("reason", some "certificate revoked"),
            ("serial", some (String.ofList (hex n)))])).All (NamesSerial n) :=
        ⟨trivial, fun _ => ⟨⟨_, rfl, rfl, parseSerial_spells hprinted⟩, fun _ => ⟨trivial, fun _ =>
          ⟨trivial, fun _ => ⟨trivial, fun _ => trivial⟩⟩⟩⟩⟩
      exact ⟨trivial, fun _ => hrecord.bind fun _ => ⟨trivial, fun _ => ⟨trivial, fun _ => trivial⟩⟩⟩
  · rw [hs]
    trivial

/-- An identity has the serial of its header, or none. -/
theorem identityOf_serial {settings : Settings} {headers : Headers} {identity : MTLSIdentity}
    (hid : identityOf settings headers = .ok identity) :
    identity.serial = serialOf headers.xClientSerial ∨ identity.serial = none := by
  rw [identityOf_eq] at hid
  split at hid
  next =>
    obtain rfl := Except.ok.inj hid
    exact .inr rfl
  next =>
    split at hid
    next =>
      split at hid
      next => simp at hid
      next =>
        split at hid
        next => simp at hid
        next =>
          obtain rfl := Except.ok.inj hid
          exact .inl rfl
    next => simp at hid

/-- What follows code that only logs depends on its result. -/
private theorem Notes.all_bind {α β : Type} {P : Call → Prop} {p : Handler α} {r : Except Exc α}
    {f : α → Handler β} (hp : Notes p r) (hP : ∀ n, P (.note n))
    (hf : ∀ a, r = .ok a → (f a).All P) : (p >>= f).All P := by
  induction hp with
  | pure a => exact hf a rfl
  | throw e => trivial
  | note _ ih => exact ⟨hP _, fun _ => ih hf⟩

/-- **Serials survive the header and the audit trail**: whatever its size, its
case and its leading zeros, a serial is parsed as the number it spells, no other
number's spelling is taken for it, and what is recorded of it names it. -/
theorem serial_survives (n : ℕ) : SerialSurvives n where
  parsed raw hs := parseSerial_spells hs
  apart m raw raw' hs hs' hne hsame := by
    rw [parseSerial_spells hs, parseSerial_spells hs'] at hsame
    have hints : (n : ℤ) = m := Option.some.inj (Prog.pure.inj hsame)
    exact hne (Int.ofNat.inj hints).symm
  named settings headers raw hraw hs := by
    have hserial : serialOf headers.xClientSerial = some (n : ℤ) := by
      rw [hraw]
      exact int16?_spells hs
    refine (notes_getMtlsIdentity settings headers).all_bind (fun _ => trivial) fun identity hid => ?_
    have hidentity := identityOf_serial hid
    rw [hserial] at hidentity
    exact requireLiveIdentity_names hidentity

end ZeroTrustLab.Controller
