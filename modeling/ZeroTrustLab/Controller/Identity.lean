import ZeroTrustLab.Controller.App

/-!
# The identity of a request

`get_mtls_identity` reads nothing but its headers, so the identity it returns
(or the exception it raises) is a function of them: `identityOf`, defined by
running it. `identityOf_eq` is that function written out.

`identityOf_ok` is what every later result uses: an identity comes from the
development bypass or from a verified certificate whose subject has a `CN=`.

The source turns three kinds of headers away, in this order: those without a
verification result or without a subject (401), those with another result than
`SUCCESS` (403), and those whose subject has no `CN=` (400). The handlers only
make notes on the way (`Notes`), which is why there is such a function at all.
-/

namespace ZeroTrustLab.Controller

open Lib (Prog Machine Text.int16? Text.strip)

/-! ## Code that only logs -/

/-- The code makes no call but notes, and comes to `r`. -/
inductive Notes {α : Type} : Handler α → Except Exc α → Prop where
  | pure (a : α) : Notes (.pure a) (.ok a)
  | throw (e : Exc) : Notes (.throw e) (.error e)
  | note {n : Note} {k : Unit → Handler α} {r : Except Exc α} :
      Notes (k ()) r → Notes (.call (.note n) k) r

theorem Notes.bind {α β : Type} {p : Handler α} {f : α → Handler β} {a : α} {r : Except Exc β}
    (h : Notes p (.ok a)) (hf : Notes (f a) r) : Notes (p >>= f) r := by
  generalize hr : (Except.ok a : Except Exc α) = r' at h
  induction h with
  | pure b =>
    obtain rfl := Except.ok.inj hr
    exact hf
  | throw e => exact absurd hr (by simp)
  | note _ ih => exact .note (ih hr)

/-- Alone, from any state: the result, and some more lines in the log. -/
theorem Notes.run {α : Type} {p : Handler α} {r : Except Exc α} (h : Notes p r) (i : Rid)
    (l : Session) : ∀ w : World, ∃ ns,
      controller.run i p l w = (r, l, { w with notes := w.notes ++ ns }) := by
  induction h with
  | pure a => exact fun w => ⟨[], by simp⟩
  | throw e => exact fun w => ⟨[], by simp⟩
  | @note n k r _ ih =>
    intro w
    obtain ⟨ns, hns⟩ := ih { w with notes := w.notes ++ [n] }
    refine ⟨n :: ns, ?_⟩
    rw [show controller.run i (.call (.note n) k) l w
      = controller.run i (k ()) l { w with notes := w.notes ++ [n] } from rfl, hns]
    simp

/-- What `get_mtls_identity` comes to on these headers. -/
def identityOf (settings : Settings) (headers : Headers) : Except Exc MTLSIdentity :=
  (controller.run 0 (getMtlsIdentity settings headers) {} World.start).1

/-- The serial a header yields: absent, empty and malformed ones yield none. -/
def serialOf (raw : Option String) : Option Int := raw.bind fun r => Text.int16? r.toList

/-- The exception for headers without an identity. -/
def identityError : Option String → Option String → Exc
  | some verify, some _ =>
    if verify ≠ "SUCCESS" then .http 403 s!"Client certificate verification failed: {verify}"
    else .http 400 "Could not extract CN from client DN"
  | _, _ => .http 401 "mTLS identity headers missing — request did not pass through Nginx mTLS proxy"

/-- An identity is refused with 400, 401 or 403. -/
theorem identityError_status (verify dn : Option String) :
    (identityError verify dn).status = 400 ∨ (identityError verify dn).status = 401 ∨
      (identityError verify dn).status = 403 := by
  unfold identityError
  split
  next =>
    split
    next => exact .inr (.inr rfl)
    next => exact .inl rfl
  next => exact .inr (.inl rfl)

/-- Parsing a serial only notes, and returns what `serialOf` says. -/
theorem notes_parseSerial (raw : Option String) : Notes (parseSerial raw) (.ok (serialOf raw)) := by
  unfold parseSerial serialOf
  rcases raw with _ | raw
  · exact .pure none
  · by_cases he : raw = ""
    · subst he
      exact .pure none
    · simp only [he, if_false, Option.bind_some]
      rcases Text.int16? raw.toList with _ | n
      · exact .note (.pure none)
      · exact .pure (some n)

/-- Reading the identity only notes, branch by branch of the function. -/
private theorem notes_getMtlsIdentity_aux (settings : Settings) (headers : Headers) :
    Notes (getMtlsIdentity settings headers)
      (if settings.allowUnauthenticated ∧ headers.xClientVerify.getD "" = "" then
          .ok { commonName := "dev-bypass", fullDn := "", verified := false }
        else
          match headers.xClientVerify, headers.xClientDn with
          | some verify, some dn =>
            if verify ≠ "SUCCESS" then .error (identityError (some verify) (some dn))
            else
              match cnSearch dn.toList with
              | none => .error (identityError (some verify) (some dn))
              | some group =>
                .ok
                  { commonName := String.ofList (Text.strip group), fullDn := dn, verified := true,
                    serial := serialOf headers.xClientSerial }
          | verify, dn => .error (identityError verify dn)) := by
  unfold getMtlsIdentity
  by_cases hdev : settings.allowUnauthenticated ∧ headers.xClientVerify.getD "" = ""
  · rw [if_pos hdev, if_pos hdev]
    exact .note (.pure _)
  · rw [if_neg hdev, if_neg hdev]
    rcases headers.xClientVerify with _ | verify
    · exact .note (.note (.throw _))
    · rcases headers.xClientDn with _ | dn
      · exact .note (.note (.throw _))
      · dsimp only
        by_cases hv : verify ≠ "SUCCESS"
        · rw [if_pos hv, if_pos hv]
          unfold identityError
          dsimp only
          rw [if_pos hv]
          exact .note (.note (.throw _))
        · rw [if_neg hv, if_neg hv]
          rcases cnSearch dn.toList with _ | group
          · unfold identityError
            dsimp only
            rw [if_neg hv]
            exact .note (.note (.throw _))
          · exact .note ((notes_parseSerial headers.xClientSerial).bind (.pure _))

/-- `get_mtls_identity`, written out. -/
theorem identityOf_eq (settings : Settings) (headers : Headers) :
    identityOf settings headers =
      if settings.allowUnauthenticated ∧ headers.xClientVerify.getD "" = "" then
        .ok { commonName := "dev-bypass", fullDn := "", verified := false }
      else
        match headers.xClientVerify, headers.xClientDn with
        | some verify, some dn =>
          if verify ≠ "SUCCESS" then .error (identityError (some verify) (some dn))
          else
            match cnSearch dn.toList with
            | none => .error (identityError (some verify) (some dn))
            | some group =>
              .ok
                { commonName := String.ofList (Text.strip group), fullDn := dn, verified := true,
                  serial := serialOf headers.xClientSerial }
        | verify, dn => .error (identityError verify dn) := by
  obtain ⟨ns, hns⟩ := (notes_getMtlsIdentity_aux settings headers).run 0 {} World.start
  exact congrArg Prod.fst hns

/-- A request without an identity is told why. -/
theorem identityOf_error {settings : Settings} {headers : Headers} {e : Exc}
    (h : identityOf settings headers = .error e) :
    e = identityError headers.xClientVerify headers.xClientDn := by
  rw [identityOf_eq] at h
  split at h
  next => exact absurd h (by simp)
  next =>
    split at h
    next hv hd =>
      rw [hv, hd]
      split at h
      next => exact (Except.error.inj h).symm
      next =>
        split at h
        next => exact (Except.error.inj h).symm
        next => exact absurd h (by simp)
    next => exact (Except.error.inj h).symm

/-- The identity or the exception, and the lines logged on the way; nothing
else happens. -/
theorem notes_getMtlsIdentity (settings : Settings) (headers : Headers) :
    Notes (getMtlsIdentity settings headers) (identityOf settings headers) := by
  rw [identityOf_eq]
  exact notes_getMtlsIdentity_aux settings headers

/-- The identity of a verified certificate whose subject has a `CN=`. -/
theorem identityOf_verified {settings : Settings} {dn : String} {serial : Option String} :
    identityOf settings ⟨some "SUCCESS", some dn, serial⟩ =
      match cnSearch dn.toList with
      | none => .error (.http 400 "Could not extract CN from client DN")
      | some group =>
        .ok
          { commonName := String.ofList (Text.strip group), fullDn := dn, verified := true,
            serial := serialOf serial } := by
  rw [identityOf_eq, if_neg (by simp)]
  rfl

/-- Where an identity comes from when there is no bypass. -/
theorem identityOf_ok {settings : Settings} {headers : Headers} {identity : MTLSIdentity}
    (hs : settings.allowUnauthenticated = false) (h : identityOf settings headers = .ok identity) :
    ∃ dn group, headers.xClientVerify = some "SUCCESS" ∧ headers.xClientDn = some dn ∧
      cnSearch dn.toList = some group ∧
      identity =
        { commonName := String.ofList (Text.strip group), fullDn := dn, verified := true,
          serial := serialOf headers.xClientSerial } := by
  rw [identityOf_eq, if_neg (by simp [hs])] at h
  rcases hv : headers.xClientVerify with _ | verify
  · rw [hv] at h; simp at h
  · rcases hd : headers.xClientDn with _ | dn
    · rw [hv, hd] at h; simp at h
    · rw [hv, hd] at h
      dsimp only at h
      by_cases hne : verify ≠ "SUCCESS"
      · rw [if_pos hne] at h; simp at h
      · rw [if_neg hne] at h
        rcases hg : cnSearch dn.toList with _ | group
        · rw [hg] at h; simp at h
        · rw [hg] at h
          exact ⟨dn, group, by rw [not_not.mp hne], rfl, hg, (Except.ok.inj h).symm⟩

end ZeroTrustLab.Controller
