import Mathlib.Data.Int.Notation
import Mathlib.Data.Nat.Notation
import Mathlib.Logic.Basic

/-!
# The start-up certificate gate

`app/cert_guard.py` of the node agent: `step` prints the certificate as JSON,
the agent reads the end of its validity and refuses to start when it is past.

`certGuard_iff` says for which outputs of `step` the gate decides, and decides
as it should. What it does not survive is output of an unexpected shape:
indexing and `end.replace` raise other exceptions than the three that are
caught, and the comparison with a time that has no offset is behind the `try`.

The proof goes through the function in the order of the source. `readEnd_ok`
and `parseEnd_ok` say what the two halves of the `try` return, `notAfter_ok`
puts them together, and the exceptions are sorted into those that the `except`
catches and those that it does not. `Usable` is what the gate is for, said
without the gate: a known end of validity that lies in the future.

Mirroring notes vs the Python module:
- `json.loads` and `datetime.fromisoformat` are parameters (`Library`), of which
  nothing is assumed: the first yields a value, a `ValueError` (of which
  `JSONDecodeError` is one), or something else, such as the `RecursionError` of
  deep nesting; the second yields a datetime or a `ValueError`.
- A `str` is its code points, since JSON can spell lone surrogates.
- The outcomes of `subprocess.run` are the two exceptions that are handled, and
  a process that has ended.
- Times are microseconds since the epoch. The hours that are left only choose
  between two log lines, which are one here.
-/

namespace ZeroTrustLab.Agent

/-- A `str`. -/
abbrev CodePoints := List ℕ

def codePoints (text : String) : CodePoints := text.toList.map Char.toNat

/-- What `json.loads` makes of a text. -/
inductive Json where
  | null
  | bool (b : Bool)
  | int (n : ℤ)
  | float (literal : String)
  | string (s : CodePoints)
  | array (items : List Json)
  /-- A `dict`, in the order in which its keys were set. -/
  | object (members : List (CodePoints × Json))

/-- The exceptions, by the clause that would catch them. -/
inductive PyExc where
  | keyError
  | valueError
  | typeError
  | attributeError
  | other (name : String)
  deriving DecidableEq, Repr

/-- A `datetime`: what its clock shows, and how far that is from UTC. -/
structure DateTime where
  wall : ℤ
  utcoffset : Option ℤ
  deriving DecidableEq, Repr

structure Library where
  loads : String → Except PyExc Json
  /-- `none` is the `ValueError`. -/
  fromisoformat : CodePoints → Option DateTime

/-- What became of `subprocess.run`. -/
inductive Outcome where
  | fileNotFound
  | timeoutExpired
  | completed (returncode : ℤ) (stdout stderr : String)
  deriving DecidableEq, Repr

/-- The lines of the log. -/
inductive GuardLine where
  | certCheckNoStep
  | certCheckTimeout
  | certUnreadable (stderr : String)
  | certParseFailed (error : PyExc)
  | certExpired (expiredAt : DateTime)
  /-- `cert_near_expiry` or `cert_valid`. -/
  | certAlive (left : ℤ)
  deriving DecidableEq, Repr

/-- How the gate is left. -/
inductive Left where
  | returned
  | exited (status : ℤ)
  | escaped (e : PyExc)
  deriving DecidableEq, Repr

/-! ## `cert_guard.py` -/

/-- `v[key]`. -/
def getItem (v : Json) (key : String) : Except PyExc Json :=
  match v with
  | .object members =>
    match members.find? fun m => decide (m.1 = codePoints key) with
    | some m => .ok m.2
    | none => .error .keyError
  | _ => .error .typeError

/-- `s.replace("Z", "+00:00")`. -/
def replaceZ (s : CodePoints) : CodePoints :=
  s.flatMap fun c => if c = 'Z'.toNat then codePoints "+00:00" else [c]

/-- `json.loads(proc.stdout)["validity"]["end"]`. -/
def readEnd (lib : Library) (stdout : String) : Except PyExc Json := do
  let v ← lib.loads stdout
  let validity ← getItem v "validity"
  getItem validity "end"

/-- `datetime.fromisoformat(end.replace("Z", "+00:00"))`. -/
def parseEnd (lib : Library) : Json → Except PyExc DateTime
  | .string s =>
    match lib.fromisoformat (replaceZ s) with
    | some d => .ok d
    | none => .error .valueError
  | _ => .error .attributeError

/-- The body of the `try`. -/
def notAfter (lib : Library) (stdout : String) : Except PyExc DateTime := do
  let e ← readEnd lib stdout
  parseEnd lib e

/-- `except (KeyError, ValueError, json.JSONDecodeError)`. -/
def PyExc.caught : PyExc → Bool
  | .keyError => true
  | .valueError => true
  | _ => false

/-- The instant an aware `datetime` stands for. A naive one stands for none, and
comparing it with an aware one is a `TypeError`. -/
def DateTime.instant (d : DateTime) : Option ℤ := d.utcoffset.map fun offset => d.wall - offset

/-- The rest of `assert_cert_usable`, when `step` has ended with status 0. -/
def checkValidity (lib : Library) (stdout : String) (now : ℤ) : List GuardLine × Left :=
  match notAfter lib stdout with
  | .error e => if e.caught then ([.certParseFailed e], .exited 1) else ([], .escaped e)
  | .ok d =>
    match d.instant with
    | none => ([], .escaped .typeError)
    | some t =>
      if t ≤ now then ([.certExpired d], .exited 1) else ([.certAlive (t - now)], .returned)

/-- `assert_cert_usable`: what it logs, and how it is left. -/
def assertCertUsable (lib : Library) (outcome : Outcome) (now : ℤ) : List GuardLine × Left :=
  match outcome with
  | .fileNotFound => ([.certCheckNoStep], .exited 1)
  | .timeoutExpired => ([.certCheckTimeout], .exited 1)
  | .completed returncode stdout stderr =>
    if returncode ≠ 0 then ([.certUnreadable stderr], .exited 1)
    else checkValidity lib stdout now

/-! ## A total, fail-closed decision -/

/-- `validity.end` of what `step` printed. -/
def EndDate (lib : Library) (stdout : String) (e : Json) : Prop :=
  ∃ v validity, lib.loads stdout = .ok v ∧ getItem v "validity" = .ok validity ∧
    getItem validity "end" = .ok e

/-- `step` ended with status 0, and the end date is a text that stands for an
instant after `now`. -/
def Usable (lib : Library) (outcome : Outcome) (now : ℤ) : Prop :=
  ∃ stdout stderr s d t, outcome = .completed 0 stdout stderr ∧ EndDate lib stdout (.string s) ∧
    lib.fromisoformat (replaceZ s) = some d ∧ d.instant = some t ∧ now < t

/-- The line reports an error. -/
def GuardLine.IsError : GuardLine → Prop
  | .certAlive _ => False
  | _ => True

/-- The gate lets a usable certificate pass, and exits on anything else, with
its error in the log. -/
structure FailClosed (lib : Library) (outcome : Outcome) (now : ℤ) : Prop where
  returns : (assertCertUsable lib outcome now).2 = .returned ↔ Usable lib outcome now
  refuses : ¬ Usable lib outcome now → (assertCertUsable lib outcome now).2 = .exited 1 ∧
    ∃ line ∈ (assertCertUsable lib outcome now).1, line.IsError

/-- The outputs of a successful `step` that the gate has no answer to. -/
inductive Unguarded (lib : Library) : Outcome → Prop where
  /-- Decoding raises something else than a `ValueError`. -/
  | undecoded {stdout stderr : String} {e : PyExc} (h : lib.loads stdout = .error e)
      (he : e.caught = false) : Unguarded lib (.completed 0 stdout stderr)
  /-- The value is no object. -/
  | shape {stdout stderr : String} {v : Json} (h : lib.loads stdout = .ok v)
      (hv : ∀ members, v ≠ .object members) : Unguarded lib (.completed 0 stdout stderr)
  /-- Its `validity` is no object. -/
  | validity {stdout stderr : String} {v w : Json} (h : lib.loads stdout = .ok v)
      (hw : getItem v "validity" = .ok w) (hno : ∀ members, w ≠ .object members) :
      Unguarded lib (.completed 0 stdout stderr)
  /-- The end date is no text. -/
  | date {stdout stderr : String} {e : Json} (h : EndDate lib stdout e)
      (he : ∀ s, e ≠ .string s) : Unguarded lib (.completed 0 stdout stderr)
  /-- The end date is a time without an offset. -/
  | naive {stdout stderr : String} {s : CodePoints} {d : DateTime}
      (h : EndDate lib stdout (.string s)) (hd : lib.fromisoformat (replaceZ s) = some d)
      (hoffset : d.utcoffset = none) : Unguarded lib (.completed 0 stdout stderr)

variable {lib : Library} {stdout stderr : String} {now : ℤ}

/-! ## The body of the `try` -/

/-- Subscripting anything but an object with a name raises a `TypeError`. -/
theorem getItem_shape {v : Json} {key : String} (h : ∀ members, v ≠ .object members) :
    getItem v key = .error .typeError := by
  cases v with
  | object members => exact absurd rfl (h members)
  | _ => rfl

/-- Where indexing raises something that is not caught, there was no object. -/
theorem shape_of_uncaught {v : Json} {key : String} {e : PyExc} (h : getItem v key = .error e)
    (he : e.caught = false) : ∀ members, v ≠ .object members := by
  intro members hv
  subst hv
  unfold getItem at h
  dsimp only at h
  split at h
  next => cases h
  next =>
    cases h
    exact absurd he (by decide)

/-- Once the output has been parsed, all that is left of reading the end date is
two subscripts. -/
theorem readEnd_of_loads {v : Json} (hv : lib.loads stdout = .ok v) :
    readEnd lib stdout = getItem v "validity" >>= fun validity => getItem validity "end" := by
  unfold readEnd
  rw [hv]
  rfl

/-- The end date is read just when the output has one where `step` writes it. -/
theorem readEnd_ok {e : Json} : readEnd lib stdout = .ok e ↔ EndDate lib stdout e := by
  constructor
  · intro h
    rcases hv : lib.loads stdout with x | v
    · unfold readEnd at h
      rw [hv] at h
      cases h
    · rw [readEnd_of_loads hv] at h
      rcases hw : getItem v "validity" with x | w
      · rw [hw] at h
        cases h
      · rw [hw] at h
        exact ⟨v, w, hv, hw, h⟩
  · intro ⟨v, w, hv, hw, he⟩
    rw [readEnd_of_loads hv, hw]
    exact he

/-- What reading the end date raises is caught, or the output has none of the
expected shapes. -/
theorem readEnd_error {e : PyExc} (h : readEnd lib stdout = .error e) (he : e.caught = false) :
    Unguarded lib (.completed 0 stdout stderr) := by
  rcases hv : lib.loads stdout with x | v
  · unfold readEnd at h
    rw [hv] at h
    cases h
    exact .undecoded hv he
  · rw [readEnd_of_loads hv] at h
    rcases hw : getItem v "validity" with x | w
    · rw [hw] at h
      cases h
      exact .shape hv (shape_of_uncaught hw he)
    · rw [hw] at h
      exact .validity hv hw (shape_of_uncaught h he)

/-- A date is parsed just when it is a text that `fromisoformat` takes, with its
`Z` replaced. -/
theorem parseEnd_ok {e : Json} {d : DateTime} : parseEnd lib e = .ok d ↔
    ∃ s, e = .string s ∧ lib.fromisoformat (replaceZ s) = some d := by
  constructor
  · intro h
    unfold parseEnd at h
    split at h
    next s =>
      split at h
      next hd =>
        cases h
        exact ⟨s, rfl, hd⟩
      next => cases h
    next => cases h
  · intro ⟨s, he, hd⟩
    subst he
    unfold parseEnd
    dsimp only
    rw [hd]

/-- The guard comes to know the end of validity just when the output holds it in
ISO format. -/
theorem notAfter_ok {d : DateTime} : notAfter lib stdout = .ok d ↔
    ∃ s, EndDate lib stdout (.string s) ∧ lib.fromisoformat (replaceZ s) = some d := by
  unfold notAfter
  constructor
  · intro h
    rcases hr : readEnd lib stdout with x | e
    · rw [hr] at h
      cases h
    · rw [hr] at h
      obtain ⟨s, rfl, hd⟩ := parseEnd_ok.mp h
      exact ⟨s, readEnd_ok.mp hr, hd⟩
  · intro ⟨s, hend, hd⟩
    rw [readEnd_ok.mpr hend]
    exact parseEnd_ok.mpr ⟨s, rfl, hd⟩

/-- The outputs that are not guarded against, by what the code makes of them. -/
theorem unguarded_iff : Unguarded lib (.completed 0 stdout stderr) ↔
    (∃ e, notAfter lib stdout = .error e ∧ e.caught = false) ∨
      ∃ d, notAfter lib stdout = .ok d ∧ d.instant = none := by
  constructor
  · -- each unguarded output, followed to the exception it raises
    intro h
    cases h with
    | @undecoded _ _ e h he =>
      have hread : notAfter lib stdout = .error e := by
        unfold notAfter readEnd
        rw [h]
        rfl
      exact .inl ⟨e, hread, he⟩
    | @shape _ _ v h hv =>
      have hread : notAfter lib stdout = .error .typeError := by
        unfold notAfter
        rw [readEnd_of_loads h, getItem_shape hv]
        rfl
      exact .inl ⟨_, hread, rfl⟩
    | @validity _ _ v w h hw hno =>
      have hread : notAfter lib stdout = .error .typeError := by
        unfold notAfter
        rw [readEnd_of_loads h, hw]
        show (getItem w "end" >>= parseEnd lib) = _
        rw [getItem_shape hno]
        rfl
      exact .inl ⟨_, hread, rfl⟩
    | @date _ _ e h he =>
      have hread : notAfter lib stdout = .error .attributeError := by
        unfold notAfter
        rw [readEnd_ok.mpr h]
        show parseEnd lib e = _
        cases e with
        | string s => exact absurd rfl (he s)
        | _ => rfl
      exact .inl ⟨_, hread, rfl⟩
    | @naive _ _ s d h hd hoffset =>
      refine .inr ⟨d, notAfter_ok.mpr ⟨s, h, hd⟩, ?_⟩
      unfold DateTime.instant
      rw [hoffset]
      rfl
  · rintro (⟨e, h, he⟩ | ⟨d, h, hd⟩)
    · -- the exception comes out of one of the two halves of the `try`
      unfold notAfter at h
      rcases hr : readEnd lib stdout with x | v
      · rw [hr] at h
        cases h
        exact readEnd_error hr he
      · rw [hr] at h
        refine .date (readEnd_ok.mp hr) fun s hs => ?_
        subst hs
        change parseEnd lib (.string s) = .error e at h
        unfold parseEnd at h
        dsimp only at h
        split at h
        next => cases h
        next =>
          cases h
          exact absurd he (by decide)
    · obtain ⟨s, hend, hiso⟩ := notAfter_ok.mp h
      exact .naive hend hiso (Option.map_eq_none_iff.mp hd)

/-! ## The gate -/

/-- A certificate is usable just when its end of validity is known as a moment
and has not come. -/
theorem usable_iff : Usable lib (.completed 0 stdout stderr) now ↔
    ∃ d t, notAfter lib stdout = .ok d ∧ d.instant = some t ∧ now < t := by
  constructor
  · intro ⟨_, _, s, d, t, he, hend, hd, ht, hlt⟩
    cases he
    exact ⟨d, t, notAfter_ok.mpr ⟨s, hend, hd⟩, ht, hlt⟩
  · intro ⟨d, t, h, ht, hlt⟩
    obtain ⟨s, hend, hd⟩ := notAfter_ok.mp h
    exact ⟨stdout, stderr, s, d, t, rfl, hend, hd, ht, hlt⟩

theorem failClosed_of_exit {outcome : Outcome} {line : GuardLine}
    (h : assertCertUsable lib outcome now = ([line], .exited 1)) (hline : line.IsError)
    (hno : ¬ Usable lib outcome now) : FailClosed lib outcome now := by
  refine ⟨⟨fun hret => ?_, fun hyes => absurd hyes hno⟩, fun _ => ?_⟩
  · rw [h] at hret
    cases hret
  · rw [h]
    exact ⟨rfl, line, List.mem_singleton_self line, hline⟩

/-- An exception that escapes is not failing closed, whatever it is. -/
theorem not_failClosed_of_escape {outcome : Outcome} {e : PyExc}
    (h : assertCertUsable lib outcome now = ([], .escaped e)) : ¬ FailClosed lib outcome now := by
  intro hgate
  by_cases hyes : Usable lib outcome now
  · have hret := hgate.returns.mpr hyes
    rw [h] at hret
    cases hret
  · have hexit := (hgate.refuses hyes).1
    rw [h] at hexit
    cases hexit

/-- After a successful `step`. -/
theorem checkValidity_iff : FailClosed lib (.completed 0 stdout stderr) now ↔
    ¬ Unguarded lib (.completed 0 stdout stderr) := by
  have hgate : assertCertUsable lib (.completed 0 stdout stderr) now
      = checkValidity lib stdout now := by
    show (if (0 : ℤ) ≠ 0 then ([GuardLine.certUnreadable stderr], Left.exited 1)
      else checkValidity lib stdout now) = _
    exact if_neg fun hne => hne rfl
  rw [unguarded_iff]
  unfold checkValidity at hgate
  rcases hread : notAfter lib stdout with e | d
  · rw [hread] at hgate
    dsimp only at hgate
    -- the `except` clause catches it or lets it go
    by_cases he : e.caught = true
    · rw [if_pos he] at hgate
      refine iff_of_true (failClosed_of_exit hgate trivial fun hyes => ?_) ?_
      · obtain ⟨d, t, hok, -, -⟩ := usable_iff.mp hyes
        rw [hread] at hok
        cases hok
      · rintro (⟨e', he', hno⟩ | ⟨d, hok, -⟩)
        · obtain rfl := Except.error.inj he'
          rw [he] at hno
          cases hno
        · cases hok
    · rw [if_neg he] at hgate
      refine iff_of_false (not_failClosed_of_escape hgate) (not_not.mpr ?_)
      exact .inl ⟨e, rfl, Bool.eq_false_iff.mpr he⟩
  · rw [hread] at hgate
    dsimp only at hgate
    -- behind the `try`: a time without an offset cannot be compared
    rcases hd : d.instant with _ | t
    · rw [hd] at hgate
      exact iff_of_false (not_failClosed_of_escape hgate) (not_not.mpr (.inr ⟨d, rfl, hd⟩))
    · rw [hd] at hgate
      dsimp only at hgate
      have hguarded : ¬ ((∃ e : PyExc, Except.ok d = Except.error e ∧ e.caught = false) ∨
          ∃ d', (Except.ok d : Except PyExc DateTime) = .ok d' ∧ d'.instant = none) := by
        rintro (⟨e, he, -⟩ | ⟨d', he, hnone⟩)
        · cases he
        · obtain rfl := Except.ok.inj he
          rw [hd] at hnone
          cases hnone
      refine iff_of_true ?_ hguarded
      by_cases hle : t ≤ now
      · rw [if_pos hle] at hgate
        refine failClosed_of_exit hgate trivial fun hyes => ?_
        obtain ⟨d', t', hok, ht', hlt⟩ := usable_iff.mp hyes
        rw [hread] at hok
        obtain rfl := Except.ok.inj hok
        obtain rfl := Option.some.inj (hd.symm.trans ht')
        omega
      · have hyes : Usable lib (.completed 0 stdout stderr) now :=
          usable_iff.mpr ⟨d, t, hread, hd, by omega⟩
        rw [if_neg hle] at hgate
        exact ⟨⟨fun _ => hyes, fun _ => by rw [hgate]⟩, fun hno => absurd hyes hno⟩

/-- **When the gate is a total, fail-closed decision**: on every outcome of
`step` and at every time, but for the unguarded outputs. There an exception
escapes that no one catches, so the agent does not start either, but without the
message and the exit that the gate is to make of it. -/
theorem certGuard_iff (lib : Library) (outcome : Outcome) (now : ℤ) :
    FailClosed lib outcome now ↔ ¬ Unguarded lib outcome := by
  -- `step` failed in one of the ways that are looked for
  have hfailed : ∀ {line : GuardLine}, assertCertUsable lib outcome now = ([line], .exited 1) →
      line.IsError → (∀ stdout stderr, outcome ≠ .completed 0 stdout stderr) →
      (FailClosed lib outcome now ↔ ¬ Unguarded lib outcome) := by
    intro line h hline hne
    refine iff_of_true (failClosed_of_exit h hline fun ⟨_, _, _, _, _, he, _⟩ => hne _ _ he) ?_
    intro hbad
    cases hbad <;> exact hne _ _ rfl
  cases outcome with
  | fileNotFound => exact hfailed rfl trivial (by simp)
  | timeoutExpired => exact hfailed rfl trivial (by simp)
  | completed returncode stdout stderr =>
    by_cases hzero : returncode = 0
    · subst hzero
      exact checkValidity_iff
    · exact hfailed (if_pos hzero) trivial fun _ _ he => hzero (by cases he; rfl)

/-! ## A certificate without an offset -/

/-- `step`'s JSON, cut down to an end date without an offset. -/
def naiveText : String := r#"{"validity": {"end": "2030-01-01T00:00:00"}}"#

/-- The two functions, as far as two texts need them. -/
def someLibrary : Library where
  loads text :=
    if text = naiveText then
      .ok (.object [(codePoints "validity",
        .object [(codePoints "end", .string (codePoints "2030-01-01T00:00:00"))])])
    else if text = "[]" then .ok (.array [])
    else .error .valueError
  fromisoformat s :=
    if s = codePoints "2030-01-01T00:00:00" then some ⟨1893456000000000, none⟩ else none

/-- An end date without an offset, and a list: the gate is left by a
`TypeError`. -/
theorem gate_escapes :
    ¬ FailClosed someLibrary (.completed 0 naiveText "") 0 ∧
    ¬ FailClosed someLibrary (.completed 0 "[]" "") 0 := by
  constructor
  · exact not_failClosed_of_escape (e := .typeError) (by decide +kernel)
  · exact not_failClosed_of_escape (e := .typeError) (by decide +kernel)

end ZeroTrustLab.Agent
