import ZeroTrustLab.Controller.Confinement
import ZeroTrustLab.Controller.Counters
import ZeroTrustLab.Controller.Ledger

/-!
# The three sinks of an audit event

`record_event` writes a row, a log line and a counter. The row is only flushed
there; the five callers commit it. `AuditShape` is the shape all of them have:
calls that touch no sink, then perhaps one `record_event` and directly after it
one commit.

From the shape alone follows how a request can end (`AuditEnds`): with the
three sinks agreeing, or with an event logged and counted whose commit failed.
`auditAgrees_iff` says the same of the tables and counters of any run.

The shape is a predicate on programs, proved of every endpoint by following its
source once, and the ends are a predicate on histories, proved of the shape
once. Only calls to the database fail. A flush that fails has logged nothing
yet, and whatever fails after the commit comes too late, so the commit alone
can part the sinks.
-/

namespace ZeroTrustLab.Controller

open Lib

variable {settings : Settings} {h : History} {α β : Type}

/-! ## The sinks -/

/-- The labels of `audit_events_total`. -/
def AuditEvent.labels (e : AuditEvent) : AuditAction × AuditResult := (e.action, e.result)

/-- The event without the key that the database gives its row. -/
def AuditEvent.unkeyed (e : AuditEvent) : AuditEvent := { e with id := none }

def Note.logged? : Note → Option AuditEvent
  | .auditLogged e => some e.unkeyed
  | _ => none

def Note.counted? : Note → Option (AuditAction × AuditResult)
  | .auditCount action result => some (action, result)
  | _ => none

/-- The audit event among what was added. -/
def Pending.event? : Pending → Option AuditEvent
  | .event e => some e
  | _ => none

/-- The events a request has logged as recorded. -/
def logged (h : History) : List AuditEvent := (notesOf h).filterMap Note.logged?

/-- The labels it has bumped. -/
def counted (h : History) : List (AuditAction × AuditResult) := (notesOf h).filterMap Note.counted?

/-- The events it has committed. -/
def recorded (h : History) : List AuditEvent := (ledger h).committed.filterMap Pending.event?

@[simp] theorem logged_append (h h' : History) : logged (h ++ h') = logged h ++ logged h' := by
  unfold logged
  rw [notesOf_append, List.filterMap_append]

@[simp] theorem counted_append (h h' : History) : counted (h ++ h') = counted h ++ counted h' := by
  unfold counted
  rw [notesOf_append, List.filterMap_append]

/-- The three sinks show the same. -/
structure SinksAgree (h : History) : Prop where
  logged : logged h = (recorded h).map AuditEvent.unkeyed
  counted : counted h = (recorded h).map AuditEvent.labels

/-- A commit failed. -/
def CommitFailed (h : History) : Prop := ∃ e, ⟨.commit, .error e⟩ ∈ h

/-- An audit row was added. -/
def Added (h : History) (e : AuditEvent) : Prop := ⟨.add (.event e), .ok ()⟩ ∈ h

/-- How a request leaves the sinks. -/
inductive AuditEnds (h : History) : Prop where
  | agree (hs : SinksAgree h) (hno : CommitFailed h → ∀ e, ¬ Added h e)
  | lost {e : AuditEvent} (hf : CommitFailed h) (ha : Added h e) (hl : logged h = [e.unkeyed])
      (hc : counted h = [e.labels]) (hr : recorded h = [])

/-! ## Calls that touch no sink -/

/-- The call adds no audit row, and makes neither of the two notes. -/
def Call.aside : Call → Bool
  | .add (.event _) => false
  | .note (.auditLogged _) => false
  | .note (.auditCount _ _) => false
  | _ => true

/-- The call adds no audit row, makes neither of the two notes, and does not
commit. -/
def Call.after : Call → Bool
  | .commit => false
  | c => c.aside

theorem aside_of_after {c : Call} (hc : c.after = true) : c.aside = true := by
  cases c with
  | commit => rfl
  | _ => exact hc

/-- A call that stands aside leaves both records as they are. -/
theorem aside_silent {a : Act Call Ans Exc} (ha : a.call.aside = true) :
    logged [a] = [] ∧ counted [a] = [] := by
  obtain ⟨d, x⟩ := a
  cases d with
  | note n =>
    cases n with
    | auditLogged e => simp [Call.aside] at ha
    | auditCount action result => simp [Call.aside] at ha
    | log event fields => rcases x with e | x <;> exact ⟨rfl, rfl⟩
    | mtlsAuth r => rcases x with e | x <;> exact ⟨rfl, rfl⟩
  | _ => exact ⟨rfl, rfl⟩

/-- Only a commit commits. -/
theorem recorded_concat {a : Act Call Ans Exc} (ha : a.call.after = true) :
    recorded (h ++ [a]) = recorded h := by
  unfold recorded
  rw [ledger_concat]
  obtain ⟨d, x⟩ := a
  rcases x with e | x
  · cases d <;> rfl
  · cases d with
    | commit => simp [Call.after] at ha
    | _ => rfl

/-- Nothing has been recorded yet. -/
def Blank (h : History) : Prop := ∀ a ∈ h, a.call.aside = true

theorem Blank.concat {a : Act Call Ans Exc} (hb : Blank h) (ha : a.call.aside = true) :
    Blank (h ++ [a]) := by
  intro b hmem
  rcases List.mem_append.mp hmem with hb' | hb'
  · exact hb b hb'
  · rw [List.mem_singleton.mp hb']
    exact ha

/-- In a blank history nothing has been logged or counted. -/
theorem Blank.silent (hb : Blank h) : logged h = [] ∧ counted h = [] := by
  induction h with
  | nil => exact ⟨rfl, rfl⟩
  | cons a h ih =>
    obtain ⟨hl, hc⟩ := aside_silent (hb a (List.mem_cons_self ..))
    obtain ⟨hl', hc'⟩ := ih fun b hmem => hb b (List.mem_cons_of_mem _ hmem)
    rw [show a :: h = [a] ++ h from rfl, logged_append, counted_append, hl, hc, hl', hc']
    exact ⟨rfl, rfl⟩

/-- In a blank history no event has been added. -/
theorem Blank.not_added (hb : Blank h) (e : AuditEvent) : ¬ Added h e :=
  fun he => absurd (hb _ he) (by simp [Call.aside])

/-- There is no audit row anywhere in the session. -/
theorem Blank.no_event (hb : Blank h) : (ledger h).all.filterMap Pending.event? = [] := by
  refine List.filterMap_eq_nil_iff.mpr fun p hp => ?_
  cases p with
  | event e => exact absurd (ledger_added hp) (hb.not_added e)
  | node n => rfl
  | dirty loaded current => rfl

/-- In a blank history nothing has been recorded. -/
theorem Blank.recorded (hb : Blank h) : recorded h = [] := by
  have hnone := hb.no_event
  unfold Ledger.all at hnone
  rw [List.filterMap_append, List.append_eq_nil_iff] at hnone
  exact hnone.1

theorem Blank.ends (hb : Blank h) : AuditEnds h := by
  obtain ⟨hl, hc⟩ := hb.silent
  have hr := hb.recorded
  refine .agree ⟨?_, ?_⟩ fun _ => hb.not_added
  · rw [hl, hr]
    rfl
  · rw [hc, hr]
    rfl

/-! ## The shape of the code -/

/-- Calls that touch no sink, then perhaps `record_event` and at once a commit. -/
inductive AuditShape : Handler α → Prop where
  | aside {p : Handler α} (hp : p.All (·.aside = true)) : AuditShape p
  | call {d : Call} {k : Ans d → Handler α} (hd : d.aside = true) (hk : ∀ x, AuditShape (k x)) :
      AuditShape (.call d k)
  | record (actorCn : String) (action : AuditAction) (target : Option String)
      (result : AuditResult) (details : Option Details) {f : AuditEvent → Unit → Handler α}
      (hf : ∀ e x, (f e x).All (·.after = true)) :
      AuditShape (recordEvent actorCn action target result details >>= fun e => ask .commit >>= f e)

/-- What follows a handler of the right shape and stands aside keeps the
shape. -/
theorem AuditShape.bind {p : Handler α} {g : α → Handler β} (hp : AuditShape p)
    (hg : ∀ a, (g a).All (·.after = true)) : AuditShape (p >>= g) := by
  induction hp with
  | aside hp => exact .aside (hp.bind fun a => (hg a).mono fun _ => aside_of_after)
  | call hd _ ih => exact .call hd ih
  | record actorCn action target result details hf =>
    rw [Prog.bind_assoc]
    exact .record actorCn action target result details fun e x => (hf e x).bind hg

theorem AuditShape.of_aside {p : Handler β} {f : β → Handler α} (hp : p.All (·.aside = true))
    (hf : ∀ b, AuditShape (f b)) : AuditShape (p >>= f) := by
  induction p with
  | pure b => exact hf b
  | throw e => exact .aside trivial
  | call c k ih => exact .call hp.1 fun x => ih x (hp.2 x)

/-- A history without a failed commit has none after an act that is none. -/
theorem not_commitFailed_concat (hno : ¬ CommitFailed h) {a : Act Call Ans Exc}
    (ha : ∀ e, a ≠ ⟨.commit, .error e⟩) : ¬ CommitFailed (h ++ [a]) := by
  intro hf
  obtain ⟨e, hmem⟩ := hf
  rcases List.mem_append.mp hmem with hmem | hmem
  · exact hno ⟨e, hmem⟩
  · exact ha e (List.mem_singleton.mp hmem).symm

/-- Once the row is committed, the sinks agree until the end. -/
private theorem committed_ends {p : Handler α} (hp : p.All (·.after = true)) (hs : SinksAgree h)
    (hno : ¬ CommitFailed h) :
    p.Upholds CanFail (fun _ _ => True) (fun h' _ => AuditEnds h') h := by
  refine (hp.upholds (I := fun h' => SinksAgree h' ∧ ¬ CommitFailed h') ?_ ⟨hs, hno⟩).mono
    fun h' _ he => .agree he.1 fun hf => absurd hf he.2
  intro h' a ha he
  obtain ⟨hs', hno'⟩ := he
  obtain ⟨hl, hc⟩ := aside_silent (aside_of_after ha)
  refine ⟨⟨?_, ?_⟩, ?_⟩
  · rw [logged_append, hl, recorded_concat ha, List.append_nil]
    exact hs'.logged
  · rw [counted_append, hc, recorded_concat ha, List.append_nil]
    exact hs'.counted
  · refine not_commitFailed_concat hno' ?_
    rintro e rfl
    simp [Call.after] at ha

/-- What the calls of `record_event` and a commit leave committed. -/
private theorem recorded_commit (hb : Blank h) (e : AuditEvent) (t : Time) (ids : List Nat)
    (n n' : Note) :
    recorded (h ++ [⟨.utcnow, .ok t⟩] ++ [⟨.add (.event e), .ok ()⟩] ++ [⟨.flush, .ok ids⟩]
      ++ [⟨.note n, .ok ()⟩] ++ [⟨.note n', .ok ()⟩] ++ [⟨.commit, .ok ()⟩]) = [e] := by
  have hnone := hb.no_event
  unfold Ledger.all at hnone
  simp only [List.filterMap_append, List.append_eq_nil_iff] at hnone
  obtain ⟨hcommitted, hsent, hpending⟩ := hnone
  unfold recorded
  simp only [ledger_concat, Ledger.next, List.filterMap_append, hcommitted, hsent, hpending]
  rfl

/-- `record_event` and the commit after it. -/
private theorem record_ends (hb : Blank h) (hno : ¬ CommitFailed h) {actorCn : String}
    {action : AuditAction} {target : Option String} {result : AuditResult}
    {details : Option Details} {f : AuditEvent → Unit → Handler α}
    (hf : ∀ e x, (f e x).All (·.after = true)) :
    (recordEvent actorCn action target result details >>= fun e => ask .commit >>= f e).Upholds
      CanFail (fun _ _ => True) (fun h' _ => AuditEnds h') h := by
  obtain ⟨hl, hc⟩ := hb.silent
  have hr : (ledger h).committed.filterMap Pending.event? = [] := hb.recorded
  -- the conjuncts follow the calls of `record_event` and the commit, each with its answer
  -- and its failure
  refine ⟨trivial, fun t => ⟨trivial, fun _ => ⟨trivial, fun ids => ⟨trivial, fun _ => ⟨trivial,
    fun _ => ⟨trivial, fun x => ?_, fun e _ => ?_⟩, ?_⟩, ?_⟩, fun e _ => ?_⟩, ?_⟩, ?_⟩
  · -- committed: the row is there, as logged and counted
    have hrow := recorded_commit hb ⟨none, t, actorCn, action, target, result, details⟩ t ids
    refine committed_ends (hf _ _) ⟨?_, ?_⟩ ?_
    · rw [hrow]
      simp only [logged_append, hl]
      rfl
    · rw [hrow]
      simp only [counted_append, hc]
      rfl
    · iterate 6 refine not_commitFailed_concat ?_ (by simp)
      exact hno
  · -- the commit failed
    refine .lost (e := ⟨none, t, actorCn, action, target, result, details⟩) ⟨e, by simp⟩ ?_ ?_ ?_ ?_
    · simp [Added]
    · simp only [logged_append, hl]
      rfl
    · simp only [counted_append, hc]
      rfl
    · unfold recorded
      simp only [ledger_concat, Ledger.next]
      exact hr
  · exact fun e he => absurd rfl he
  · exact fun e he => absurd rfl he
  · -- the flush failed: nothing was logged
    have hrow : ∀ p, recorded (h ++ [⟨.utcnow, .ok t⟩] ++ [⟨.add p, .ok ()⟩]
        ++ [⟨.flush, .error e⟩]) = [] := by
      intro p
      unfold recorded
      simp only [ledger_concat, Ledger.next]
      exact hr
    refine .agree ⟨?_, ?_⟩ fun hfailed => absurd hfailed ?_
    · rw [hrow]
      simp only [logged_append, hl]
      rfl
    · rw [hrow]
      simp only [counted_append, hc]
      rfl
    · iterate 3 refine not_commitFailed_concat ?_ (by simp)
      exact hno
  · exact fun e he => absurd rfl he
  · exact fun e he => absurd rfl he

/-- **Code of this shape** leaves the sinks in agreement, or loses the row of
what it logged and counted. -/
theorem AuditShape.upholds {p : Handler α} (hp : AuditShape p) (hb : Blank h)
    (hno : ¬ CommitFailed h) : p.Upholds CanFail (fun _ _ => True) (fun h' _ => AuditEnds h') h := by
  induction hp generalizing h with
  | aside hp => exact (hp.upholds (fun h' a ha hb' => hb'.concat ha) hb).mono fun h' _ hb' => hb'.ends
  | @call d k hd _ ih =>
    refine ⟨trivial, fun x => ih x (hb.concat hd)
      (not_commitFailed_concat hno fun e he => nomatch he), ?_⟩
    exact fun e _ => (hb.concat hd).ends
  | record actorCn action target result details hf => exact record_ends hb hno hf

/-! ## The five callers -/

/-- A choice between two handlers of the right shape has it. -/
private theorem aside_ite {p : Prop} [Decidable p] {a b : Handler α} (ha : AuditShape a)
    (hb : AuditShape b) : AuditShape (if p then a else b) := by
  split
  next => exact ha
  next => exact hb

private theorem respondNode_after (status : Nat) (n : Node) :
    (respondNode status n).All (·.after = true) := by
  unfold respondNode
  split
  next => trivial
  next => trivial

theorem registerNode_auditShape (payload : NodeCreate) (identity : MTLSIdentity) :
    AuditShape (registerNode payload identity) := by
  unfold registerNode
  refine aside_ite (.record _ _ _ _ _ fun _ _ => trivial) (.call rfl fun rows => ?_)
  rcases rows with _ | ⟨row, _ | ⟨row', rows⟩⟩
  · refine .call rfl fun _ => .call rfl fun _ => .call rfl fun _ => .call rfl fun ids => ?_
    exact .record _ _ _ _ _ fun _ _ => ⟨rfl, fun _ => trivial⟩
  · exact .aside ⟨rfl, fun _ => trivial⟩
  · exact .aside trivial

theorem heartbeat_auditShape (nodeId : String) (body : NodeHeartbeat) (identity : MTLSIdentity) :
    AuditShape (heartbeat nodeId body identity) := by
  unfold heartbeat
  refine .call rfl fun rows => ?_
  rcases rows with _ | ⟨row, _ | ⟨row', rows⟩⟩
  · exact .aside trivial
  · refine aside_ite (.record _ _ _ _ _ fun _ _ => trivial) ?_
    refine .call rfl fun now => .call rfl fun _ => aside_ite ?_ ?_
    · exact .record _ _ _ _ _ fun _ _ => ⟨rfl, fun _ => trivial⟩
    · exact .aside ⟨rfl, fun _ => ⟨rfl, fun _ => ⟨rfl, fun _ => trivial⟩⟩⟩
  · exact .aside trivial

theorem body_auditShape {ep : Endpoint} {body : MTLSIdentity → Handler Response}
    (hbody : ep.body? = some body) (identity : MTLSIdentity) : AuditShape (body identity) := by
  cases ep with
  | health => simp [Endpoint.body?] at hbody
  | whoami =>
    obtain rfl := Option.some.inj hbody
    exact .aside trivial
  | listNodes =>
    obtain rfl := Option.some.inj hbody
    exact .call rfl fun _ => .call rfl fun _ => aside_ite (.aside trivial) (.aside trivial)
  | registerNode b =>
    obtain rfl := Option.some.inj hbody
    rcases b with _ | b
    · exact .aside trivial
    · dsimp only
      split
      next => exact .aside trivial
      next => exact (registerNode_auditShape _ _).bind (respondNode_after 201)
  | getNode nodeId =>
    obtain rfl := Option.some.inj hbody
    refine AuditShape.bind (.call rfl fun rows => ?_) (respondNode_after 200)
    rcases rows with _ | ⟨row, _ | ⟨row', rows⟩⟩
    · exact .aside trivial
    · exact .aside trivial
    · exact .aside trivial
  | heartbeat nodeId b =>
    obtain rfl := Option.some.inj hbody
    rcases b with _ | b
    · exact .aside trivial
    · exact (heartbeat_auditShape _ _ _).bind (respondNode_after 200)
  | listAuditEvents limit offset actorCn action result =>
    obtain rfl := Option.some.inj hbody
    exact aside_ite (.aside trivial)
      (.call rfl fun _ => aside_ite (.aside trivial) (.aside trivial))

private theorem parseSerial_aside (raw : Option String) :
    (parseSerial raw).All (·.aside = true) := by
  unfold parseSerial
  rcases raw with _ | raw
  · trivial
  · dsimp only
    split
    next => trivial
    next =>
      split
      next => trivial
      next => exact ⟨rfl, fun _ => trivial⟩

private theorem getMtlsIdentity_aside (settings : Settings) (headers : Headers) :
    (getMtlsIdentity settings headers).All (·.aside = true) := by
  unfold getMtlsIdentity
  split
  next => exact ⟨rfl, fun _ => trivial⟩
  next =>
    split
    next =>
      split
      next => exact ⟨rfl, fun _ => ⟨rfl, fun _ => trivial⟩⟩
      next =>
        split
        next => exact ⟨rfl, fun _ => ⟨rfl, fun _ => trivial⟩⟩
        next => exact ⟨rfl, fun _ => (parseSerial_aside _).bind fun _ => trivial⟩
    next => exact ⟨rfl, fun _ => ⟨rfl, fun _ => trivial⟩⟩

/-- **Every request** has the shape. -/
theorem app_auditShape (settings : Settings) (req : Request) : AuditShape (app settings req) := by
  unfold app
  rcases hbody : req.endpoint.body? with _ | body
  · exact .aside ⟨rfl, fun _ => trivial⟩
  · show AuditShape ((getMtlsIdentity settings req.headers >>= requireLiveIdentity) >>= body)
    rw [Prog.bind_assoc]
    refine .of_aside (getMtlsIdentity_aside settings req.headers) fun identity => ?_
    unfold requireLiveIdentity
    rcases identity.serial with _ | n
    · exact body_auditShape hbody _
    · refine .call rfl fun b => ?_
      cases b with
      | false => exact body_auditShape hbody _
      | true =>
        refine .call rfl fun _ => ?_
        show AuditShape ((recordEvent _ _ _ _ _ >>= fun _ => ask .commit >>= _) >>= body)
        rw [Prog.bind_assoc]
        exact .record _ _ _ _ _ fun _ _ => ⟨rfl, fun _ => trivial⟩

/-! ## Of a run -/

variable {reqs : Rid → Request} {w₀ : World} {ls : List (Label Call Ans Exc Rid Env)}
  {c : Cfg Call Ans Exc Response Rid Session World}

/-- The increments of `audit_events_total` since process start. -/
def World.auditCounts (w : World) : List (AuditAction × AuditResult) :=
  w.notes.filterMap Note.counted?

/-- The audit rows request `i` has committed. -/
def World.auditRows (i : Rid) (w : World) : List AuditEvent :=
  (w.own i).flatten.filterMap Write.event?

/-- The three sinks of a run agree. -/
structure AuditAgrees (w₀ : World) (ls : List (Label Call Ans Exc Rid Env))
    (c : Cfg Call Ans Exc Response Rid Session World) : Prop where
  /-- The counters show the rows committed since the start, label by label. -/
  totals : ∀ labels, c.world.auditCounts.count labels = w₀.auditCounts.count labels +
    ((c.world.db.events.rows.drop w₀.db.events.rows.length).map AuditEvent.labels).count labels
  /-- A request has logged just the events it has committed. -/
  logged : ∀ i, logged (acts i ls) = (c.world.auditRows i).map AuditEvent.unkeyed
  /-- A request has counted just the events it has committed. -/
  counted : ∀ i, counted (acts i ls) = (c.world.auditRows i).map AuditEvent.labels

/-- What a flush sends is what was pending, but for the keys. -/
private theorem sends_unkeyed {ps : List Pending} {ws : List Write}
    (hs : List.Forall₂ Sends ps ws) : (ws.filterMap Write.event?).map AuditEvent.unkeyed
      = (ps.filterMap Pending.event?).map AuditEvent.unkeyed := by
  induction hs with
  | nil => rfl
  | @cons p v ps ws hp _ ih =>
    obtain ⟨db, rfl⟩ := hp
    cases p with
    | event e =>
      show e.unkeyed :: (ws.filterMap Write.event?).map AuditEvent.unkeyed = _
      rw [ih]
      rfl
    | node n => exact ih
    | dirty loaded current => exact ih

/-- The rows a request has in the table are those its history says. -/
theorem serving_auditRows (hw : w₀.Fresh) (h : Run settings reqs w₀ ls c) (i : Rid) :
    (c.world.auditRows i).map AuditEvent.unkeyed
      = (recorded (acts i ls)).map AuditEvent.unkeyed ∧
    (c.world.auditRows i).map AuditEvent.labels = (recorded (acts i ls)).map AuditEvent.labels := by
  have hrows : (c.world.auditRows i).map AuditEvent.unkeyed
      = (recorded (acts i ls)).map AuditEvent.unkeyed := sends_unkeyed (serving_ledger hw h i).1
  refine ⟨hrows, ?_⟩
  have hlabels := congrArg (List.map AuditEvent.labels) hrows
  rw [List.map_map, List.map_map] at hlabels
  exact hlabels

/-- Only requests that have moved have anything in the journal. -/
theorem serving_owners (hw : w₀.Fresh) (h : Run settings reqs w₀ ls c) :
    ∀ j ∈ c.world.journal, j.1 ∈ movers ls := by
  intro j hj
  by_contra hidle
  have hown : c.world.own j.1 = [] := by
    exact own_unmoved hw h fun lab hlab hby => hidle (mem_movers.mpr ⟨lab, hlab, hby⟩)
  have hmem : j.2 ∈ c.world.own j.1 :=
    List.mem_map.mpr ⟨j, List.mem_filter.mpr ⟨hj, decide_eq_true rfl⟩, rfl⟩
  rw [hown] at hmem
  exact absurd hmem (by simp)

/-- The rows committed since the start are the requests' own. -/
private theorem sum_auditRows (hw : w₀.Fresh) (h : Run settings reqs w₀ ls c)
    (p : AuditEvent → Bool) :
    (c.world.db.events.rows.drop w₀.db.events.rows.length).countP p
      = ∑ i ∈ movers ls, (c.world.auditRows i).countP p := by
  have hsum : ∀ i, (c.world.auditRows i).countP p
      = tally (tally fun v => (Write.event? v).toList.countP p) (c.world.own i) := by
    intro i
    unfold World.auditRows
    rw [countP_filterMap, tally_flatten]
  rw [Finset.sum_congr rfl fun i _ => hsum i]
  unfold World.own
  rw [sum_tally_keys _ (serving_owners hw h), serving_events hw h, List.drop_left,
    countP_filterMap, List.flatMap_def, tally_flatten, tally_map]

/-- The counters show what the requests have counted. -/
private theorem serving_auditCounts (h : Run settings reqs w₀ ls c)
    (labels : AuditAction × AuditResult) :
    c.world.auditCounts.count labels
      = w₀.auditCounts.count labels + ∑ i ∈ movers ls, (counted (acts i ls)).count labels := by
  unfold World.auditCounts counted List.count
  simp only [List.countP_filterMap]
  exact serving_counts h _

/-- **The sinks agree just when no commit failed** after a row was added. The
run is settled: every request that has moved has ended, so none is between its
record and its commit. -/
theorem auditAgrees_iff (hw : w₀.Fresh) (h : Run settings reqs w₀ ls c) (hdone : Settled ls c) :
    AuditAgrees w₀ ls c ↔ ∀ i, CommitFailed (acts i ls) → ∀ e, ¬ Added (acts i ls) e := by
  -- request by request: where it stands at its end is read off the program
  have hends : ∀ i, AuditEnds (acts i ls) := by
    intro i
    by_cases hi : i ∈ movers ls
    · obtain ⟨r, hr⟩ := hdone i hi
      obtain ⟨q, hreach, hq⟩ := serving_reaches h hr
      have hp := (app_auditShape settings (reqs i)).upholds (h := []) (by simp [Blank])
        (by simp [CommitFailed])
      exact hreach.upholds_end (serving_sessionFails h i) hp hq
    · rw [acts_of_idle hi]
      exact Blank.ends (by simp [Blank])
  constructor
  · intro hagree i hf e ha
    -- a lost event is logged and has no row
    rcases hends i with ⟨-, hno⟩ | ⟨-, -, hl, -, hr⟩
    · exact hno hf e ha
    · have hlogged := hagree.logged i
      rw [hl, (serving_auditRows hw h i).1, hr] at hlogged
      simp at hlogged
  · intro hno
    have hsinks : ∀ i, SinksAgree (acts i ls) := by
      intro i
      rcases hends i with ⟨hs, -⟩ | ⟨hf, ha, -⟩
      · exact hs
      · exact absurd ha (hno i hf _)
    have hcounted : ∀ i, counted (acts i ls) = (c.world.auditRows i).map AuditEvent.labels :=
      fun i => (hsinks i).counted.trans (serving_auditRows hw h i).2.symm
    refine ⟨fun labels => ?_, fun i => ?_, hcounted⟩
    · -- the counter is the sum over the requests, and so is the table
      rw [serving_auditCounts h]
      refine congrArg (w₀.auditCounts.count labels + ·) ?_
      unfold List.count
      rw [List.countP_map, sum_auditRows hw h]
      refine Finset.sum_congr rfl fun i _ => ?_
      rw [hcounted i, List.countP_map]
    · exact (hsinks i).logged.trans (serving_auditRows hw h i).1.symm

/-! ## One enrolment -/

def enrolsOnce : Rid → Request :=
  arrivals [.request ⟨nodeHeaders, .registerNode (some ⟨"pi-01", "pi-01.thesis.local", "sensor",
    .onboarding, none, none⟩)⟩]

/-- Its first twelve calls, up to the commit. -/
private def enrolling :
    List (Label Call Ans Exc Rid Env) × Cfg Call Ans Exc Response Rid Session World :=
  controller.play (serving {} enrolsOnce .start) (List.replicate 12 0)

/-- The commit fails. -/
private def enrolFailing :
    List (Label Call Ans Exc Rid Env) × Cfg Call Ans Exc Response Rid Session World :=
  controller.fail enrolling.2 0

/-- A run whose commit fails leaves a count and a log line of a row that is not
there. -/
theorem lost_row_counted :
    ∃ ls c, Run {} enrolsOnce .start ls c ∧ Settled ls c ∧
      (c.party 0).status = .done (.error (.database .commit)) ∧ c.world.db.events.rows = [] ∧
      c.world.auditCounts = [(.nodeRegister, .success)] ∧ (logged (acts 0 ls)).length = 1 ∧
      ¬ AuditAgrees .start ls c := by
  let exit := controller.play enrolFailing.2 [0]
  have hrun : Run {} enrolsOnce .start ((enrolling.1 ++ enrolFailing.1) ++ exit.1) exit.2 :=
    ((controller.play_steps _ _).trans (controller.fail_steps _ _)).trans (controller.play_steps _ _)
  have hcount : exit.2.world.auditCounts = [(.nodeRegister, .success)] := by decide +kernel
  have hrows : exit.2.world.db.events.rows = [] := by decide +kernel
  refine ⟨_, _, hrun, settled_single (i := 0) (by decide +kernel) (by decide +kernel),
    Status.eq_done (by decide +kernel), hrows, hcount, by decide +kernel, fun hagree => ?_⟩
  have htotal := hagree.totals (.nodeRegister, .success)
  rw [hcount, hrows] at htotal
  exact absurd htotal (by decide)

/-- The call did not fail. -/
private def answered : Label Call Ans Exc Rid Env → Bool
  | .call _ ⟨_, .error _⟩ => false
  | _ => true

/-- One that does not, agrees. -/
theorem enrolment_sinks_agree :
    ∃ ls c, Run {} enrolsOnce .start ls c ∧ Settled ls c ∧
      c.world.auditCounts = [(.nodeRegister, .success)] ∧ AuditAgrees .start ls c := by
  let whole := controller.play (serving {} enrolsOnce .start) (List.replicate 15 0)
  have hrun : Run {} enrolsOnce .start whole.1 whole.2 := controller.play_steps _ _
  have hsettled : Settled whole.1 whole.2 :=
    settled_single (i := 0) (by decide +kernel) (by decide +kernel)
  have hanswered : whole.1.all answered = true := by decide +kernel
  refine ⟨_, _, hrun, hsettled, by decide +kernel,
    (auditAgrees_iff World.start_fresh hrun hsettled).mpr fun i hf => ?_⟩
  obtain ⟨e, hmem⟩ := hf
  exact absurd (List.all_eq_true.mp hanswered _ (mem_acts.mp hmem)) (by simp [answered])

end ZeroTrustLab.Controller
