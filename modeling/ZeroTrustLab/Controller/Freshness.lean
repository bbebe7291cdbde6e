import ZeroTrustLab.Controller.Ledger
import ZeroTrustLab.Controller.Activation

/-!
# Heartbeat timestamps under concurrency

A heartbeat reads the clock before it writes, and the update by primary key
does not look at the timestamps it overwrites. With one heartbeat at a time the
stored ones only grow. With several, what is stored is the time of the one that
committed last, which may have read the clock before the others.

`freshness_iff` is the exact condition: the stored timestamps of a node never
go back, and end at the largest time taken, just when its heartbeats commit in
the order of the times they took (`InClockOrder`).

`Timed` is the invariant of a run with a clock that never goes back. It says
that no reading and no stored time is ahead of the clock, that what a request
has read of a row is still there or has been beaten since, and that the last
beat of a node is still to be seen in its row. Each of its four parts has its
own step lemma (`Timed.step_took`, `step_rows`, `step_read`, `step_last`), and
the two directions of the theorem are read off the last two.
-/

namespace ZeroTrustLab.Controller

open Lib

variable {settings : Settings} {reqs : Rid → Request} {w₀ : World}
  {ls : List (Label Call Ans Exc Rid Env)} {lab : Label Call Ans Exc Rid Env}
  {c c' : Cfg Call Ans Exc Response Rid Session World} {nodeId : String} {row : Node} {i j : Rid}

/-! ## Where timestamps come from -/

def Act.now? : Act Call Ans Exc → Option Time
  | ⟨.utcnow, .ok t⟩ => some t
  | _ => none

/-- The time a request takes first. For a heartbeat it is `now`. -/
def firstNow (h : History) : Option Time := h.findSome? Act.now?

/-- The code dates a row with times it has read: an inserted one with any of
them, an updated one with the first. -/
def Dates (h : History) : Call → Prop
  | .add (.node n) => n.lastHeartbeatAt = none ∧ ⟨.utcnow, .ok n.updatedAt⟩ ∈ h
  | .add (.dirty loaded current) => ∃ nodeId now, current = loaded.beaten now ∧
      ⟨.selectNode nodeId, .ok [loaded]⟩ ∈ h ∧ firstNow h = some now
  | _ => True

/-- The call adds no row. -/
def Call.undated : Call → Bool
  | .add (.node _) => false
  | .add (.dirty _ _) => false
  | _ => true

theorem dates_of_undated {c : Call} (hc : c.undated = true) (h : History) : Dates h c := by
  cases c with
  | add p =>
    cases p with
    | node n => simp [Call.undated] at hc
    | dirty loaded current => simp [Call.undated] at hc
    | event e => trivial
  | _ => trivial

abbrev Dated {α : Type} (h : History) (p : Handler α) : Prop :=
  p.Upholds CanFail Dates (fun _ _ => True) h

theorem Dated.of_undated {α : Type} {p : Handler α} (hp : p.All (·.undated = true)) (h : History) :
    Dated h p := by
  induction p generalizing h with
  | pure a => trivial
  | throw e => trivial
  | call c k ih => exact ⟨dates_of_undated hp.1 h, fun x => ih x (hp.2 x) _, fun _ _ => trivial⟩

theorem recordEvent_undated (actorCn : String) (action : AuditAction) (target : Option String)
    (result : AuditResult) (details : Option Details) :
    (recordEvent actorCn action target result details).All (·.undated = true) :=
  ⟨rfl, fun _ => ⟨rfl, fun _ => ⟨rfl, fun _ => ⟨rfl, fun _ => ⟨rfl, fun _ => trivial⟩⟩⟩⟩⟩

theorem firstNow_concat (h : History) {a : Act Call Ans Exc} (ha : Act.now? a = none) :
    firstNow (h ++ [a]) = firstNow h := by
  unfold firstNow
  rw [List.findSome?_append, List.findSome?_singleton, ha, Option.or_none]

/-- A time once taken stays the first. -/
theorem firstNow_append {h : History} {t : Time} (ht : firstNow h = some t) (h' : History) :
    firstNow (h ++ h') = some t := by
  unfold firstNow at ht ⊢
  rw [List.findSome?_append, ht]
  rfl

theorem firstNow_mem {h : History} {t : Time} (ht : firstNow h = some t) :
    ⟨.utcnow, .ok t⟩ ∈ h := by
  obtain ⟨h₁, a, h₂, rfl, ha, -⟩ := List.findSome?_eq_some_iff.mp ht
  have hact : a = ⟨.utcnow, .ok t⟩ := by
    obtain ⟨d, x⟩ := a
    cases d with
    | utcnow =>
      rcases x with e | t'
      · simp [Act.now?] at ha
      · rw [Option.some.inj ha]
    | _ => simp [Act.now?] at ha
  rw [hact]
  exact List.mem_append_right _ (List.mem_cons_self ..)

/-- Admission takes no time. -/
theorem Admitted.firstNow {headers : Headers} {h : History} {identity : MTLSIdentity}
    (ha : Admitted settings headers h identity) (hh : SessionFails h) : firstNow h = none := by
  refine List.findSome?_eq_none_iff.mpr fun a hmem => ?_
  obtain ⟨d, x⟩ := a
  rcases ha.calls hh _ hmem with hnote | ⟨n, hcheck⟩
  · cases d <;> simp [IsNote, Act.now?] at hnote ⊢
  · obtain rfl : d = .isRevoked n := hcheck
    rfl

theorem mtlsIdentityDep_undated (settings : Settings) (headers : Headers) :
    (mtlsIdentityDep settings headers).All (·.undated = true) := by
  refine Prog.All.bind ?_ fun identity => ?_
  · refine (notes_getMtlsIdentity settings headers).all.mono fun c hc => ?_
    cases c <;> simp [IsNote, Call.undated] at hc ⊢
  · unfold requireLiveIdentity
    rcases identity.serial with _ | n
    · trivial
    · refine ⟨rfl, fun b => ?_⟩
      cases b with
      | false => trivial
      | true =>
        exact ⟨rfl, fun _ => (recordEvent_undated _ _ _ _ _).bind fun _ =>
          ⟨rfl, fun _ => ⟨rfl, fun _ => trivial⟩⟩⟩

private theorem rejection_undated {α : Type} (actorCn : String) (target : Option String)
    (details : Option Details) (status : Nat) (detail : String) :
    (recordEvent actorCn .authFailure target .rejected details >>= fun _ => do
        ask .commit
        raiseHttp (α := α) status detail).All (·.undated = true) :=
  (recordEvent_undated _ _ _ _ _).bind fun _ => ⟨rfl, fun _ => trivial⟩

theorem respondNode_undated (status : Nat) (n : Node) :
    (respondNode status n).All (·.undated = true) := Prog.All.ite trivial trivial

theorem registerNode_dates (payload : NodeCreate) (identity : MTLSIdentity) (h : History) :
    Dated h (registerNode payload identity >>= respondNode 201) := by
  unfold registerNode
  by_cases hmay : mayRegister identity payload.toNodeBase = false
  · rw [if_pos hmay]
    exact Dated.of_undated ((rejection_undated _ _ _ _ _).bind fun n => respondNode_undated 201 n) h
  · rw [if_neg hmay]
    refine ⟨trivial, fun rows => ?_, fun _ _ => trivial⟩
    rcases rows with _ | ⟨row, _ | ⟨row', rows⟩⟩
    · -- the two timestamps are read, and one of them is the row's
      refine ⟨trivial, fun createdAt => ⟨trivial, fun updatedAt => ⟨⟨rfl, by simp [newNode]⟩,
        fun _ => Dated.of_undated ?_ _, fun _ _ => trivial⟩, fun _ _ => trivial⟩, fun _ _ => trivial⟩
      refine ⟨rfl, fun ids => ?_⟩
      exact Prog.All.bind ((recordEvent_undated _ _ _ _ _).bind fun _ =>
        ⟨rfl, fun _ => ⟨rfl, fun _ => trivial⟩⟩) fun n => respondNode_undated 201 n
    · exact ⟨trivial, fun _ => trivial, fun _ _ => trivial⟩
    · trivial

theorem heartbeat_dates (nodeId : String) (body : NodeHeartbeat) (identity : MTLSIdentity)
    {h : History} (hnow : firstNow h = none) :
    Dated h (heartbeat nodeId body identity >>= respondNode 200) := by
  unfold heartbeat
  refine ⟨trivial, fun rows => ?_, fun _ _ => trivial⟩
  rcases rows with _ | ⟨row, _ | ⟨row', rows⟩⟩
  · trivial
  · show Dated _ ((if identity.commonName ≠ row.commonName then _ else _) >>= _)
    by_cases hcn : identity.commonName ≠ row.commonName
    · rw [if_pos hcn]
      exact Dated.of_undated ((rejection_undated _ _ _ _ _).bind fun n => respondNode_undated 200 n) _
    · rw [if_neg hcn]
      refine ⟨trivial, fun now => ⟨⟨nodeId, now, rfl, by simp, ?_⟩, fun _ => Dated.of_undated ?_ _,
        fun _ _ => trivial⟩, fun _ _ => trivial⟩
      · -- admission and the lookup have taken no time yet
        have hselect : firstNow (h ++ [⟨.selectNode nodeId, .ok [row]⟩]) = none := by
          rw [firstNow_concat h rfl, hnow]
        unfold firstNow at hselect ⊢
        rw [List.findSome?_append, hselect]
        rfl
      · refine Prog.All.bind (Prog.All.ite ?_ ?_) fun n => respondNode_undated 200 n
        · exact (recordEvent_undated _ _ _ _ _).bind fun _ => ⟨rfl, fun _ => ⟨rfl, fun _ => trivial⟩⟩
        · exact ⟨rfl, fun _ => ⟨rfl, fun _ => ⟨rfl, fun _ => trivial⟩⟩⟩
  · trivial

/-- Every endpoint's body dates rows with the first reading of its clock, or not
at all. -/
theorem body_dates {ep : Endpoint} {body : MTLSIdentity → Handler Response}
    (hbody : ep.body? = some body) (identity : MTLSIdentity) {h : History}
    (hnow : firstNow h = none) : Dated h (body identity) := by
  cases ep with
  | health => simp [Endpoint.body?] at hbody
  | whoami =>
    obtain rfl := Option.some.inj hbody
    trivial
  | listNodes =>
    obtain rfl := Option.some.inj hbody
    -- no date is written here
    refine Dated.of_undated ?_ h
    exact ⟨rfl, fun _ => ⟨rfl, fun _ => Prog.All.ite trivial trivial⟩⟩
  | registerNode b =>
    obtain rfl := Option.some.inj hbody
    rcases b with _ | b
    · trivial
    · dsimp only
      split
      next => trivial
      next => exact registerNode_dates _ _ h
  | getNode nodeId =>
    obtain rfl := Option.some.inj hbody
    refine Dated.of_undated (Prog.All.bind ?_ fun n => respondNode_undated 200 n) h
    refine ⟨rfl, fun rows => ?_⟩
    rcases rows with _ | ⟨row, _ | ⟨row', rows⟩⟩ <;> trivial
  | heartbeat nodeId b =>
    obtain rfl := Option.some.inj hbody
    rcases b with _ | b
    · trivial
    · exact heartbeat_dates nodeId b identity hnow
  | listAuditEvents limit offset actorCn action result =>
    obtain rfl := Option.some.inj hbody
    refine Dated.of_undated ?_ h
    exact Prog.All.ite trivial ⟨rfl, fun _ => Prog.All.ite trivial trivial⟩

/-- **Every row is dated** by times its request has read. -/
theorem app_dates {req : Request} {h₁ h₂ : History} {a : Act Call Ans Exc} {q : Handler Response}
    (hr : (app settings req).Reaches (h₁ ++ a :: h₂) q) (hh : SessionFails (h₁ ++ a :: h₂)) :
    Dates h₁ a.call := by
  by_cases ha : a.call.undated = true
  · exact dates_of_undated ha h₁
  · unfold app at hr
    rcases hbody : req.endpoint.body? with _ | body
    · rw [hbody] at hr
      have hhealth : (health : Handler Response).All (·.undated = true) := ⟨rfl, fun _ => trivial⟩
      exact absurd (hr.all hhealth a (by simp)) ha
    · rw [hbody] at hr
      have hundated := mtlsIdentityDep_undated settings req.headers
      rcases hr.bind_inv with ⟨q', hq', rfl⟩ | ⟨front, rest, identity, he, hadm, hrest⟩
      · exact absurd (hq'.all hundated a (by simp)) ha
      · -- the row is added by the endpoint body, after admission
        have hfront : a ∉ front := fun hmem => ha (hadm.all hundated a hmem)
        obtain ⟨mid, rfl, rfl⟩ : ∃ mid, h₁ = front ++ mid ∧ rest = mid ++ a :: h₂ := by
          rcases List.append_eq_append_iff.mp he with ⟨mid, hmid, hrest⟩ | ⟨mid, hmid, hrest⟩
          · cases mid with
            | nil => exact ⟨[], by simpa using hmid.symm, by simpa using hrest.symm⟩
            | cons b mid =>
              obtain ⟨rfl, -⟩ := List.cons_eq_cons.mp hrest
              exact absurd (by rw [hmid]; simp) hfront
          · exact ⟨mid, hmid, hrest⟩
        rw [he] at hh
        obtain ⟨hhfront, hhrest⟩ := hh.of_append
        exact hrest.upholds_at hhrest.of_append.1
          (body_dates hbody identity (Admitted.firstNow hadm hhfront))

/-! ## In a run -/

/-- What a request has committed was dated when the request added it. -/
theorem serving_dates (hw : w₀.Fresh) (h : Run settings reqs w₀ ls c) {ws : List Write}
    (hws : ws ∈ c.world.own i) {v : Write} (hv : v ∈ ws) :
    ∃ p db h₁ h₂, p.toWrite db = v ∧ acts i ls = h₁ ++ h₂ ∧ Dates h₁ (.add p) := by
  obtain ⟨p, ⟨db, hp⟩, hadd⟩ := serving_added hw h hws hv
  obtain ⟨h₁, h₂, hcut⟩ := List.append_of_mem hadd
  obtain ⟨q, hq⟩ := serving_party h i
  have hh := serving_sessionFails h i
  rw [hcut] at hq hh
  exact ⟨p, db, h₁, _, hp, hcut, app_dates hq hh⟩

/-- An update committed is a heartbeat of the row the request read, at the
time it took. -/
theorem serving_updated (hw : w₀.Fresh) (h : Run settings reqs w₀ ls c) {ws : List Write}
    (hws : ws ∈ c.world.own i) {loaded : Node} {now : Time}
    (hv : .updateNode loaded (loaded.beaten now) ∈ ws) :
    (∃ nodeId, ⟨.selectNode nodeId, .ok [loaded]⟩ ∈ acts i ls) ∧ firstNow (acts i ls) = some now := by
  obtain ⟨p, db, h₁, h₂, hp, hcut, hdates⟩ := serving_dates hw h hws hv
  cases p with
  | node n => simp [Pending.toWrite] at hp
  | event e => simp [Pending.toWrite] at hp
  | dirty loaded' current' =>
    obtain ⟨rfl, rfl⟩ : loaded' = loaded ∧ current' = loaded.beaten now := by
      simpa [Pending.toWrite] using hp
    obtain ⟨nodeId, now', he, hsel, hnow⟩ := hdates
    obtain rfl : now = now' := congrArg Node.updatedAt he
    rw [hcut]
    exact ⟨⟨nodeId, List.mem_append_left _ hsel⟩, firstNow_append hnow _⟩

/-- A row inserted has a time its request read. -/
theorem serving_dated (hw : w₀.Fresh) (h : Run settings reqs w₀ ls c) {ws : List Write}
    (hws : ws ∈ c.world.own i) (hv : .insertNode row ∈ ws) :
    row.lastHeartbeatAt = none ∧ ⟨.utcnow, .ok row.updatedAt⟩ ∈ acts i ls := by
  obtain ⟨p, db, h₁, h₂, hp, hcut, hdates⟩ := serving_dates hw h hws hv
  cases p with
  | dirty loaded current => simp [Pending.toWrite] at hp
  | event e => simp [Pending.toWrite] at hp
  | node n =>
    obtain rfl : Record.setPk db.nodes.next n = row := by simpa [Pending.toWrite] using hp
    obtain ⟨hlast, hnow⟩ := hdates
    rw [hcut]
    exact ⟨hlast, List.mem_append_left _ hnow⟩

/-! ## The clock -/

/-- The times the clock is moved to. -/
def ticks (ls : List (Label Call Ans Exc Rid Env)) : List Time :=
  ls.filterMap fun
    | .env (.tick now) => some now
    | _ => none

/-- The clock never goes back. -/
def ClockForward (w₀ : World) (ls : List (Label Call Ans Exc Rid Env)) : Prop :=
  (w₀.clock :: ticks ls).Pairwise (· ≤ ·)

/-- Only the environment moves the clock. -/
theorem step_clock (hs : Step controller c lab c') :
    c'.world.clock = c.world.clock ∨ lab = .env (.tick c'.world.clock) := by
  cases hs with
  | @served i d k x l' w' hp hserve =>
    obtain ⟨db, tx, journal, rfl⟩ := serve_frame hserve
    exact .inl rfl
  | raised hp hr =>
    rw [Cfg.set_world, (raises_rollback hr).2]
    exact .inl rfl
  | exited => exact .inl rfl
  | env e =>
    cases e with
    | tick now => exact .inr rfl
    | crl answer => exact .inl rfl

/-- The clock shows its first value or one that it was set to. -/
theorem serving_clock (h : Run settings reqs w₀ ls c) : c.world.clock ∈ w₀.clock :: ticks ls := by
  induction h with
  | refl => exact List.mem_cons_self ..
  | @snoc c₁ c₂ ls lab _ hs ih =>
    have hmore : w₀.clock :: ticks (ls ++ [lab]) = (w₀.clock :: ticks ls) ++ ticks [lab] := by
      unfold ticks
      rw [List.filterMap_append, List.cons_append]
    rw [hmore]
    rcases step_clock hs with hsame | rfl
    · rw [hsame]
      exact List.mem_append_left _ ih
    · exact List.mem_append_right _ (List.mem_singleton_self _)

/-- One step does not turn the clock back. -/
theorem ClockForward.step (hf : ClockForward w₀ (ls ++ [lab])) (h : Run settings reqs w₀ ls c)
    (hs : Step controller c lab c') : c.world.clock ≤ c'.world.clock := by
  rcases step_clock hs with hsame | rfl
  · exact hsame.ge
  · have hmore : w₀.clock :: ticks (ls ++ [.env (.tick c'.world.clock)])
        = (w₀.clock :: ticks ls) ++ [c'.world.clock] := by
      unfold ticks
      rw [List.filterMap_append, List.cons_append]
      rfl
    unfold ClockForward at hf
    rw [hmore] at hf
    exact (List.pairwise_append.mp hf).2.2 _ (serving_clock h) _ (List.mem_singleton_self _)

theorem ClockForward.front {ls' : List (Label Call Ans Exc Rid Env)}
    (hf : ClockForward w₀ (ls ++ ls')) : ClockForward w₀ ls := by
  unfold ClockForward ticks at hf ⊢
  rw [List.filterMap_append, ← List.cons_append] at hf
  exact (List.pairwise_append.mp hf).1

/-! ## Heartbeats in the journal -/

/-- The statement is a heartbeat of the node. -/
def Write.beats (nodeId : String) : Write → Bool
  | .updateNode loaded _ => decide (loaded.nodeId = nodeId)
  | _ => false

/-- The committed heartbeats of a node, in the order they committed. -/
def beatsOf (nodeId : String) (journal : List (Rid × List Write)) : List (Rid × List Write) :=
  journal.filter fun e => e.2.any (Write.beats nodeId)

theorem beatsOf_append (journal : List (Rid × List Write)) (e : Rid × List Write) :
    beatsOf nodeId (journal ++ [e])
      = beatsOf nodeId journal ++ if e.2.any (Write.beats nodeId) = true then [e] else [] := by
  unfold beatsOf
  rw [List.filter_append]
  by_cases he : e.2.any (Write.beats nodeId) = true
  · simp only [List.filter_cons, List.filter_nil, he]
  · simp only [List.filter_cons, List.filter_nil, he]

/-- The row shows the time of a heartbeat. -/
def BeatenAt (row : Node) (now : Time) : Prop :=
  row.updatedAt = now ∧ row.lastHeartbeatAt = some now

/-- A heartbeat's update beats the row it read and no other. -/
private theorem beaten_next {d d' : Database} {loaded r : Node} (now : Time) (es : List Write)
    (hst : Stored d loaded) (hes : es.any (Write.beats r.nodeId) = false)
    (he : d'.nodes.rows = (Write.updateNode loaded (loaded.beaten now)).onNodes d.nodes.rows)
    (hr : r ∈ d.nodes.rows) :
    (loaded.nodeId = r.nodeId ∧ ∃ r' ∈ d'.nodes.rows, r'.nodeId = r.nodeId ∧ BeatenAt r' now) ∨
    ((.updateNode loaded (loaded.beaten now) :: es).any (Write.beats r.nodeId) = false ∧
      r ∈ d'.nodes.rows) := by
  have hin : (if r.id = loaded.id then Node.changed loaded (loaded.beaten now) r else r)
      ∈ d'.nodes.rows := by
    rw [he]
    exact List.mem_map_of_mem hr
  by_cases hid : r.id = loaded.id
  · rw [if_pos hid] at hin
    have hk := hst.kept_of_id hr hid
    exact .inl ⟨hk.nodeId.symm, _, hin, (changed_beaten now hk).1.nodeId, rfl, rfl⟩
  · rw [if_neg hid] at hin
    refine .inr ⟨?_, hin⟩
    rw [List.any_cons, hes, Bool.or_false]
    refine decide_eq_false fun hnode => hid ?_
    obtain ⟨r₀, hr₀, hk⟩ := hst
    have hsame : r = r₀ := d.nodes.eq_of_key hr hr₀ (hnode.symm.trans hk.nodeId.symm)
    rw [hsame]
    exact hk.id

/-- What a transaction does to a row: it is beaten, or stays as it is. -/
theorem Txn.next {req : Request} {kind : TxnKind} {ws : List Write} {d d' : Database}
    (ht : Txn settings req kind ws) (hg : Grounded d ws) (ha : d.applyAll ws = some d') {r : Node}
    (hr : r ∈ d.nodes.rows) :
    (∃ loaded now, .updateNode loaded (loaded.beaten now) ∈ ws ∧ loaded.nodeId = r.nodeId ∧
      ∃ r' ∈ d'.nodes.rows, r'.nodeId = r.nodeId ∧ BeatenAt r' now) ∨
    (ws.any (Write.beats r.nodeId) = false ∧ r ∈ d'.nodes.rows) := by
  cases ht.onNodes hg ha with
  | rejected _ hnodes => exact .inr ⟨rfl, by rw [hnodes]; exact hr⟩
  | registered _ _ _ _ _ _ _ _ hrows =>
    exact .inr ⟨rfl, by rw [hrows]; exact List.mem_append_left _ hr⟩
  | @beaten _ _ _ loaded ws now _ _ _ hst hrows hws =>
    have hes : ws.any (Write.beats r.nodeId) = false := by
      rcases hws with ⟨-, rfl⟩ | ⟨-, t, k, rfl⟩
      · rfl
      · rfl
    rcases beaten_next now ws hst hes hrows hr with ⟨hnode, hat⟩ | hstays
    · exact .inl ⟨loaded, now, List.mem_cons_self .., hnode, hat⟩
    · exact .inr hstays

/-- Every row after a transaction was beaten by it, inserted by it, or there
before. -/
theorem Txn.previous {req : Request} {kind : TxnKind} {ws : List Write} {d d' : Database}
    (ht : Txn settings req kind ws) (hg : Grounded d ws) (ha : d.applyAll ws = some d') {r' : Node}
    (hr' : r' ∈ d'.nodes.rows) :
    (∃ loaded now, .updateNode loaded (loaded.beaten now) ∈ ws ∧ BeatenAt r' now) ∨
    r' ∈ d.nodes.rows ∨ .insertNode r' ∈ ws := by
  rcases ht.origin hg ha hr' with ⟨r, hr, hk⟩ | hins
  · rcases ht.next hg ha hr with ⟨loaded, now, hmem, hnode, r'', hr'', hid, hat⟩ | ⟨-, hstays⟩
    · have hsame : r' = r'' := d'.nodes.eq_of_key hr' hr'' (hk.nodeId.trans hid.symm)
      rw [hsame]
      exact .inl ⟨loaded, now, hmem, hat⟩
    · have hsame : r' = r := d'.nodes.eq_of_key hr' hstays hk.nodeId
      rw [hsame]
      exact .inr (.inl hr)
  · exact .inr (.inr hins)

/-- A heartbeat that commits finds the row and beats it. -/
theorem Txn.beats_row {req : Request} {kind : TxnKind} {ws : List Write} {d d' : Database}
    (ht : Txn settings req kind ws) (hg : Grounded d ws) (ha : d.applyAll ws = some d')
    (hany : ws.any (Write.beats nodeId) = true) :
    ∃ loaded now, .updateNode loaded (loaded.beaten now) ∈ ws ∧ loaded.nodeId = nodeId ∧
      ∃ r' ∈ d'.nodes.rows, r'.nodeId = nodeId ∧ BeatenAt r' now := by
  obtain ⟨v, hv, hbeats⟩ := List.any_eq_true.mp hany
  cases v with
  | insertNode row => simp [Write.beats] at hbeats
  | insertEvent e => simp [Write.beats] at hbeats
  | updateNode loaded current =>
    obtain rfl : loaded.nodeId = nodeId := of_decide_eq_true hbeats
    obtain ⟨r, hr, hk⟩ := hg loaded current hv
    rcases ht.next hg ha hr with ⟨loaded', now, hmem, hnode, r', hr', hid, hat⟩ | ⟨hnone, -⟩
    · exact ⟨loaded', now, hmem, hnode.trans hk.nodeId, r', hr', hid.trans hk.nodeId, hat⟩
    · rw [hk.nodeId, hany] at hnone
      exact absurd hnone (by simp)

/-! ## What the timestamps of a run are -/

/-- The row is not dated later. -/
def Stamped (now : Time) (row : Node) : Prop :=
  row.updatedAt ≤ now ∧ ∀ t, row.lastHeartbeatAt = some t → t ≤ now

theorem Stamped.mono {now now' : Time} (h : Stamped now row) (hle : now ≤ now') :
    Stamped now' row :=
  ⟨h.1.trans hle, fun t ht => (h.2 t ht).trans hle⟩

/-- A beaten row is stamped by the time of its heartbeat, and later. -/
theorem BeatenAt.stamped {now now' : Time} (h : BeatenAt row now) (hle : now ≤ now') :
    Stamped now' row := by
  refine ⟨h.1.trans_le hle, fun t ht => ?_⟩
  obtain rfl := Option.some.inj (h.2.symm.trans ht)
  exact hle

/-- How the stored timestamps, the times taken and the clock stand to each
other at any moment of a run. -/
structure Timed (ls : List (Label Call Ans Exc Rid Env)) (w : World) : Prop where
  rows : ∀ r ∈ w.db.nodes.rows, Stamped w.clock r
  took : ∀ i t, ⟨.utcnow, .ok t⟩ ∈ acts i ls → t ≤ w.clock
  /-- What a request read was not dated later than its `now`, and is still
  there unless somebody's heartbeat has been committed. -/
  read : ∀ i nodeId loaded, ⟨.selectNode nodeId, .ok [loaded]⟩ ∈ acts i ls →
    Stamped w.clock loaded ∧ (∀ t, firstNow (acts i ls) = some t → Stamped t loaded) ∧
      (loaded ∈ w.db.nodes.rows ∨ beatsOf loaded.nodeId w.journal ≠ [])
  /-- The row shows the time of the last heartbeat to commit. -/
  last : ∀ nodeId e, (beatsOf nodeId w.journal).getLast? = some e →
    ∃ t, firstNow (acts e.1 ls) = some t ∧
      ∃ r ∈ w.db.nodes.rows, r.nodeId = nodeId ∧ BeatenAt r t

/-- A move adds at most itself to a history. -/
theorem mem_acts_concat {a : Act Call Ans Exc} (h : a ∈ acts i (ls ++ [lab])) :
    a ∈ acts i ls ∨ lab = .call i a := by
  rw [mem_acts] at h ⊢
  rcases List.mem_append.mp h with hold | hnew
  · exact .inl hold
  · exact .inr (List.mem_singleton.mp hnew).symm

/-- A time taken by a move is the clock's. -/
theorem step_took {t : Time} (hs : Step controller c (.call i ⟨.utcnow, .ok t⟩) c') :
    t = c.world.clock := by
  cases hs with
  | served hp hserve => exact (Except.ok.inj (congrArg Prod.fst hserve)).symm

/-- A request that looks a node up has taken no time before. -/
theorem step_read (hw : w₀.Fresh) (h : Run settings reqs w₀ ls c) {loaded : Node}
    (hs : Step controller c (.call i ⟨.selectNode nodeId, .ok [loaded]⟩) c') :
    loaded ∈ c.world.db.nodes.rows ∧ firstNow (acts i ls) = none := by
  constructor
  · exact (serving_found hw h hs).1
  · have hat : Party.At (app settings (reqs i)) (acts i ls) (c.party i).status := h.reaches rfl
    cases hs with
    | @served _ _ k _ _ _ hp =>
      rw [hp] at hat
      obtain ⟨identity, hadm⟩ := app_select_admitted hat
      exact hadm.firstNow (serving_sessionFails h i)

/-- A step that commits, by what it appends to the journal. -/
theorem own_of_commit {w w' : World} {ws : List Write} (h : w'.journal = w.journal ++ [(i, ws)]) :
    ws ∈ w'.own i := by
  rw [mem_own, h]
  exact List.mem_append_right _ (List.mem_singleton_self _)

/-- After a step, every reading is still no later than the clock. -/
private theorem Timed.step_took (ht : Timed ls c.world) (hs : Step controller c lab c')
    (hclock : c.world.clock ≤ c'.world.clock) {t : Time}
    (hmem : ⟨.utcnow, .ok t⟩ ∈ acts i (ls ++ [lab])) : t ≤ c'.world.clock := by
  rcases mem_acts_concat hmem with hold | rfl
  · exact (ht.took i t hold).trans hclock
  · exact (Controller.step_took hs).trans_le hclock

/-- After a step, every row is still stamped by the clock. -/
private theorem Timed.step_rows (hw : w₀.Fresh) (h : Run settings reqs w₀ ls c)
    (hs : Step controller c lab c') (hclock : c.world.clock ≤ c'.world.clock)
    (ht : Timed ls c.world) : ∀ r ∈ c'.world.db.nodes.rows, Stamped c'.world.clock r := by
  intro r hr
  have hrun : Run settings reqs w₀ (ls ++ [lab]) c' := h.snoc hs
  rcases serving_commit hw h hs with ⟨hdb, -⟩ | ⟨i, kind, ws, -, htxn, hg, ha, hj⟩
  · rw [hdb] at hr
    exact (ht.rows r hr).mono hclock
  · rcases htxn.previous hg ha hr with ⟨loaded, now, hmem, hat⟩ | hold | hins
    · have hnow := (serving_updated hw hrun (own_of_commit hj) hmem).2
      exact hat.stamped (ht.step_took hs hclock (firstNow_mem hnow))
    · exact (ht.rows r hold).mono hclock
    · obtain ⟨hnone, hread⟩ := serving_dated hw hrun (own_of_commit hj) hins
      exact ⟨ht.step_took hs hclock hread, by simp [hnone]⟩

/-- A time taken first after a row was read is not before its timestamps. -/
private theorem Timed.step_first (hw : w₀.Fresh) (h : Run settings reqs w₀ ls c)
    (hs : Step controller c lab c') (ht : Timed ls c.world) {loaded : Node}
    (hmem : ⟨.selectNode nodeId, .ok [loaded]⟩ ∈ acts i (ls ++ [lab])) :
    Stamped c.world.clock loaded ∧
    (∀ t, firstNow (acts i (ls ++ [lab])) = some t → Stamped t loaded) ∧
    (loaded ∈ c.world.db.nodes.rows ∨ beatsOf loaded.nodeId c.world.journal ≠ []) := by
  rcases mem_acts_concat hmem with hold | rfl
  · obtain ⟨hstamped, hnow, hin⟩ := ht.read i nodeId loaded hold
    refine ⟨hstamped, fun t hfirst => ?_, hin⟩
    rcases hfirst₀ : firstNow (acts i ls) with _ | t₀
    · -- the time is taken by this very move
      rcases mem_acts_concat (firstNow_mem hfirst) with hbefore | rfl
      · exact absurd (List.findSome?_eq_none_iff.mp hfirst₀ _ hbefore) (by simp [Act.now?])
      · rw [Controller.step_took hs]
        exact hstamped
    · rw [acts_append] at hfirst
      obtain rfl := Option.some.inj ((firstNow_append hfirst₀ _).symm.trans hfirst)
      exact hnow _ hfirst₀
  · obtain ⟨hin, hnone⟩ := Controller.step_read hw h hs
    refine ⟨ht.rows loaded hin, fun t hfirst => ?_, .inl hin⟩
    rw [acts_append, acts_call_self, firstNow_concat _ rfl, hnone] at hfirst
    exact absurd hfirst (by simp)

/-- After a step, every row that a request has read is still stamped, and is
there or has been beaten since. -/
private theorem Timed.step_read (hw : w₀.Fresh) (h : Run settings reqs w₀ ls c)
    (hs : Step controller c lab c') (hclock : c.world.clock ≤ c'.world.clock)
    (ht : Timed ls c.world) {loaded : Node}
    (hmem : ⟨.selectNode nodeId, .ok [loaded]⟩ ∈ acts i (ls ++ [lab])) :
    Stamped c'.world.clock loaded ∧
    (∀ t, firstNow (acts i (ls ++ [lab])) = some t → Stamped t loaded) ∧
    (loaded ∈ c'.world.db.nodes.rows ∨ beatsOf loaded.nodeId c'.world.journal ≠ []) := by
  obtain ⟨hstamped, hnow, hin⟩ := ht.step_first hw h hs hmem
  refine ⟨hstamped.mono hclock, hnow, ?_⟩
  rcases serving_commit hw h hs with ⟨hdb, hj⟩ | ⟨k, kind, ws, -, htxn, hg, ha, hj⟩
  · rw [hdb, hj]
    exact hin
  · rw [hj, beatsOf_append]
    rcases hin with hin | hbeaten
    · rcases htxn.next hg ha hin with ⟨loaded', now, hmem', hnode, -⟩ | ⟨-, hstays⟩
      · rw [if_pos (List.any_eq_true.mpr ⟨_, hmem', decide_eq_true hnode⟩)]
        exact .inr (by simp)
      · exact .inl hstays
    · exact .inr (by simp [hbeaten])

/-- After a step, the last beat of a node is still to be seen in its row. -/
private theorem Timed.step_last (hw : w₀.Fresh) (h : Run settings reqs w₀ ls c)
    (hs : Step controller c lab c') (ht : Timed ls c.world) {e : Rid × List Write}
    (he : (beatsOf nodeId c'.world.journal).getLast? = some e) :
    ∃ t, firstNow (acts e.1 (ls ++ [lab])) = some t ∧
      ∃ r ∈ c'.world.db.nodes.rows, r.nodeId = nodeId ∧ BeatenAt r t := by
  have hrun : Run settings reqs w₀ (ls ++ [lab]) c' := h.snoc hs
  have hold : ∀ {t : Time}, firstNow (acts e.1 ls) = some t →
      firstNow (acts e.1 (ls ++ [lab])) = some t := by
    intro t hnow
    rw [acts_append]
    exact firstNow_append hnow _
  rcases serving_commit hw h hs with ⟨hdb, hj⟩ | ⟨k, kind, ws, -, htxn, hg, ha, hj⟩
  · rw [hj] at he
    obtain ⟨t, hnow, hr⟩ := ht.last nodeId e he
    rw [hdb]
    exact ⟨t, hold hnow, hr⟩
  · rw [hj, beatsOf_append] at he
    by_cases hany : ws.any (Write.beats nodeId) = true
    · -- the heartbeat that commits is the last
      rw [if_pos hany, List.getLast?_concat] at he
      obtain rfl := Option.some.inj he
      obtain ⟨loaded, now, hmem, -, r, hr, hid, hat⟩ := htxn.beats_row hg ha hany
      exact ⟨now, (serving_updated hw hrun (own_of_commit hj) hmem).2, r, hr, hid, hat⟩
    · rw [if_neg hany, List.append_nil] at he
      obtain ⟨t, hnow, r, hr, hid, hat⟩ := ht.last nodeId e he
      rcases htxn.next hg ha hr with ⟨loaded', now, hmem, hnode, -⟩ | ⟨-, hstays⟩
      · exact absurd (List.any_eq_true.mpr ⟨_, hmem, decide_eq_true (hnode.trans hid)⟩) hany
      · exact ⟨t, hold hnow, r, hstays, hid, hat⟩

/-- **Every run is timed**, when the clock never goes back. -/
theorem serving_timed (hw : w₀.Fresh) (h₀ : ∀ r ∈ w₀.db.nodes.rows, Stamped w₀.clock r)
    (hforward : ClockForward w₀ ls) (h : Run settings reqs w₀ ls c) : Timed ls c.world := by
  induction h with
  | refl =>
    refine ⟨h₀, by simp, by simp, fun nodeId e he => ?_⟩
    have hnil : (serving settings reqs w₀).world.journal = [] := hw.journal
    rw [hnil] at he
    simp [beatsOf] at he
  | @snoc c₁ c₂ ls lab h hs ih =>
    have ht := ih hforward.front
    have hclock := hforward.step h hs
    exact ⟨ht.step_rows hw h hs hclock, fun i t => ht.step_took hs hclock,
      fun i nodeId loaded => ht.step_read hw h hs hclock, fun nodeId e => ht.step_last hw h hs⟩

/-! ## Freshness -/

/-- No stored timestamp goes back from the one state to the other. -/
def Rises (d d' : Database) : Prop :=
  ∀ r ∈ d.nodes.rows, ∃ r' ∈ d'.nodes.rows, r'.nodeId = r.nodeId ∧ r.updatedAt ≤ r'.updatedAt ∧
    ∀ t, r.lastHeartbeatAt = some t → ∃ t', r'.lastHeartbeatAt = some t' ∧ t ≤ t'

theorem Rises.refl (d : Database) : Rises d d :=
  fun r hr => ⟨r, hr, rfl, le_rfl, fun t ht => ⟨t, ht, le_rfl⟩⟩

theorem Rises.trans {d d' d'' : Database} (h : Rises d d') (h' : Rises d' d'') : Rises d d'' := by
  intro r hr
  obtain ⟨r', hr', hid, hup, hlast⟩ := h r hr
  obtain ⟨r'', hr'', hid', hup', hlast'⟩ := h' r' hr'
  refine ⟨r'', hr'', hid'.trans hid, hup.trans hup', fun t ht => ?_⟩
  obtain ⟨t', ht', hle⟩ := hlast t ht
  obtain ⟨t'', ht'', hle'⟩ := hlast' t' ht'
  exact ⟨t'', ht'', hle.trans hle'⟩

/-- The heartbeats of each node commit in the order of the times they took. -/
def InClockOrder (ls : List (Label Call Ans Exc Rid Env)) (w : World) : Prop :=
  ∀ nodeId, (beatsOf nodeId w.journal).Pairwise fun e e' =>
    ∀ t t', firstNow (acts e.1 ls) = some t → firstNow (acts e'.1 ls) = some t' → t ≤ t'

theorem InClockOrder.front {ls' : List (Label Call Ans Exc Rid Env)} {w w' : World}
    (h : InClockOrder (ls ++ ls') w') (hj : w.journal <+: w'.journal) : InClockOrder ls w := by
  intro nodeId
  have hall : (beatsOf nodeId w.journal).Pairwise fun e e' => ∀ t t',
      firstNow (acts e.1 (ls ++ ls')) = some t → firstNow (acts e'.1 (ls ++ ls')) = some t' →
      t ≤ t' := (h nodeId).sublist (hj.filter _).sublist
  refine hall.imp fun hle t t' ht ht' => hle t t' ?_ ?_
  · rw [acts_append]
    exact firstNow_append ht _
  · rw [acts_append]
    exact firstNow_append ht' _

/-- A step of a run in clock order turns no timestamp back. -/
theorem step_rises (hw : w₀.Fresh) (h : Run settings reqs w₀ ls c) (hs : Step controller c lab c')
    (ht : Timed ls c.world) (ho : InClockOrder (ls ++ [lab]) c'.world) :
    Rises c.world.db c'.world.db := by
  intro r hr
  have hrun : Run settings reqs w₀ (ls ++ [lab]) c' := h.snoc hs
  rcases serving_commit hw h hs with ⟨hdb, -⟩ | ⟨i, kind, ws, -, htxn, hg, ha, hj⟩
  · rw [hdb]
    exact Rises.refl _ r hr
  · rcases htxn.next hg ha hr with ⟨loaded, now, hmem, hnode, r', hr', hid, hat⟩ | ⟨-, hstays⟩
    · -- the row is beaten by this commit, at the time its request had read
      obtain ⟨⟨nodeId, hsel⟩, hnow⟩ := serving_updated hw hrun (own_of_commit hj) hmem
      have hstamped : Stamped now r := by
        rcases hlast : (beatsOf r.nodeId c.world.journal).getLast? with _ | e
        · -- nobody has beaten the row since it was read
          obtain ⟨-, hfirst, hin | hbeaten⟩ := ht.step_first hw h hs hsel
          · rw [c.world.db.nodes.eq_of_key hr hin hnode.symm]
            exact hfirst now hnow
          · rw [hnode, List.getLast?_eq_none_iff.mp hlast] at hbeaten
            exact absurd rfl hbeaten
        · -- the last to do so took its time before
          obtain ⟨t, he, r₀, hr₀, hid₀, hat₀⟩ := ht.last r.nodeId e hlast
          rw [c.world.db.nodes.eq_of_key hr hr₀ hid₀.symm]
          refine hat₀.stamped ?_
          have horder := ho r.nodeId
          rw [hj, beatsOf_append,
            if_pos (List.any_eq_true.mpr ⟨_, hmem, decide_eq_true hnode⟩)] at horder
          refine (List.pairwise_append.mp horder).2.2 e (List.mem_of_getLast? hlast) _
            (List.mem_singleton_self _) t now ?_ hnow
          rw [acts_append]
          exact firstNow_append he _
      refine ⟨r', hr', hid, hstamped.1.trans_eq hat.1.symm, fun t hlast => ?_⟩
      exact ⟨now, hat.2, hstamped.2 t hlast⟩
    · exact ⟨r, hstays, rfl, le_rfl, fun t hlast => ⟨t, hlast, le_rfl⟩⟩

/-- A run under a clock that never goes back, from rows that are not dated
ahead of it. -/
structure Clocked (settings : Settings) (reqs : Rid → Request) (w₀ : World)
    (ls : List (Label Call Ans Exc Rid Env)) (c : Cfg Call Ans Exc Response Rid Session World) :
    Prop where
  run : Run settings reqs w₀ ls c
  fresh : w₀.Fresh
  stamped : ∀ r ∈ w₀.db.nodes.rows, Stamped w₀.clock r
  forward : ClockForward w₀ ls

/-- Between two states of such a run no heartbeat time goes back. -/
theorem Clocked.rises (h : Clocked settings reqs w₀ ls c) (ho : InClockOrder ls c.world)
    {front mid rest : List (Label Call Ans Exc Rid Env)}
    {m m' : Cfg Call Ans Exc Response Rid Session World} (he : ls = front ++ mid ++ rest)
    (hfront : Run settings reqs w₀ front m) (hmid : Steps controller m mid m')
    (hrest : Steps controller m' rest c) : Rises m.world.db m'.world.db := by
  subst he
  have hforward := h.forward.front
  replace ho : InClockOrder (front ++ mid) m'.world :=
    ho.front (serving_grows h.fresh (hfront.trans hmid) hrest).2
  have hw := h.fresh
  have hstamped := h.stamped
  clear h hrest
  induction hmid with
  | refl => exact .refl _
  | @snoc c₁ c₂ mid lab hmid hs ih =>
    rw [← List.append_assoc] at hforward ho
    have hrun : Run settings reqs w₀ (front ++ mid) c₁ := hfront.trans hmid
    have hgrows := (serving_grows hw hrun (.single hs)).2
    refine (ih hforward.front (ho.front hgrows)).trans ?_
    exact step_rises hw hrun hs (serving_timed hw hstamped hforward.front hrun) ho

/-- A run can be cut where an entry of the journal was committed. -/
theorem journal_cut (hw : w₀.Fresh) (h : Run settings reqs w₀ ls c) {e : Rid × List Write} :
    ∀ {j₁ j₂ : List (Rid × List Write)}, c.world.journal = j₁ ++ e :: j₂ →
      ∃ front rest m, ls = front ++ rest ∧ Run settings reqs w₀ front m ∧
        Steps controller m rest c ∧ m.world.journal = j₁ ++ [e] := by
  induction h with
  | refl =>
    intro j₁ j₂ he
    have hnil : (serving settings reqs w₀).world.journal = [] := hw.journal
    rw [hnil] at he
    simp at he
  | @snoc c₁ c₂ ls lab h hs ih =>
    intro j₁ j₂ he
    have hcut : (∃ j₃, c₁.world.journal = j₁ ++ e :: j₃) ∨ c₂.world.journal = j₁ ++ [e] := by
      rcases serving_commit hw h hs with ⟨-, hj⟩ | ⟨i, kind, ws, -, -, -, -, hj⟩
      · exact .inl ⟨j₂, hj.symm.trans he⟩
      · rcases List.eq_nil_or_concat j₂ with rfl | ⟨j₃, x, rfl⟩
        · exact .inr he
        · rw [List.concat_eq_append, hj] at he
          have hinit := congrArg List.dropLast he
          rw [← List.cons_append, ← List.append_assoc] at hinit
          simp only [List.dropLast_concat] at hinit
          exact .inl ⟨j₃, hinit⟩
    rcases hcut with ⟨j₃, hj⟩ | hj
    · obtain ⟨front, rest, m, hls, hfront, hrest, hm⟩ := ih hj
      exact ⟨front, rest ++ [lab], m, by rw [hls, List.append_assoc], hfront, hrest.snoc hs, hm⟩
    · exact ⟨ls ++ [lab], [], c₂, (List.append_nil _).symm, h.snoc hs, .refl _, hj⟩

/-- Right after a heartbeat has committed, the row shows its time. -/
private theorem Timed.shows {w : World} (ht : Timed ls w) {j : List (Rid × List Write)}
    {e : Rid × List Write} (hj : w.journal = j ++ [e]) (he : e.2.any (Write.beats nodeId) = true)
    {ls' : List (Label Call Ans Exc Rid Env)} {t : Time}
    (hnow : firstNow (acts e.1 (ls ++ ls')) = some t) :
    ∃ r ∈ w.db.nodes.rows, r.nodeId = nodeId ∧ BeatenAt r t := by
  have hlast : (beatsOf nodeId w.journal).getLast? = some e := by
    rw [hj, beatsOf_append, if_pos he, List.getLast?_concat]
  obtain ⟨t', hnow', hr⟩ := ht.last nodeId e hlast
  rw [acts_append] at hnow
  obtain rfl := Option.some.inj ((firstNow_append hnow' _).symm.trans hnow)
  exact hr

/-- Where timestamps never go back, heartbeats commit in clock order. -/
theorem Clocked.inClockOrder (h : Clocked settings reqs w₀ ls c)
    (hrises : ∀ front mid rest m m', ls = front ++ mid ++ rest → Run settings reqs w₀ front m →
      Steps controller m mid m' → Steps controller m' rest c → Rises m.world.db m'.world.db) :
    InClockOrder ls c.world := by
  intro nodeId
  unfold beatsOf
  rw [List.pairwise_filter, List.pairwise_iff_forall_sublist]
  intro e e' hsub he he' t t' ht ht'
  obtain ⟨r₁, r₂, hsplit, hmem, hmem'⟩ := List.cons_sublist_iff.mp hsub
  obtain ⟨j₁, j₂, rfl⟩ := List.append_of_mem hmem
  obtain ⟨j₃, j₄, rfl⟩ := List.append_of_mem (List.singleton_sublist.mp hmem')
  -- the moments at which the two have just committed
  have hj' : c.world.journal = (j₁ ++ e :: j₂ ++ j₃) ++ e' :: j₄ := by rw [hsplit]; simp
  obtain ⟨front', rest, m', rfl, hfront', hrest, hm'⟩ := journal_cut h.fresh h.run hj'
  have hj : m'.world.journal = j₁ ++ e :: (j₂ ++ j₃ ++ [e']) := by rw [hm']; simp
  obtain ⟨front, mid, m, rfl, hfront, hmid, hm⟩ := journal_cut h.fresh hfront' hj
  have hforward := h.forward.front
  obtain ⟨r, hr, hid, hat⟩ := (serving_timed h.fresh h.stamped hforward.front hfront).shows
    hm he (by rwa [← List.append_assoc])
  obtain ⟨r', hr', hid', hat'⟩ := (serving_timed h.fresh h.stamped hforward hfront').shows
    hm' he' ht'
  obtain ⟨r'', hr'', hid'', hle, -⟩ := hrises front mid rest m m' rfl hfront hmid hrest r hr
  have hsame : r'' = r' :=
    m'.world.db.nodes.eq_of_key hr'' hr' (hid''.trans (hid.trans hid'.symm))
  rw [hsame, hat.1, hat'.1] at hle
  exact hle

/-! ## The latest -/

/-- A heartbeat of the node that was answered 200. -/
def BeatAccepted (reqs : Rid → Request) (c : Cfg Call Ans Exc Response Rid Session World)
    (nodeId : String) (i : Rid) : Prop :=
  (∃ body, (reqs i).endpoint = .heartbeat nodeId (some body)) ∧
    ∃ n, (c.party i).status = .done (.ok ⟨200, .node n⟩)

/-- All heartbeats of the node have been answered, none with a server error. -/
def Completed (reqs : Rid → Request) (c : Cfg Call Ans Exc Response Rid Session World)
    (nodeId : String) : Prop :=
  ∀ i body, (reqs i).endpoint = .heartbeat nodeId (some body) →
    ∃ r, (c.party i).status = .done r ∧ statusOf r < 500

/-- The first heartbeat and the later ones update the row they are for. -/
theorem Txn.beats_of_heartbeat {req : Request} {kind : TxnKind} {ws : List Write}
    {body : NodeHeartbeat} (ht : Txn settings req kind ws)
    (hreq : req.endpoint = .heartbeat nodeId (some body)) (hkind : kind = .beaten ∨ kind = .activated) :
    ws.any (Write.beats nodeId) = true := by
  have hbeats : ∀ {loaded : Node} {body' : NodeHeartbeat} (current : Node) (es : List Write),
      req.endpoint = .heartbeat loaded.nodeId (some body') →
      (Write.updateNode loaded current :: es).any (Write.beats nodeId) = true := by
    intro loaded body' current es hreq'
    obtain ⟨hnode, -⟩ := Endpoint.heartbeat.inj (hreq'.symm.trans hreq)
    exact List.any_eq_true.mpr ⟨_, List.mem_cons_self .., decide_eq_true hnode⟩
  cases ht with
  | beaten loaded now _ hreq' => exact hbeats _ _ hreq'
  | activated loaded now _ _ _ hreq' => exact hbeats _ _ hreq'
  | revoked => simp at hkind
  | registerForbidden => simp at hkind
  | registered => simp at hkind
  | heartbeatForbidden => simp at hkind

/-- A transaction that beats a row is that of a heartbeat for its node. -/
theorem Txn.heartbeat_of_beats {req : Request} {kind : TxnKind} {ws : List Write}
    (ht : Txn settings req kind ws) (hany : ws.any (Write.beats nodeId) = true) :
    ∃ body, req.endpoint = .heartbeat nodeId (some body) := by
  cases ht with
  | @beaten identity body loaded now _ hreq =>
    obtain rfl : loaded.nodeId = nodeId := by simpa [Write.beats] using hany
    exact ⟨body, hreq⟩
  | @activated identity body loaded now _ _ _ hreq =>
    obtain rfl : loaded.nodeId = nodeId := by simpa [Write.beats] using hany
    exact ⟨body, hreq⟩
  | revoked => simp [Write.beats] at hany
  | registerForbidden => simp [Write.beats] at hany
  | registered => simp [Write.beats] at hany
  | heartbeatForbidden => simp [Write.beats] at hany

/-- Such an answer is 200 just when the heartbeat was committed. -/
theorem serving_beat_iff (hw : w₀.Fresh) (h : Run settings reqs w₀ ls c) {body : NodeHeartbeat}
    (hreq : (reqs i).endpoint = .heartbeat nodeId (some body)) {r : Except Exc Response}
    (hd : (c.party i).status = .done r) (hs : statusOf r < 500) :
    (∃ n, r = .ok ⟨200, .node n⟩) ↔
      ∃ ws ∈ c.world.own i, ws.any (Write.beats nodeId) = true := by
  have ho := serving_outcome hw h hd
  generalize hown : c.world.own i = own at ho
  -- a commit that beats no row ends in an error
  have hnone : ∀ {e : Exc} {ws : List Write}, ws.any (Write.beats nodeId) = false →
      ((∃ n, (Except.error e : Except Exc Response) = .ok ⟨200, .node n⟩) ↔
        ∃ ws' ∈ [ws], ws'.any (Write.beats nodeId) = true) := by
    intro e ws hws
    refine ⟨fun ⟨n, hn⟩ => by simp at hn, fun ⟨ws', hmem, hany⟩ => ?_⟩
    rw [List.mem_singleton.mp hmem, hws] at hany
    exact absurd hany (by simp)
  -- of the ends of a heartbeat request, one has beaten the row
  cases ho with
  | health hnone => simp [hreq, Endpoint.body?] at hnone
  | unidentified => simp
  | failed => simp
  | revoked _ _ _ _ ht =>
    cases ht
    exact hnone rfl
  | answered _ ha =>
    cases ha with
    | invalid _ hbeat => exact absurd hreq (hbeat _ _)
    | read hread => simp [hreq, Endpoint.reads] at hread
    | registerForbidden hreq' => simp [hreq] at hreq'
    | duplicate hreq' => simp [hreq] at hreq'
    | clash hreq' => simp [hreq] at hreq'
    | registered hreq' => simp [hreq] at hreq'
    | unread hreq' => simp [hreq] at hreq'
    | missing => simp
    | heartbeatForbidden _ _ _ _ ht =>
      cases ht
      exact hnone rfl
    | @beaten _ _ loaded ws _ _ _ ht hr =>
      rcases hr with ⟨n, rfl⟩ | rfl | ⟨rfl, -⟩
      · refine ⟨fun _ => ⟨ws, List.mem_singleton_self ws, ?_⟩, fun _ => ⟨n, rfl⟩⟩
        exact ht.beats_of_heartbeat hreq (by split <;> simp)
      · simp [statusOf, Exc.status] at hs
      · simp [statusOf, Exc.status] at hs

/-- The last heartbeat time of a node is the largest its accepted heartbeats
took. -/
def Latest (reqs : Rid → Request) (ls : List (Label Call Ans Exc Rid Env))
    (c : Cfg Call Ans Exc Response Rid Session World) (nodeId : String) : Prop :=
  ∀ r ∈ c.world.db.nodes.rows, r.nodeId = nodeId →
    ∃ i t, BeatAccepted reqs c nodeId i ∧ firstNow (acts i ls) = some t ∧
      r.lastHeartbeatAt = some t ∧
      ∀ j t', BeatAccepted reqs c nodeId j → firstNow (acts j ls) = some t' → t' ≤ t

/-- When all heartbeats of a node are through and one was accepted, its row
shows the latest. -/
theorem Clocked.latest (h : Clocked settings reqs w₀ ls c) (ho : InClockOrder ls c.world)
    (hdone : Completed reqs c nodeId) (hone : ∃ i, BeatAccepted reqs c nodeId i) :
    Latest reqs ls c nodeId := by
  intro r hr hid
  have ht := serving_timed h.fresh h.stamped h.forward h.run
  -- an accepted heartbeat is in the journal
  have hin : ∀ i, BeatAccepted reqs c nodeId i → ∃ ws, (i, ws) ∈ beatsOf nodeId c.world.journal := by
    intro i ⟨⟨body, hreq⟩, n, hd⟩
    obtain ⟨ws, hws, hany⟩ := (serving_beat_iff h.fresh h.run hreq hd (by simp [statusOf])).mp ⟨n, rfl⟩
    exact ⟨ws, List.mem_filter.mpr ⟨mem_own.mp hws, hany⟩⟩
  obtain ⟨i₀, hi₀⟩ := hone
  obtain ⟨ws₀, hws₀⟩ := hin i₀ hi₀
  rcases List.eq_nil_or_concat (beatsOf nodeId c.world.journal) with hnil | ⟨front, e, hlast⟩
  · rw [hnil] at hws₀
    exact absurd hws₀ (by simp)
  · rw [List.concat_eq_append] at hlast
    obtain ⟨t, hnow, r', hr', hid', hat⟩ := ht.last nodeId e (by rw [hlast, List.getLast?_concat])
    have hsame : r = r' := c.world.db.nodes.eq_of_key hr hr' (hid.trans hid'.symm)
    rw [hsame]
    refine ⟨e.1, t, ?_, hnow, hat.2, fun j t' hj ht' => ?_⟩
    · -- and what is in the journal was accepted
      have hmem : e ∈ beatsOf nodeId c.world.journal := by rw [hlast]; simp
      obtain ⟨hjournal, hany⟩ := List.mem_filter.mp hmem
      have hown : e.2 ∈ c.world.own e.1 := mem_own.mpr hjournal
      obtain ⟨kind, htxn⟩ := serving_journal h.fresh h.run hown
      obtain ⟨body, hreq⟩ := htxn.heartbeat_of_beats hany
      obtain ⟨x, hd, hs⟩ := hdone e.1 body hreq
      obtain ⟨n, rfl⟩ := (serving_beat_iff h.fresh h.run hreq hd hs).mpr ⟨e.2, hown, hany⟩
      exact ⟨⟨body, hreq⟩, n, hd⟩
    · obtain ⟨ws, hws⟩ := hin j hj
      have horder := ho nodeId
      rw [hlast] at horder hws
      rcases List.mem_append.mp hws with hfront | hlast'
      · exact (List.pairwise_append.mp horder).2.2 _ hfront e (List.mem_singleton_self e) t' t ht' hnow
      · rw [← List.mem_singleton.mp hlast'] at hnow
        exact (Option.some.inj (ht'.symm.trans hnow)).le

/-- Heartbeat freshness never goes backwards, and no update is lost. -/
structure Freshness (settings : Settings) (reqs : Rid → Request) (w₀ : World)
    (ls : List (Label Call Ans Exc Rid Env)) (c : Cfg Call Ans Exc Response Rid Session World) :
    Prop where
  rises : ∀ front mid rest m m', ls = front ++ mid ++ rest → Run settings reqs w₀ front m →
    Steps controller m mid m' → Steps controller m' rest c → Rises m.world.db m'.world.db
  latest : ∀ nodeId, Completed reqs c nodeId → (∃ i, BeatAccepted reqs c nodeId i) →
    Latest reqs ls c nodeId

/-- **When heartbeats stay fresh**: just when those of each node commit in the
order of the times they took. The clock never goes back in such a run; what is
out of order is the commits, not the readings. -/
theorem freshness_iff (h : Clocked settings reqs w₀ ls c) :
    Freshness settings reqs w₀ ls c ↔ InClockOrder ls c.world := by
  constructor
  · intro hfresh
    exact h.inClockOrder hfresh.rises
  · intro ho
    refine ⟨fun front mid rest m m' he hfront hmid hrest => ?_, fun nodeId hdone hone => ?_⟩
    · exact h.rises ho he hfront hmid hrest
    · exact h.latest ho hdone hone

/-! ## Two heartbeats with a tick between -/

/-- Two heartbeats of `pi-01`: `is` is who moves before the clock ticks, and
`is'` who moves after. -/
def beatTicked (is is' : List Rid) :
    List (Label Call Ans Exc Rid Env) × Cfg Call Ans Exc Response Rid Session World :=
  let first := controller.play (serving {} beatTwice enrolled) is
  let second := controller.play ⟨controller.env (.tick 7) first.2.world, first.2.party⟩ is'
  (first.1 ++ .env (.tick 7) :: second.1, second.2)

private theorem beatTicked_clocked (is is' : List Rid) (hticks : ticks (beatTicked is is').1 = [7]) :
    Clocked {} beatTwice enrolled (beatTicked is is').1 (beatTicked is is').2 where
  run := by
    have htick := (controller.play_steps is (serving {} beatTwice enrolled)).snoc (.env (.tick 7))
    have hall := htick.trans (controller.play_steps is' _)
    rwa [List.append_assoc] at hall
  fresh := ⟨rfl, rfl⟩
  stamped r hr := by
    have hrows : enrolled.db.nodes.rows = [enrolledRow] := by decide +kernel
    rw [hrows, List.mem_singleton] at hr
    rw [hr]
    exact ⟨le_rfl, by simp [enrolledRow, newNode, Record.setPk]⟩
  forward := by
    unfold ClockForward
    rw [hticks]
    decide

/-- The second reads the clock before it ticks and commits after the first:
the row ends with the earlier time. -/
theorem overtaken_heartbeat :
    ∃ ls c, Clocked {} beatTwice enrolled ls c ∧ Completed beatTwice c "pi-01" ∧
      BeatAccepted beatTwice c "pi-01" 0 ∧ firstNow (acts 0 ls) = some 7 ∧
      (∃ r ∈ c.world.db.nodes.rows, r.nodeId = "pi-01" ∧ r.lastHeartbeatAt = some 0) ∧
      ¬ Freshness {} beatTwice enrolled ls c := by
  let is : List Rid := List.replicate 4 1
  let is' : List Rid := List.replicate 15 0 ++ List.replicate 15 1
  have h := beatTicked_clocked is is' (by decide +kernel)
  have hfirst : ((beatTicked is is').2.party 0).status
      = .done (.ok ⟨200, .node (enrolledRow.beaten 7)⟩) := Status.eq_done (by decide +kernel)
  have hsecond : ((beatTicked is is').2.party 1).status
      = .done (.ok ⟨200, .node (enrolledRow.beaten 0)⟩) := Status.eq_done (by decide +kernel)
  have hdone : Completed beatTwice (beatTicked is is').2 "pi-01" := by
    intro i body hreq
    obtain rfl | rfl : i = 0 ∨ i = 1 := by
      rcases i with _ | _ | i
      · exact .inl rfl
      · exact .inr rfl
      · simp [beatTwice, arrivals, requests] at hreq
    · exact ⟨_, hfirst, by simp [statusOf]⟩
    · exact ⟨_, hsecond, by simp [statusOf]⟩
  have haccepted : BeatAccepted beatTwice (beatTicked is is').2 "pi-01" 0 :=
    ⟨⟨⟨none⟩, rfl⟩, _, hfirst⟩
  have hnow : firstNow (acts 0 (beatTicked is is').1) = some 7 := by decide +kernel
  have hrow : enrolledRow.beaten 0 ∈ (beatTicked is is').2.world.db.nodes.rows := by
    decide +kernel
  refine ⟨_, _, h, hdone, haccepted, hnow, ⟨_, hrow, rfl, rfl⟩, fun hfresh => ?_⟩
  obtain ⟨i, t, -, -, hlast, hmax⟩ := hfresh.latest "pi-01" hdone ⟨0, haccepted⟩ _ hrow rfl
  obtain rfl : (0 : Time) = t := Option.some.inj hlast
  exact absurd (hmax 0 7 haccepted hnow) (by decide)

/-- One after the other they stay fresh. -/
theorem sequential_freshness :
    ∃ ls c, Clocked {} beatTwice enrolled ls c ∧ Freshness {} beatTwice enrolled ls c := by
  let is : List Rid := List.replicate 15 0
  let is' : List Rid := List.replicate 15 1
  have h := beatTicked_clocked is is' (by decide +kernel)
  refine ⟨_, _, h, (freshness_iff h).mpr fun nodeId => ?_⟩
  have hjournal : ((beatTicked is is').2.world.journal.map Prod.fst) = [0, 1] := by decide +kernel
  have hnow₀ : firstNow (acts 0 (beatTicked is is').1) = some 0 := by decide +kernel
  have hnow₁ : firstNow (acts 1 (beatTicked is is').1) = some 7 := by decide +kernel
  have horder : ((beatTicked is is').2.world.journal.map Prod.fst).Pairwise fun i j => ∀ t t',
      firstNow (acts i (beatTicked is is').1) = some t →
      firstNow (acts j (beatTicked is is').1) = some t' → t ≤ t' := by
    rw [hjournal]
    refine List.pairwise_pair.mpr fun t t' ht ht' => ?_
    obtain rfl := Option.some.inj (hnow₀.symm.trans ht)
    obtain rfl := Option.some.inj (hnow₁.symm.trans ht')
    decide
  exact (List.pairwise_map.mp horder).sublist List.filter_sublist

end ZeroTrustLab.Controller
