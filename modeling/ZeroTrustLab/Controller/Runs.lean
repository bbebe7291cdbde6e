import ZeroTrustLab.Controller.Outcome
import ZeroTrustLab.Controller.Paths

/-!
# Runs of the controller

`serving settings reqs w₀` hands any number of requests to the application;
`Steps controller` is one run of it, in which the requests' calls interleave in
any order, database calls may fail, the clock ticks and the revocation cache
is refreshed. This module says of every such run:

* `serving_outcome`: a request that has been answered ended in one of the ways
  of `Outcome`, with what the journal shows it committed;
* `serving_step`: each move keeps the mover's guarantee, so that the committed
  state changes by transactions of the requests and in no other way;
* `serving_invariant`: what holds of the empty history and is kept by each of
  the six transactions holds of every committed state;
* `serving_cache`: the revocation cache is a function of the refresh cycles in
  the trace.

All of it comes from one safety theorem (`serving_allSafe`): every request
keeps to its contract from the start, by the triple that `Outcome` proves of
the application. The library's rely-guarantee rule then speaks of any
interleaving, and the results here are its consequences for the committed
tables, the journal and the cache.
-/

namespace ZeroTrustLab.Controller

open Lib

/-- Nothing is open and nothing has been committed yet. -/
structure World.Fresh (w : World) : Prop where
  tx : w.tx = none
  journal : w.journal = []

theorem World.start_fresh : World.start.Fresh := ⟨rfl, rfl⟩

/-- A run, from fresh requests. -/
abbrev Run (settings : Settings) (reqs : Rid → Request) (w₀ : World)
    (ls : List (Label Call Ans Exc Rid Env))
    (c : Cfg Call Ans Exc Response Rid Session World) : Prop :=
  Steps controller (serving settings reqs w₀) ls c

/-! ## Soundness, for the application -/

/-- Once request `i` is answered, for good. -/
def Ended (settings : Settings) (req : Request) (F₀ : Fact) (i : Rid) (r : Except Exc Response) :
    Assn Call Ans Exc Session World :=
  fun h _ w => Outcome settings req F₀ h w.db r (w.own i)

/-- A finished request leaves the world as its contract says. -/
theorem Finished.leaves {settings : Settings} {req : Request} {F₀ : Fact} {i : Rid}
    {r : Except Exc Response} {h : History} {l : Session} {w : World}
    (hf : Finished settings req F₀ i r h l w) :
    Leaves controller (requestContract settings req i) i (Ended settings req F₀ i) r h l w := by
  obtain ⟨own, ha⟩ := hf
  intro w' hw'
  have hst : Stable (requestContract settings req i)
    (At i own [] [] (.outcome settings req F₀ r own)) := At.stable
  have ha' := hst h l w w' ha hw'
  refine ⟨.rollback, fun w'' hw'' => ?_⟩
  have hr : Rely i (w'.rollback i) w'' := hw''
  have hback := ha'.rollback (List.prefix_refl h)
  unfold Ended
  rw [hr.own, hback.own]
  exact hback.fact.mono (List.prefix_refl h) hr.evolves

/-- A request that has not started is safe, whatever is known beforehand. -/
theorem app_safe {settings : Settings} {req : Request} {F₀ : Fact} {i : Rid} {w : World}
    (hF : F₀.holds [] w.db) (htx : NotMine i w) (hown : w.own i = []) :
    Safe controller (requestContract settings req i) i
      (Leaves controller (requestContract settings req i) i (Ended settings req F₀ i))
      (app settings req) [] {} w :=
  (app_does settings req i F₀).conseq (fun _ _ _ ha => ha) (fun _ _ _ _ hf => hf.leaves)
    [] {} w ⟨rfl, htx, hown, hF⟩

/-- The contracts of all requests. -/
abbrev contracts (settings : Settings) (reqs : Rid → Request) :
    Rid → Contract Call Ans Exc Session World :=
  fun i => requestContract settings (reqs i) i

variable {settings : Settings} {reqs : Rid → Request} {w₀ : World}
  {ls ls' : List (Label Call Ans Exc Rid Env)} {lab : Label Call Ans Exc Rid Env}
  {c c' : Cfg Call Ans Exc Response Rid Session World}

/-- Every request of the server keeps to its contract from the start. -/
theorem serving_allSafe (hw : w₀.Fresh) :
    AllSafe controller (contracts settings reqs)
      (fun i => Ended settings (reqs i) .nothing i) [] (serving settings reqs w₀) := by
  intro i
  refine app_safe trivial (fun t ht => ?_) ?_
  · rw [show (serving settings reqs w₀).world = w₀ from rfl, hw.tx] at ht
    exact absurd ht (by simp)
  · show w₀.own i = []
    unfold World.own
    rw [hw.journal]
    rfl

/-- **What an answered request did.** -/
theorem serving_outcome (hw : w₀.Fresh) (h : Run settings reqs w₀ ls c) {i : Rid}
    {r : Except Exc Response} (hd : (c.party i).status = .done r) :
    Outcome settings (reqs i) .nothing (acts i ls) c.world.db r (c.world.own i) :=
  (h.allSafe (requestContract_compatible settings reqs) (serving_allSafe hw)).done
    (requestContract_compatible settings reqs) hd

/-- **What a move does**: a request keeps its guarantee, the environment
touches neither database nor journal. -/
theorem serving_step (hw : w₀.Fresh) (h : Run settings reqs w₀ ls c)
    (hs : Step controller c lab c') :
    (∃ i, lab.by? = some i ∧ Guar settings (reqs i) i c.world c'.world) ∨
    (lab.by? = none ∧ c'.world.db = c.world.db ∧ c'.world.journal = c.world.journal) := by
  have hok := h.moveOk (requestContract_compatible settings reqs) (serving_allSafe hw) hs
  rcases hby : lab.by? with _ | i
  · right
    obtain ⟨e, rfl, rfl⟩ := hs.eq_env hby
    cases e <;> exact ⟨rfl, rfl, rfl⟩
  · exact .inl ⟨i, rfl, hok i hby⟩

/-- A move that is not its own is one request `i` relies on. -/
theorem serving_rely (hw : w₀.Fresh) (h : Run settings reqs w₀ ls c)
    (hs : Step controller c lab c') {i : Rid} (hby : lab.by? ≠ some i) :
    Rely i c.world c'.world := by
  rcases serving_step hw h hs with ⟨j, hj, hg⟩ | ⟨hnone, -, -⟩
  · exact hg.rely fun he => hby (hj.trans (congrArg some he.symm))
  · obtain ⟨e, -, rfl⟩ := hs.eq_env hnone
    exact (requestContract_compatible settings reqs).env i e _

/-- A move commits nothing or one transaction of the request that made it. -/
theorem serving_commit (hw : w₀.Fresh) (h : Run settings reqs w₀ ls c)
    (hs : Step controller c lab c') :
    (c'.world.db = c.world.db ∧ c'.world.journal = c.world.journal) ∨
    ∃ i kind ws, lab.by? = some i ∧ Txn settings (reqs i) kind ws ∧ Grounded c.world.db ws ∧
      c.world.db.applyAll ws = some c'.world.db ∧
      c'.world.journal = c.world.journal ++ [(i, ws)] := by
  rcases serving_step hw h hs with ⟨i, hby, hg⟩ | ⟨-, hdb, hj⟩
  · rcases hg.change with hsame | ⟨kind, ws, ht, hgr, ha, hj, -⟩
    · exact .inl hsame
    · exact .inr ⟨i, kind, ws, hby, ht, hgr, ha, hj⟩
  · exact .inl ⟨hdb, hj⟩

/-- An invariant of the committed state and the journal: each transaction
keeps it, so every run does. -/
theorem serving_invariant {P : Database → List (Rid × List Write) → Prop} (hw : w₀.Fresh)
    (h₀ : P w₀.db [])
    (hstep : ∀ i kind ws d d' j, Txn settings (reqs i) kind ws → Grounded d ws →
      d.applyAll ws = some d' → P d j → P d' (j ++ [(i, ws)]))
    (h : Run settings reqs w₀ ls c) : P c.world.db c.world.journal := by
  induction h with
  | refl =>
    show P w₀.db w₀.journal
    rw [hw.journal]
    exact h₀
  | @snoc c₁ c₂ ls lab h hs ih =>
    rcases serving_commit hw h hs with ⟨hdb, hj⟩ | ⟨i, kind, ws, -, ht, hg, ha, hj⟩
    · rw [hdb, hj]
      exact ih
    · rw [hj]
      exact hstep i kind ws _ _ _ ht hg ha ih

/-! ## Over the rest of a run -/

/-- Rows live on, and the journal only grows. -/
theorem serving_grows (hw : w₀.Fresh) (h : Run settings reqs w₀ ls c)
    (h' : Steps controller c ls' c') :
    Evolves c.world.db c'.world.db ∧ c.world.journal <+: c'.world.journal := by
  induction h' with
  | refl => exact ⟨.refl _, List.prefix_rfl⟩
  | @snoc c₁ c₂ ls₁ lab h₁ hs ih =>
    obtain ⟨he, hp⟩ := ih
    rcases serving_commit hw (h.trans h₁) hs with ⟨hdb, hj⟩ | ⟨i, kind, ws, -, ht, hg, ha, hj⟩
    · rw [hdb, hj]
      exact ⟨he, hp⟩
    · refine ⟨he.trans (ht.evolves hg ha), hp.trans ?_⟩
      rw [hj]
      exact List.prefix_append _ _

theorem own_grows {w w' : World} (h : w.journal <+: w'.journal) (i : Rid) :
    w.own i <+: w'.own i :=
  (h.filter _).map _

/-- In the run from `w₀` to `c`, request `i` makes the move from `m` to `m'`. -/
def Moves (settings : Settings) (reqs : Rid → Request) (w₀ : World)
    (ls : List (Label Call Ans Exc Rid Env)) (c : Cfg Call Ans Exc Response Rid Session World)
    (i : Rid) (m m' : Cfg Call Ans Exc Response Rid Session World) : Prop :=
  ∃ front lab rest, ls = front ++ lab :: rest ∧ lab.by? = some i ∧ Run settings reqs w₀ front m ∧
    Step controller m lab m' ∧ Steps controller m' rest c

/-- What a request has changed of the committed state, it shows in its own
part of the journal from then on. -/
theorem Moves.own {i : Rid} {m m' : Cfg Call Ans Exc Response Rid Session World} (hw : w₀.Fresh)
    (h : Moves settings reqs w₀ ls c i m m') :
    m'.world.db = m.world.db ∨
    ∃ kind ws, ws ∈ c.world.own i ∧ Txn settings (reqs i) kind ws ∧ Grounded m.world.db ws ∧
      m.world.db.applyAll ws = some m'.world.db := by
  obtain ⟨front, lab, rest, -, hby, hfront, hs, hrest⟩ := h
  rcases serving_commit hw hfront hs with ⟨hdb, -⟩ | ⟨j, kind, ws, hj, ht, hg, ha, hjour⟩
  · exact .inl hdb
  · obtain rfl : i = j := Option.some.inj (hby.symm.trans hj)
    refine .inr ⟨kind, ws, ?_, ht, hg, ha⟩
    have hgrow := (serving_grows hw (hfront.snoc hs) hrest).2
    refine (own_grows hgrow i).subset ?_
    rw [own_commit hjour, if_pos rfl]
    exact List.mem_append_right _ (List.mem_singleton_self ws)

/-- The audit table is what was there, and the audit rows of the journal. -/
theorem serving_events (hw : w₀.Fresh) (h : Run settings reqs w₀ ls c) :
    c.world.db.events.rows
      = w₀.db.events.rows ++ (c.world.journal.flatMap Prod.snd).filterMap Write.event? := by
  refine serving_invariant (P := fun d j =>
    d.events.rows = w₀.db.events.rows ++ (j.flatMap Prod.snd).filterMap Write.event?) hw (by simp)
    ?_ h
  intro i kind ws d d' j _ _ ha hP
  rw [(Database.applyAll_rows ha).2, hP]
  simp

/-- A committed audit row stays. -/
theorem event_of_own (hw : w₀.Fresh) (h : Run settings reqs w₀ ls c) {i : Rid} {ws : List Write}
    (hws : ws ∈ c.world.own i) {e : AuditEvent} (he : .insertEvent e ∈ ws) :
    e ∈ c.world.db.events.rows := by
  obtain ⟨⟨j, ws'⟩, hj, rfl⟩ := List.mem_map.mp hws
  rw [serving_events hw h]
  refine List.mem_append_right _ (List.mem_filterMap.mpr ⟨.insertEvent e, ?_, rfl⟩)
  exact List.mem_flatMap.mpr ⟨_, (List.mem_filter.mp hj).1, he⟩

/-! ## Failing calls -/

private theorem site_of_serve_error {i : Rid} {d : Call} {l l' : Session} {w w' : World} {e : Exc}
    (h : serve i d l w = (.error e, l', w')) : d.site? ≠ none := by
  cases d with
  | flush => simp [Call.site?]
  | commit => simp [Call.site?]
  | refresh id => simp [Call.site?]
  | selectNode nodeId => simp [Call.site?]
  | selectNodes => simp [Call.site?]
  | selectEvents q => simp [Call.site?]
  | note n => simp [serve] at h
  | utcnow => simp [serve] at h
  | isRevoked n => simp [serve] at h
  | add obj => simp [serve] at h

/-- In a run only calls to the database have failed. -/
theorem serving_sessionFails (h : Run settings reqs w₀ ls c) (i : Rid) :
    SessionFails (acts i ls) := by
  intro d e hd
  obtain ⟨h₁, h₂, hcut⟩ := List.append_of_mem hd
  obtain ⟨front, rest, he, -, -⟩ := acts_cut hcut
  obtain ⟨m, m', -, hs, -⟩ := h.of_mem he
  cases hs with
  | raised _ hr =>
    rcases raises_cases hr with hserve | ⟨site, hsite, -⟩
    · exact site_of_serve_error hserve
    · rw [hsite]
      simp

/-- A flush fails for the lock or for the unique index. -/
private theorem flushSession_error {i : Rid} {l l' : Session} {w w' : World} {e : Exc}
    (h : flushSession i l w = (.error e, l', w')) : e = .locked ∨ e = .integrity := by
  unfold flushSession at h
  split at h
  next => simp at h
  next =>
    split at h
    next =>
      obtain ⟨rfl, -⟩ : Exc.locked = e ∧ _ := by simpa using h
      exact .inl rfl
    next =>
      split at h
      next =>
        obtain ⟨rfl, -⟩ : Exc.integrity = e ∧ _ := by simpa using h
        exact .inr rfl
      next => simp at h

/-- What a call answers with an exception: a lock that somebody holds, a
constraint, or a row to refresh that is not there. -/
theorem serve_raises {i : Rid} {d : Call} {l l' : Session} {w w' : World} {e : Exc}
    (h : serve i d l w = (.error e, l', w')) :
    e = .locked ∨ e = .integrity ∨ (∃ id, d = .refresh id) ∧ e = .notPersistent := by
  rcases d.quiet_or with hq | ⟨obj, rfl⟩ | rfl | rfl | ⟨id, rfl⟩
  · obtain ⟨x, ns, hx⟩ := serve_quiet hq i l w
    rw [hx] at h
    simp at h
  · simp [serve] at h
  · exact (flushSession_error h).imp_right .inl
  · exact (flushSession_error (commitSession_error h)).imp_right .inl
  · exact .inr (.inr ⟨⟨id, rfl⟩, (refresh_error h).1⟩)

/-- What a call other than the read after the commit fails with. -/
theorem serving_raised (h : Run settings reqs w₀ ls c) {i : Rid} {d : Call} {e : Exc}
    (hd : .call i ⟨d, .error e⟩ ∈ ls) (hne : ∀ id, d ≠ .refresh id) :
    e.BeforeCommit ∨ e = .integrity := by
  obtain ⟨front, rest, he⟩ := List.append_of_mem hd
  obtain ⟨m, m', -, hs, -⟩ := h.of_mem he
  cases hs with
  | raised _ hr =>
    rcases raises_cases hr with hserve | ⟨site, hsite, rfl, -⟩
    · rcases serve_raises hserve with he | he | ⟨⟨id, hid⟩, -⟩
      · exact .inl (.inl he)
      · exact .inr he
      · exact absurd hid (hne id)
    · refine .inl (.inr ⟨site, ?_, rfl⟩)
      rintro rfl
      cases d <;> simp [Call.site?] at hsite hne

/-- Whatever a call fails with, the client is answered 500. -/
theorem serving_raised_status (h : Run settings reqs w₀ ls c) {i : Rid} {d : Call} {e : Exc}
    (hd : .call i ⟨d, .error e⟩ ∈ ls) : e.status = 500 := by
  obtain ⟨front, rest, he⟩ := List.append_of_mem hd
  obtain ⟨m, m', -, hs, -⟩ := h.of_mem he
  cases hs with
  | raised _ hr =>
    rcases raises_cases hr with hserve | ⟨site, -, rfl, -⟩
    · rcases serve_raises hserve with rfl | rfl | ⟨-, rfl⟩ <;> rfl
    · rfl

/-- An answered request came to its result along its history. -/
theorem serving_reaches (h : Run settings reqs w₀ ls c) {i : Rid} {r : Except Exc Response}
    (hd : (c.party i).status = .done r) :
    ∃ q, (app settings (reqs i)).Reaches (acts i ls) q ∧ q.result? = some r := by
  have hat := h.reaches (i := i) (p := app settings (reqs i)) rfl
  rw [hd] at hat
  exact hat

/-- Answered or not, it stands where its history leads. -/
theorem serving_party (h : Run settings reqs w₀ ls c) (i : Rid) :
    ∃ q, (app settings (reqs i)).Reaches (acts i ls) q := by
  have hat : Party.At (app settings (reqs i)) (acts i ls) (c.party i).status := h.reaches rfl
  unfold Party.At at hat
  rcases hst : (c.party i).status with q | r
  · rw [hst] at hat
    exact ⟨q, hat⟩
  · rw [hst] at hat
    obtain ⟨q, hq, -⟩ := hat
    exact ⟨q, hq⟩

/-- A call that raised decided the result. -/
theorem serving_result_of_raised (h : Run settings reqs w₀ ls c) {i : Rid} {d : Call} {e : Exc}
    {r : Except Exc Response} (hf : .call i ⟨d, .error e⟩ ∈ ls)
    (hd : (c.party i).status = .done r) : r = .error e := by
  obtain ⟨q, hr, hq⟩ := serving_reaches h hd
  rw [hr.eq_throw (mem_acts.mpr hf)] at hq
  exact (Option.some.inj hq).symm

/-! ## What a lookup sees -/

/-- After a commit no transaction is left open. -/
theorem notMine_commitTx (i : Rid) (w : World) : NotMine i (w.commitTx i) := by
  intro t ht
  unfold World.commitTx at ht
  rcases htx : w.tx with _ | t'
  · rw [htx] at ht
    rw [show w.tx = some t from ht] at htx
    exact absurd htx (by simp)
  · rw [htx] at ht
    by_cases ho : t'.owner = i
    · simp [ho] at ht
    · simp only [ho, if_false] at ht
      rw [htx] at ht
      rwa [← Option.some.inj ht]

private theorem flushSession_rollback {i : Rid} {l l' : Session} {w w' : World} {e : Exc}
    (h : flushSession i l w = (.error e, l', w')) : (l', w') = ({}, w.rollback i) := by
  unfold flushSession at h
  split at h
  next => simp at h
  next =>
    split at h
    next => exact (congrArg Prod.snd h).symm
    next =>
      split at h
      next => exact (congrArg Prod.snd h).symm
      next => simp at h

/-- The line a call logs, or the counter it bumps. -/
def Act.note? : Act Call Ans Exc → Option Note
  | ⟨.note n, .ok _⟩ => some n
  | _ => none

private theorem flushSession_frame (i : Rid) (l : Session) (w : World) :
    ∃ tx, (flushSession i l w).2.2 = { w with tx := tx } := by
  unfold flushSession
  split
  next => exact ⟨_, rfl⟩
  next =>
    split
    next => exact ⟨_, rfl⟩
    next =>
      split
      next => exact ⟨_, rfl⟩
      next => exact ⟨_, rfl⟩

/-- A commit changes nothing but the database, the transaction and the
journal. -/
private theorem commitTx_frame (i : Rid) (w : World) :
    ∃ db tx journal, w.commitTx i = { w with db := db, tx := tx, journal := journal } := by
  unfold World.commitTx
  split
  next =>
    split
    next => exact ⟨_, _, _, rfl⟩
    next => exact ⟨_, _, _, rfl⟩
  next => exact ⟨_, _, _, rfl⟩

/-- A call touches the database, its transaction and the log, nothing else. -/
theorem serve_frame {i : Rid} {d : Call} {l l' : Session} {w w' : World} {x : Except Exc (Ans d)}
    (h : serve i d l w = (x, l', w')) :
    ∃ db tx journal, w' =
      { w with
        db := db, tx := tx, journal := journal, notes := w.notes ++ (Act.note? ⟨d, x⟩).toList } := by
  have hworld : (serve i d l w).2.2 = w' := by rw [h]
  -- a call that is no note leaves the notes alone
  have hsame : ∀ {w₁ : World}, Act.note? ⟨d, x⟩ = none →
      (∃ db tx journal, w₁ = { w with db := db, tx := tx, journal := journal }) →
      ∃ db tx journal, w₁ =
        { w with
          db := db, tx := tx, journal := journal, notes := w.notes ++ (Act.note? ⟨d, x⟩).toList } := by
    rintro w₁ hnone ⟨db, tx, journal, rfl⟩
    exact ⟨db, tx, journal, by simp [hnone]⟩
  rw [← hworld]
  cases d with
  | note n =>
    obtain ⟨rfl, -⟩ : Except.ok () = x ∧ _ := by simpa [serve] using h
    exact ⟨_, _, _, rfl⟩
  | flush =>
    obtain ⟨tx, hf⟩ := flushSession_frame i l w
    exact hsame rfl ⟨_, _, _, hf⟩
  | commit =>
    refine hsame rfl ?_
    obtain ⟨tx, hf⟩ := flushSession_frame i l w
    show ∃ db tx journal, (commitSession i l w).2.2 = _
    unfold commitSession
    split
    next hs =>
      rw [hs] at hf
      obtain rfl : _ = { w with tx := tx } := hf
      exact commitTx_frame i _
    next hs =>
      rw [hs] at hf
      exact ⟨_, _, _, hf⟩
  | refresh id =>
    refine hsame rfl ?_
    rcases hf : (w.view i).nodes.rows.find? (fun n => decide (Record.pk n = id)) with _ | n
    · simp only [serve, hf]
      exact ⟨_, _, _, rfl⟩
    · simp only [serve, hf]
      exact ⟨_, _, _, rfl⟩
  | _ => exact hsame rfl ⟨_, _, _, rfl⟩

/-- A call that raises rolls back, and the session is empty. -/
theorem raises_rollback {i : Rid} {d : Call} {l l' : Session} {w w' : World} {e : Exc}
    (h : controller.Raises i d l w e l' w') : l' = {} ∧ w' = w.rollback i := by
  rw [← Prod.mk.injEq]
  rcases raises_cases h with hserve | ⟨-, -, -, rfl, rfl⟩
  · rcases d.quiet_or with hq | ⟨obj, rfl⟩ | rfl | rfl | ⟨id, rfl⟩
    · obtain ⟨x, ns, hx⟩ := serve_quiet hq i l w
      rw [hx] at hserve
      simp at hserve
    · simp [serve] at hserve
    · exact flushSession_rollback hserve
    · exact flushSession_rollback (commitSession_error hserve)
    · obtain ⟨-, rfl, rfl⟩ := refresh_error hserve
      rfl
  · rfl

/-- Only a flush opens a transaction. -/
private theorem serve_tx {i : Rid} {d : Call} {l l' : Session} {w w' : World} {x : Ans d} {t : Tx}
    (h : serve i d l w = (.ok x, l', w')) (ht : w'.tx = some t) (hi : t.owner = i) :
    w.tx = some t ∨ d = .flush := by
  rcases d.quiet_or with hq | ⟨obj, rfl⟩ | rfl | rfl | ⟨id, rfl⟩
  · obtain ⟨y, ns, hy⟩ := serve_quiet hq i l w
    rw [hy] at h
    obtain rfl : { w with notes := w.notes ++ ns } = w' := congrArg (fun r => r.2.2) h
    exact .inl ht
  · obtain rfl : w = w' := congrArg (fun r => r.2.2) h
    exact .inl ht
  · exact .inr rfl
  · obtain ⟨ids, w₁, -, rfl⟩ := commitSession_ok h
    exact absurd hi (notMine_commitTx i _ t ht)
  · obtain ⟨-, -, rfl⟩ := refresh_ok h
    exact .inl ht

/-- An open transaction has been flushed by its owner. -/
theorem serving_tx (hw : w₀.Fresh) (h : Run settings reqs w₀ ls c) {t : Tx}
    (ht : c.world.tx = some t) : ∃ ids, .call t.owner ⟨.flush, .ok ids⟩ ∈ ls := by
  induction h with
  | refl =>
    have hnone : (serving settings reqs w₀).world.tx = none := hw.tx
    rw [hnone] at ht
    exact absurd ht (by simp)
  | @snoc c₁ c₂ ls lab h hs ih =>
    have hold : c₁.world.tx = some t → ∃ ids, .call t.owner ⟨.flush, .ok ids⟩ ∈ ls ++ [lab] :=
      fun htx => (ih htx).imp fun ids hm => List.mem_append_left _ hm
    have hrollback : ∀ {w : World} {i : Rid}, (w.rollback i).tx = some t → w.tx = some t :=
      fun hr => (Option.filter_eq_some_iff.mp hr).1
    rcases serving_step hw h hs with ⟨i, hby, hg⟩ | ⟨hby, -, -⟩
    · -- only the owner moves its own transaction
      by_cases hi : t.owner = i
      · -- the owner itself has moved
        cases hs with
        | @served j d k x l' w' hp hserve =>
          obtain rfl : j = i := Option.some.inj hby
          rcases serve_tx hserve ht hi with htx | rfl
          · exact hold htx
          · exact ⟨x, List.mem_append_right _ (by rw [hi]; exact List.mem_singleton_self _)⟩
        | raised _ hr =>
          obtain rfl : _ = i := Option.some.inj hby
          rw [Cfg.set_world, (raises_rollback hr).2] at ht
          exact hold (hrollback ht)
        | exited => exact hold (hrollback ht)
        | env e => simp [Label.by?] at hby
      · exact hold ((hg.others t hi).mp ht)
    · obtain ⟨e, rfl, rfl⟩ := hs.eq_env hby
      cases e <;> exact hold ht

/-- **A lookup sees the committed rows**: its request has sent nothing yet. -/
theorem serving_select (hw : w₀.Fresh) (h : Run settings reqs w₀ ls c) {i : Rid} {nodeId : String}
    {rows : List Node} (hs : Step controller c (.call i ⟨.selectNode nodeId, .ok rows⟩) c') :
    rows = c.world.db.nodes.rows.filter fun n => decide (n.nodeId = nodeId) := by
  have hat : Party.At (app settings (reqs i)) (acts i ls) (c.party i).status := h.reaches rfl
  cases hs with
  | @served _ _ k _ _ _ hp hserve =>
    rw [hp] at hat
    have hat : (app settings (reqs i)).Reaches (acts i ls) (.call (.selectNode nodeId) k) := hat
    obtain ⟨identity, ha⟩ := app_select_admitted hat
    have hcalls := ha.calls (serving_sessionFails h i)
    -- all it has called so far are notes and its one check
    have hmine : NotMine i c.world := by
      intro t ht hi
      obtain ⟨ids, hflush⟩ := serving_tx hw h ht
      rw [hi] at hflush
      rcases hcalls _ (mem_acts.mpr hflush) with hn | ⟨n, hn⟩
      · exact hn
      · exact absurd hn (by simp)
    have hrows : (c.world.view i).nodes.rows.filter (fun n => decide (Record.key n = nodeId))
        = rows := Except.ok.inj (congrArg Prod.fst hserve)
    rw [NotMine.view_eq hmine] at hrows
    exact hrows.symm

/-- What it finds is stored, under the name it asked for. -/
theorem serving_found (hw : w₀.Fresh) (h : Run settings reqs w₀ ls c) {i : Rid} {nodeId : String}
    {row : Node} (hs : Step controller c (.call i ⟨.selectNode nodeId, .ok [row]⟩) c') :
    row ∈ c.world.db.nodes.rows ∧ row.nodeId = nodeId := by
  have hin : row ∈ c.world.db.nodes.rows.filter fun n => decide (n.nodeId = nodeId) := by
    rw [← serving_select hw h hs]
    exact List.mem_singleton_self row
  obtain ⟨hmem, hid⟩ := List.mem_filter.mp hin
  exact ⟨hmem, of_decide_eq_true hid⟩

/-! ## Requests that start later -/

/-- A request that has not moved stands where it was handed over. -/
theorem serving_unmoved (h : Run settings reqs w₀ ls c) {i : Rid}
    (hi : ∀ lab ∈ ls, lab.by? ≠ some i) : c.party i = ⟨{}, .running (app settings (reqs i))⟩ := by
  induction h with
  | refl => rfl
  | @snoc c₁ c₂ ls lab _ hs ih =>
    rw [hs.party_ne (hi lab (List.mem_append_right _ (List.mem_singleton_self _)))]
    exact ih fun lab' hlab => hi lab' (List.mem_append_left _ hlab)

/-- A request that has not moved has committed nothing. -/
theorem own_unmoved (hw : w₀.Fresh) (h : Run settings reqs w₀ ls c) {i : Rid}
    (hi : ∀ lab ∈ ls, lab.by? ≠ some i) : c.world.own i = [] := by
  induction h with
  | refl =>
    show w₀.own i = []
    unfold World.own
    rw [hw.journal]
    rfl
  | @snoc c₁ c₂ ls lab h hs ih =>
    have hold := ih fun lab' hlab => hi lab' (List.mem_append_left _ hlab)
    rcases serving_commit hw h hs with ⟨-, hj⟩ | ⟨j, kind, ws, hby, -, -, -, hj⟩
    · rw [own_eq hj]
      exact hold
    · have hne : j ≠ i := fun he =>
        hi lab (List.mem_append_right _ (List.mem_singleton_self _)) (he ▸ hby)
      rw [own_commit hj, if_neg hne, List.append_nil]
      exact hold

/-- A request that has not moved has no transaction open. -/
theorem notMine_unmoved (hw : w₀.Fresh) (h : Run settings reqs w₀ ls c) {i : Rid}
    (hi : ∀ lab ∈ ls, lab.by? ≠ some i) : NotMine i c.world := by
  intro t ht ho
  obtain ⟨ids, hflush⟩ := serving_tx hw h ht
  exact hi _ hflush (congrArg some ho)

/-- What was known when a request started, in the middle of a run, can be used
in saying how it ended. -/
theorem serving_outcome_from (hw : w₀.Fresh) {F₀ : Fact} {i : Rid} (h : Run settings reqs w₀ ls c)
    (hi : ∀ lab ∈ ls, lab.by? ≠ some i) (hF : F₀.holds [] c.world.db)
    (h' : Steps controller c ls' c') {r : Except Exc Response}
    (hd : (c'.party i).status = .done r) :
    Outcome settings (reqs i) F₀ (acts i (ls ++ ls')) c'.world.db r (c'.world.own i) := by
  have hK := requestContract_compatible settings reqs
  have hall := h.allSafe hK (serving_allSafe hw)
  rw [List.nil_append] at hall
  have hacts : acts i ls = [] := by
    refine List.eq_nil_iff_forall_not_mem.mpr fun a ha => ?_
    exact hi _ (mem_acts.mp ha) rfl
  -- the logic is started again at `c`, where more is known for `i`
  let known : Rid → Fact := fun j => if j = i then F₀ else .nothing
  have hknown : known i = F₀ := if_pos rfl
  have hsafe : AllSafe controller (contracts settings reqs)
      (fun j => Ended settings (reqs j) (known j) j) ls c := by
    intro j
    by_cases hj : j = i
    · subst hj
      show PartySafe controller _ j (Ended settings (reqs j) (known j) j) _ _ _
      rw [hknown, hacts, serving_unmoved h hi]
      exact app_safe hF (notMine_unmoved hw h hi) (own_unmoved hw h hi)
    · have hnothing : known j = .nothing := if_neg hj
      show PartySafe controller _ j (Ended settings (reqs j) (known j) j) _ _ _
      rw [hnothing]
      exact hall j
  have hend : Ended settings (reqs i) (known i) i r _ _ _ := (h'.allSafe hK hsafe).done hK hd
  rw [hknown] at hend
  exact hend

/-! ## The revocation cache -/

/-- The refresh cycles of a trace. -/
def crls (ls : List (Label Call Ans Exc Rid Env)) : List CrlAnswer :=
  ls.filterMap fun
    | .env (.crl answer) => some answer
    | _ => none

/-- The cache is what the cycles so far have made of the one at the start. -/
theorem serving_cache (hw : w₀.Fresh) (h : Run settings reqs w₀ ls c) :
    c.world.revokedSerials = (crls ls).foldl crlCycle w₀.revokedSerials := by
  induction h with
  | refl => rfl
  | @snoc c₁ c₂ ls lab h hs ih =>
    have hfold : (crls (ls ++ [lab])).foldl crlCycle w₀.revokedSerials
        = (crls [lab]).foldl crlCycle c₁.world.revokedSerials := by
      rw [ih]
      unfold crls
      rw [List.filterMap_append, List.foldl_append]
    rw [hfold]
    rcases serving_step hw h hs with ⟨i, hby, hg⟩ | ⟨hby, -, -⟩
    · rw [hg.cache]
      cases lab with
      | call j a => rfl
      | exit j => rfl
      | env e => simp [Label.by?] at hby
    · obtain ⟨e, rfl, rfl⟩ := hs.eq_env hby
      cases e <;> rfl

/-- **The check sees the last good CRL** of the cycles before it. -/
theorem serving_check (h : Run settings reqs .start ls c) {i : Rid} {n : Int} {b : Bool}
    {ls₁ ls₂ : List (Label Call Ans Exc Rid Env)}
    (he : ls = ls₁ ++ .call i ⟨.isRevoked n, .ok b⟩ :: ls₂) :
    b = decide (n ∈ lastGood (crls ls₁)) := by
  obtain ⟨m, m', h₁, hs, -⟩ := h.of_mem he
  have hcache : m.world.revokedSerials = lastGood (crls ls₁) :=
    (serving_cache World.start_fresh h₁).trans (crlCache_eq_lastGood _)
  cases hs with
  | served hp hserve =>
    have hb : isRevoked m.world.revokedSerials n = b := by
      have hok := congrArg Prod.fst hserve
      exact Except.ok.inj hok
    rw [← hb, hcache]
    rfl

end ZeroTrustLab.Controller
