import ZeroTrustLab.Controller.Readback

/-!
# The numbers of the rows

A row gets its primary key when its statement is sent, inside a transaction
that may yet be rolled back, and the number is then given again. Nobody else
can have sent one in between, for there is one write lock. So the numbers of the
committed rows have no gaps, and they are the order of the commits
(`serving_numbered`): the audit table is a list that only grows at its end, whose
row number `k` is the `k`-th event that was committed, and a node keeps the
number and the name it was given.

The invariant is about tables alone: a table is dense when its rows bear the
numbers from one on. An insertion under the next number keeps that, an update
keeps it, and a rollback falls back on a database that was dense before.
SQLite's own rule, one more than the largest number in the table, gives the
same numbers, for no row is ever deleted.
-/

namespace ZeroTrustLab.Controller

open Lib

variable {settings : Settings} {reqs : Rid → Request} {w₀ : World}
  {ls ls' : List (Label Call Ans Exc Rid Env)}
  {c c' : Cfg Call Ans Exc Response Rid Session World} {i : Rid} {l l' : Session} {w w' : World}

/-- Both tables are numbered without a gap. -/
structure Database.Numbered (db : Database) : Prop where
  nodes : db.nodes.Dense
  events : db.events.Dense

theorem Database.numbered_empty : Database.empty.Numbered := ⟨Table.dense_empty, Table.dense_empty⟩

/-- A statement gives the next number, or none. -/
theorem Database.Numbered.apply {db db' : Database} (h : db.Numbered) {p : Pending}
    (hp : db.apply (p.toWrite db) = some db') : db'.Numbered := by
  cases p with
  | node n =>
    obtain ⟨t, ht, rfl⟩ := Option.map_eq_some_iff.mp hp
    exact ⟨h.nodes.insert (Record.pk_setPk _ _) ht, h.events⟩
  | dirty loaded current =>
    obtain ⟨t, ht, rfl⟩ := Option.map_eq_some_iff.mp hp
    exact ⟨h.nodes.update (f := Node.changed loaded current) (fun _ => rfl) ht, h.events⟩
  | event e =>
    obtain ⟨t, ht, rfl⟩ := Option.map_eq_some_iff.mp hp
    exact ⟨h.nodes, h.events.insert (Record.pk_setPk _ _) ht⟩

/-- A flush gives each new row the next number. -/
theorem Database.Numbered.flush {db db' : Database} {ps : List Pending} {ws : List Write}
    (h : db.Numbered) (hf : db.flush ps = some (db', ws)) : db'.Numbered := by
  induction ps generalizing db ws with
  | nil =>
    obtain ⟨rfl, -⟩ := Prod.mk.inj (Option.some.inj hf)
    exact h
  | cons p ps ih =>
    obtain ⟨d, hd, hrest⟩ := Option.bind_eq_some_iff.mp hf
    obtain ⟨⟨d', ws'⟩, hflush, he⟩ := Option.map_eq_some_iff.mp hrest
    obtain ⟨rfl, -⟩ := Prod.mk.inj he
    exact ih (h.apply hd) hflush

/-- Ids are given without a gap in what is committed, and in the open
transaction, if there is one. -/
structure World.Numbered (w : World) : Prop where
  db : w.db.Numbered
  tx : ∀ t, w.tx = some t → t.view.Numbered

/-- A rollback takes numbers back that nothing committed carries. -/
theorem World.Numbered.rollback (h : w.Numbered) (i : Rid) : (w.rollback i).Numbered :=
  ⟨h.db, fun t ht => h.tx t (Option.filter_eq_some_iff.mp ht).1⟩

/-- What a transaction begins with is numbered without a gap. -/
theorem World.Numbered.begin (h : w.Numbered) {view : Database} {writes : List Write}
    (hb : w.begin i = some (view, writes)) : view.Numbered := by
  unfold World.begin at hb
  split at hb
  next t ht =>
    split at hb
    next =>
      obtain ⟨rfl, -⟩ := Prod.mk.inj (Option.some.inj hb)
      exact h.tx t ht
    next => simp at hb
  next =>
    obtain ⟨rfl, -⟩ := Prod.mk.inj (Option.some.inj hb)
    exact h.db

/-- Sending goes on from the numbers of the transaction. -/
theorem World.Numbered.flush (h : w.Numbered) {x : Except Exc (List Nat)}
    (hf : flushSession i l w = (x, l', w')) : w'.Numbered := by
  unfold flushSession at hf
  split at hf
  next =>
    obtain rfl : w = w' := congrArg (fun r => r.2.2) hf
    exact h
  next =>
    split at hf
    next =>
      obtain rfl : w.rollback i = w' := congrArg (fun r => r.2.2) hf
      exact h.rollback i
    next view writes hbegin =>
      split at hf
      next =>
        obtain rfl : w.rollback i = w' := congrArg (fun r => r.2.2) hf
        exact h.rollback i
      next view' writes' hflush =>
        obtain rfl : { w with tx := some ⟨i, view', writes ++ writes'⟩ } = w' :=
          congrArg (fun r => r.2.2) hf
        refine ⟨h.db, fun t ht => ?_⟩
        obtain rfl := Option.some.inj ht
        exact (h.begin hbegin).flush hflush

/-- The transaction becomes the committed state. -/
theorem World.Numbered.commitTx (h : w.Numbered) (i : Rid) : (w.commitTx i).Numbered := by
  unfold World.commitTx
  split
  next t ht =>
    split
    next => exact ⟨h.tx t ht, fun t' ht' => absurd ht' (by simp)⟩
    next => exact h
  next => exact h

/-- No call of the session leaves a gap. -/
theorem World.Numbered.serve (h : w.Numbered) {d : Call} {x : Ans d}
    (hs : Controller.serve i d l w = (.ok x, l', w')) : w'.Numbered := by
  rcases d.quiet_or with hq | ⟨obj, rfl⟩ | rfl | rfl | ⟨id, rfl⟩
  · obtain ⟨y, ns, hy⟩ := serve_quiet hq i l w
    rw [hy] at hs
    obtain rfl : { w with notes := w.notes ++ ns } = w' := congrArg (fun r => r.2.2) hs
    exact ⟨h.db, h.tx⟩
  · obtain rfl : w = w' := congrArg (fun r => r.2.2) hs
    exact h
  · exact h.flush hs
  · obtain ⟨ids, w₁, hf, rfl⟩ := commitSession_ok hs
    exact (h.flush hf).commitTx i
  · obtain ⟨-, -, rfl⟩ := refresh_ok hs
    exact h

/-- Every move keeps the numbering. -/
theorem World.Numbered.step {lab : Label Call Ans Exc Rid Env} (h : c.world.Numbered)
    (hs : Step controller c lab c') : c'.world.Numbered := by
  cases hs with
  | served hp hserve => exact h.serve hserve
  | raised hp hr =>
    rw [Cfg.set_world, (raises_rollback hr).2]
    exact h.rollback _
  | exited => exact h.rollback _
  | env e =>
    cases e with
    | tick now => exact ⟨h.db, h.tx⟩
    | crl answer => exact ⟨h.db, h.tx⟩

/-- In every run the numbers have no gap, in the open transaction either. -/
theorem serving_worldNumbered (hw : w₀.Fresh) (h₀ : w₀.db.Numbered) (h : Run settings reqs w₀ ls c) :
    c.world.Numbered := by
  induction h with
  | refl =>
    refine ⟨h₀, fun t ht => ?_⟩
    have hnone : (serving settings reqs w₀).world.tx = none := hw.tx
    rw [hnone] at ht
    exact absurd ht (by simp)
  | snoc _ hs ih => exact ih.step hs

/-- **The numbers are the order of the commits**, without a gap, whatever was
rolled back in between: the rows of either table bear one, two, three and so on.
An audit row stays what it is, where it is; a node row stays where it is. -/
theorem serving_numbered (hw : w₀.Fresh) (h₀ : w₀.db.Numbered) (h : Run settings reqs w₀ ls c)
    (h' : Steps controller c ls' c') :
    (∀ k e, c.world.db.events.rows[k]? = some e →
      e.id = some (k + 1) ∧ c'.world.db.events.rows[k]? = some e) ∧
    ∀ k r, c.world.db.nodes.rows[k]? = some r →
      r.id = some (k + 1) ∧ ∃ r', c'.world.db.nodes.rows[k]? = some r' ∧ Kept r r' := by
  have hnumbered := (serving_worldNumbered hw h₀ h).db
  refine ⟨fun k e he => ⟨hnumbered.events.pk_getElem? he, ?_⟩,
    fun k r hr => ⟨hnumbered.nodes.pk_getElem? hr, ?_⟩⟩
  · have hlt := (List.getElem?_eq_some_iff.mp he).1
    rw [List.prefix_iff_getElem?.mp (events_grow hw h h') k hlt, ← he, List.getElem?_eq_getElem hlt]
  · have hrow := List.mem_of_getElem? hr
    obtain ⟨r', hr', hk⟩ := (serving_grows hw h h').1 r hrow
    obtain ⟨k', hk'⟩ := List.getElem?_of_mem hr'
    -- its number says where it is
    have hplace : r'.id = some (k' + 1) :=
      (serving_worldNumbered hw h₀ (h.trans h')).db.nodes.pk_getElem? hk'
    have hsame : some (k' + 1) = some (k + 1) :=
      hplace.symm.trans (hk.id.trans (hnumbered.nodes.pk_getElem? hr))
    obtain rfl : k' = k := Nat.succ.inj (Option.some.inj hsame)
    exact ⟨r', hk', hk⟩

/-- A registration, and once more after it has failed. -/
def registersAgain : Rid → Request :=
  let registration : Event := .request ⟨nodeHeaders, .registerNode (some ⟨"pi-01",
    "pi-01.thesis.local", "sensor", .onboarding, none, none⟩)⟩
  arrivals [registration, registration]

/-- The first had sent its rows and was rolled back; the second is given their
numbers. -/
theorem numbered_again :
    ∃ ls c, Run {} registersAgain .start ls c ∧
      (∃ r, (c.party 0).status = .done r ∧ statusOf r = 500) ∧
      (c.world.db.events.rows.map AuditEvent.id) = [some 1] ∧
      ∀ k e, c.world.db.events.rows[k]? = some e →
        e.id = some (k + 1) ∧ c.world.db.events.rows[k]? = some e := by
  let sent := controller.play (serving {} registersAgain .start) (List.replicate 12 0)
  let failed := controller.fail sent.2 0
  let again := controller.play failed.2 (0 :: List.replicate 15 1)
  have hrun : Run {} registersAgain .start ((sent.1 ++ failed.1) ++ again.1) again.2 :=
    ((controller.play_steps _ _).trans (controller.fail_steps _ _)).trans (controller.play_steps _ _)
  have hstatus : (again.2.party 0).status.result?.map statusOf = some 500 := by decide +kernel
  obtain ⟨r, hr, hs⟩ := Option.map_eq_some_iff.mp hstatus
  exact ⟨_, _, hrun, ⟨r, Status.eq_done hr, hs⟩, by decide +kernel,
    (serving_numbered World.start_fresh Database.numbered_empty hrun (.refl _)).1⟩

end ZeroTrustLab.Controller
