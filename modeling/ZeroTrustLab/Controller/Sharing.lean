import ZeroTrustLab.Lib.Contract
import ZeroTrustLab.Controller.Transactions

/-!
# What concurrent requests rely on and guarantee

The contract of a request (`requestContract`), for the logic of
`Lib/Contract.lean`:

* it guarantees that each of its steps leaves the others' transaction and the
  revoked serials alone, and changes the committed state, if at all, by
  committing one of its transactions while nobody else holds the write lock;
* it relies on the others for what that implies: its own transaction and its
  own entries of the journal stay, nothing is committed while it holds the
  lock, and every stored row lives on.

`At` is the one assertion the proofs about handlers use: what the session has
pending, what has been sent, what was committed, and a `Fact`, which is
knowledge that neither the passage of time nor anybody else can take away (an
answer once given, a row once stored). The rules below are one for each kind
of call; with them, a handler's proof walks down its source.

Two facts make the contract go through. Between its first flush and its commit
a request holds the only write lock, so nobody can commit under it; and what it
knows of the tables is put in terms of what never changes in them. Failures are
steps like any other: a call that raises rolls back what the request has sent,
which is within its guarantee.
-/

namespace ZeroTrustLab.Controller

open Lib

/-- What a request has committed, in order. -/
def World.own (i : Rid) (w : World) : List (List Write) :=
  (w.journal.filter fun e => decide (e.1 = i)).map Prod.snd

/-- The request has no open transaction. -/
def NotMine (i : Rid) (w : World) : Prop := ∀ t, w.tx = some t → t.owner ≠ i

/-! ## The contract -/

/-- What the others may do while request `i` waits. -/
structure Rely (i : Rid) (w w' : World) : Prop where
  tx : ∀ t : Tx, t.owner = i → (w'.tx = some t ↔ w.tx = some t)
  db : ∀ t, w.tx = some t → t.owner = i → w'.db = w.db
  own : w'.own i = w.own i
  evolves : Evolves w.db w'.db

/-- A commit of request `i`. -/
def Commits (settings : Settings) (req : Request) (i : Rid) (w w' : World) : Prop :=
  ∃ kind ws, Txn settings req kind ws ∧ Grounded w.db ws ∧ w.db.applyAll ws = some w'.db ∧
    w'.journal = w.journal ++ [(i, ws)] ∧ ∀ t, w.tx = some t → t.owner = i

/-- What each step of request `i` does. -/
structure Guar (settings : Settings) (req : Request) (i : Rid) (w w' : World) : Prop where
  cache : w'.revokedSerials = w.revokedSerials
  others : ∀ t : Tx, t.owner ≠ i → (w'.tx = some t ↔ w.tx = some t)
  change : (w'.db = w.db ∧ w'.journal = w.journal) ∨ Commits settings req i w w'

def requestContract (settings : Settings) (req : Request) (i : Rid) :
    Contract Call Ans Exc Session World :=
  ⟨Rely i, fun _ _ w _ w' => Guar settings req i w w'⟩

/-- What a request guarantees lets the database only evolve. -/
theorem Guar.evolves {settings : Settings} {req : Request} {i : Rid} {w w' : World}
    (h : Guar settings req i w w') : Evolves w.db w'.db := by
  rcases h.change with ⟨hdb, -⟩ | ⟨_, _, ht, hg, ha, -, -⟩
  · exact .of_nodes_eq (by rw [hdb])
  · exact ht.evolves hg ha

/-- A transaction added to the journal belongs to the request it was added
for. -/
theorem own_append (i : Rid) (w : World) (j : List (Rid × List Write)) (e : Rid × List Write) :
    World.own i { w with journal := j ++ [e] }
      = World.own i { w with journal := j } ++ if e.1 = i then [e.2] else [] := by
  unfold World.own
  by_cases he : e.1 = i
  · simp [he]
  · simp [he]

/-- As long as the journal is the same, so are the transactions of each
request. -/
theorem own_eq {i : Rid} {w w' : World} (h : w'.journal = w.journal) : w'.own i = w.own i := by
  unfold World.own
  rw [h]

/-- A commit adds to the committer's own transactions and to nobody else's. -/
theorem own_commit {i j : Rid} {w w' : World} {ws : List Write}
    (h : w'.journal = w.journal ++ [(j, ws)]) :
    w'.own i = w.own i ++ if j = i then [ws] else [] := by
  have ha := own_append i w w.journal (j, ws)
  rw [← h] at ha
  exact ha

/-- What one request guarantees, another relies on. -/
theorem Guar.rely {settings : Settings} {req : Request} {i j : Rid} (hij : i ≠ j) {w w' : World}
    (h : Guar settings req j w w') : Rely i w w' where
  tx t ht := h.others t (ht ▸ hij)
  db t ht hi := by
    rcases h.change with ⟨hdb, -⟩ | ⟨_, _, -, -, -, -, hmine⟩
    · exact hdb
    · exact absurd (hi.symm.trans (hmine t ht)) hij
  own := by
    rcases h.change with ⟨-, hj⟩ | ⟨_, ws, -, -, -, hj, -⟩
    · exact own_eq hj
    · rw [own_commit hj, if_neg (Ne.symm hij), List.append_nil]
  evolves := h.evolves

/-- The contracts fit together. -/
theorem requestContract_compatible (settings : Settings) (reqs : Rid → Request) :
    Compatible controller fun i => requestContract settings (reqs i) i where
  refl i w := ⟨fun _ _ => .rfl, fun _ _ _ => rfl, rfl, .refl _⟩
  trans i w w' w'' h h' :=
    ⟨fun t ht => (h'.tx t ht).trans (h.tx t ht),
      fun t ht hi => (h'.db t ((h.tx t hi).mpr ht) hi).trans (h.db t ht hi),
      h'.own.trans h.own, h.evolves.trans h'.evolves⟩
  other i j hij _ _ _ _ _ hg := hg.rely hij
  env i e w := by
    -- neither touches what the relation is about
    cases e with
    | tick now => exact ⟨fun _ _ => .rfl, fun _ _ _ => rfl, rfl, .refl _⟩
    | crl answer => exact ⟨fun _ _ => .rfl, fun _ _ _ => rfl, rfl, .refl _⟩

/-! ## Facts -/

/-- Something known for good: more history and a further evolved database
keep it. -/
structure Fact where
  holds : History → Database → Prop
  mono : ∀ {h h' d d'}, holds h d → h <+: h' → Evolves d d' → holds h' d'

/-- The call was made and ended so. -/
def Fact.saw (a : Act Call Ans Exc) : Fact := ⟨fun h _ => a ∈ h, fun ha hh _ => hh.subset ha⟩

theorem Fact.saw_concat (a : Act Call Ans Exc) (h : History) (d : Database) :
    (Fact.saw a).holds (h ++ [a]) d :=
  List.mem_append_right _ (List.mem_singleton_self a)

/-- The row read earlier is still stored. -/
def Fact.stored (r : Node) : Fact := ⟨fun _ d => Stored d r, fun hs _ he => hs.evolves he⟩

def Fact.nothing : Fact := ⟨fun _ _ => True, fun _ _ _ => trivial⟩

def Fact.and (F G : Fact) : Fact :=
  ⟨fun h d => F.holds h d ∧ G.holds h d, fun hFG hh he => ⟨F.mono hFG.1 hh he, G.mono hFG.2 hh he⟩⟩

/-- An exception that a database call up to the commit raises, the violated
constraint apart. -/
def Exc.BeforeCommit (e : Exc) : Prop := e = .locked ∨ ∃ site, site ≠ .refresh ∧ e = .database site

/-- Such an exception ended the request. -/
def Fact.failed (e : Exc) : Fact :=
  ⟨fun h _ => e.BeforeCommit ∧ ∃ c, ⟨c, .error e⟩ ∈ h,
    fun ⟨hb, c, hc⟩ hh _ => ⟨hb, c, hh.subset hc⟩⟩

/-! ## The assertion -/

/-- The transaction of request `i` is what has been sent, seen on top of the
committed state; without anything sent there is none. -/
def Holds (i : Rid) : List Write → World → Prop
  | [], w => NotMine i w
  | held, w => ∃ view, w.tx = some ⟨i, view, held⟩ ∧ w.db.applyAll held = some view

/-- Where a request stands: committed, pending, sent, and known. -/
structure At (i : Rid) (own : List (List Write)) (pend : List Pending) (held : List Write)
    (F : Fact) (h : History) (l : Session) (w : World) : Prop where
  pending : l.pending = pend
  tx : Holds i held w
  own : w.own i = own
  fact : F.holds h w.db

/-- A database call raised before anything more was committed. -/
abbrev Aborted (i : Rid) (own : List (List Write)) (F : Fact) (e : Exc) :
    History → Session → World → Prop :=
  At i own [] [] (F.and (.failed e))

variable {settings : Settings} {req : Request} {i : Rid} {own : List (List Write)}
  {pend : List Pending} {held : List Write} {F G : Fact} {h : History} {l : Session} {w w' : World}

/-- The others do not open a transaction in one's name. -/
theorem NotMine.rely (hn : NotMine i w) (hr : Rely i w w') : NotMine i w' :=
  fun t ht hi => hn t ((hr.tx t hi).mp ht) hi

theorem At.weaken (ha : At i own pend held F h l w) (hFG : F.holds h w.db → G.holds h w.db) :
    At i own pend held G h l w :=
  ⟨ha.pending, ha.tx, ha.own, hFG ha.fact⟩

/-- What a request knows stays true while the others move. -/
theorem At.stable : Stable (requestContract settings req i) (At i own pend held F) := by
  intro h l w w' ha hr
  have hrely : Rely i w w' := hr
  refine ⟨ha.pending, ?_, hrely.own.trans ha.own, F.mono ha.fact List.prefix_rfl hrely.evolves⟩
  have htx := ha.tx
  cases held with
  | nil => exact NotMine.rely htx hrely
  | cons v vs =>
    -- while it holds the lock nobody commits, so its view stays one of `held`
    obtain ⟨view, ht, hview⟩ := htx
    exact ⟨view, (hrely.tx _ rfl).mpr ht, by rw [hrely.db _ ht rfl]; exact hview⟩

/-- A step that touches neither database, transaction nor journal. -/
theorem Guar.quiet (hc : w'.revokedSerials = w.revokedSerials) (ht : w'.tx = w.tx)
    (hdb : w'.db = w.db) (hj : w'.journal = w.journal) : Guar settings req i w w' :=
  ⟨hc, fun t _ => by rw [ht], .inl ⟨hdb, hj⟩⟩

/-- A rollback is within what a request guarantees. -/
theorem Guar.rollback : Guar settings req i w (w.rollback i) := by
  refine ⟨rfl, fun t ht => ?_, .inl ⟨rfl, rfl⟩⟩
  unfold World.rollback
  rcases htx : w.tx with _ | t'
  · simp
  · by_cases ho : t'.owner = i
    · have hne : t' ≠ t := fun he => ht (he ▸ ho)
      simp [hne]
    · simp only [Option.filter_some, ho, ne_eq, not_false_eq_true, decide_true, if_true]

/-- After its rollback a request has no transaction open. -/
theorem notMine_rollback : NotMine i (w.rollback i) := by
  intro t ht
  unfold World.rollback at ht
  exact of_decide_eq_true (Option.filter_eq_some_iff.mp ht).2

/-- After a failure or on leaving, what was sent is gone; the rest stays. -/
theorem At.rollback (ha : At i own pend held F h l w) {h' : History} (hh : h <+: h') :
    At i own [] [] F h' {} (w.rollback i) :=
  ⟨rfl, notMine_rollback, ha.own, F.mono ha.fact hh (.refl _)⟩

/-- Without a transaction of its own a request sees the committed database. -/
theorem NotMine.view_eq (hn : NotMine i w) : w.view i = w.db := by
  unfold World.view
  rcases htx : w.tx with _ | t
  · rfl
  · exact if_neg (hn t htx)

/-! ## Flushing -/

/-- The statement sent for what was added, with some primary key. -/
def Sends (p : Pending) (w : Write) : Prop := ∃ db : Database, p.toWrite db = w

/-- What can be sent without violating a constraint, whatever is stored. -/
def Pending.Harmless : Pending → Prop
  | .node _ => False
  | .dirty loaded current => current.nodeId = loaded.nodeId
  | .event _ => True

/-- A flush that succeeds applies the writes that it sends, one for each pending
change. -/
theorem Database.flush_eq_some : ∀ {ps : List Pending} {db db' : Database} {ws : List Write},
    db.flush ps = some (db', ws) → db.applyAll ws = some db' ∧ List.Forall₂ Sends ps ws
  | [], db, db', ws, h => by
    obtain ⟨rfl, rfl⟩ := Prod.mk.inj (Option.some.inj h)
    exact ⟨rfl, .nil⟩
  | p :: ps, db, db', ws, h => by
    obtain ⟨d, hd, hrest⟩ := Option.bind_eq_some_iff.mp h
    obtain ⟨⟨d', ws'⟩, hflush, he⟩ := Option.map_eq_some_iff.mp hrest
    obtain ⟨rfl, rfl⟩ := Prod.mk.inj he
    obtain ⟨happly, hsends⟩ := Database.flush_eq_some hflush
    refine ⟨?_, .cons ⟨db, rfl⟩ hsends⟩
    show (db.apply (p.toWrite db)).bind _ = _
    rw [hd]
    exact happly

/-- A harmless change can be applied to any database. -/
theorem Database.apply_harmless {p : Pending} (hp : p.Harmless) (db : Database) :
    ∃ d, db.apply (p.toWrite db) = some d := by
  cases p with
  | node n => exact absurd hp id
  | dirty loaded current =>
    obtain ⟨t, ht, -⟩ := db.nodes.update?_isSome loaded.id (f := Node.changed loaded current)
      (fun _ => rfl) (fun r _ => if_pos hp)
    exact ⟨_, by show (db.nodes.update? _ _).map _ = _; rw [ht]; rfl⟩
  | event e =>
    -- the one constraint is the primary key, and that is the next free one
    obtain ⟨t, ht, -⟩ := Table.insert?_next (t := db.events)
      (r := Record.setPk db.events.next e) (Record.pk_setPk _ _) (fun r' hr' he => by
        refine db.events.next_notMem (List.mem_map.mpr ⟨r', hr', ?_⟩)
        exact (show r'.id = _ from he).trans rfl)
    exact ⟨_, by show (db.events.insert? _).map _ = _; rw [ht]; rfl⟩

/-- A flush of harmless changes cannot hit the unique index. -/
theorem Database.flush_harmless : ∀ {ps : List Pending}, (∀ p ∈ ps, p.Harmless) →
    ∀ db : Database, db.flush ps ≠ none
  | [], _, _ => by simp [Database.flush]
  | p :: ps, h, db => by
    obtain ⟨d, hd⟩ := Database.apply_harmless (h p (List.mem_cons_self ..)) db
    have ih := Database.flush_harmless (fun q hq => h q (List.mem_cons_of_mem _ hq)) d
    unfold Database.flush
    rw [hd, Option.bind_some]
    simpa using ih

/-- A node is refused only for a stored row with its `node_id`. -/
theorem Database.flush_node_eq_none {db : Database} {n : Node} (h : db.flush [.node n] = none) :
    ∃ r ∈ db.nodes.rows, r.nodeId = n.nodeId := by
  rcases hins : db.nodes.insert? (Record.setPk db.nodes.next n) with _ | t
  · obtain ⟨r, hr, he⟩ := Table.insert?_next_eq_none (Record.pk_setPk _ _) hins
    exact ⟨r, hr, he⟩
  · have hd : db.apply ((Pending.node n).toWrite db) = some { db with nodes := t } := by
      show (db.nodes.insert? _).map _ = _
      rw [hins]
      rfl
    unfold Database.flush at h
    rw [hd] at h
    simp [Database.flush] at h

/-- A request that holds something continues its transaction, or finds the
database locked. -/
private theorem begin_of_holds (hh : Holds i held w) :
    w.begin i = none ∨ ∃ view, w.begin i = some (view, held) ∧ w.db.applyAll held = some view ∧
      ∀ t, w.tx = some t → t.owner = i := by
  unfold World.begin
  cases held with
  | nil =>
    rcases htx : w.tx with _ | t
    · exact .inr ⟨w.db, rfl, rfl, by simp⟩
    · exact .inl (if_neg (hh t htx))
  | cons v vs =>
    obtain ⟨view, htx, hview⟩ := hh
    rw [htx]
    exact .inr ⟨view, if_pos rfl, hview, by rintro t ⟨⟩; rfl⟩

/-- The three ways `session.flush()` with something pending can end. -/
theorem flushSession_cases (ha : At i own pend held F h l w) (hne : pend ≠ []) :
    flushSession i l w = (.error .locked, {}, w.rollback i) ∨
    (∃ view, w.db.applyAll held = some view ∧ view.flush pend = none ∧
      flushSession i l w = (.error .integrity, {}, w.rollback i)) ∨
    ∃ view view' ws, w.db.applyAll held = some view ∧ view.flush pend = some (view', ws) ∧
      (∀ t, w.tx = some t → t.owner = i) ∧
      flushSession i l w = (.ok (ws.filterMap Write.newId), {},
        { w with tx := some ⟨i, view', held ++ ws⟩ }) := by
  unfold flushSession
  rw [ha.pending, if_neg hne]
  rcases begin_of_holds ha.tx with hb | ⟨view, hb, hview, hmine⟩
  · exact .inl (by rw [hb])
  · rw [hb]
    dsimp only
    rcases hf : view.flush pend with _ | ⟨view', ws⟩
    · exact .inr (.inl ⟨view, hview, hf, rfl⟩)
    · exact .inr (.inr ⟨view, view', ws, hview, hf, hmine, rfl⟩)

/-- The same for `session.commit()`, with something pending or sent. -/
theorem commitSession_cases (ha : At i own pend held F h l w) (hne : pend ≠ [] ∨ held ≠ []) :
    commitSession i l w = (.error .locked, {}, w.rollback i) ∨
    (∃ view : Database, view.flush pend = none ∧
      commitSession i l w = (.error .integrity, {}, w.rollback i)) ∨
    ∃ ws view, List.Forall₂ Sends pend ws ∧ w.db.applyAll (held ++ ws) = some view ∧
      (∀ t, w.tx = some t → t.owner = i) ∧
      commitSession i l w = (.ok (), {},
        { w with db := view, tx := none, journal := w.journal ++ [(i, held ++ ws)] }) := by
  unfold commitSession
  by_cases hpend : pend = []
  · -- nothing to flush, and the open transaction is the request's own
    subst hpend
    obtain ⟨v, vs, rfl⟩ := List.exists_cons_of_ne_nil (hne.resolve_left fun h => h rfl)
    obtain ⟨view, htx, hview⟩ := ha.tx
    have hnil : flushSession i l w = (.ok [], l, w) := by
      unfold flushSession
      rw [if_pos ha.pending]
    have hl : l = {} := by
      cases l
      simpa using ha.pending
    refine .inr (.inr ⟨[], view, .nil, by rw [List.append_nil]; exact hview, ?_, ?_⟩)
    · rw [htx]
      rintro t ⟨⟩
      rfl
    · rw [hnil, hl]
      simp [World.commitTx, htx]
  · -- the commit flushes first, and ends as the flush does
    rcases flushSession_cases ha hpend with hc | ⟨view, -, hf, hc⟩ |
      ⟨view, view', ws, hview, hf, hm, hc⟩
    · exact .inl (by rw [hc])
    · exact .inr (.inl ⟨view, hf, by rw [hc]⟩)
    · obtain ⟨happly, hsends⟩ := Database.flush_eq_some hf
      refine .inr (.inr ⟨ws, view', hsends, ?_, hm, ?_⟩)
      · rw [Database.applyAll_append, hview]
        exact happly
      · rw [hc]
        simp [World.commitTx]

/-- What has been applied in a transaction is held there. -/
theorem holds_of_applyAll {ws : List Write} {view : Database} (hne : ws ≠ [])
    (hdb : w.db.applyAll ws = some view) :
    Holds i ws { w with tx := some ⟨i, view, ws⟩ } := by
  cases ws with
  | nil => exact absurd rfl hne
  | cons v vs => exact ⟨view, rfl, hdb⟩

theorem sends_ne_nil {ws : List Write} (hs : List.Forall₂ Sends pend ws) (hne : pend ≠ []) :
    ws ≠ [] := by
  rintro rfl
  cases hs
  exact hne rfl

variable (settings req) in
/-- A flush that goes through: nothing is committed, more is sent. -/
theorem At.flushed (ha : At i own pend held F h l w) (hne : pend ≠ []) {view view' : Database}
    {ws : List Write} (hview : w.db.applyAll held = some view)
    (hf : view.flush pend = some (view', ws)) (hmine : ∀ t, w.tx = some t → t.owner = i)
    {h' : History} (hh : h <+: h') :
    let w' : World := { w with tx := some ⟨i, view', held ++ ws⟩ }
    Guar settings req i w w' ∧ At i own [] (held ++ ws) F h' {} w' := by
  obtain ⟨happly, hsends⟩ := Database.flush_eq_some hf
  have hall : w.db.applyAll (held ++ ws) = some view' := by
    rw [Database.applyAll_append, hview]
    exact happly
  refine ⟨⟨rfl, fun t ht => ?_, .inl ⟨rfl, rfl⟩⟩, rfl, ?_, ha.own, F.mono ha.fact hh (.refl _)⟩
  · constructor
    · rintro ⟨⟩
      exact absurd rfl ht
    · exact fun htx => absurd (hmine t htx) ht
  · exact holds_of_applyAll (by simp [sends_ne_nil hsends hne]) hall

end ZeroTrustLab.Controller
