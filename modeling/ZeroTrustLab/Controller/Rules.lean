import ZeroTrustLab.Controller.Sharing

/-!
# One rule for each kind of call

`Does P p Q`: from `P`, whatever the other requests and the refresh loop do in
between, the code `p` keeps the request's contract and ends in `Q`. The rules
here take a proof about a handler down its source, one call at a time:
`read_rule` for the calls that change nothing, `add_rule`, `flush_rule` and
`flushNode_rule`, `commit_rule`, `refresh_rule`, and `recordEvent_rule` for the
helper every endpoint uses.

Each rule takes the case that the database fails away from the rest of the
proof: what was sent is rolled back and the request ends there (`Aborted`).

`At i own pend held F` is the form of every assertion: what the request has
committed, what is pending in its session, what it has sent in its open
transaction, and what it knows. A rule moves one of the four and leaves the
others. The fact `F` may speak of the history and of the committed database, as
far as it stays true while others move (`Fact`).
-/

namespace ZeroTrustLab.Controller

open Lib

variable {settings : Settings} {req : Request} {i : Rid} {own : List (List Write)}
  {pend : List Pending} {held : List Write} {F G : Fact} {h : History} {l l' : Session}
  {w w' : World} {α : Type} {P : Assn Call Ans Exc Session World}
  {Q : Except Exc α → Assn Call Ans Exc Session World}

/-- From `P`, request `i` runs `p` within its contract and ends in `Q`. -/
abbrev Does (settings : Settings) (req : Request) (i : Rid) (P : Assn Call Ans Exc Session World)
    (p : Handler α) (Q : Except Exc α → Assn Call Ans Exc Session World) : Prop :=
  Triple controller (requestContract settings req i) i P p Q

/-- The postcondition covers a database failure in a state like this one. -/
def Covers (i : Rid) (own : List (List Write)) (F : Fact)
    (Q : Except Exc α → Assn Call Ans Exc Session World) : Prop :=
  ∀ e, e.BeforeCommit → ∀ h l w, Aborted i own F e h l w → Q (.error e) h l w

/-- A triple that holds for every value of a precondition holds when there is
one. -/
theorem Does.exists {ι : Type} {P : ι → Assn Call Ans Exc Session World} {p : Handler α}
    (h : ∀ x, Does settings req i (P x) p Q) :
    Does settings req i (fun hs l w => ∃ x, P x hs l w) p Q :=
  fun hs l w ⟨x, hx⟩ => h x hs l w hx

/-- A call that failed before the commit rolls the request back. -/
theorem At.aborted (ha : At i own pend held F h l w) {c : Call} {e : Exc} (he : e.BeforeCommit) :
    Guar settings req i w (w.rollback i) ∧
    Aborted i own F e (h ++ [⟨c, .error e⟩]) {} (w.rollback i) := by
  have hr := ha.rollback (List.prefix_append h [⟨c, .error e⟩])
  exact ⟨.rollback, hr.pending, hr.tx, hr.own, hr.fact, he, c, by simp⟩

/-- Where the request ends, what it has committed covers its postcondition. -/
theorem At.covered (ha : At i own pend held F h l w) (hc : Covers i own F Q) {c : Call} {e : Exc}
    (he : e.BeforeCommit) : Guar settings req i w (w.rollback i) ∧
    Q (.error e) (h ++ [⟨c, .error e⟩]) {} (w.rollback i) := by
  obtain ⟨hg, hab⟩ := ha.aborted (c := c) he
  exact ⟨hg, hc e he _ _ _ hab⟩

/-- A call raises in its answer or by a failure of the database. -/
theorem raises_cases {c : Call} {e : Exc} (hr : controller.Raises i c l w e l' w') :
    serve i c l w = (.error e, l', w') ∨
    ∃ site, c.site? = some site ∧ e = .database site ∧ l' = {} ∧ w' = w.rollback i := by
  rcases hr with hs | hf
  · exact .inl hs
  · obtain ⟨site, hsite, he⟩ := Option.map_eq_some_iff.mp hf
    obtain ⟨rfl, rfl, rfl⟩ : Exc.database site = e ∧ ({} : Session) = l' ∧ w.rollback i = w' := by
      simpa using he
    exact .inr ⟨site, hsite, rfl, rfl, rfl⟩

/-! ## Calls that change nothing -/

/-- The calls that read, or only log. -/
def Call.quiet : Call → Bool
  | .add _ => false
  | .flush => false
  | .commit => false
  | .refresh _ => false
  | _ => true

/-- A call is quiet, or one of the four that are not. -/
theorem Call.quiet_or (d : Call) : d.quiet = true ∨ (∃ obj, d = .add obj) ∨ d = .flush ∨
    d = .commit ∨ ∃ id, d = .refresh id := by
  cases d with
  | add obj => exact .inr (.inl ⟨obj, rfl⟩)
  | flush => exact .inr (.inr (.inl rfl))
  | commit => exact .inr (.inr (.inr (.inl rfl)))
  | refresh id => exact .inr (.inr (.inr (.inr ⟨id, rfl⟩)))
  | _ => exact .inl rfl

/-- A quiet call succeeds and leaves nothing but notes. -/
theorem serve_quiet {c : Call} (hc : c.quiet = true) (i : Rid) (l : Session) (w : World) :
    ∃ x ns, serve i c l w = (.ok x, l, { w with notes := w.notes ++ ns }) := by
  cases c with
  | note n => exact ⟨(), [n], rfl⟩
  | utcnow => exact ⟨w.clock, [], by simp [serve]⟩
  | isRevoked serial => exact ⟨isRevoked w.revokedSerials serial, [], by simp [serve]⟩
  | selectNode nodeId => exact ⟨_, [], by simp [serve]; rfl⟩
  | selectNodes => exact ⟨_, [], by simp [serve]; rfl⟩
  | selectEvents q => exact ⟨_, [], by simp [serve]; rfl⟩
  | add obj => exact absurd hc (by simp [Call.quiet])
  | flush => exact absurd hc (by simp [Call.quiet])
  | commit => exact absurd hc (by simp [Call.quiet])
  | refresh id => exact absurd hc (by simp [Call.quiet])

/-- A quiet call that reaches the database is no refresh. -/
theorem site_quiet {c : Call} (hc : c.quiet = true) {site : DbSite} (hs : c.site? = some site) :
    site ≠ .refresh := by
  rintro rfl
  cases c <;> simp [Call.quiet, Call.site?] at hc hs

/-- The request goes on with the answer, and with what it learns from it. -/
theorem read_rule {c : Call} {k : Ans c → Handler α} {G : Ans c → Fact} (hc : c.quiet = true)
    (hG : ∀ x h l w, At i own pend held F h l w → (serve i c l w).1 = .ok x →
      (G x).holds (h ++ [⟨c, .ok x⟩]) w.db)
    (he : Covers i own F Q) (hk : ∀ x, Does settings req i (At i own pend held (G x)) (k x) Q) :
    Does settings req i (At i own pend held F) (.call c k) Q := by
  refine Triple.call (R := fun x => At i own pend held (G x)) At.stable ?_ ?_ hk
  · intro h l w x l' w' ha hs
    obtain ⟨y, ns, hy⟩ := serve_quiet hc i l w
    have hs' : serve i c l w = (.ok x, l', w') := hs
    have hx := hG x h l w ha (by rw [hs'])
    rw [hy] at hs'
    obtain ⟨hxy, rfl, rfl⟩ : y = x ∧ l = l' ∧ { w with notes := w.notes ++ ns } = w' := by
      simpa using hs'
    refine ⟨.quiet rfl rfl rfl rfl, ha.pending, ?_, ha.own, hx⟩
    have htx := ha.tx
    cases held with
    | nil => exact htx
    | cons v vs => exact htx
  · intro h l w e l' w' ha hr
    obtain ⟨y, ns, hy⟩ := serve_quiet hc i l w
    rcases raises_cases hr with hs | ⟨site, hsite, rfl, rfl, rfl⟩
    · rw [hy] at hs
      simp at hs
    · exact ha.covered he (.inr ⟨site, site_quiet hc hsite, rfl⟩)

/-- The same, learning nothing. -/
theorem skip_rule {c : Call} {k : Ans c → Handler α} (hc : c.quiet = true) (he : Covers i own F Q)
    (hk : ∀ x, Does settings req i (At i own pend held F) (k x) Q) :
    Does settings req i (At i own pend held F) (.call c k) Q :=
  read_rule (G := fun _ => F) hc
    (fun _ _ _ _ ha _ => F.mono ha.fact (List.prefix_append _ _) (.refl _)) he hk

/-- A line in the log; this cannot fail. -/
theorem note_rule {n : Note} {k : Unit → Handler α}
    (hk : Does settings req i (At i own pend held F) (k ()) Q) :
    Does settings req i (At i own pend held F) (.call (.note n) k) Q := by
  refine Triple.call (R := fun _ => At i own pend held F) At.stable ?_ ?_ fun _ => hk
  · intro h l w x l' w' ha hs
    obtain ⟨rfl, rfl⟩ : l = l' ∧ { w with notes := w.notes ++ [n] } = w' := by
      simpa [controller, serve] using hs
    refine ⟨.quiet rfl rfl rfl rfl, ha.pending, ?_, ha.own,
      F.mono ha.fact (List.prefix_append _ _) (.refl _)⟩
    have htx := ha.tx
    cases held with
    | nil => exact htx
    | cons v vs => exact htx
  · intro h l w e l' w' _ hr
    rcases raises_cases hr with hs | ⟨site, hsite, -⟩
    · simp [serve] at hs
    · simp [Call.site?] at hsite

theorem add_rule {p : Pending} {k : Unit → Handler α}
    (hk : Does settings req i (At i own (pend ++ [p]) held F) (k ()) Q) :
    Does settings req i (At i own pend held F) (.call (.add p) k) Q := by
  refine Triple.call (R := fun _ => At i own (pend ++ [p]) held F) At.stable ?_ ?_ fun _ => hk
  · intro h l w x l' w' ha hs
    obtain ⟨rfl, rfl⟩ : { l with pending := l.pending ++ [p] } = l' ∧ w = w' := by
      simpa [controller, serve] using hs
    exact ⟨.quiet rfl rfl rfl rfl, by rw [ha.pending], ha.tx, ha.own,
      F.mono ha.fact (List.prefix_append _ _) (.refl _)⟩
  · intro h l w e l' w' _ hr
    rcases raises_cases hr with hs | ⟨site, hsite, -⟩
    · simp [serve] at hs
    · simp [Call.site?] at hsite

/-- Looking a node up by its `node_id` finds nothing or one row. -/
theorem selectNode_rule {nodeId : String} {k : List Node → Handler α} (he : Covers i own F Q)
    (hnone : (∃ h' d', F.holds h' d' ∧ ∀ r ∈ d'.nodes.rows, r.nodeId ≠ nodeId) →
      Does settings req i (At i own pend [] (F.and (.saw ⟨.selectNode nodeId, .ok []⟩))) (k []) Q)
    (hsome : ∀ row, row.nodeId = nodeId → (∃ h' d', F.holds h' d' ∧ row ∈ d'.nodes.rows) →
      Does settings req i
        (At i own pend [] ((F.and (.saw ⟨.selectNode nodeId, .ok [row]⟩)).and (.stored row)))
        (k [row]) Q) :
    Does settings req i (At i own pend [] F) (.call (.selectNode nodeId) k) Q := by
  -- what the answer says, kept as a fact: it was so when asked, and the row is stored from
  -- then on
  let found : List Node → Fact := fun rows =>
    ⟨fun _ d => (rows = [] ∧ ∃ h' d', F.holds h' d' ∧ ∀ r ∈ d'.nodes.rows, r.nodeId ≠ nodeId) ∨
      ∃ row, rows = [row] ∧ row.nodeId = nodeId ∧ (∃ h' d', F.holds h' d' ∧ row ∈ d'.nodes.rows) ∧
        Stored d row,
      fun hf _ he => hf.imp id fun ⟨row, h₁, h₂, h₃, hs⟩ => ⟨row, h₁, h₂, h₃, hs.evolves he⟩⟩
  refine read_rule (G := fun rows => (F.and (.saw ⟨.selectNode nodeId, .ok rows⟩)).and (found rows))
    rfl ?_ he ?_
  · intro rows h l w ha hs
    refine ⟨⟨F.mono ha.fact (List.prefix_append _ _) (.refl _), Fact.saw_concat _ _ _⟩, ?_⟩
    have hrows : w.db.nodes.rows.filter (fun n => decide (Record.key n = nodeId)) = rows := by
      rw [← NotMine.view_eq ha.tx]
      exact Except.ok.inj hs
    rw [Table.filter_key] at hrows
    rcases hf : w.db.nodes.rows.find? (fun n => decide (Record.key n = nodeId)) with _ | row
    · rw [hf] at hrows
      refine .inl ⟨hrows.symm, h, w.db, ha.fact, fun r hr he => ?_⟩
      exact List.find?_eq_none.mp hf r hr (decide_eq_true he)
    · rw [hf] at hrows
      have hmem := List.mem_of_find?_eq_some hf
      have hkey : row.nodeId = nodeId := of_decide_eq_true (List.find?_some hf :)
      exact .inr ⟨row, hrows.symm, hkey, ⟨h, w.db, ha.fact, hmem⟩, row, hmem, .refl row⟩
  · intro rows h l w ha
    rcases ha.fact.2 with ⟨rfl, hwhen⟩ | ⟨row, rfl, hid, hwhen, hst⟩
    · exact hnone hwhen h l w (ha.weaken fun hf => hf.1)
    · exact hsome row hid hwhen h l w (ha.weaken fun hf => ⟨hf.1, hst⟩)

/-! ## Calls that send and commit -/

/-- A flush of what cannot violate a constraint. -/
theorem flush_rule {k : List Nat → Handler α} (hne : pend ≠ []) (hp : ∀ p ∈ pend, p.Harmless)
    (he : Covers i own F Q)
    (hk : ∀ ids, Does settings req i
      (fun h l w => ∃ ws, List.Forall₂ Sends pend ws ∧ ids = ws.filterMap Write.newId ∧
        At i own [] (held ++ ws) F h l w) (k ids) Q) :
    Does settings req i (At i own pend held F) (.call .flush k) Q := by
  refine Triple.call At.stable ?_ ?_ hk
  · intro h l w ids l' w' ha hs
    have hs' : flushSession i l w = (.ok ids, l', w') := hs
    -- locked, a clash, or written
    rcases flushSession_cases ha hne with hc | ⟨view, -, -, hc⟩ | ⟨view, view', ws, hview, hf, hm, hc⟩
    · rw [hc] at hs'; simp at hs'
    · rw [hc] at hs'; simp at hs'
    · rw [hc] at hs'
      obtain ⟨rfl, rfl, rfl⟩ : ws.filterMap Write.newId = ids ∧ ({} : Session) = l' ∧
          { w with tx := some ⟨i, view', held ++ ws⟩ } = w' := by simpa using hs'
      obtain ⟨hg, hat⟩ := ha.flushed settings req hne hview hf hm
        (List.prefix_append h [⟨.flush, .ok (ws.filterMap Write.newId)⟩])
      exact ⟨hg, ws, (Database.flush_eq_some hf).2, rfl, hat⟩
  · intro h l w e l' w' ha hr
    rcases raises_cases hr with hs | ⟨site, hsite, rfl, rfl, rfl⟩
    · have hs' : flushSession i l w = (.error e, l', w') := hs
      rcases flushSession_cases ha hne with hc | ⟨view, -, hf, -⟩ | ⟨_, _, _, _, _, _, hc⟩
      · rw [hc] at hs'
        obtain ⟨rfl, rfl, rfl⟩ : Exc.locked = e ∧ ({} : Session) = l' ∧ w.rollback i = w' := by
          simpa using hs'
        exact ha.covered he (.inl rfl)
      · -- only an insertion can clash
        exact absurd hf (Database.flush_harmless hp view)
      · rw [hc] at hs'; simp at hs'
    · exact ha.covered he (.inr ⟨site, by rintro rfl; simp [Call.site?] at hsite, rfl⟩)

/-- The flush of a new node, which the unique index may refuse. -/
theorem flushNode_rule {n : Node} {k : List Nat → Handler α} (he : Covers i own F Q)
    (hclash : ∀ h l w, At i own [] [] F h l w → ⟨.flush, .error .integrity⟩ ∈ h →
      (∃ r ∈ w.db.nodes.rows, r.nodeId = n.nodeId) → Q (.error .integrity) h l w)
    (hk : ∀ id, Does settings req i
      (At i own [] [.insertNode (Record.setPk id n)] F) (k [id]) Q) :
    Does settings req i (At i own [.node n] [] F) (.call .flush k) Q := by
  refine Triple.call (R := fun ids h l w => ∃ id, ids = [id] ∧
    At i own [] [.insertNode (Record.setPk id n)] F h l w) At.stable ?_ ?_ ?_
  · intro h l w ids l' w' ha hs
    have hs' : flushSession i l w = (.ok ids, l', w') := hs
    rcases flushSession_cases ha (by simp) with hc | ⟨view, -, -, hc⟩ |
      ⟨view, view', ws, hview, hf, hm, hc⟩
    · rw [hc] at hs'; simp at hs'
    · rw [hc] at hs'; simp at hs'
    · rw [hc] at hs'
      obtain ⟨rfl, rfl, rfl⟩ : ws.filterMap Write.newId = ids ∧ ({} : Session) = l' ∧
          { w with tx := some ⟨i, view', [] ++ ws⟩ } = w' := by simpa using hs'
      obtain ⟨hg, hat⟩ := ha.flushed settings req (by simp) hview hf hm
        (List.prefix_append h [⟨.flush, .ok (ws.filterMap Write.newId)⟩])
      refine ⟨hg, ?_⟩
      -- the row is sent under the next id of the table
      obtain ⟨db, rfl⟩ : ∃ db : Database, ws = [.insertNode (Record.setPk db.nodes.next n)] := by
        cases (Database.flush_eq_some hf).2 with
        | cons hsend hrest =>
          obtain ⟨db, rfl⟩ := hsend
          cases hrest
          exact ⟨db, rfl⟩
      exact ⟨db.nodes.next, rfl, hat⟩
  · intro h l w e l' w' ha hr
    rcases raises_cases hr with hs | ⟨site, hsite, rfl, rfl, rfl⟩
    · have hs' : flushSession i l w = (.error e, l', w') := hs
      rcases flushSession_cases ha (by simp) with hc | ⟨view, hview, hf, hc⟩ |
        ⟨_, _, _, _, _, _, hc⟩
      · rw [hc] at hs'
        obtain ⟨rfl, rfl, rfl⟩ : Exc.locked = e ∧ ({} : Session) = l' ∧ w.rollback i = w' := by
          simpa using hs'
        exact ha.covered he (.inl rfl)
      · rw [hc] at hs'
        obtain ⟨rfl, rfl, rfl⟩ : Exc.integrity = e ∧ ({} : Session) = l' ∧ w.rollback i = w' := by
          simpa using hs'
        -- the clash is with a row committed by another request
        have hdb : w.db = view := Option.some.inj hview
        exact ⟨.rollback, hclash _ _ _
          (ha.rollback (List.prefix_append h [⟨.flush, .error .integrity⟩])) (by simp)
          (by rw [← hdb] at hf; exact Database.flush_node_eq_none hf)⟩
      · rw [hc] at hs'; simp at hs'
    · exact ha.covered he (.inr ⟨site, by rintro rfl; simp [Call.site?] at hsite, rfl⟩)
  · rintro ids h l w ⟨id, rfl, ha⟩
    exact hk id h l w ha

/-- The one commit of a request: what was sent, and what is still pending,
becomes one of its transactions, and `G` is what is known after it. -/
theorem commit_rule (G : Fact) {k : Unit → Handler α}
    (hne : pend ≠ [] ∨ held ≠ []) (hp : ∀ p ∈ pend, p.Harmless)
    (ht : ∀ ws, List.Forall₂ Sends pend ws → ∃ kind, Txn settings req kind (held ++ ws))
    (hg : ∀ ws h d, List.Forall₂ Sends pend ws → F.holds h d → Grounded d (held ++ ws))
    (hG : ∀ ws h d d', List.Forall₂ Sends pend ws → F.holds h d →
      d.applyAll (held ++ ws) = some d' → G.holds h d')
    (he : Covers i own F Q)
    (hk : ∀ ws, List.Forall₂ Sends pend ws →
      Does settings req i (At i (own ++ [held ++ ws]) [] [] (F.and G)) (k ()) Q) :
    Does settings req i (At i own pend held F) (.call .commit k) Q := by
  refine Triple.call (R := fun _ h l w => ∃ ws, List.Forall₂ Sends pend ws ∧
    At i (own ++ [held ++ ws]) [] [] (F.and G) h l w) At.stable ?_ ?_ ?_
  · intro h l w x l' w' ha hs
    have hs' : commitSession i l w = (.ok x, l', w') := hs
    rcases commitSession_cases ha hne with hc | ⟨_, _, hc⟩ | ⟨ws, view, hsends, hview, hm, hc⟩
    · rw [hc] at hs'
      simp at hs'
    · rw [hc] at hs'
      simp at hs'
    rw [hc] at hs'
    obtain ⟨rfl, rfl⟩ := Prod.mk.inj (Prod.mk.inj hs').2
    -- what is committed is one of the transactions the request may make
    obtain ⟨kind, hkind⟩ := ht ws hsends
    have hground := hg ws h w.db hsends ha.fact
    refine ⟨⟨rfl, fun t hto => ?_, .inr ⟨kind, _, hkind, hground, hview, rfl, hm⟩⟩, ws, hsends,
      rfl, ?_, ?_, F.mono ha.fact (List.prefix_append _ _) (hkind.evolves hground hview),
      G.mono (hG ws h w.db view hsends ha.fact hview) (List.prefix_append _ _) (.refl _)⟩
    · constructor
      · rintro ⟨⟩
      · exact fun htw => absurd (hm t htw) hto
    · rintro t ⟨⟩
    · rw [own_commit rfl, if_pos rfl, ha.own]
  · intro h l w e l' w' ha hr
    rcases raises_cases hr with hs | ⟨site, hsite, rfl, rfl, rfl⟩
    · have hs' : commitSession i l w = (.error e, l', w') := hs
      rcases commitSession_cases ha hne with hc | ⟨view, hf, -⟩ | ⟨_, _, _, _, _, hc⟩
      · rw [hc] at hs'
        obtain ⟨rfl, rfl, rfl⟩ : Exc.locked = e ∧ ({} : Session) = l' ∧ w.rollback i = w' := by
          simpa using hs'
        exact ha.covered he (.inl rfl)
      · exact absurd hf (Database.flush_harmless hp view)
      · rw [hc] at hs'
        simp at hs'
    · exact ha.covered he (.inr ⟨site, by rintro rfl; simp [Call.site?] at hsite, rfl⟩)
  · rintro x h l w ⟨ws, hsends, ha⟩
    exact hk ws hsends h l w ha

/-- The commit of what has all been sent. -/
theorem commitSent_rule (G : Fact) {ws : List Write} {kind : TxnKind} {k : Unit → Handler α}
    (ht : Txn settings req kind ws) (hne : ws ≠ []) (hg : ∀ h d, F.holds h d → Grounded d ws)
    (hG : ∀ h d d', F.holds h d → d.applyAll ws = some d' → G.holds h d') (he : Covers i own F Q)
    (hk : Does settings req i (At i (own ++ [ws]) [] [] (F.and G)) (k ()) Q) :
    Does settings req i (At i own [] ws F) (.call .commit k) Q := by
  have hnil : ∀ {ws' : List Write}, List.Forall₂ Sends [] ws' → ws ++ ws' = ws := by
    intro ws' hs
    cases hs
    exact List.append_nil _
  refine commit_rule G (.inr hne) (by simp) ?_ ?_ ?_ he ?_
  · intro ws' hs
    exact ⟨kind, by rw [hnil hs]; exact ht⟩
  · intro ws' h d hs hf
    rw [hnil hs]
    exact hg h d hf
  · intro ws' h d d' hs hf ha
    rw [hnil hs] at ha
    exact hG h d d' hf ha
  · intro ws' hs
    rw [hnil hs]
    exact hk

/-- Reading back a row known to be stored finds it, as what it has become. -/
theorem refresh_rule (row : Node) {id : Option Nat} {k : Node → Handler α} (hid : row.id = id)
    (hst : ∀ h d, F.holds h d → Stored d row)
    (he : ∀ h l w, At i own [] [] F h l w →
      ⟨.refresh id, .error (.database .refresh)⟩ ∈ h → Q (.error (.database .refresh)) h l w)
    (hk : ∀ n, Kept row n → Does settings req i (At i own [] [] F) (k n) Q) :
    Does settings req i (At i own [] [] F) (.call (.refresh id) k) Q := by
  subst hid
  -- the row is stored, so the refresh finds it under its id
  have hserve : ∀ {h l w}, At i own [] [] F h l w →
      ∃ n, Kept row n ∧ serve i (.refresh row.id) l w = (.ok n, l, w) := by
    intro h l w ha
    obtain ⟨n, hn, hk⟩ := hst h w.db ha.fact
    refine ⟨n, hk, ?_⟩
    have hfind : (w.view i).nodes.rows.find? (fun n => decide (Record.pk n = row.id)) = some n := by
      rw [NotMine.view_eq ha.tx, ← hk.id]
      exact w.db.nodes.find_pk_of_mem hn
    simp only [serve, hfind]
  refine Triple.call (R := fun n h l w => Kept row n ∧ At i own [] [] F h l w) At.stable ?_ ?_ ?_
  · intro h l w x l' w' ha hs
    obtain ⟨n, hn, hsn⟩ := hserve ha
    obtain ⟨rfl, rfl, rfl⟩ : n = x ∧ l = l' ∧ w = w' := by
      have hs' : serve i (.refresh row.id) l w = (.ok x, l', w') := hs
      rw [hsn] at hs'
      simpa using hs'
    exact ⟨.quiet rfl rfl rfl rfl, hn, ha.pending, ha.tx, ha.own,
      F.mono ha.fact (List.prefix_append _ _) (.refl _)⟩
  · intro h l w e l' w' ha hr
    obtain ⟨n, -, hsn⟩ := hserve ha
    rcases raises_cases hr with hs | ⟨site, hsite, rfl, rfl, rfl⟩
    · rw [hsn] at hs
      simp at hs
    · obtain rfl : DbSite.refresh = site := by simpa [Call.site?] using hsite
      exact ⟨.rollback, he _ _ _
        (ha.rollback (List.prefix_append h [⟨.refresh row.id, .error (.database .refresh)⟩]))
        (by simp)⟩
  · rintro n h l w ⟨hn, ha⟩
    exact hk n hn h l w ha

/-! ## The helpers -/

/-- Code that only logs comes to its result. -/
theorem notes_rule {p : Handler α} {r : Except Exc α} (hp : Notes p r)
    (hq : ∀ h l w, At i own pend held F h l w → Q r h l w) :
    Does settings req i (At i own pend held F) p Q := by
  induction hp with
  | pure a => exact Triple.pure hq
  | throw e => exact Triple.throw hq
  | note _ ih => exact note_rule (ih hq)

private theorem sends_concat {p : Pending} : ∀ {ps : List Pending} {ws : List Write},
    List.Forall₂ Sends (ps ++ [p]) ws →
      ∃ ws' w, List.Forall₂ Sends ps ws' ∧ Sends p w ∧ ws = ws' ++ [w]
  | [], _, h => by
    cases h with
    | cons hw hnil =>
      cases hnil
      exact ⟨[], _, .nil, hw, rfl⟩
  | q :: ps, _, h => by
    cases h with
    | cons hq hrest =>
      obtain ⟨ws', w, hws', hw, rfl⟩ := sends_concat hrest
      exact ⟨_, w, .cons hq hws', hw, rfl⟩

/-- `record_event` sends its row after what was pending. -/
theorem recordEvent_rule {actorCn : String} {action : AuditAction} {target : Option String}
    {result : AuditResult} {details : Option Details} {f : AuditEvent → Handler α}
    (hp : ∀ p ∈ pend, p.Harmless) (he : Covers i own F Q)
    (hk : ∀ (e : AuditEvent) (ws : List Write) (k : Nat) (t : Time), List.Forall₂ Sends pend ws →
      Does settings req i
        (At i own []
          (held ++ (ws ++ [.insertEvent (Record.setPk k
            { timestamp := t, actorCn := actorCn, action := action, target := target,
              result := result, details := details })])) F)
        (f e) Q) :
    Does settings req i (At i own pend held F)
      (recordEvent actorCn action target result details >>= f) Q := by
  unfold recordEvent
  refine skip_rule rfl he fun t => add_rule (flush_rule (by simp) ?_ he fun ids => ?_)
  · intro p hmem
    rcases List.mem_append.mp hmem with hmem | hmem
    · exact hp p hmem
    · rw [List.mem_singleton.mp hmem]
      trivial
  · refine Does.exists fun ws => ?_
    rintro h l w ⟨hsends, -, ha⟩
    -- the row was added last, so its statement is the last one
    obtain ⟨ws', k, hws', rfl⟩ : ∃ ws' k, List.Forall₂ Sends pend ws' ∧
        ws = ws' ++ [.insertEvent (Record.setPk k
          { timestamp := t, actorCn := actorCn, action := action, target := target,
            result := result, details := details })] := by
      obtain ⟨ws', w, hws', ⟨db, rfl⟩, rfl⟩ := sends_concat hsends
      exact ⟨ws', db.events.next, hws', rfl⟩
    exact note_rule (note_rule (hk _ ws' k t hws')) h l w ha

end ZeroTrustLab.Controller
