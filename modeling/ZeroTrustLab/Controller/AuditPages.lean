import ZeroTrustLab.Lib.Pages
import ZeroTrustLab.Controller.Readback

/-!
# Paging through the audit log

`GET /audit` at the offsets 0, L, 2L, ... until a page comes back that is not
full, while other requests commit more audit rows. `audit_walk_complete` says
that such a walk returns every row that matched when it began. It rests on
`mem_pages` for the reads and on `mergeSort_sublist` for what a commit does to
the sorted rows.

The query orders by timestamp alone. What the database does with rows of one
timestamp is a parameter here (`TieBreak`), the same for every query of a walk.
In the runs of `controller` it is the order of insertion where the query has a
filter, and else the opposite of it (`serving_reads`).

A page is what the route returns (`app`), so the caller has been authenticated,
`limit` and `offset` were within bounds and each row passed its response model.

Two things can go wrong in such a walk: a page can move because rows have been
added in front of it, and two rows of one timestamp can change places between
two reads. The first only repeats rows, since rows are added at the newest end;
the second cannot happen where the tie-break puts one of any two rows first
(`Decides`).
-/

namespace ZeroTrustLab.Controller

open Lib

/-! ## The query -/

/-- The three filters. -/
structure Filters where
  actorCn : Option String
  action : Option String
  result : Option String

def Filters.query (f : Filters) (limit offset : ℕ) : AuditQuery :=
  ⟨limit, offset, f.actorCn, f.action, f.result⟩

/-- The event matches. -/
def Filters.keeps (f : Filters) (e : AuditEvent) : Bool := (f.query 0 0).keeps e

/-- The request for the page of this size that comes after `k` of them. -/
def Filters.request (f : Filters) (headers : Headers) (size k : ℕ) : Request :=
  ⟨headers, .listAuditEvents size (k * size : ℕ) f.actorCn f.action f.result⟩

/-- How the database orders rows of one timestamp. -/
structure TieBreak where
  before : AuditEvent → AuditEvent → Bool
  trans : ∀ a b c, before a b → before b c → before a c
  total : ∀ a b, before a b || before b a

namespace TieBreak

/-- `order_by(AuditEvent.timestamp.desc())`. -/
def newest (tie : TieBreak) (a b : AuditEvent) : Bool :=
  decide (b.timestamp < a.timestamp) || (decide (b.timestamp = a.timestamp) && tie.before a b)

/-- All rows a query is about, in its order. -/
def listing (tie : TieBreak) (q : AuditQuery) (db : Database) : List AuditEvent :=
  (db.events.rows.filter q.keeps).mergeSort tie.newest

/-- The answer to a query. -/
def answer (tie : TieBreak) (q : AuditQuery) (db : Database) : List AuditEvent :=
  ((tie.listing q db).drop q.offset).take q.limit

/-- Of two rows of the table one comes first. -/
def Decides (tie : TieBreak) (db : Database) : Prop :=
  ∀ a ∈ db.events.rows, ∀ b ∈ db.events.rows, tie.before a b → tie.before b a → a = b

/-- The request returns these events when its query sees the rows of `db`. -/
def Reads (tie : TieBreak) (settings : Settings) (req : Request) (db : Database)
    (es : List AuditEvent) : Prop :=
  ∃ h : History, (app settings req).Reaches h (.pure ⟨200, .events es⟩) ∧
    ∀ q es', ⟨.selectEvents q, .ok es'⟩ ∈ h → es' = tie.answer q db

end TieBreak

variable {tie : TieBreak} {settings : Settings} {f : Filters} {db db' : Database}

/-- Nothing was taken away from the audit table, and nothing changed in it. -/
def Grown (db db' : Database) : Prop := ∃ new, db'.events.rows.Perm (db.events.rows ++ new)

/-- A walk through the log: what its reads saw, and what they returned. -/
structure Walk (tie : TieBreak) (settings : Settings) (f : Filters) (size last : ℕ)
    (headers : ℕ → Headers) (dbs : ℕ → Database) (pages : ℕ → List AuditEvent) : Prop where
  decides : ∀ k ≤ last, tie.Decides (dbs k)
  grows : ∀ k < last, Grown (dbs k) (dbs (k + 1))
  reads : ∀ k ≤ last, tie.Reads settings (f.request (headers k) size k) (dbs k) (pages k)
  full : ∀ k < last, (pages k).length = size
  short : (pages last).length < size

/-- Nothing was lost on the way. -/
structure Complete (f : Filters) (last : ℕ) (dbs : ℕ → Database) (pages : ℕ → List AuditEvent) :
    Prop where
  complete : ∀ e ∈ (dbs 0).events.rows, f.keeps e = true → ∃ k ≤ last, e ∈ pages k
  ordered : ∀ k ≤ last, (pages k).Pairwise fun a b => b.timestamp ≤ a.timestamp
  matching : ∀ k ≤ last, ∀ e ∈ pages k, f.keeps e = true ∧ e ∈ (dbs k).events.rows
  /-- Without commits in between, the pages are the matching rows, each once. -/
  quiet : (∀ k ≤ last, (dbs k).events.rows = (dbs 0).events.rows) →
    ((List.range (last + 1)).flatMap pages).Perm ((dbs 0).events.rows.filter f.keeps) ∧
    ((List.range (last + 1)).flatMap pages).Pairwise (fun a b => b.timestamp ≤ a.timestamp) ∧
    ((List.range (last + 1)).flatMap pages).Nodup

/-! ## The order -/

/-- The order is transitive, whatever the tie-break is. -/
theorem newest_trans (tie : TieBreak) (a b c : AuditEvent) (hab : tie.newest a b)
    (hbc : tie.newest b c) : tie.newest a c := by
  unfold TieBreak.newest at *
  simp only [Bool.or_eq_true, Bool.and_eq_true, decide_eq_true_eq] at *
  rcases hab with hab | ⟨hab, htie⟩
  · rcases hbc with hbc | ⟨hbc, -⟩
    · exact .inl (hbc.trans hab)
    · exact .inl (hbc.symm ▸ hab)
  · rcases hbc with hbc | ⟨hbc, htie'⟩
    · exact .inl (hab ▸ hbc)
    · exact .inr ⟨hbc.trans hab, tie.trans a b c htie htie'⟩

/-- Any two events are in order one way or the other. -/
theorem newest_total (tie : TieBreak) (a b : AuditEvent) : tie.newest a b || tie.newest b a := by
  have htie := tie.total a b
  unfold TieBreak.newest
  simp only [Bool.or_eq_true, Bool.and_eq_true, decide_eq_true_eq] at *
  rcases lt_trichotomy b.timestamp a.timestamp with hlt | heq | hgt
  · exact .inl (.inl hlt)
  · rcases htie with htie | htie
    · exact .inl (.inr ⟨heq, htie⟩)
    · exact .inr (.inr ⟨heq.symm, htie⟩)
  · exact .inr (.inl hgt)

theorem newest_timestamp {a b : AuditEvent} (h : tie.newest a b = true) :
    b.timestamp ≤ a.timestamp := by
  unfold TieBreak.newest at h
  simp only [Bool.or_eq_true, Bool.and_eq_true, decide_eq_true_eq] at h
  rcases h with h | h
  · exact h.le
  · exact h.1.le

/-- Where the tie-break decides, so does the order. -/
theorem newest_antisymm {a b : AuditEvent} (hab : tie.newest a b = true)
    (hba : tie.newest b a = true) : tie.before a b = true ∧ tie.before b a = true := by
  have hle := newest_timestamp hab
  have hge := newest_timestamp hba
  unfold TieBreak.newest at hab hba
  simp only [Bool.or_eq_true, Bool.and_eq_true, decide_eq_true_eq] at hab hba
  rcases hab with hlt | hab
  · exact absurd hge hlt.not_ge
  · rcases hba with hlt | hba
    · exact absurd hle hlt.not_ge
    · exact ⟨hab.2, hba.2⟩

/-- The listing holds the events that the filter keeps. -/
theorem mem_listing {q : AuditQuery} {e : AuditEvent} :
    e ∈ tie.listing q db ↔ e ∈ db.events.rows ∧ q.keeps e = true := by
  unfold TieBreak.listing
  rw [List.mem_mergeSort, List.mem_filter]

/-- The listing runs from the newest to the oldest. -/
theorem listing_sorted (tie : TieBreak) (q : AuditQuery) (db : Database) :
    (tie.listing q db).Pairwise fun a b => b.timestamp ≤ a.timestamp :=
  (List.pairwise_mergeSort (newest_trans tie) (newest_total tie) _).imp fun h => newest_timestamp h

theorem listing_perm (tie : TieBreak) (q : AuditQuery) (db : Database) :
    (tie.listing q db).Perm (db.events.rows.filter q.keeps) :=
  List.mergeSort_perm _ _

/-- New rows come in between the old ones. -/
theorem listing_grown (hdec : tie.Decides db') (hgrow : Grown db db') (q : AuditQuery) :
    (tie.listing q db).Sublist (tie.listing q db') := by
  obtain ⟨new, hnew⟩ := hgrow
  have hkept := hnew.filter q.keeps
  rw [List.filter_append] at hkept
  refine mergeSort_sublist (newest_trans tie) (newest_total tie) hkept fun a ha b hb hab hba => ?_
  obtain ⟨htie, htie'⟩ := newest_antisymm hab hba
  exact hdec a (List.mem_filter.mp ha).1 b (List.mem_filter.mp hb).1 htie htie'

/-! ## One read -/

/-- Where the route returns events, they are the answer to its last call. -/
theorem listAuditEvents_returns {headers : Headers} {limit offset : Int} {h : History}
    {es : List AuditEvent}
    (hr : (app settings ⟨headers, .listAuditEvents limit offset f.actorCn f.action f.result⟩).Reaches
      h (.pure ⟨200, .events es⟩)) :
    ∃ h₁ identity, Admitted settings headers h₁ identity ∧
      h = h₁ ++ [⟨.selectEvents (f.query limit.toNat offset.toNat), .ok es⟩] := by
  obtain ⟨h₁, h₂, identity, rfl, hadmitted, hbody⟩ := Prog.Reaches.bind_returns hr
  refine ⟨h₁, identity, hadmitted, congrArg (h₁ ++ ·) ?_⟩
  split at hbody
  next => cases hbody
  next =>
    -- one call, then the response model
    obtain ⟨h₃, h₄, es', rfl, hquery, hrespond⟩ := Prog.Reaches.bind_returns hbody
    unfold respondEvents at hrespond
    split at hrespond
    next =>
      cases hrespond
      cases hquery with
      | answered hrest =>
        cases hrest
        rfl
    next => cases hrespond

/-- What a request for a page returns is that page of the listing. -/
theorem reads_page {headers : Headers} {size k : ℕ} {es : List AuditEvent}
    (hr : tie.Reads settings (f.request headers size k) db es) :
    es = page (tie.listing (f.query 0 0) db) size k := by
  obtain ⟨h, hreach, hanswer⟩ := hr
  obtain ⟨h₁, identity, -, rfl⟩ := listAuditEvents_returns hreach
  rw [hanswer _ _ (List.mem_append_right _ (List.mem_singleton_self _))]
  rfl

/-! ## The walk -/

/-- **Paging loses nothing**: a walk that ends has returned every row that
matched the filter when it began, whatever was committed between its reads. A
row may be returned twice, when others have pushed it on to the next page. -/
theorem audit_walk_complete {size last : ℕ} {headers : ℕ → Headers} {dbs : ℕ → Database}
    {pages : ℕ → List AuditEvent} (h : Walk tie settings f size last headers dbs pages) :
    Complete f last dbs pages := by
  have hpage : ∀ k ≤ last, pages k = page (tie.listing (f.query 0 0) (dbs k)) size k :=
    fun k hk => reads_page (h.reads k hk)
  have hshort := h.short
  rw [hpage last le_rfl] at hshort
  refine ⟨fun e he hkeeps => ?_, fun k hk => ?_, fun k hk e he => ?_, fun hquiet => ?_⟩
  · -- commits between two reads only push rows to later pages
    have hgrow : ∀ k < last, (tie.listing (f.query 0 0) (dbs k)).Sublist
        (tie.listing (f.query 0 0) (dbs (k + 1))) :=
      fun k hk => listing_grown (h.decides (k + 1) hk) (h.grows k hk) _
    obtain ⟨k, hk, hseen⟩ := mem_pages hgrow hshort (mem_listing.mpr ⟨he, hkeeps⟩)
    exact ⟨k, hk, hpage k hk ▸ hseen⟩
  · rw [hpage k hk]
    exact (listing_sorted tie _ _).sublist (page_sublist ..)
  · rw [hpage k hk] at he
    exact (mem_listing.mp ((page_sublist ..).subset he)).symm
  · -- all reads are pages of one listing
    have hsame : ∀ k ≤ last, tie.listing (f.query 0 0) (dbs k) = tie.listing (f.query 0 0) (dbs 0) := by
      intro k hk
      unfold TieBreak.listing
      rw [hquiet k hk]
    have hall : (List.range (last + 1)).flatMap pages = tie.listing (f.query 0 0) (dbs 0) := by
      rw [hsame last le_rfl] at hshort
      rw [← flatMap_page_of_short hshort]
      refine List.flatMap_congr fun k hk => ?_
      have hk : k ≤ last := Nat.lt_succ_iff.mp (List.mem_range.mp hk)
      rw [hpage k hk, hsame k hk]
    have hnodup : ((dbs 0).events.rows.filter f.keeps).Nodup :=
      (List.Nodup.of_map _ (dbs 0).events.pks).filter _
    rw [hall]
    have hperm := listing_perm tie (f.query 0 0) (dbs 0)
    exact ⟨hperm, listing_sorted tie _ _, hperm.nodup_iff.mpr hnodup⟩

/-! ## In a run -/

/-- The other way round. -/
def TieBreak.flip (tie : TieBreak) : TieBreak where
  before a b := tie.before b a
  trans a b c hab hbc := tie.trans c b a hbc hab
  total a b := tie.total b a

/-- Rows of one timestamp by their place in the table. -/
def TieBreak.byRow (rows : List AuditEvent) : TieBreak where
  before a b := decide (rows.idxOf a ≤ rows.idxOf b)
  trans a b c hab hbc := decide_eq_true ((of_decide_eq_true hab).trans (of_decide_eq_true hbc))
  total a b := by
    rw [Bool.or_eq_true, decide_eq_true_eq, decide_eq_true_eq]
    exact Nat.le_total _ _

/-- How `controller` orders rows of one timestamp, for this query. -/
def AuditQuery.tieBreak (q : AuditQuery) (rows : List AuditEvent) : TieBreak :=
  if q.filtered then .byRow rows else (TieBreak.byRow rows).flip

variable {rows : List AuditEvent}

/-- An order by row decides every earlier state of the table. -/
theorem decides_byRow (hrows : db.events.rows <+: rows) : (TieBreak.byRow rows).Decides db := by
  intro a ha b _ hab hba
  have hplace : rows.idxOf a = rows.idxOf b :=
    Nat.le_antisymm (of_decide_eq_true hab) (of_decide_eq_true hba)
  exact (List.idxOf_inj (hrows.subset ha)).mp hplace

/-- So does it the other way round. -/
theorem decides_tieBreak (q : AuditQuery) (hrows : db.events.rows <+: rows) :
    (q.tieBreak rows).Decides db := by
  have hdecides := decides_byRow hrows
  unfold AuditQuery.tieBreak
  split
  · exact hdecides
  · exact fun a ha b hb hab hba => hdecides a ha b hb hba hab

/-- The rows are found in the order of the tie-break, since they are only
appended to the table. -/
theorem found_tieBreak (hrows : db.events.rows <+: rows) (hnd : rows.Nodup) (q : AuditQuery) :
    (q.found db).Pairwise fun a b => (q.tieBreak rows).before a b = true := by
  have hplaced : rows.Pairwise fun a b => (TieBreak.byRow rows).before a b = true := by
    refine List.pairwise_iff_getElem.mpr fun i j hi hj hij => decide_eq_true ?_
    rw [hnd.idxOf_getElem, hnd.idxOf_getElem]
    exact hij.le
  have hkept := hplaced.sublist (List.filter_sublist (p := q.keeps) |>.trans hrows.sublist)
  unfold AuditQuery.found AuditQuery.tieBreak
  split
  · exact hkept
  · exact List.pairwise_reverse.mpr hkept

/-- By timestamp alone, the order is transitive. -/
theorem later_trans (a b c : AuditEvent) (hab : decide (b.timestamp ≤ a.timestamp) = true)
    (hbc : decide (c.timestamp ≤ b.timestamp) = true) :
    decide (c.timestamp ≤ a.timestamp) = true :=
  decide_eq_true ((of_decide_eq_true hbc).trans (of_decide_eq_true hab))

/-- By timestamp alone, any two events are in order one way or the other. -/
theorem later_total (a b : AuditEvent) :
    (decide (b.timestamp ≤ a.timestamp) || decide (a.timestamp ≤ b.timestamp)) = true := by
  rw [Bool.or_eq_true, decide_eq_true_eq, decide_eq_true_eq]
  exact le_total _ _

/-- The answers of `controller` are those of one tie-break: it sorts the rows it
has found by their timestamp, stably. -/
theorem answer_tieBreak (hrows : db.events.rows <+: rows) (hnd : rows.Nodup) (q : AuditQuery) :
    (q.tieBreak rows).answer q db = q.answer db := by
  unfold TieBreak.answer TieBreak.listing AuditQuery.answer
  refine congrArg (fun l => (List.drop q.offset l).take q.limit) ?_
  have hstable : ((q.found db).mergeSort
      fun a b => decide (b.timestamp ≤ a.timestamp)).Pairwise fun a b =>
        decide (b.timestamp ≤ a.timestamp) = true ∧
        (decide (a.timestamp ≤ b.timestamp) = true → (q.tieBreak rows).before a b = true) := by
    refine pairwise_mergeSort_stable later_trans later_total (fun a => ?_)
      (found_tieBreak hrows hnd q)
    have htotal := (q.tieBreak rows).total a a
    rwa [Bool.or_self] at htotal
  -- two sorted permutations of the same rows, under an order that leaves no tie
  refine List.Perm.eq_of_pairwise (fun a b ha hb hab hba => ?_)
    (List.pairwise_mergeSort (newest_trans _) (newest_total _) _) (hstable.imp fun {a b} h => ?_)
    ((List.mergeSort_perm _ _).trans
      ((q.found_perm db).symm.trans (List.mergeSort_perm _ _).symm))
  · obtain ⟨htie, htie'⟩ := newest_antisymm hab hba
    have hin : a ∈ db.events.rows := (List.mem_filter.mp (List.mem_mergeSort.mp ha)).1
    have hin' : b ∈ db.events.rows :=
      (List.mem_filter.mp ((q.found_perm db).mem_iff.mp (List.mem_mergeSort.mp hb))).1
    exact decides_tieBreak q hrows a hin b hin' htie htie'
  · obtain ⟨hle, htie⟩ := h
    unfold TieBreak.newest
    rw [Bool.or_eq_true, Bool.and_eq_true, decide_eq_true_eq, decide_eq_true_eq]
    rcases (of_decide_eq_true hle).lt_or_eq with hlt | heq
    · exact .inl hlt
    · exact .inr ⟨heq, htie (decide_eq_true heq.ge)⟩

variable {reqs : Rid → Request} {w₀ : World} {ls ls' : List (Label Call Ans Exc Rid Env)}
  {c c' : Cfg Call Ans Exc Response Rid Session World}

/-- A page that a request of a run was given is a read of the rows that were
committed when it asked. -/
theorem serving_reads (hw : w₀.Fresh) (h : Run settings reqs w₀ ls c) {i : Rid}
    {headers : Headers} {size k : ℕ} (hreq : reqs i = f.request headers size k)
    {es : List AuditEvent} (hd : (c.party i).status = .done (.ok ⟨200, .events es⟩))
    (hrows : c.world.db.events.rows <+: rows) (hnd : rows.Nodup) :
    ∃ ls₁ ls₂ m, ls = ls₁ ++ ls₂ ∧ Run settings reqs w₀ ls₁ m ∧ Steps controller m ls₂ c ∧
      ((f.query 0 0).tieBreak rows).Reads settings (reqs i) m.world.db es := by
  obtain ⟨q, hreach, hq⟩ := serving_reaches h hd
  obtain rfl : q = .pure ⟨200, .events es⟩ := by
    rcases Prog.result?_cases hq with ⟨a, rfl, ha⟩ | ⟨e, -, he⟩
    · rw [Except.ok.inj ha]
    · cases he
  -- a 200 with events comes from `list_audit_events`, which has asked for them once
  have hpath := hreach
  rw [hreq] at hpath
  obtain ⟨h₁, identity, hadmitted, hacts⟩ := listAuditEvents_returns hpath
  have hasked : ⟨.selectEvents _, .ok es⟩ ∈ acts i ls :=
    hacts ▸ List.mem_append_right _ (List.mem_singleton_self _)
  obtain ⟨ls₁, ls₂, m, l', hls, h₁m, h₂m, hview, w', hserve⟩ :=
    serving_answered hw h hasked fun _ hh => hh
  have hans : AuditQuery.answer _ (m.world.view i) = es := Except.ok.inj (congrArg Prod.fst hserve)
  rw [hview] at hans
  refine ⟨ls₁, ls₂, m, hls, h₁m, h₂m, acts i ls, hreach, fun q es' hmem => ?_⟩
  rw [hacts] at hmem
  rcases List.mem_append.mp hmem with hgate | hlast
  · -- the dependency asks for no events
    have hfails : SessionFails h₁ := fun d e hde => serving_sessionFails h i d e
      (hacts ▸ List.mem_append_left _ hde)
    rcases hadmitted.calls hfails _ hgate with hnote | ⟨n, hcheck⟩
    · exact absurd hnote id
    · exact absurd hcheck (by simp)
  · -- the tie-break is the same for every page
    cases List.mem_singleton.mp hlast
    exact hans.symm.trans (answer_tieBreak ((events_grow hw h₁m h₂m).trans hrows) hnd _).symm

/-- What a request that runs alone returns is a read of the rows it found. -/
theorem respond_reads {w : World} (hw : w.Fresh) {headers : Headers} {size k : ℕ}
    {es : List AuditEvent}
    (hresp : respond settings (f.request headers size k) w.revokedSerials w.clock w.db
      = (.ok ⟨200, .events es⟩, []))
    (hrows : w.db.events.rows <+: rows) (hnd : rows.Nodup) :
    ((f.query 0 0).tieBreak rows).Reads settings (f.request headers size k) w.db es := by
  obtain ⟨w', hhandle, hf⟩ := handle_respond settings 0 (f.request headers size k) hw.tx
  obtain ⟨ls, c, hrun, hworld, hdone⟩ :=
    serial_serving settings [.request (f.request headers size k)] w
  rw [hresp] at hhandle hf
  have hserial : serial settings 0 [.request (f.request headers size k)] w
      = ([.ok ⟨200, .events es⟩], w') := by
    simp only [serial, hhandle]
  rw [hserial] at hworld hdone
  have hsame : c.world.db = w.db := by
    rw [hworld]
    exact (Option.some.inj hf.db).symm
  obtain ⟨ls₁, ls₂, m, -, h₁m, h₂m, h, hreach, hanswer⟩ :=
    serving_reads hw hrun rfl (hdone 0 _ rfl) (hsame ▸ hrows) hnd
  refine ⟨h, hreach, fun q es' hmem => (hanswer q es' hmem).trans ?_⟩
  -- nothing was committed meanwhile
  have hbefore : w.db.events.rows <+: m.world.db.events.rows := events_grow hw (.refl _) h₁m
  have hafter := events_grow hw h₁m h₂m
  rw [hsame] at hafter
  have hrows : m.world.db.events.rows = w.db.events.rows :=
    hafter.eq_of_length_le hbefore.length_le
  unfold TieBreak.answer TieBreak.listing
  rw [hrows]

/-! ## A row that comes in between -/

/-- A row of the log. -/
def loggedAt (id : ℕ) (timestamp : Time) : AuditEvent :=
  { id := some id, timestamp := timestamp, actorCn := "pi-01.thesis.local", action := .nodeHeartbeat }

/-- A log of such rows. -/
def logOf (es : List AuditEvent) (h : (es.map AuditEvent.id).Nodup) : Database :=
  ⟨.empty, ⟨es, h, h⟩⟩

/-- The first table of the example has no id twice. -/
theorem nodup_one : ([loggedAt 1 5].map AuditEvent.id).Nodup := by decide

/-- The second table of the example has none either. -/
theorem nodup_two : ([loggedAt 1 5, loggedAt 2 3].map AuditEvent.id).Nodup := by decide

/-- What the reads see: a first row, and from then on a second one that is
dated earlier. -/
def seen : ℕ → Database
  | 0 => logOf [loggedAt 1 5] nodup_one
  | _ + 1 => logOf [loggedAt 1 5, loggedAt 2 3] nodup_two

/-- What they return, a row at a time. -/
def returned : ℕ → List AuditEvent
  | 0 => [loggedAt 1 5]
  | 1 => [loggedAt 2 3]
  | _ => []

/-- A page of the example is answered with its events. -/
theorem respond_page {size k : ℕ} {now : Time} {db : Database} {es : List AuditEvent}
    (hpage : badPage size (k * size : ℕ) = []) (hans : (f.query size (k * size)).answer db = es)
    (hok : es.all AuditEventRead.ok = true) :
    respond {} (f.request nodeHeaders size k) ∅ now db = (.ok ⟨200, .events es⟩, []) := by
  rw [respond_admitted (by simp [Filters.request, Endpoint.body?]) (identityOf_nodeHeaders {})
    (revokedSerial_empty _)]
  unfold Filters.request replyBody
  dsimp only
  rw [if_neg (not_not.mpr hpage)]
  show (if ((f.query size (k * size)).answer db).all AuditEventRead.ok = true then _ else _, _) = _
  rw [hans, if_pos hok]
  exact congrArg (fun l => (Except.ok (Response.mk 200 (.events l)), _)) hans

/-- Both tables of the example are prefixes of the later one. -/
theorem prefix_seen (k : ℕ) : (seen k).events.rows <+: [loggedAt 1 5, loggedAt 2 3] := by
  rcases k with _ | k
  · exact ⟨[loggedAt 2 3], rfl⟩
  · exact List.prefix_rfl

/-- The rows stand in the log as they are returned. -/
theorem answer_seen (k : ℕ) (q : AuditQuery)
    (hq : (seen k).events.rows.all q.keeps = true) :
    q.answer (seen k) = ((seen k).events.rows.drop q.offset).take q.limit := by
  have hsorted : (seen k).events.rows.Pairwise
      fun a b => decide (b.timestamp ≤ a.timestamp) = true := by
    rcases k with _ | k
    · exact List.pairwise_singleton ..
    · exact List.pairwise_pair.mpr (by decide)
  -- no two of them have one timestamp, so it does not matter how they were found
  have hanti : ∀ a ∈ (seen k).events.rows, ∀ b ∈ (seen k).events.rows,
      b.timestamp ≤ a.timestamp → a.timestamp ≤ b.timestamp → a = b := by
    rcases k with _ | k
    · decide
    · show ∀ a ∈ (seen 1).events.rows, ∀ b ∈ (seen 1).events.rows,
        b.timestamp ≤ a.timestamp → a.timestamp ≤ b.timestamp → a = b
      decide
  have hperm := (List.mergeSort_perm (q.found (seen k))
    fun a b => decide (b.timestamp ≤ a.timestamp)).trans (q.found_perm (seen k))
  rw [List.filter_eq_self.mpr (List.all_eq_true.mp hq)] at hperm
  have hpages : ((q.found (seen k)).mergeSort fun a b => decide (b.timestamp ≤ a.timestamp))
      = (seen k).events.rows := by
    refine hperm.eq_of_pairwise (fun a b ha hb hab hba => ?_)
      (List.pairwise_mergeSort later_trans later_total _) hsorted
    exact hanti a (hperm.subset ha) b hb (of_decide_eq_true hab) (of_decide_eq_true hba)
  unfold AuditQuery.answer
  rw [hpages]

/-- The pages of the example make a walk. -/
theorem returned_walk : Walk (.flip (.byRow [loggedAt 1 5, loggedAt 2 3])) {} ⟨none, none, none⟩ 1 2
    (fun _ => nodeHeaders) seen returned where
  decides k _ := decides_tieBreak ⟨1, 0, none, none, none⟩ (prefix_seen k)
  grows k _ := by
    rcases k with _ | k
    · exact ⟨[loggedAt 2 3], .refl _⟩
    · exact ⟨[], .refl _⟩
  reads k hk := by
    refine @respond_reads {} _ _ { db := seen k } ⟨rfl, rfl⟩ nodeHeaders 1 k _
      (respond_page ?_ ((answer_seen k _ ?_).trans ?_) ?_) (prefix_seen k)
      (List.Nodup.of_map _ nodup_two)
    all_goals
      obtain rfl | rfl | rfl : k = 0 ∨ k = 1 ∨ k = 2 := by omega
      all_goals decide +kernel
  full k hk := by
    obtain rfl | rfl : k = 0 ∨ k = 1 := by omega
    all_goals rfl
  short := by decide

/-- The second row comes between the first two reads. -/
theorem complete_walk : Complete ⟨none, none, none⟩ 2 seen returned :=
  audit_walk_complete returned_walk

end ZeroTrustLab.Controller
