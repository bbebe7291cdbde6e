import Mathlib.Algebra.Order.Ring.Unbundled.Rat
import ZeroTrustLab.Lib.Dict
import ZeroTrustLab.Controller.Freshness

/-!
# The gauges of the node table

`app/core/metrics_hooks.py`: a background task reads the node table and
publishes two gauges. `thesis_nodes_total` is cleared first;
`thesis_node_last_heartbeat_seconds` never is, so what earlier refreshes of the
process left in it stays unless it is set again.

`gauge_refresh_exact` says that both show exactly the table that was read. For
the second that is a fact about runs: rows are never deleted, keep their
`node_id`, and do not lose a heartbeat (`serving_heard`), so every sample that
was there before is set again.

The refresh is two loops over the rows, modelled as folds over a dictionary,
and the library module `Dict` says what such folds leave behind: counts for the
first, the last entry for each key for the second. Distinct rows have distinct
`node_id`s, so in the second no entry of the same refresh is overwritten by
another.

Mirroring notes vs the Python module:
- A gauge is its samples by label values. The two kinds of values are exact
  here: counts, and seconds as rationals.
- The rows are read at one moment and published at a later one, which is when
  `now` is taken. There is one such task, so refreshes do not overlap. One that
  raises has not touched a gauge.
- SQLite's datetimes come back without a timezone and are read as UTC, which
  is what times here are.
-/

namespace ZeroTrustLab.Controller

open Lib

/-! ## `refresh_node_gauges` -/

/-- The samples of the two gauges. -/
structure Gauges where
  nodesTotal : Dict (String × String) ℕ
  nodeLastHeartbeatSeconds : Dict String ℚ

/-- The gauges of a new process. -/
def Gauges.empty : Gauges := ⟨∅, ∅⟩

/-- The label values of a row. -/
def Node.labels (n : Node) : String × String := (n.state.value, n.role)

/-- `timedelta.total_seconds()`. -/
def totalSeconds (d : Time) : ℚ := mkRat d 1000000

/-- The body of the second loop. -/
def setAge (now : Time) (g : Dict String ℚ) (n : Node) : Dict String ℚ :=
  match n.lastHeartbeatAt with
  | some hb => g.insert n.nodeId (totalSeconds (now - hb))
  | none => g

/-- `refresh_node_gauges`, from the rows it read. -/
def refreshNodeGauges (nodes : List Node) (now : Time) (gauges : Gauges) : Gauges where
  nodesTotal := (Dict.countBy Node.labels nodes).copy
  nodeLastHeartbeatSeconds := nodes.foldl (setAge now) gauges.nodeLastHeartbeatSeconds

/-! ## In a running process -/

variable {settings : Settings} {reqs : Rid → Request} {w₀ : World}
  {ls ls' : List (Label Call Ans Exc Rid Env)} {c c' : Cfg Call Ans Exc Response Rid Session World}
  {g : Gauges}

/-- The gauges of the process after a run: refreshes happened on the way, each
with the table of an earlier moment and the time of a later one. -/
inductive Gauged (settings : Settings) (reqs : Rid → Request) (w₀ : World) :
    List (Label Call Ans Exc Rid Env) → Cfg Call Ans Exc Response Rid Session World → Gauges →
      Prop where
  | start : Gauged settings reqs w₀ [] (serving settings reqs w₀) .empty
  | unchanged {ls ls' : List (Label Call Ans Exc Rid Env)}
      {c c' : Cfg Call Ans Exc Response Rid Session World} {g : Gauges}
      (h : Gauged settings reqs w₀ ls c g) (h' : Steps controller c ls' c') :
      Gauged settings reqs w₀ (ls ++ ls') c' g
  | refreshed {ls ls' : List (Label Call Ans Exc Rid Env)}
      {c c' : Cfg Call Ans Exc Response Rid Session World} {g : Gauges}
      (h : Gauged settings reqs w₀ ls c g) (h' : Steps controller c ls' c') :
      Gauged settings reqs w₀ (ls ++ ls') c'
        (refreshNodeGauges c.world.db.nodes.rows c'.world.clock g)

/-- The gauges show these rows and nothing else. -/
structure GaugesExact (rows : List Node) (now : Time) (g : Gauges) : Prop where
  /-- A pair of state and role has a sample just when some row has the pair. -/
  pairs : ∀ (state : NodeState) (role : String), (state.value, role) ∈ g.nodesTotal ↔
    ∃ row ∈ rows, row.state = state ∧ row.role = role
  /-- Every sample is labelled with a state of the enumeration. -/
  states : ∀ labels ∈ g.nodesTotal, ∃ state : NodeState, labels.1 = state.value
  count : ∀ (state : NodeState) (role : String) (v : ℕ),
    g.nodesTotal.lookup (state.value, role) = some v →
      v = rows.countP fun row => decide (row.state = state ∧ row.role = role)
  total : g.nodesTotal.total = rows.length
  /-- The nodes with a sample are those with a heartbeat; it is their age. -/
  age : ∀ (nodeId : String) (v : ℚ), g.nodeLastHeartbeatSeconds.lookup nodeId = some v ↔
    ∃ row ∈ rows, row.nodeId = nodeId ∧
      ∃ hb, row.lastHeartbeatAt = some hb ∧ v = totalSeconds (now - hb)

theorem NodeState.value_injective {s s' : NodeState} (h : s.value = s'.value) : s = s' := by
  cases s <;> cases s' <;> first | rfl | exact absurd h (by decide)

/-! ## The counting loop -/

/-- A row has the labels of its state and role. -/
theorem labels_eq {row : Node} {state : NodeState} {role : String} :
    row.labels = (state.value, role) ↔ row.state = state ∧ row.role = role := by
  unfold Node.labels
  rw [Prod.mk.injEq]
  exact and_congr_left fun _ => ⟨NodeState.value_injective, congrArg _⟩

/-- What the first gauge shows. -/
theorem lookup_nodesTotal (rows : List Node) (now : Time) (g : Gauges)
    (labels : String × String) : (refreshNodeGauges rows now g).nodesTotal.lookup labels =
      if rows.countP (fun row => decide (row.labels = labels)) = 0 then none
      else some (rows.countP fun row => decide (row.labels = labels)) := by
  show ((Dict.countBy Node.labels rows).copy).lookup labels = _
  rw [Dict.lookup_copy, Dict.lookup_countBy]

/-- A refresh sets the labels that some row has, and removes all others. -/
theorem mem_nodesTotal {rows : List Node} {now : Time} {g : Gauges} {labels : String × String} :
    labels ∈ (refreshNodeGauges rows now g).nodesTotal ↔ ∃ row ∈ rows, row.labels = labels := by
  rw [← AList.lookup_isSome, lookup_nodesTotal]
  split
  next hzero => simpa using hzero
  next hne => simpa using hne

/-! ## The loop over heartbeats -/

/-- A node without a heartbeat is left alone. -/
theorem setAges_other {rows : List Node} {now : Time} {nodeId : String}
    (h : ∀ row ∈ rows, row.nodeId = nodeId → row.lastHeartbeatAt = none) (t : Dict String ℚ) :
    (rows.foldl (setAge now) t).lookup nodeId = t.lookup nodeId := by
  induction rows generalizing t with
  | nil => rfl
  | cons row rows ih =>
    rw [List.foldl_cons, ih fun r hr => h r (List.mem_cons_of_mem _ hr)]
    have hrow := h row (List.mem_cons_self ..)
    unfold setAge
    rcases hhb : row.lastHeartbeatAt with _ | hb
    · rfl
    · refine AList.lookup_insert_ne fun hid => ?_
      rw [hhb] at hrow
      exact absurd (hrow hid.symm) (by simp)

/-- A node with one gets its age. -/
theorem setAges_row {rows : List Node} {now : Time} (hnd : (rows.map fun row => row.nodeId).Nodup)
    {row : Node} (hrow : row ∈ rows) {hb : Time} (hhb : row.lastHeartbeatAt = some hb)
    (t : Dict String ℚ) :
    (rows.foldl (setAge now) t).lookup row.nodeId = some (totalSeconds (now - hb)) := by
  induction rows generalizing t with
  | nil => simp at hrow
  | cons r rows ih =>
    rw [List.map_cons] at hnd
    obtain ⟨hnew, hnd⟩ := List.nodup_cons.mp hnd
    rw [List.foldl_cons]
    rcases List.mem_cons.mp hrow with rfl | hrow
    · -- no later row has this `node_id`
      rw [setAges_other fun r' hr' hid => absurd (List.mem_map.mpr ⟨r', hr', hid⟩) hnew]
      unfold setAge
      rw [hhb]
      exact AList.lookup_insert t
    · exact ih hnd hrow _

/-- What the second gauge shows of a table, when what it had before were nodes
with a heartbeat. -/
theorem lookup_ages {t : Table Node} {now : Time} {nodeId : String} {old : Dict String ℚ}
    (hold : (old.lookup nodeId).isSome → ∃ row ∈ t.rows, row.nodeId = nodeId ∧
      row.lastHeartbeatAt ≠ none) (v : ℚ) :
    (t.rows.foldl (setAge now) old).lookup nodeId = some v ↔
      ∃ row ∈ t.rows, row.nodeId = nodeId ∧
        ∃ hb, row.lastHeartbeatAt = some hb ∧ v = totalSeconds (now - hb) := by
  refine ⟨fun hv => ?_, fun ⟨row, hrow, hid, hb, hhb, hv⟩ => ?_⟩
  · have hrow : ∃ row ∈ t.rows, row.nodeId = nodeId ∧ row.lastHeartbeatAt ≠ none := by
      by_contra hsilent
      push Not at hsilent
      rw [setAges_other hsilent] at hv
      obtain ⟨row, hrow, hid, hhb⟩ := hold (by rw [hv]; rfl)
      exact hhb (hsilent row hrow hid)
    obtain ⟨row, hrow, hid, hhb⟩ := hrow
    obtain ⟨hb, hhb⟩ := Option.ne_none_iff_exists'.mp hhb
    have hset := @setAges_row t.rows now t.keys row hrow hb hhb old
    rw [hid, hv] at hset
    exact ⟨row, hrow, hid, hb, hhb, Option.some.inj hset⟩
  · rw [← hid, hv]
    exact setAges_row t.keys hrow hhb old

/-- A difference of times that is not negative has a count of seconds that is
not. -/
theorem totalSeconds_nonneg {d : Time} (h : 0 ≤ d) : 0 ≤ totalSeconds d :=
  (Rat.mkRat_nonneg_iff d (by decide)).mpr h

/-! ## Over a run -/

/-- Under a clock that does not go back, later is later. -/
theorem clock_le (hf : ClockForward w₀ (ls ++ ls')) (h : Run settings reqs w₀ ls c)
    (h' : Steps controller c ls' c') : c.world.clock ≤ c'.world.clock := by
  induction h' with
  | refl => exact le_rfl
  | snoc h₁ hs ih =>
    rw [← List.append_assoc] at hf
    exact (ih hf.front).trans (hf.step (h.trans h₁) hs)

/-- The node has a row with a heartbeat. -/
def Heard (db : Database) (nodeId : String) : Prop :=
  ∃ row ∈ db.nodes.rows, row.nodeId = nodeId ∧ row.lastHeartbeatAt ≠ none

/-- **A node once heard of stays so.** -/
theorem serving_heard (hw : w₀.Fresh) (h : Run settings reqs w₀ ls c)
    (h' : Steps controller c ls' c') {nodeId : String} (hn : Heard c.world.db nodeId) :
    Heard c'.world.db nodeId := by
  induction h' with
  | refl => exact hn
  | @snoc c₁ c₂ ls₁ lab h₁ hs ih =>
    rcases serving_commit hw (h.trans h₁) hs with ⟨hdb, -⟩ | ⟨i, kind, ws, -, ht, hg, ha, -⟩
    · rw [hdb]
      exact ih
    · obtain ⟨row, hrow, hid, hhb⟩ := ih
      rcases ht.next hg ha hrow with ⟨loaded, now, -, -, row', hrow', hid', hat⟩ | ⟨-, hstays⟩
      · refine ⟨row', hrow', hid'.trans hid, ?_⟩
        rw [hat.2]
        simp
      · exact ⟨row, hstays, hid, hhb⟩

/-- Whatever a refresh leaves in the second gauge was there or is in the table. -/
theorem mem_ages {rows : List Node} {now : Time} {nodeId : String} {t : Dict String ℚ}
    (h : nodeId ∈ rows.foldl (setAge now) t) :
    nodeId ∈ t ∨ ∃ row ∈ rows, row.nodeId = nodeId ∧ row.lastHeartbeatAt ≠ none := by
  by_cases hsilent : ∀ row ∈ rows, row.nodeId = nodeId → row.lastHeartbeatAt = none
  · rw [← AList.lookup_isSome, setAges_other hsilent, AList.lookup_isSome] at h
    exact .inl h
  · push Not at hsilent
    exact .inr hsilent

/-- What the gauge has kept from earlier refreshes are nodes of the table. -/
theorem Gauged.heard (hw : w₀.Fresh) (h : Gauged settings reqs w₀ ls c g) :
    Run settings reqs w₀ ls c ∧
      ∀ nodeId ∈ g.nodeLastHeartbeatSeconds, Heard c.world.db nodeId := by
  induction h with
  | start => exact ⟨.refl _, fun nodeId hn => absurd hn (AList.notMem_empty nodeId)⟩
  | unchanged _ h' ih =>
    exact ⟨ih.1.trans h', fun nodeId hn => serving_heard hw ih.1 h' (ih.2 nodeId hn)⟩
  | refreshed _ h' ih =>
    refine ⟨ih.1.trans h', fun nodeId hn => serving_heard hw ih.1 h' ?_⟩
    rcases mem_ages hn with hold | hnew
    · exact ih.2 nodeId hold
    · exact hnew

/-- **A refresh publishes exactly the node table** it read, and no age is
negative when the clock does not go back. -/
theorem gauge_refresh_exact (hw : w₀.Fresh) (h : Gauged settings reqs w₀ ls c g)
    (h' : Steps controller c ls' c') :
    GaugesExact c.world.db.nodes.rows c'.world.clock
      (refreshNodeGauges c.world.db.nodes.rows c'.world.clock g) ∧
    ((∀ r ∈ w₀.db.nodes.rows, Stamped w₀.clock r) → ClockForward w₀ (ls ++ ls') →
      ∀ nodeId v, (refreshNodeGauges c.world.db.nodes.rows c'.world.clock
        g).nodeLastHeartbeatSeconds.lookup nodeId = some v → 0 ≤ v) := by
  obtain ⟨hrun, hheard⟩ := h.heard hw
  have hexact : GaugesExact c.world.db.nodes.rows c'.world.clock
      (refreshNodeGauges c.world.db.nodes.rows c'.world.clock g) := by
    refine ⟨fun state role => ?_, fun labels hl => ?_, fun state role v hv => ?_, ?_,
      fun nodeId => ?_⟩
    · rw [mem_nodesTotal]
      exact exists_congr fun row => and_congr_right fun _ => labels_eq
    · obtain ⟨row, -, rfl⟩ := mem_nodesTotal.mp hl
      exact ⟨row.state, rfl⟩
    · rw [lookup_nodesTotal] at hv
      simp only [labels_eq] at hv
      split at hv
      next => simp at hv
      next => exact (Option.some.inj hv).symm
    · show ((Dict.countBy Node.labels _).copy).total = _
      rw [Dict.total_copy, Dict.total_countBy]
    · exact lookup_ages fun hn => hheard nodeId (AList.lookup_isSome.mp hn)
  refine ⟨hexact, fun h₀ hforward nodeId v hv => ?_⟩
  -- an age is never negative: the heartbeat's time was read before the refresh
  obtain ⟨row, hrow, -, hb, hhb, rfl⟩ := (hexact.age nodeId v).mp hv
  have hpast : hb ≤ c.world.clock :=
    ((serving_timed hw h₀ hforward.front hrun).rows row hrow).2 hb hhb
  exact totalSeconds_nonneg (Int.sub_nonneg.mpr (hpast.trans (clock_le hforward hrun h')))

/-- A refresh while the node is only enrolled, another after its heartbeat, and
a later one. -/
theorem gauges_of_heartbeat :
    ∃ ls c g, Gauged {} beatTwice enrolled ls c g ∧
      c.world.db.nodes.rows = [enrolledRow.beaten 0] ∧
      GaugesExact [enrolledRow.beaten 0] 7 (refreshNodeGauges [enrolledRow.beaten 0] 7 g) ∧
      ∀ nodeId v, (refreshNodeGauges [enrolledRow.beaten 0] 7
        g).nodeLastHeartbeatSeconds.lookup nodeId = some v → 0 ≤ v := by
  let first := controller.play (serving {} beatTwice enrolled) (List.replicate 15 0)
  have hplay : Steps controller (serving {} beatTwice enrolled) first.1 first.2 :=
    controller.play_steps _ _
  have htick : Steps controller first.2 ([] ++ [.env (.tick 7)])
      ⟨controller.env (.tick 7) first.2.world, first.2.party⟩ := (Steps.refl _).snoc (.env _)
  have hgauged := (Gauged.start.refreshed hplay).refreshed (.refl _)
  have hrows : first.2.world.db.nodes.rows = [enrolledRow.beaten 0] := by decide +kernel
  have hticks : ticks first.1 = [] := by decide +kernel
  have hstart : enrolled.db.nodes.rows = [enrolledRow] := by decide +kernel
  have hexact := gauge_refresh_exact ⟨rfl, rfl⟩ hgauged htick
  rw [hrows] at hexact
  refine ⟨_, _, _, hgauged, hrows, hexact.1, hexact.2 (fun r hr => ?_) ?_⟩
  · rw [hstart, List.mem_singleton] at hr
    rw [hr]
    exact ⟨le_rfl, by simp [enrolledRow, newNode, Record.setPk]⟩
  · have hall : ticks ((([] ++ first.1) ++ []) ++ ([] ++ [.env (.tick 7)])) = [7] := by
      unfold ticks at hticks ⊢
      simp [hticks]
    unfold ClockForward
    rw [hall]
    decide

end ZeroTrustLab.Controller
