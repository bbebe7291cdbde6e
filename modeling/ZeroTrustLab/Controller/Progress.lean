import ZeroTrustLab.Controller.Confinement

/-!
# The write lock

The first statement of a flush takes SQLite's write lock and the commit, the
rollback or the close of the session gives it back. There is one lock, so what
has to be shown is that nobody keeps it: whoever holds it is still running
(`serving_owner`), and while a request runs alone, no flush of its own is refused
(`Alone.step`).

`serving_drains` puts the two together: from every moment of every run, however
its requests have interleaved and failed until then, all of them can be answered,
the holder of the lock first, without a database call that fails on its own or
because the database is locked. A call may still violate a constraint: whoever
has found its `node_id` free and has been overtaken is told so.
-/

namespace ZeroTrustLab.Controller

open Lib

variable {settings : Settings} {reqs : Rid → Request} {w₀ : World} {i : Rid}
  {ls ls' : List (Label Call Ans Exc Rid Env)} {lab : Label Call Ans Exc Rid Env}
  {c c' : Cfg Call Ans Exc Response Rid Session World}

/-! ## Who holds the lock -/

/-- Whoever has a transaction open is still running. -/
def Tended (c : Cfg Call Ans Exc Response Rid Session World) : Prop :=
  ∀ t, c.world.tx = some t → ∃ p, (c.party t.owner).status = .running p

/-- A rollback leaves open only a transaction of another request. -/
theorem rollback_tx {w : World} {t : Tx} (h : (w.rollback i).tx = some t) :
    w.tx = some t ∧ t.owner ≠ i :=
  ⟨(Option.filter_eq_some_iff.mp h).1, notMine_rollback t h⟩

/-- **The lock is held by a running request**, or by none. -/
theorem serving_owner (hw : w₀.Fresh) (h : Run settings reqs w₀ ls c) : Tended c := by
  induction h with
  | refl =>
    intro t ht
    have hnone : (serving settings reqs w₀).world.tx = none := hw.tx
    rw [hnone] at ht
    exact absurd ht (by simp)
  | @snoc c₁ c₂ ls lab h hs ih =>
    intro t ht
    have hothers : ∀ {j : Rid} {l : Session} {s : Status Call Ans Exc Response} {w : World},
        t.owner ≠ j → c₁.world.tx = some t →
          ∃ p, ((c₁.set j l s w).party t.owner).status = .running p := by
      intro j l s w hj htx
      rw [Cfg.set_party_ne _ _ _ _ hj]
      exact ih t htx
    rcases serving_step hw h hs with ⟨i, hby, hg⟩ | ⟨hby, -, -⟩
    · cases hs with
      | @served j d k x l' w' hp hserve =>
        obtain rfl : j = i := Option.some.inj hby
        by_cases hj : t.owner = j
        · exact ⟨k x, by rw [hj, Cfg.set_party_self]⟩
        · exact hothers hj ((hg.others t hj).mp ht)
      | @raised j d k e l' w' hp hr =>
        rw [Cfg.set_world, (raises_rollback hr).2] at ht
        exact hothers (rollback_tx ht).2 (rollback_tx ht).1
      | exited hp hr => exact hothers (rollback_tx ht).2 (rollback_tx ht).1
      | env e => simp [Label.by?] at hby
    · obtain ⟨e, rfl, rfl⟩ := hs.eq_env hby
      refine ih t ?_
      cases e <;> exact ht

/-! ## A request on its own -/

/-- Nobody but request `i` has a transaction open. -/
def Alone (i : Rid) (w : World) : Prop := ∀ t, w.tx = some t → t.owner = i

/-- A request that is alone can begin a transaction. -/
theorem Alone.begin {w : World} (h : Alone i w) : w.begin i ≠ none := by
  unfold World.begin
  rcases htx : w.tx with _ | t
  · simp
  · dsimp only
    rw [if_pos (h t htx)]
    simp

/-- A flush of a request that is alone does not find the database locked. -/
theorem Alone.flushSession {l l' : Session} {w w' : World} {x : Except Exc (List Nat)}
    (h : Alone i w) (hs : flushSession i l w = (x, l', w')) : x ≠ .error .locked ∧ Alone i w' := by
  unfold Controller.flushSession at hs
  split at hs
  next =>
    obtain ⟨rfl, -, rfl⟩ : Except.ok [] = x ∧ l = l' ∧ w = w' := by simpa using hs
    exact ⟨by simp, h⟩
  next =>
    split at hs
    next hb => exact absurd hb h.begin
    next view writes hb =>
      split at hs
      next =>
        obtain ⟨rfl, -, rfl⟩ : Except.error Exc.integrity = x ∧ _ ∧ w.rollback i = w' := by
          simpa using hs
        exact ⟨by simp, fun t ht => h t (rollback_tx ht).1⟩
      next view' writes' hf =>
        obtain ⟨rfl, -, rfl⟩ : Except.ok (writes'.filterMap Write.newId) = x ∧ _ ∧
            { w with tx := some ⟨i, view', writes ++ writes'⟩ } = w' := by simpa using hs
        refine ⟨by simp, fun t ht => ?_⟩
        obtain rfl := Option.some.inj ht
        rfl

theorem Alone.commitTx {w : World} (h : Alone i w) : Alone i (w.commitTx i) := by
  intro t ht
  unfold World.commitTx at ht
  split at ht
  next t' htx =>
    split at ht
    next => simp at ht
    next hne => exact absurd (h t' htx) hne
  next => exact h t ht

/-- No call of a request that is alone finds the database locked. -/
theorem Alone.serve {d : Call} {l l' : Session} {w w' : World} {x : Except Exc (Ans d)}
    (h : Alone i w) (hs : serve i d l w = (x, l', w')) : x ≠ .error .locked ∧ Alone i w' := by
  rcases d.quiet_or with hq | ⟨obj, rfl⟩ | rfl | rfl | ⟨id, rfl⟩
  · obtain ⟨y, ns, hy⟩ := serve_quiet hq i l w
    rw [hy] at hs
    obtain ⟨rfl, -, rfl⟩ : Except.ok y = x ∧ l = l' ∧ { w with notes := w.notes ++ ns } = w' := by
      simpa using hs
    exact ⟨by simp, h⟩
  · obtain ⟨rfl, -, rfl⟩ : Except.ok () = x ∧ _ ∧ w = w' := by simpa [Controller.serve] using hs
    exact ⟨by simp, h⟩
  · exact h.flushSession hs
  · have hs : commitSession i l w = (x, l', w') := hs
    rcases x with e | u
    · obtain ⟨hne, hw'⟩ := h.flushSession (commitSession_error hs)
      refine ⟨fun he => hne ?_, hw'⟩
      rw [Except.error.inj he]
    · obtain ⟨ids, w₁, hf, rfl⟩ := commitSession_ok hs
      exact ⟨by simp, (h.flushSession hf).2.commitTx⟩
  · rcases x with e | n
    · obtain ⟨rfl, -, rfl⟩ := refresh_error hs
      exact ⟨by simp, fun t ht => h t (rollback_tx ht).1⟩
    · obtain ⟨-, -, rfl⟩ := refresh_ok hs
      exact ⟨by simp, h⟩

/-- The move is not a call that fails on its own, or because the database is
locked. -/
def Unrefused (lab : Label Call Ans Exc Rid Env) : Prop :=
  ∀ i d e, lab = .call i ⟨d, .error e⟩ → e = .integrity ∨ e = .notPersistent

/-- A move of the one who may hold the lock. -/
theorem Alone.step (h : Alone i c.world) (hs : Step controller c lab c') (hby : lab.by? = some i)
    (hans : controller.Answers lab) : Alone i c'.world ∧ Unrefused lab := by
  cases hs with
  | @served j d k x l' w' hp hserve =>
    obtain rfl : j = i := Option.some.inj hby
    exact ⟨(h.serve hserve).2, fun _ _ _ he => by cases he⟩
  | @raised j d k e l' w' hp hr =>
    obtain rfl : j = i := Option.some.inj hby
    refine ⟨?_, ?_⟩
    · rw [Cfg.set_world, (raises_rollback hr).2]
      exact fun t ht => h t (rollback_tx ht).1
    · rintro j' d' e' he
      obtain ⟨rfl, hact⟩ := Label.call.inj he
      obtain ⟨rfl, hheq⟩ := Act.mk.inj hact
      obtain rfl : e = e' := Except.error.inj (eq_of_heq hheq)
      obtain ⟨l₀, w₀, ⟨l₁, w₁⟩, hanswer⟩ := hans _ _ _ rfl
      rcases serve_raises hanswer with rfl | he | ⟨-, he⟩
      · -- nobody else holds the lock
        rcases raises_cases hr with hserve | ⟨site, -, hsite, -⟩
        · exact absurd rfl (h.serve hserve).1
        · simp at hsite
      · exact .inl he
      · exact .inr he
  | @exited j p r hp hr =>
    exact ⟨fun t ht => h t (rollback_tx ht).1, fun _ _ _ he => by cases he⟩
  | env e => simp [Label.by?] at hby

/-- As long as it alone moves it stays alone, and is refused nothing. -/
theorem Alone.steps (h : Alone i c.world) (hs : Steps controller c ls c')
    (hby : ∀ lab ∈ ls, lab.by? = some i ∧ controller.Answers lab) :
    Alone i c'.world ∧ ∀ lab ∈ ls, Unrefused lab := by
  induction hs with
  | refl => exact ⟨h, by simp⟩
  | @snoc c₁ c₂ ls lab hs₁ hs₂ ih =>
    obtain ⟨hfront, hlast⟩ := List.forall_mem_append.mp hby
    obtain ⟨ha, hun⟩ := ih hfront
    obtain ⟨hmove, hans⟩ := hlast lab (List.mem_singleton_self lab)
    have hstep := ha.step hs₂ hmove hans
    refine ⟨hstep.1, fun lab' hlab => ?_⟩
    rcases List.mem_append.mp hlab with hlab | hlab
    · exact hun lab' hlab
    · rw [List.mem_singleton.mp hlab]
      exact hstep.2

/-- Alone with the lock, a request comes to its end and leaves nothing open. -/
theorem Alone.finish (h : Alone i c.world) {p : Handler Response}
    (hp : (c.party i).status = .running p) :
    ∃ ls' c', Steps controller c ls' c' ∧ (∀ lab ∈ ls', lab.by? = some i ∧ Unrefused lab) ∧
      (∃ r, (c'.party i).status = .done r) ∧ c'.world.tx = none ∧
      ∀ j ≠ i, c'.party j = c.party j := by
  rcases hrun : controller.run i p (c.party i).loc c.world with ⟨r, l, w⟩
  obtain ⟨ls', c', hs, hby, hdone, hworld, hothers⟩ := run_alone hp hrun
  obtain ⟨halone, hun⟩ := h.steps hs hby
  refine ⟨ls', c', hs, fun lab hlab => ⟨(hby lab hlab).1, hun lab hlab⟩, ⟨r, hdone⟩, ?_, hothers⟩
  -- closing its session has rolled back what it had open
  rcases htx : c'.world.tx with _ | t
  · rfl
  · have howner := halone t htx
    rw [hworld] at htx
    exact absurd howner (rollback_tx htx).2

/-- Every request can come to its end, with moves of its own. -/
theorem can_finish (c : Cfg Call Ans Exc Response Rid Session World) (i : Rid) :
    ∃ ls' c', Steps controller c ls' c' ∧ (∀ lab ∈ ls', lab.by? = some i) ∧
      ∃ r, (c'.party i).status = .done r := by
  rcases hst : (c.party i).status with p | r
  · rcases hrun : controller.run i p (c.party i).loc c.world with ⟨r, l, w⟩
    obtain ⟨ls', c', hs, hby, hdone, -, -⟩ := run_alone hst hrun
    exact ⟨ls', c', hs, fun lab hlab => (hby lab hlab).1, r, hdone⟩
  · exact ⟨[], c, .refl c, by simp, r, hst⟩

/-- A request commits one transaction at most. -/
theorem own_length_le (hw : w₀.Fresh) (h : Run settings reqs w₀ ls c) (i : Rid) :
    (c.world.own i).length ≤ 1 := by
  obtain ⟨ls', c', h', -, r, hd⟩ := can_finish c i
  have hend : (c'.world.own i).length ≤ 1 := by
    have ho := serving_outcome hw (h.trans h') hd
    generalize c'.world.own i = own at ho
    cases ho with
    | answered hp ha => cases ha <;> simp
    | _ => simp
  -- what it has committed now, it has committed in the end
  exact (own_grows (serving_grows hw h h').2 i).length_le.trans hend

/-- **At most once**: no request is in the journal twice. -/
theorem serving_once (hw : w₀.Fresh) (h : Run settings reqs w₀ ls c) :
    (c.world.journal.map Prod.fst).Nodup := by
  rw [List.nodup_iff_count_le_one]
  intro i
  have hown := own_length_le hw h i
  unfold World.own at hown
  rw [List.length_map, ← List.countP_eq_length_filter] at hown
  rw [List.count_eq_countP, List.countP_map]
  refine le_trans (List.countP_mono_left fun e _ he => ?_) hown
  exact decide_eq_true (eq_of_beq he)

/-! ## Everybody can finish -/

/-- One after the other, once the lock is free. -/
theorem drains_free : ∀ (is : List Rid) (c : Cfg Call Ans Exc Response Rid Session World),
    c.world.tx = none → ∃ ls' c', Steps controller c ls' c' ∧ (∀ lab ∈ ls', Unrefused lab) ∧
      (∀ i ∈ is, ∃ r, (c'.party i).status = .done r) ∧ c'.world.tx = none ∧
      ∀ j r, (c.party j).status = .done r → (c'.party j).status = .done r
  | [], c, htx => ⟨[], c, .refl c, by simp, by simp, htx, fun _ _ h => h⟩
  | i :: is, c, htx => by
    -- the first one, if it is still running
    obtain ⟨ls₁, c₁, hs₁, hun₁, ⟨r, hr⟩, htx₁, hdone₁⟩ : ∃ ls₁ c₁, Steps controller c ls₁ c₁ ∧
        (∀ lab ∈ ls₁, Unrefused lab) ∧ (∃ r, (c₁.party i).status = .done r) ∧ c₁.world.tx = none ∧
        ∀ j r, (c.party j).status = .done r → (c₁.party j).status = .done r := by
      rcases hst : (c.party i).status with p | r
      · have halone : Alone i c.world := fun t ht => by rw [htx] at ht; simp at ht
        obtain ⟨ls₁, c₁, hs₁, hun₁, hr, htx₁, hothers⟩ := halone.finish hst
        refine ⟨ls₁, c₁, hs₁, fun lab hlab => (hun₁ lab hlab).2, hr, htx₁, fun j r hj => ?_⟩
        have hne : j ≠ i := by
          rintro rfl
          rw [hst] at hj
          simp at hj
        rw [hothers j hne]
        exact hj
      · exact ⟨[], c, .refl c, by simp, ⟨r, hst⟩, htx, fun _ _ h => h⟩
    obtain ⟨ls₂, c₂, hs₂, hun₂, his, htx₂, hdone₂⟩ := drains_free is c₁ htx₁
    refine ⟨ls₁ ++ ls₂, c₂, hs₁.trans hs₂, List.forall_mem_append.mpr ⟨hun₁, hun₂⟩, ?_, htx₂,
      fun j r hj => hdone₂ j r (hdone₁ j r hj)⟩
    intro j hj
    rcases List.mem_cons.mp hj with rfl | hj
    · exact ⟨r, hdone₂ _ r hr⟩
    · exact his j hj

/-- **Nothing deadlocks**: from every moment of every run the requests can all
be answered, no call failing on its own or because of the lock, which is free in
the end. -/
theorem serving_drains (hw : w₀.Fresh) (h : Run settings reqs w₀ ls c) (is : List Rid) :
    ∃ ls' c', Run settings reqs w₀ (ls ++ ls') c' ∧ (∀ lab ∈ ls', Unrefused lab) ∧
      (∀ i ∈ is, ∃ r, (c'.party i).status = .done r) ∧ c'.world.tx = none := by
  obtain ⟨ls₁, c₁, hs₁, hun₁, htx₁⟩ : ∃ ls₁ c₁, Steps controller c ls₁ c₁ ∧
      (∀ lab ∈ ls₁, Unrefused lab) ∧ c₁.world.tx = none := by
    rcases htx : c.world.tx with _ | t
    · exact ⟨[], c, .refl c, by simp, htx⟩
    · -- the holder of the lock goes first
      obtain ⟨p, hp⟩ := serving_owner hw h t htx
      have halone : Alone t.owner c.world := by
        intro t' ht'
        rw [Option.some.inj (ht'.symm.trans htx)]
      obtain ⟨ls₁, c₁, hs₁, hun₁, -, htx₁, -⟩ := halone.finish hp
      exact ⟨ls₁, c₁, hs₁, fun lab hlab => (hun₁ lab hlab).2, htx₁⟩
  obtain ⟨ls₂, c₂, hs₂, hun₂, his, htx₂, -⟩ := drains_free is c₁ htx₁
  refine ⟨ls₁ ++ ls₂, c₂, ?_, List.forall_mem_append.mpr ⟨hun₁, hun₂⟩, his, htx₂⟩
  rw [← List.append_assoc]
  exact (h.trans hs₁).trans hs₂

/-- A registration stops where it holds the lock, with the node's heartbeat
yet to come. -/
theorem holding_drains :
    (controller.play (serving {} (arrivals enrolment) .start) (List.replicate 7 0)).2.world.tx.isSome ∧
      ∃ ls' c', Run {} (arrivals enrolment) .start
          ((controller.play (serving {} (arrivals enrolment) .start) (List.replicate 7 0)).1 ++ ls') c' ∧
        (∀ lab ∈ ls', Unrefused lab) ∧ (∀ i ∈ [1, 0], ∃ r, (c'.party i).status = .done r) ∧
        c'.world.tx = none :=
  ⟨by decide +kernel, serving_drains World.start_fresh (controller.play_steps _ _) [1, 0]⟩

end ZeroTrustLab.Controller
