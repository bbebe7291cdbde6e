import ZeroTrustLab.Controller.Runs

/-!
# A session is a function of its history

What a request has pending, what it has sent and what it has committed follows
from its own calls and their answers, whatever the others do in between:
`ledger` computes it. `serving_ledger` is the fact about runs; with it, a
statement about what a request commits is one about the paths through its code.

The books are kept one call at a time (`Books.served`, `Books.raised`). While
other requests move, a request's own pending changes are its own object in
memory, and what it has sent lies in a transaction that no one else can touch,
for there is one write lock.
-/

namespace ZeroTrustLab.Controller

open Lib

variable {settings : Settings} {reqs : Rid → Request} {w₀ : World}
  {ls : List (Label Call Ans Exc Rid Env)} {lab : Label Call Ans Exc Rid Env}
  {c c' : Cfg Call Ans Exc Response Rid Session World} {i : Rid} {l l' : Session} {w w' : World}

/-! ## The ledger -/

/-- What was added, by how far it has come. -/
structure Ledger where
  pending : List Pending := []
  sent : List Pending := []
  committed : List Pending := []

/-- An exception drops what is not committed. -/
def Ledger.next (b : Ledger) : Act Call Ans Exc → Ledger
  | ⟨.add p, .ok _⟩ => { b with pending := b.pending ++ [p] }
  | ⟨.flush, .ok _⟩ => { b with pending := [], sent := b.sent ++ b.pending }
  | ⟨.commit, .ok _⟩ => { committed := b.committed ++ (b.sent ++ b.pending) }
  | ⟨_, .ok _⟩ => b
  | ⟨_, .error _⟩ => { committed := b.committed }

def ledger (h : History) : Ledger := h.foldl Ledger.next {}

theorem ledger_concat (h : History) (a : Act Call Ans Exc) :
    ledger (h ++ [a]) = (ledger h).next a := by
  unfold ledger
  rw [List.foldl_append]
  rfl

def Ledger.all (b : Ledger) : List Pending := b.committed ++ (b.sent ++ b.pending)

/-- Only `session.add` puts something in. -/
theorem Ledger.all_next {b : Ledger} {a : Act Call Ans Exc} {p : Pending}
    (hp : p ∈ (b.next a).all) : p ∈ b.all ∨ a = ⟨.add p, .ok ()⟩ := by
  obtain ⟨d, x⟩ := a
  rcases x with e | x
  · -- an exception leaves what was committed
    have hcommitted : p ∈ b.committed := by
      cases d <;> simpa [Ledger.next, Ledger.all] using hp
    exact .inl (List.mem_append_left _ hcommitted)
  · cases d with
    | add q =>
      have hq : p ∈ b.all ++ [q] := by simpa [Ledger.next, Ledger.all] using hp
      rcases List.mem_append.mp hq with hall | hlast
      · exact .inl hall
      · rw [List.mem_singleton.mp hlast]
        exact .inr rfl
    | flush => exact .inl (by simpa [Ledger.next, Ledger.all] using hp)
    | commit => exact .inl (by simpa [Ledger.next, Ledger.all] using hp)
    | note n => exact .inl hp
    | utcnow => exact .inl hp
    | isRevoked n => exact .inl hp
    | selectNode nodeId => exact .inl hp
    | selectNodes => exact .inl hp
    | selectEvents q => exact .inl hp
    | refresh id => exact .inl hp

/-- Nothing is in it that was not added. -/
theorem ledger_added {h : History} {p : Pending} (hp : p ∈ (ledger h).all) :
    ⟨.add p, .ok ()⟩ ∈ h := by
  induction h using List.reverseRecOn with
  | nil => simp [ledger, Ledger.all] at hp
  | append_singleton h a ih =>
    rw [ledger_concat] at hp
    rcases Ledger.all_next hp with hall | rfl
    · exact List.mem_append_left _ (ih hall)
    · exact List.mem_append_right _ (List.mem_singleton_self _)

/-! ## What the database shows of it -/

/-- What request `i` has sent and not committed. -/
def World.held (i : Rid) (w : World) : List Write :=
  match w.tx with
  | some t => if t.owner = i then t.writes else []
  | none => []

/-- Who has no transaction open has nothing held. -/
theorem held_notMine (h : NotMine i w) : w.held i = [] := by
  unfold World.held
  rcases htx : w.tx with _ | t
  · rfl
  · exact if_neg (h t htx)

/-- The others do not touch what one has held. -/
theorem held_rely (h : Rely i w w') : w'.held i = w.held i := by
  by_cases hmine : NotMine i w
  · rw [held_notMine hmine, held_notMine (hmine.rely h)]
  · unfold NotMine at hmine
    push Not at hmine
    obtain ⟨t, ht, ho⟩ := hmine
    unfold World.held
    rw [ht, (h.tx t ho).mpr ht]

/-- The ledger's statements are those of the open transaction and of the
journal. -/
structure Books (i : Rid) (b : Ledger) (l : Session) (w : World) : Prop where
  pending : l.pending = b.pending
  sent : List.Forall₂ Sends b.sent (w.held i)
  committed : List.Forall₂ Sends b.committed (w.own i).flatten

/-- After a rollback the books show what was committed, and nothing held. -/
theorem Books.rollback {b : Ledger} (h : Books i b l w) :
    Books i { committed := b.committed } {} (w.rollback i) where
  pending := rfl
  sent := by
    rw [held_notMine notMine_rollback]
    exact .nil
  committed := h.committed

/-- Sending what was added. -/
theorem Books.flush {b : Ledger} {ids : List Nat} (h : Books i b l w)
    (hf : flushSession i l w = (.ok ids, l', w')) :
    Books i { b with pending := [], sent := b.sent ++ b.pending } l' w' := by
  unfold flushSession at hf
  split at hf
  next hnil =>
    obtain ⟨-, rfl, rfl⟩ : _ ∧ l = l' ∧ w = w' := by simpa using hf
    have hpending : b.pending = [] := h.pending.symm.trans hnil
    refine ⟨hnil, ?_, h.committed⟩
    rw [hpending, List.append_nil]
    exact h.sent
  next =>
    split at hf
    next => simp at hf
    next view writes hbegin =>
      split at hf
      next => simp at hf
      next view' writes' hflush =>
        obtain ⟨-, rfl, rfl⟩ : _ ∧ ({} : Session) = l' ∧
          { w with tx := some ⟨i, view', writes ++ writes'⟩ } = w' := by simpa using hf
        -- the transaction it begins in is its own or a new one
        have hwrites : writes = w.held i := by
          unfold World.begin at hbegin
          unfold World.held
          rcases htx : w.tx with _ | t
          · simp only [htx, Option.some.injEq, Prod.mk.injEq] at hbegin
            exact hbegin.2.symm
          · by_cases ho : t.owner = i
            · simp only [htx, ho, if_true, Option.some.injEq, Prod.mk.injEq] at hbegin
              simp only [ho, if_true]
              exact hbegin.2.symm
            · simp [htx, ho] at hbegin
        have hsends := (Database.flush_eq_some hflush).2
        rw [h.pending] at hsends
        refine ⟨rfl, ?_, h.committed⟩
        have hheld : World.held i { w with tx := some ⟨i, view', writes ++ writes'⟩ }
            = w.held i ++ writes' := by
          unfold World.held
          rw [hwrites]
          exact if_pos rfl
        rw [hheld]
        exact List.rel_append h.sent hsends

/-- Committing what was sent. -/
theorem Books.commit {b : Ledger} (h : Books i b l w) :
    Books i { b with sent := [], committed := b.committed ++ b.sent } l (w.commitTx i) := by
  by_cases hmine : NotMine i w
  · -- nothing was sent
    have hsent := h.sent
    rw [held_notMine hmine, List.forall₂_nil_right_iff] at hsent
    have hsame : w.commitTx i = w := by
      unfold World.commitTx
      rcases htx : w.tx with _ | t
      · rfl
      · exact if_neg (hmine t htx)
    rw [hsame, hsent, List.append_nil]
    exact ⟨h.pending, by rw [held_notMine hmine]; exact .nil, h.committed⟩
  · unfold NotMine at hmine
    push Not at hmine
    obtain ⟨t, htx, ho⟩ := hmine
    have hheld : w.held i = t.writes := by
      unfold World.held
      rw [htx]
      exact if_pos ho
    have hcommit : w.commitTx i
        = { w with db := t.view, tx := none, journal := w.journal ++ [(i, t.writes)] } := by
      unfold World.commitTx
      rw [htx]
      exact if_pos ho
    -- what was held becomes the request's next entry in the journal
    have hown : (w.commitTx i).own i = w.own i ++ [t.writes] := by
      rw [own_commit (by rw [hcommit]), if_pos rfl]
    refine ⟨h.pending, ?_, ?_⟩
    · rw [held_notMine (by rw [hcommit]; simp [NotMine])]
      exact .nil
    · rw [hown, List.flatten_append, List.flatten_singleton, ← hheld]
      exact List.rel_append h.committed h.sent

/-- **One call** keeps the books. -/
theorem Books.served {b : Ledger} {d : Call} {x : Ans d} (h : Books i b l w)
    (hs : serve i d l w = (.ok x, l', w')) : Books i (b.next ⟨d, .ok x⟩) l' w' := by
  rcases d.quiet_or with hq | ⟨obj, rfl⟩ | rfl | rfl | ⟨id, rfl⟩
  · obtain ⟨y, ns, hy⟩ := serve_quiet hq i l w
    rw [hy] at hs
    obtain ⟨-, rfl, rfl⟩ : _ ∧ l = l' ∧ { w with notes := w.notes ++ ns } = w' := by
      simpa using hs
    have hnext : b.next ⟨d, .ok x⟩ = b := by
      cases d <;> simp [Call.quiet, Ledger.next] at hq ⊢
    rw [hnext]
    exact ⟨h.pending, h.sent, h.committed⟩
  · have hadd : (({ l with pending := l.pending ++ [obj] } : Session), w) = (l', w') :=
      congrArg Prod.snd hs
    obtain ⟨rfl, rfl⟩ := Prod.mk.inj hadd
    exact ⟨congrArg (· ++ [obj]) h.pending, h.sent, h.committed⟩
  · exact h.flush hs
  · obtain ⟨ids, w₁, hf, rfl⟩ := commitSession_ok hs
    exact (h.flush hf).commit
  · obtain ⟨-, rfl, rfl⟩ := refresh_ok hs
    exact h

/-- A call that raised leaves the books right. -/
theorem Books.raised {b : Ledger} {d : Call} {e : Exc} (h : Books i b l w)
    (hr : controller.Raises i d l w e l' w') : Books i (b.next ⟨d, .error e⟩) l' w' := by
  obtain ⟨rfl, rfl⟩ := raises_rollback hr
  have hnext : b.next ⟨d, .error e⟩ = { committed := b.committed } := by
    cases d <;> rfl
  rw [hnext]
  exact h.rollback

/-- **A session is what its history makes of it**, as long as the request
runs; what it has committed stays. -/
theorem serving_ledger (hw : w₀.Fresh) (h : Run settings reqs w₀ ls c) (i : Rid) :
    List.Forall₂ Sends (ledger (acts i ls)).committed (c.world.own i).flatten ∧
    ∀ p, (c.party i).status = .running p →
      Books i (ledger (acts i ls)) (c.party i).loc c.world := by
  induction h with
  | refl =>
    have hown : (serving settings reqs w₀).world.own i = [] := by
      show w₀.own i = []
      unfold World.own
      rw [hw.journal]
      rfl
    have hheld : (serving settings reqs w₀).world.held i = [] := by
      show w₀.held i = []
      unfold World.held
      rw [hw.tx]
    refine ⟨by rw [hown]; exact .nil, fun p _ => ⟨rfl, by rw [hheld]; exact .nil, ?_⟩⟩
    rw [hown]
    exact .nil
  | @snoc c₁ c₂ ls lab h hs ih =>
    obtain ⟨hcommitted, hbooks⟩ := ih
    -- the request's own moves keep its books; the others leave them alone
    by_cases hby : lab.by? = some i
    · cases hs with
      | @served j d k x l' w' hp hserve =>
        obtain rfl : j = i := Option.some.inj hby
        have hb := (hbooks _ hp).served hserve
        rw [acts_append, acts_call_self, ledger_concat]
        refine ⟨hb.committed, fun p _ => ?_⟩
        rw [Cfg.set_party_self]
        exact hb
      | @raised j d k e l' w' hp hraise =>
        obtain rfl : j = i := Option.some.inj hby
        have hb := (hbooks _ hp).raised hraise
        rw [acts_append, acts_call_self, ledger_concat]
        refine ⟨hb.committed, fun p _ => ?_⟩
        rw [Cfg.set_party_self]
        exact hb
      | @exited j p r hp hr =>
        obtain rfl : j = i := Option.some.inj hby
        rw [acts_append, acts_exit, List.append_nil]
        refine ⟨hcommitted, fun p hp' => ?_⟩
        simp at hp'
      | env e => simp [Label.by?] at hby
    · have hrely : Rely i c₁.world c₂.world := serving_rely hw h hs hby
      rw [acts_append, acts_eq_nil hby, List.append_nil, hrely.own, hs.party_ne hby]
      refine ⟨hcommitted, fun p hp => ?_⟩
      have hb := hbooks p hp
      exact ⟨hb.pending, by rw [held_rely hrely]; exact hb.sent, by rw [hrely.own]; exact hb.committed⟩

/-- What a request has committed it has added before. -/
theorem serving_added (hw : w₀.Fresh) (h : Run settings reqs w₀ ls c) {ws : List Write} {v : Write}
    (hws : ws ∈ c.world.own i) (hv : v ∈ ws) :
    ∃ p, Sends p v ∧ ⟨.add p, .ok ()⟩ ∈ acts i ls := by
  have hmem : v ∈ (c.world.own i).flatten := List.mem_flatten.mpr ⟨ws, hws, hv⟩
  obtain ⟨⟨k, hk⟩, rfl⟩ := List.mem_iff_get.mp hmem
  have hall := (serving_ledger hw h i).1
  have hk' : k < (ledger (acts i ls)).committed.length := hall.length_eq ▸ hk
  refine ⟨(ledger (acts i ls)).committed.get ⟨k, hk'⟩, hall.get hk' hk, ledger_added ?_⟩
  exact List.mem_append_left _ (List.get_mem _ _)

end ZeroTrustLab.Controller
