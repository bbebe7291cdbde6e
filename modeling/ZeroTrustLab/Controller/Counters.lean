import ZeroTrustLab.Lib.Tally
import ZeroTrustLab.Controller.Runs

/-!
# The counters of a run

Counters and log lines are process state: no rollback takes them back.
`serving_counts` says what they show after any run: what the requests have
counted, each in its own history.

It is a sum over the labels of the run: a step notes what the call of its label
notes and nothing else (`step_notes`), no matter whether the transaction around
it is committed later.
-/

namespace ZeroTrustLab.Controller

open Lib

variable {settings : Settings} {reqs : Rid → Request} {w₀ : World}
  {ls : List (Label Call Ans Exc Rid Env)} {lab : Label Call Ans Exc Rid Env}
  {c c' : Cfg Call Ans Exc Response Rid Session World}

/-- What a request has logged and counted. -/
def notesOf (h : History) : List Note := h.filterMap Act.note?

@[simp] theorem notesOf_append (h h' : History) : notesOf (h ++ h') = notesOf h ++ notesOf h' :=
  List.filterMap_append

/-- Every request that has begun has been answered. -/
def Settled (ls : List (Label Call Ans Exc Rid Env))
    (c : Cfg Call Ans Exc Response Rid Session World) : Prop :=
  ∀ i ∈ movers ls, ∃ r, (c.party i).status = .done r

/-- Only one request has begun, and it has been answered. -/
theorem settled_single {i : Rid} (hmoved : movers ls = {i})
    (hdone : (c.party i).status.result?.isSome = true) : Settled ls c := by
  intro j hj
  rw [hmoved] at hj
  obtain rfl := Finset.mem_singleton.mp hj
  exact (Option.isSome_iff_exists.mp hdone).imp fun _ => Status.eq_done

/-- A call that raises counts nothing. -/
theorem note?_error (d : Call) (e : Exc) : Act.note? ⟨d, .error e⟩ = none := by
  cases d <;> rfl

/-- A step adds to the notes what the call of its label notes. -/
private theorem step_notes (hs : Step controller c lab c') (p : Note → Bool) :
    c'.world.notes.countP p
      = c.world.notes.countP p + lab.worth fun a => (Act.note? a).toList.countP p := by
  cases hs with
  | served hp hserve =>
    obtain ⟨db, tx, journal, rfl⟩ := serve_frame hserve
    exact List.countP_append
  | raised hp hr =>
    rw [Cfg.set_world, (raises_rollback hr).2]
    show _ = _ + (Act.note? _).toList.countP p
    rw [note?_error]
    rfl
  | exited => rfl
  | env e => cases e <;> rfl

/-- **The process counts what its requests count.** -/
theorem serving_counts (h : Run settings reqs w₀ ls c) (p : Note → Bool) :
    c.world.notes.countP p
      = w₀.notes.countP p + ∑ i ∈ movers ls, (notesOf (acts i ls)).countP p := by
  have hshares : ∑ i ∈ movers ls, (notesOf (acts i ls)).countP p
      = tally (Label.worth fun a => (Act.note? a).toList.countP p) ls := by
    rw [← sum_tally_acts]
    exact Finset.sum_congr rfl fun i _ => countP_filterMap _ p _
  rw [hshares]
  clear hshares
  induction h with
  | refl => rfl
  | snoc _ hs ih =>
    rw [step_notes hs p, ih, tally_append, tally_cons, tally_nil]
    omega

end ZeroTrustLab.Controller
