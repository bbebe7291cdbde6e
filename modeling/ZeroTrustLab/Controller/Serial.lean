import ZeroTrustLab.Controller.App

/-!
# Requests processed one at a time

`serial` handles a list of events in order: a request runs alone from its
first call to its end, no database call fails, and between two requests the
clock may tick and a refresh cycle may end. Requests are numbered as they
arrive.

`serial_run` is the bridge to the interleaved semantics: what `serial` computes
is one of the runs, so everything proved of every run holds of it.

It is the setting of every statement about a sequence of requests, among them
the two that compare a run with another one or with the log. A request that is
handled here leaves no transaction open, so the next one begins on the
committed rows.
-/

namespace ZeroTrustLab.Controller

open Lib

/-- What happens next. -/
inductive Event where
  | request (req : Request)
  | env (e : Env)

/-- One request alone, from its start until its session is closed. -/
def handle (settings : Settings) (i : Rid) (req : Request) (w : World) :
    Except Exc Response × World :=
  let (r, l, w') := controller.run i (app settings req) {} w
  (r, (controller.close i l w').2)

/-- The events in order, the next request being number `n`: the results of the
requests, and the state at the end. -/
def serial (settings : Settings) : Rid → List Event → World → List (Except Exc Response) × World
  | _, [], w => ([], w)
  | n, .env e :: es, w => serial settings n es (controller.env e w)
  | n, .request req :: es, w =>
    let (r, w') := handle settings n req w
    let (rs, w'') := serial settings (n + 1) es w'
    (r :: rs, w'')

/-- The requests among the events. -/
def requests (es : List Event) : List Request :=
  es.filterMap fun
    | .request req => some req
    | .env _ => none

/-- Processing one at a time is an interleaving. -/
theorem serial_run (settings : Settings) (reqs : Rid → Request) : ∀ (es : List Event) (n : Nat)
    (c : Cfg Call Ans Exc Response Rid Session World),
    (∀ (k : Nat) req, (requests es)[k]? = some req → reqs (n + k) = req) →
    (∀ j : Nat, n ≤ j → c.party j = ⟨{}, .running (app settings (reqs j))⟩) →
    ∃ ls c', Steps controller c ls c' ∧ c'.world = (serial settings n es c.world).2 ∧
      (∀ j : Nat, j < n → c'.party j = c.party j) ∧
      ∀ (k : Nat) r, (serial settings n es c.world).1[k]? = some r →
        (c'.party (n + k)).status = .done r := by
  intro es
  induction es with
  | nil => exact fun n c _ _ => ⟨[], c, .refl c, rfl, fun _ _ => rfl, by simp [serial]⟩
  | cons ev es ih =>
    intro n c hreqs hfresh
    cases ev with
    | env e =>
      obtain ⟨ls, c', hls, hw, hlt, hdone⟩ := ih n ⟨controller.env e c.world, c.party⟩ hreqs hfresh
      exact ⟨.env e :: ls, c', Steps.trans (.single (.env e)) hls, hw, hlt, hdone⟩
    | request req =>
      have hreq : reqs n = req := hreqs 0 req rfl
      have hp : (c.party n).status = .running (app settings req) := by
        rw [hfresh n (Nat.le_refl n), hreq]
      rcases hrun : controller.run n (app settings req) (c.party n).loc c.world with ⟨r, l, w⟩
      -- the request runs alone to its end, then the rest of the list follows from there
      obtain ⟨ls₁, m, h₁, -, hdone₁, hw₁, hother⟩ := run_alone hp hrun
      have hhandle : handle settings n req c.world = (r, m.world) := by
        rw [hfresh n (Nat.le_refl n)] at hrun
        unfold handle
        rw [hrun, hw₁]
      obtain ⟨ls₂, c', h₂, hw, hlt, hdone⟩ := ih (n + 1) m
        (fun k req' hk => by
          rw [Nat.add_right_comm, Nat.add_assoc]
          exact hreqs (k + 1) req' hk)
        (fun j hj => by
          rw [hother j (Nat.ne_of_gt (by omega))]
          exact hfresh j (by omega))
      have hserial : serial settings n (.request req :: es) c.world
          = (r :: (serial settings (n + 1) es m.world).1, (serial settings (n + 1) es m.world).2) := by
        rw [serial, hhandle]
      refine ⟨ls₁ ++ ls₂, c', Steps.trans h₁ h₂, by rw [hserial]; exact hw, fun j hj => ?_, ?_⟩
      · rw [hlt j (by omega), hother j (Nat.ne_of_lt hj)]
      · intro k r' hk
        rw [hserial] at hk
        cases k with
        | zero =>
          obtain rfl := Option.some.inj hk
          rw [Nat.add_zero, hlt n (Nat.lt_succ_self n)]
          exact hdone₁
        | succ k =>
          have h := hdone k r' hk
          rwa [Nat.add_right_comm, Nat.add_assoc] at h

/-- The requests of a list of events, by number; any others ask for the health
of the service. -/
def arrivals (es : List Event) (i : Rid) : Request := ((requests es)[i]?).getD ⟨{}, .health⟩

/-- The same, from the start of the process. -/
theorem serial_serving (settings : Settings) (es : List Event) (w : World) :
    ∃ ls c, Steps controller (serving settings (arrivals es) w) ls c ∧
      c.world = (serial settings 0 es w).2 ∧
      ∀ (i : Nat) r, (serial settings 0 es w).1[i]? = some r → (c.party i).status = .done r := by
  obtain ⟨ls, c, h, hw, -, hdone⟩ := serial_run settings (arrivals es) es 0
    (serving settings (arrivals es) w)
    (fun k req hk => by unfold arrivals; rw [Nat.zero_add, hk]; rfl) fun _ _ => rfl
  exact ⟨ls, c, h, hw, fun i r hi => Nat.zero_add i ▸ hdone i r hi⟩

end ZeroTrustLab.Controller
