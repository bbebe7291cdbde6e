import ZeroTrustLab.Agent.Heartbeat

/-!
# The agent's conduct

What the controller and the fleet may expect of an agent, whatever it is
answered: every request is about its own node, no heartbeat goes out before a
registration was answered 201 or 409 (or some other 2xx), and the counter of
successes counts heartbeats that were answered 2xx, never more of them than
there were.

`heartbeat_trace_iff` says when an agent behaves well for given outcomes; here
the outcomes are not given, so nothing is assumed of them, and what is said
holds at every call of every history (`agent_sound`).

The invariant is about the history alone: `Registered` is kept by every further
call, and `Honest k` says that at least `k` more heartbeats have succeeded than
were counted; `k` is one between a heartbeat and its count, and zero elsewhere.
Each piece of the loop gets one lemma that carries both from its beginning to
its end (`register_sound`, `attempts_sound`, `beat_sound`, `beats_sound`), and
`agent_sound` is their composition.
-/

namespace ZeroTrustLab.Agent

open Lib (Prog Act)

/-- A heartbeat that was answered 2xx. -/
def beaten : Act LoopCall LoopAns LoopExc → Bool
  | ⟨.client (.post (.heartbeat _ _)), .ok x⟩ => decide (Success x)
  | _ => false

/-- The successes counted, and `k` more, have been heartbeats. -/
def Honest (k : ℕ) (h : LoopHistory) : Prop :=
  (trace h).results.count "success" + k ≤ h.countP beaten

/-- The agent has been told that its node is registered. -/
def Registered (settings : LoopSettings) (h : LoopHistory) : Prop :=
  ∃ ip status, Accepted status ∧
    ⟨.client (.post (.registerNode (some (registration settings.toSettings ip)))), .ok (.ok status)⟩ ∈ h

/-- What it asks for is its own, a heartbeat comes after it has been told, and
what it counts has been a success. -/
def Speaks (settings : LoopSettings) (h : LoopHistory) : LoopCall → Prop
  | .client (.post (.registerNode body)) => ∃ ip, body = some (registration settings.toSettings ip)
  | .client (.post (.heartbeat nodeId body)) =>
    nodeId = settings.nodeId ∧ body = some ⟨none⟩ ∧ Registered settings h
  | .client (.post _) => False
  | .inc result => result = "success" → Honest 1 h
  | _ => True

/-- All calls are answered. -/
def Never (_ : LoopCall) (_ : LoopExc) : Prop := False

/-- Who has returned has been told. -/
def Told {α : Type} (settings : LoopSettings) (h : LoopHistory) (r : Except LoopExc α) : Prop :=
  Honest 0 h ∧ ∀ a, r = .ok a → Registered settings h

/-- Every call of the agent is so. -/
abbrev Sound {α : Type} (settings : LoopSettings) (Q : LoopHistory → Except LoopExc α → Prop)
    (h : LoopHistory) (p : Loop α) : Prop :=
  p.Upholds Never (fun h c => Honest 0 h ∧ Speaks settings h c) Q h

variable {settings : LoopSettings} {h : LoopHistory}

theorem Registered.concat (hr : Registered settings h) (a : Act LoopCall LoopAns LoopExc) :
    Registered settings (h ++ [a]) := by
  obtain ⟨ip, status, hacc, hmem⟩ := hr
  exact ⟨ip, status, hacc, List.mem_append_left _ hmem⟩

/-- A call other than the count of a success adds to the count of none. -/
theorem count_see {t : Trace} {a : Act LoopCall LoopAns LoopExc}
    (ha : ∀ result, a.call = .inc result → result ≠ "success") :
    (t.see a).results.count "success" = t.results.count "success" := by
  obtain ⟨c, e | x⟩ := a
  · rw [see_error]
  · cases c with
    | client c =>
      cases c with
      | post ep => cases ep <;> rfl
      | _ => rfl
    | inc result =>
      show (t.results ++ [result]).count "success" = _
      rw [List.count_append, List.count_singleton, if_neg (by simpa using ha result rfl)]
      rfl
    | _ => rfl

/-- A count of anything but a success leaves the balance of successes as it is. -/
theorem Honest.concat {k : ℕ} {a : Act LoopCall LoopAns LoopExc} (hh : Honest k h)
    (ha : ∀ result, a.call = .inc result → result ≠ "success") : Honest k (h ++ [a]) := by
  unfold Honest at hh ⊢
  rw [trace_concat, count_see ha, List.countP_append]
  omega

/-- A heartbeat that was a success has yet to be counted. -/
theorem Honest.beaten {a : Act LoopCall LoopAns LoopExc} (hh : Honest 0 h)
    (ha : ∀ result, a.call ≠ .inc result) (hb : Agent.beaten a = true) : Honest 1 (h ++ [a]) := by
  unfold Honest at hh ⊢
  rw [trace_concat, count_see fun result hcall => absurd hcall (ha result), List.countP_append,
    List.countP_singleton, if_pos hb]
  omega

/-- After any call that is so, the counts are right again. -/
theorem Honest.next {c : LoopCall} {x : LoopAns c} (hh : Honest 0 h) (hc : Speaks settings h c) :
    Honest 0 (h ++ [⟨c, .ok x⟩]) := by
  by_cases hs : c = .inc "success"
  · subst hs
    have hone : Honest 1 h := hc rfl
    unfold Honest at hone ⊢
    rw [trace_concat, List.countP_append]
    show ((trace h).results ++ ["success"]).count "success" + 0 ≤ _
    rw [List.count_append, List.count_singleton_self]
    omega
  · refine hh.concat fun result hcall => ?_
    rintro rfl
    exact hs hcall

/-- The rule for one call. -/
theorem sound_call {α : Type} {c : LoopCall} {f : LoopAns c → Loop α}
    {Q : LoopHistory → Except LoopExc α → Prop} (hh : Honest 0 h) (hc : Speaks settings h c)
    (hf : ∀ x, Honest 0 (h ++ [⟨c, .ok x⟩]) → Sound settings Q (h ++ [⟨c, .ok x⟩]) (f x)) :
    Sound settings Q h (.call c f) :=
  ⟨⟨hh, hc⟩, fun x => hf x (hh.next hc), fun _ he => absurd he id⟩

/-- What `register` leaves: told, or something was raised. -/
def TriedTold (settings : LoopSettings) (h : LoopHistory)
    (r : Except LoopExc (Except Raised Bool)) : Prop :=
  Honest 0 h ∧ ∀ b, r = .ok (.ok b) → Registered settings h

/-- Reading the answer to a registration is sound, and returns just when the
agent has been told. -/
theorem readResponse_sound {status : ℕ} (hh : Honest 0 h)
    (hr : Accepted status → Registered settings h) :
    Sound settings (TriedTold settings) h
      (tried (readResponse settings.toSettings status)) := by
  -- the branches that return have logged, or have seen a 2xx
  have hlog : ∀ (event : String) (fields : Controller.Details) (b : Bool), Accepted status →
      Sound settings (TriedTold settings) h
        (tried (.call (.log event fields) fun _ => .pure b)) := by
    intro event fields b hacc
    refine sound_call hh trivial fun x hh => ?_
    rcases x with e | x
    · exact ⟨hh, by simp⟩
    · exact ⟨hh, fun _ _ => (hr hacc).concat _⟩
  unfold readResponse
  by_cases h201 : status = 201
  · rw [if_pos h201]
    exact hlog _ _ _ (.inr (by omega))
  · rw [if_neg h201]
    by_cases h409 : status = 409
    · rw [if_pos h409]
      exact hlog _ _ _ (.inl h409)
    · rw [if_neg h409]
      by_cases hs : 200 ≤ status ∧ status < 300
      · rw [raiseForStatus_pos hs]
        exact ⟨hh, fun _ _ => hr (.inr hs)⟩
      · unfold raiseForStatus
        rw [if_neg hs]
        exact ⟨hh, fun _ he => by simp at he⟩

theorem register_sound (hh : Honest 0 h) : Sound settings (TriedTold settings) h
    (tried (register settings.toSettings)) := by
  refine sound_call hh trivial fun ip hh => ?_
  rcases ip with e | ip
  · exact ⟨hh, by simp⟩
  · refine sound_call hh ⟨ip, rfl⟩ fun x hh => ?_
    rcases x with e | status
    · exact ⟨hh, by simp⟩
    · refine readResponse_sound hh fun hacc => ?_
      exact ⟨ip, status, hacc, List.mem_append_right _ (List.mem_singleton_self _)⟩

/-- The whole sequence of attempts is sound, whatever its delays are, and
returns just when the agent has been told. -/
theorem attempts_sound (rest : List ℕ) : ∀ (delay : ℚ) (h : LoopHistory), Honest 0 h →
    Sound settings (Told settings) h (attempts settings rest delay) := by
  induction rest with
  | nil => exact fun delay h hh => ⟨hh, by simp⟩
  | cons attempt rest ih =>
    intro delay h hh
    refine (register_sound hh).bind (fun h r htold => ?_) fun h e htold => ⟨htold.1, by simp⟩
    rcases r with e | b
    · cases e with
      | http e =>
        refine sound_call htold.1 trivial fun _ hh => ?_
        refine sound_call hh trivial fun _ hh => ?_
        exact ih _ _ hh
      | other e => exact ⟨htold.1, by simp⟩
    · exact ⟨htold.1, fun _ _ => htold.2 b rfl⟩

theorem pause_sound (hh : Honest 0 h) (hr : Registered settings h) :
    Sound settings (Told settings) h (pause settings) := by
  refine sound_call hh trivial fun u hh => ?_
  refine sound_call hh trivial fun _ hh => ?_
  exact ⟨hh, fun _ _ => (hr.concat _).concat _⟩

/-- A heartbeat that was answered and could be read is counted. -/
theorem success_sound (hh : Honest 1 h) (hr : Registered settings h) :
    Sound settings (Told settings) h (do
      match ← await .json with
      | .ok () =>
        await (.inc "success")
        pause settings
      | .error e => .throw (.raised e)) := by
  have hnone : Honest 0 h := le_trans (Nat.le_succ _) hh
  refine sound_call hnone trivial fun x hnone => ?_
  rcases x with e | u
  · exact ⟨hnone, by simp⟩
  · -- the call before the count took nothing away
    have hh : Honest 1 (h ++ [⟨.json, .ok (.ok u)⟩]) := hh.concat (by simp)
    refine sound_call hnone (fun _ => hh) fun _ hh => ?_
    exact pause_sound hh ((hr.concat _).concat _)

theorem failure_sound (e : HttpError) (hh : Honest 0 h) (hr : Registered settings h) :
    Sound settings (Told settings) h (do
      await (.inc "failure")
      await (.heartbeatFailed e)
      pause settings) := by
  refine sound_call hh (fun he => by simp at he) fun _ hh => ?_
  refine sound_call hh trivial fun _ hh => ?_
  exact pause_sound hh ((hr.concat _).concat _)

theorem beat_sound (hh : Honest 0 h) (hr : Registered settings h) :
    Sound settings (Told settings) h (beat settings) := by
  refine sound_call hh ⟨rfl, rfl, hr⟩ fun x hnext => ?_
  have hr := hr.concat ⟨.client (.post (.heartbeat settings.nodeId (some ⟨none⟩))), .ok x⟩
  rcases x with e | status
  · cases e with
    | http e => exact failure_sound e hnext hr
    | other e => exact ⟨hnext, by simp⟩
  · show Sound _ _ _ (tried (raiseForStatus status) >>= _)
    unfold raiseForStatus
    by_cases hs : 200 ≤ status ∧ status < 300
    · rw [if_pos hs]
      exact success_sound (hh.beaten (by simp) (decide_eq_true hs)) hr
    · rw [if_neg hs]
      exact failure_sound _ hnext hr

theorem beats_sound (hh : Honest 0 h) (hr : Registered settings h) (n : ℕ) :
    Sound settings (Told settings) h (beats settings n) := by
  induction n with
  | zero => exact ⟨hh, fun _ _ => hr⟩
  | succ n ih =>
    exact ih.bind (fun h u htold => beat_sound htold.1 (htold.2 u rfl)) fun h e htold =>
      ⟨htold.1, by simp⟩

/-- **What the agent says**: all it asks for is its own, no heartbeat goes out
before it has been told that its node is registered, and no success is counted
before it was one. -/
theorem agent_sound (settings : LoopSettings) (n : ℕ) :
    Sound settings (Told settings) [] (agent settings n) := by
  refine (attempts_sound _ _ [] (Nat.le_refl 0)).bind (fun h u htold => ?_) fun h e htold =>
    ⟨htold.1, by simp⟩
  refine sound_call htold.1 trivial fun _ hh => ?_
  exact beats_sound hh ((htold.2 u rfl).concat _) n

end ZeroTrustLab.Agent
