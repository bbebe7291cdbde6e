import ZeroTrustLab.Lib.Path
import Mathlib.Data.List.Nodup

/-!
# Clients of a service over a lossy network

In `Interleave.lean` the parties are simply there. Here each of them is a
request that somebody has sent, and what comes of it goes back to a program of
its own: a client. A call of a client is its own affair or a request
(`Network.request?`). A request is sent to a party that nobody has used; from
then on that party may move, and when it is done, its result may come back. Or
the client hears that the exchange has failed, which can be at any moment: the
party may not have started, or may have done all its work.

* `NetSteps.server`: what the service sees is an interleaving like any other.
* `NetSteps.reaches`: a client stands where its history leads.
* `NetSteps.tidy`: nothing is sent twice, answered twice or answered unasked.
* `NetSteps.unsent`: what nobody has sent has not moved.
* `NetSteps.answers`: a client is answered at most once for each request, so a
  count of its answers is a count of requests.

The server is the machine of `Interleave.lean`, taken as it is, so whatever has
been proved of all its runs holds of its part in a run of the network. Replies
can be lost and requests can be given up at any time, but nothing is delivered
twice: a client that tries again sends another request.
-/

namespace ZeroTrustLab.Lib

/-- What lies between the clients and the service. -/
structure Network (C : Type) (A : C → Type) (κ ι Q R : Type) where
  /-- What a call asks of the service; `none` for a call of another kind. -/
  request? : C → Option Q
  /-- The answer to the call, when the service has come to this result. -/
  Answers : (c : C) → R → A c → Prop
  /-- What a call may come to when its exchange fails. -/
  Lost : (c : C) → A c → Prop
  /-- The request of the client has come to the party as this one. -/
  Carries : κ → Q → ι → Prop
  /-- The party is a request of nobody among the clients. -/
  Foreign : ι → Prop

/-- A client: what is left of its program, and the party it waits for. -/
structure Client (C : Type) (A : C → Type) (ε α ι : Type) where
  prog : Prog C A ε α
  waiting : Option ι := none

/-- The service, its clients, and what they have sent. -/
structure Net (κ C : Type) (A : C → Type) (ε α C' : Type) (A' : C' → Type) (ε' α' ι L W : Type) where
  server : Cfg C' A' ε' α' ι L W
  client : κ → Client C A ε α ι
  sent : List (κ × ι)

/-- One move of the whole. -/
inductive NetLabel (κ C : Type) (A : C → Type) (ε C' : Type) (A' : C' → Type) (ε' ι E : Type) where
  | own (k : κ) (a : Act C A ε)
  | send (k : κ) (i : ι)
  | reply (k : κ) (i : ι) (a : Act C A ε)
  | lost (k : κ) (a : Act C A ε)
  | serve (lab : Label C' A' ε' ι E)

section

variable {κ C : Type} {A : C → Type} {ε α C' : Type} {A' : C' → Type} {ε' α' ι L W E Q : Type}

/-! ## What a trace shows -/

/-- The moves of the service. -/
def served (ls : List (NetLabel κ C A ε C' A' ε' ι E)) : List (Label C' A' ε' ι E) :=
  ls.filterMap fun
    | .serve lab => some lab
    | _ => none

/-- The requests that were answered. -/
def answered (ls : List (NetLabel κ C A ε C' A' ε' ι E)) : List ι :=
  ls.filterMap fun
    | .reply _ i _ => some i
    | _ => none

theorem served_append (ls ls' : List (NetLabel κ C A ε C' A' ε' ι E)) :
    served (ls ++ ls') = served ls ++ served ls' :=
  List.filterMap_append

theorem answered_append (ls ls' : List (NetLabel κ C A ε C' A' ε' ι E)) :
    answered (ls ++ ls') = answered ls ++ answered ls' :=
  List.filterMap_append

variable [DecidableEq κ]

/-- What a client has gone through in a move. -/
def NetLabel.act? (k : κ) : NetLabel κ C A ε C' A' ε' ι E → Option (Act C A ε)
  | .own j a => if j = k then some a else none
  | .reply j _ a => if j = k then some a else none
  | .lost j a => if j = k then some a else none
  | _ => none

/-- The history of a client. -/
def history (k : κ) (ls : List (NetLabel κ C A ε C' A' ε' ι E)) : List (Act C A ε) :=
  ls.filterMap (NetLabel.act? k)

theorem history_append (k : κ) (ls ls' : List (NetLabel κ C A ε C' A' ε' ι E)) :
    history k (ls ++ ls') = history k ls ++ history k ls' :=
  List.filterMap_append

/-- The history of a single label is its act, for the client that made it. -/
theorem history_single {k j : κ} {a : Act C A ε} {lab : NetLabel κ C A ε C' A' ε' ι E}
    (h : lab.act? k = if j = k then some a else none) :
    history k [lab] = if j = k then [a] else [] := by
  unfold history
  rw [List.filterMap_cons, h]
  by_cases hj : j = k
  · rw [if_pos hj, if_pos hj]
    rfl
  · rw [if_neg hj, if_neg hj]
    rfl

/-- The answers of one kind to a client: the requests they came from. -/
def answers (k : κ) (P : Act C A ε → Bool) (ls : List (NetLabel κ C A ε C' A' ε' ι E)) : List ι :=
  ls.filterMap fun
    | .reply j i a => if j = k ∧ P a then some i else none
    | _ => none

/-- A client's answers are some of all that were given. -/
theorem answers_sublist (k : κ) (P : Act C A ε → Bool) (ls : List (NetLabel κ C A ε C' A' ε' ι E)) :
    (answers k P ls).Sublist (answered ls) := by
  induction ls with
  | nil => exact .slnil
  | cons lab ls ih =>
    cases lab with
    | reply j i a =>
      by_cases h : j = k ∧ P a
      · simpa [answers, answered, h] using ih.cons_cons i
      · simpa [answers, answered, h] using ih.cons i
    | own j a => exact ih
    | send j i => exact ih
    | lost j a => exact ih
    | serve lab => exact ih

/-! ## Moves -/

/-- Client `k` goes on with this program, waiting for nothing. -/
def Net.resume (n : Net κ C A ε α C' A' ε' α' ι L W) (k : κ) (p : Prog C A ε α) :
    Net κ C A ε α C' A' ε' α' ι L W :=
  { n with client := Function.update n.client k { prog := p } }

/-- Client `k` has sent a request, to party `i`. -/
def Net.send (n : Net κ C A ε α C' A' ε' α' ι L W) (k : κ) (i : ι) :
    Net κ C A ε α C' A' ε' α' ι L W where
  server := n.server
  client := Function.update n.client k { n.client k with waiting := some i }
  sent := n.sent ++ [(k, i)]

@[simp] theorem Net.resume_self (n : Net κ C A ε α C' A' ε' α' ι L W) (k : κ) (p : Prog C A ε α) :
    (n.resume k p).client k = { prog := p } :=
  Function.update_self ..

@[simp] theorem Net.resume_ne (n : Net κ C A ε α C' A' ε' α' ι L W) {j k : κ} (p : Prog C A ε α)
    (h : j ≠ k) : (n.resume k p).client j = n.client j :=
  Function.update_of_ne h ..

@[simp] theorem Net.send_self (n : Net κ C A ε α C' A' ε' α' ι L W) (k : κ) (i : ι) :
    (n.send k i).client k = { n.client k with waiting := some i } :=
  Function.update_self ..

@[simp] theorem Net.send_ne (n : Net κ C A ε α C' A' ε' α' ι L W) {j k : κ} (i : ι)
    (h : j ≠ k) : (n.send k i).client j = n.client j :=
  Function.update_of_ne h ..

/-- Sending leaves the programs of the clients as they are. -/
theorem Net.send_prog (n : Net κ C A ε α C' A' ε' α' ι L W) (j k : κ) (i : ι) :
    ((n.send k i).client j).prog = (n.client j).prog := by
  by_cases h : j = k
  · rw [h, Net.send_self]
  · rw [Net.send_ne n i h]

/-- A client takes one step, with the answer it has got. -/
theorem Net.resume_reaches {n₀ n : Net κ C A ε α C' A' ε' α' ι L W} {h : List (Act C A ε)} {j k : κ}
    {c : C} {f : A c → Prog C A ε α} {x : A c}
    (ih : (n₀.client k).prog.Reaches h (n.client k).prog)
    (hp : (n.client j).prog = .call c f) :
    (n₀.client k).prog.Reaches (h ++ if j = k then [⟨c, .ok x⟩] else [])
      ((n.resume j (f x)).client k).prog := by
  by_cases hj : j = k
  · subst hj
    rw [hp] at ih
    rw [if_pos rfl, Net.resume_self]
    exact ih.trans (.answered (.refl _))
  · rw [if_neg hj, List.append_nil, Net.resume_ne _ _ (Ne.symm hj)]
    exact ih

variable [DecidableEq ι]

variable (N : Network C A κ ι Q (Except ε' α')) (M : Machine C' A' ε' ι L W E)

inductive NetStep : Net κ C A ε α C' A' ε' α' ι L W → NetLabel κ C A ε C' A' ε' ι E →
    Net κ C A ε α C' A' ε' α' ι L W → Prop where
  | own {n : Net κ C A ε α C' A' ε' α' ι L W} {k : κ} {c : C} {f : A c → Prog C A ε α} (x : A c)
      (hp : (n.client k).prog = .call c f) (hq : N.request? c = none) :
      NetStep n (.own k ⟨c, .ok x⟩) (n.resume k (f x))
  | send {n : Net κ C A ε α C' A' ε' α' ι L W} {k : κ} {c : C} {f : A c → Prog C A ε α} {q : Q}
      {i : ι} (hp : (n.client k).prog = .call c f) (hq : N.request? c = some q)
      (hw : (n.client k).waiting = none) (hc : N.Carries k q i) (hf : ¬ N.Foreign i)
      (hi : i ∉ n.sent.map Prod.snd) : NetStep n (.send k i) (n.send k i)
  | reply {n : Net κ C A ε α C' A' ε' α' ι L W} {k : κ} {c : C} {f : A c → Prog C A ε α} {i : ι}
      {r : Except ε' α'} {x : A c} (hp : (n.client k).prog = .call c f)
      (hw : (n.client k).waiting = some i) (hd : (n.server.party i).status = .done r)
      (hx : N.Answers c r x) : NetStep n (.reply k i ⟨c, .ok x⟩) (n.resume k (f x))
  | lost {n : Net κ C A ε α C' A' ε' α' ι L W} {k : κ} {c : C} {f : A c → Prog C A ε α} {q : Q}
      {x : A c} (hp : (n.client k).prog = .call c f) (hq : N.request? c = some q)
      (hx : N.Lost c x) : NetStep n (.lost k ⟨c, .ok x⟩) (n.resume k (f x))
  | serve {n : Net κ C A ε α C' A' ε' α' ι L W} {lab : Label C' A' ε' ι E}
      {s : Cfg C' A' ε' α' ι L W} (hs : Step M n.server lab s)
      (hby : ∀ i, lab.by? = some i → N.Foreign i ∨ i ∈ n.sent.map Prod.snd) :
      NetStep n (.serve lab) { n with server := s }

/-- A run of the whole. -/
inductive NetSteps : Net κ C A ε α C' A' ε' α' ι L W → List (NetLabel κ C A ε C' A' ε' ι E) →
    Net κ C A ε α C' A' ε' α' ι L W → Prop where
  | refl (n : Net κ C A ε α C' A' ε' α' ι L W) : NetSteps n [] n
  | snoc {n n' n'' : Net κ C A ε α C' A' ε' α' ι L W} {ls : List (NetLabel κ C A ε C' A' ε' ι E)}
      {lab : NetLabel κ C A ε C' A' ε' ι E} :
      NetSteps n ls n' → NetStep N M n' lab n'' → NetSteps n (ls ++ [lab]) n''

variable {N M} {n n' n'' : Net κ C A ε α C' A' ε' α' ι L W}
  {ls : List (NetLabel κ C A ε C' A' ε' ι E)} {lab : NetLabel κ C A ε C' A' ε' ι E} {k : κ} {i : ι}

/-- A run can be cut at each of its moves. -/
theorem NetSteps.of_mem (h : NetSteps N M n ls n') : lab ∈ ls → ∃ ls₁ m ls₂ m',
    ls = ls₁ ++ lab :: ls₂ ∧ NetSteps N M n ls₁ m ∧ NetStep N M m lab m' ∧ NetSteps N M m' ls₂ n' := by
  intro hmem
  induction h with
  | refl => simp at hmem
  | @snoc _ m' ls lab' h hs ih =>
    rcases List.mem_append.mp hmem with hmem | hlast
    · obtain ⟨ls₁, m, ls₂, m₁, rfl, h₁, hs₁, h₂⟩ := ih hmem
      exact ⟨ls₁, m, ls₂ ++ [lab'], m₁, by simp, h₁, hs₁, h₂.snoc hs⟩
    · obtain rfl := List.mem_singleton.mp hlast
      exact ⟨ls, _, [], m', rfl, h, hs, .refl m'⟩

theorem NetSteps.trans {ls' : List (NetLabel κ C A ε C' A' ε' ι E)} (h : NetSteps N M n ls n')
    (h' : NetSteps N M n' ls' n'') : NetSteps N M n (ls ++ ls') n'' := by
  induction h' with
  | refl => rwa [List.append_nil]
  | snoc _ hs ih =>
    rw [← List.append_assoc]
    exact ih.snoc hs

/-- The service may go on by itself, with requests that have come to it. -/
theorem NetSteps.serve {s : Cfg C' A' ε' α' ι L W} {labs : List (Label C' A' ε' ι E)}
    (h : Steps M n.server labs s)
    (hby : ∀ lab ∈ labs, ∀ i, lab.by? = some i → N.Foreign i ∨ i ∈ n.sent.map Prod.snd) :
    NetSteps N M n (labs.map .serve) { n with server := s } := by
  generalize hc : n.server = c at h
  induction h with
  | refl =>
    subst hc
    exact .refl n
  | @snoc c₁ c₂ labs lab _ hs ih =>
    obtain ⟨hfront, hlast⟩ := List.forall_mem_append.mp hby
    rw [List.map_append]
    exact (ih hfront).snoc (.serve hs (hlast lab (List.mem_singleton_self lab)))

/-! ## What each side sees -/

/-- The service sees an interleaving. -/
theorem NetSteps.server (h : NetSteps N M n ls n') : Steps M n.server (served ls) n'.server := by
  induction h with
  | refl => exact .refl _
  | @snoc _ _ ls lab _ hs ih =>
    rw [served_append]
    cases hs with
    | own x hp hq => simpa [served, Net.resume] using ih
    | send hp hq hw hc hf hi => simpa [served, Net.send] using ih
    | reply hp hw hd hx => simpa [served, Net.resume] using ih
    | lost hp hq hx => simpa [served, Net.resume] using ih
    | serve hs hby => exact ih.snoc hs

/-- A client stands where its history leads. -/
theorem NetSteps.reaches (h : NetSteps N M n ls n') (k : κ) :
    (n.client k).prog.Reaches (history k ls) (n'.client k).prog := by
  induction h with
  | refl => exact .refl _
  | @snoc _ _ ls lab _ hs ih =>
    rw [history_append]
    cases hs with
    | own x hp hq =>
      rw [history_single rfl]
      exact Net.resume_reaches ih hp
    | reply hp hw hd hx =>
      rw [history_single rfl]
      exact Net.resume_reaches ih hp
    | lost hp hq hx =>
      rw [history_single rfl]
      exact Net.resume_reaches ih hp
    | send hp hq hw hc hf hi =>
      show (n.client k).prog.Reaches (_ ++ []) _
      rw [List.append_nil, Net.send_prog]
      exact ih
    | serve hs hby =>
      show (n.client k).prog.Reaches (_ ++ []) _
      rw [List.append_nil]
      exact ih

omit [DecidableEq ι] in
/-- What a client has gone through was a move of its own, a reply or a failed
exchange. -/
theorem mem_history {a : Act C A ε} (ha : a ∈ history k ls) :
    .own k a ∈ ls ∨ (∃ i, .reply k i a ∈ ls) ∨ .lost k a ∈ ls := by
  obtain ⟨lab, hlab, hact⟩ := List.mem_filterMap.mp ha
  have hsame : ∀ {j : κ} {b : Act C A ε}, (if j = k then some b else none) = some a →
      j = k ∧ b = a := by
    intro j b h
    split at h
    next hj => exact ⟨hj, Option.some.inj h⟩
    next => simp at h
  cases lab with
  | own j b =>
    obtain ⟨rfl, rfl⟩ := hsame hact
    exact .inl hlab
  | reply j i b =>
    obtain ⟨rfl, rfl⟩ := hsame hact
    exact .inr (.inl ⟨i, hlab⟩)
  | lost j b =>
    obtain ⟨rfl, rfl⟩ := hsame hact
    exact .inr (.inr hlab)
  | send j i => simp [NetLabel.act?] at hact
  | serve lab => simp [NetLabel.act?] at hact

/-! ## At most once -/

/-- Nothing has been sent yet. -/
structure Net.Fresh (n : Net κ C A ε α C' A' ε' α' ι L W) : Prop where
  sent : n.sent = []
  idle : ∀ k, (n.client k).waiting = none

variable (N) in
/-- Where the clients and their requests are, after the moves `ls`. -/
structure Net.Tidy (ls : List (NetLabel κ C A ε C' A' ε' ι E))
    (n : Net κ C A ε α C' A' ε' α' ι L W) : Prop where
  sentOnce : (n.sent.map Prod.snd).Nodup
  ours : ∀ p ∈ n.sent, ¬ N.Foreign p.2
  waits : ∀ k i, (n.client k).waiting = some i → (k, i) ∈ n.sent ∧ i ∉ answered ls ∧
    ∃ c f q, (n.client k).prog = .call c f ∧ N.request? c = some q ∧ N.Carries k q i
  answeredOnce : (answered ls).Nodup
  answeredSent : ∀ i ∈ answered ls, i ∈ n.sent.map Prod.snd

omit [DecidableEq ι] in
/-- One client has stopped waiting, and for nothing that anybody waits for now. -/
theorem Net.Tidy.resume (h : n.Tidy N ls) {lab : NetLabel κ C A ε C' A' ε' ι E} {p : Prog C A ε α}
    (hans : answered [lab] = [] ∨
      ∃ i, answered [lab] = [i] ∧ (n.client k).waiting = some i) :
    (n.resume k p).Tidy N (ls ++ [lab]) := by
  -- what is answered now was in flight
  have hnew : ∀ i ∈ answered [lab], (k, i) ∈ n.sent ∧ i ∉ answered ls := by
    intro i hi
    rcases hans with hnil | ⟨j, hj, hw⟩
    · simp [hnil] at hi
    · rw [hj] at hi
      obtain rfl := List.mem_singleton.mp hi
      exact ⟨(h.waits k _ hw).1, (h.waits k _ hw).2.1⟩
  refine ⟨h.sentOnce, h.ours, ?_, ?_, ?_⟩
  · intro j i hw
    by_cases hj : j = k
    · rw [hj, Net.resume_self] at hw
      exact absurd hw (by simp)
    · rw [Net.resume_ne _ _ hj] at hw ⊢
      obtain ⟨hsent, hno, hcall⟩ := h.waits j i hw
      refine ⟨hsent, ?_, hcall⟩
      rw [answered_append]
      intro hi
      rcases List.mem_append.mp hi with hi | hi
      · exact hno hi
      · -- one party has one sender
        exact hj (congrArg Prod.fst (List.inj_on_of_nodup_map h.sentOnce hsent (hnew i hi).1 rfl))
  · rw [answered_append]
    refine h.answeredOnce.append ?_ fun i hi hi' => (hnew i hi').2 hi
    rcases hans with hnil | ⟨j, hj, -⟩
    · simp [hnil]
    · simp [hj]
  · intro i hi
    rw [answered_append] at hi
    rcases List.mem_append.mp hi with hi | hi
    · exact h.answeredSent i hi
    · exact List.mem_map.mpr ⟨(k, i), (hnew i hi).1, rfl⟩

theorem Net.Tidy.step (h : n.Tidy N ls) (hs : NetStep N M n lab n') : n'.Tidy N (ls ++ [lab]) := by
  cases hs with
  | own x hp hq => exact h.resume (.inl rfl)
  | reply hp hw hd hx => exact h.resume (.inr ⟨_, rfl, hw⟩)
  | lost hp hq hx => exact h.resume (.inl rfl)
  | @send k c f q i hp hq hw hc hf hi =>
    have hans : answered (ls ++ [(.send k i : NetLabel κ C A ε C' A' ε' ι E)]) = answered ls := by
      rw [answered_append]
      exact List.append_nil _
    refine ⟨?_, ?_, ?_, ?_, ?_⟩
    · show ((n.sent ++ [(k, i)]).map Prod.snd).Nodup
      rw [List.map_append]
      exact h.sentOnce.append (by simp) (by simpa using hi)
    · intro p hp
      rcases List.mem_append.mp hp with hp | hp
      · exact h.ours p hp
      · rw [List.mem_singleton.mp hp]
        exact hf
    · intro j i' hw'
      rw [hans]
      by_cases hj : j = k
      · subst hj
        rw [Net.send_self] at hw' ⊢
        obtain rfl := Option.some.inj hw'
        -- the request that has just been sent
        exact ⟨List.mem_append_right _ (List.mem_singleton_self _),
          fun hmem => hi (h.answeredSent _ hmem), c, f, q, hp, hq, hc⟩
      · rw [Net.send_ne _ _ hj] at hw' ⊢
        obtain ⟨hsent, hno, hcall⟩ := h.waits j i' hw'
        exact ⟨List.mem_append_left _ hsent, hno, hcall⟩
    · rw [hans]
      exact h.answeredOnce
    · intro j hj
      rw [hans] at hj
      show j ∈ (n.sent ++ [(k, i)]).map Prod.snd
      rw [List.map_append]
      exact List.mem_append_left _ (h.answeredSent j hj)
  | @serve lab s hs hby =>
    have hans : answered (ls ++ [(.serve lab : NetLabel κ C A ε C' A' ε' ι E)]) = answered ls := by
      rw [answered_append]
      exact List.append_nil _
    refine ⟨h.sentOnce, h.ours, ?_, ?_, ?_⟩
    · rw [hans]
      exact h.waits
    · rw [hans]
      exact h.answeredOnce
    · rw [hans]
      exact h.answeredSent

theorem NetSteps.tidy (hn : n.Fresh) (h : NetSteps N M n ls n') : n'.Tidy N ls := by
  induction h with
  | refl =>
    refine ⟨by simp [hn.sent], by simp [hn.sent], fun k i hw => ?_, by simp [answered],
      by simp [answered]⟩
    rw [hn.idle k] at hw
    exact absurd hw (by simp)
  | snoc _ hs ih => exact ih.step hs

/-- What has been sent stays so. -/
theorem NetStep.sent_prefix (hs : NetStep N M n lab n') : n.sent <+: n'.sent := by
  cases hs with
  | send => exact List.prefix_append _ _
  | own | reply | lost | serve => exact List.prefix_rfl

theorem NetSteps.sent_prefix (h : NetSteps N M n ls n') : n.sent <+: n'.sent := by
  induction h with
  | refl => exact List.prefix_rfl
  | snoc _ hs ih => exact ih.trans hs.sent_prefix

/-- A request that nobody has sent has not moved. -/
theorem NetSteps.unsent (h : NetSteps N M n ls n') (hf : ¬ N.Foreign i)
    (hi : i ∉ n'.sent.map Prod.snd) : ∀ lab ∈ served ls, lab.by? ≠ some i := by
  induction h with
  | refl => simp [served]
  | @snoc m m' ls lab _ hs ih =>
    have hsub : m.sent.map Prod.snd <+: m'.sent.map Prod.snd := hs.sent_prefix.map _
    have ih := ih fun hmem => hi (hsub.subset hmem)
    intro lab' hlab'
    rw [served_append] at hlab'
    rcases List.mem_append.mp hlab' with hlab' | hlab'
    · exact ih lab' hlab'
    · cases hs with
      | serve hs hby =>
        obtain rfl := List.mem_singleton.mp hlab'
        intro hlab
        rcases hby i hlab with hyes | hyes
        · exact hf hyes
        · exact hi hyes
      | own | send | reply | lost => simp [served] at hlab'

/-- Where a request was sent: the client stands at its call, and the party has
not moved before. -/
theorem NetSteps.sending (hn : n.Fresh) (h : NetSteps N M n ls n') (hk : (k, i) ∈ n'.sent) :
    ∃ ls₁ m ls₂, ls = ls₁ ++ .send k i :: ls₂ ∧ NetSteps N M n ls₁ m ∧ i ∉ m.sent.map Prod.snd ∧
      NetSteps N M (m.send k i) ls₂ n' ∧
      ∃ c f q, (m.client k).prog = .call c f ∧ N.request? c = some q ∧ N.Carries k q i := by
  induction h with
  | refl =>
    rw [hn.sent] at hk
    simp at hk
  | @snoc m m' ls lab h hs ih =>
    -- either it was sent before the last move, or that was it
    have hbefore : (k, i) ∈ m.sent → ∃ ls₁ m₁ ls₂, ls ++ [lab] = ls₁ ++ .send k i :: ls₂ ∧
        NetSteps N M n ls₁ m₁ ∧ i ∉ m₁.sent.map Prod.snd ∧ NetSteps N M (m₁.send k i) ls₂ m' ∧
        ∃ c f q, (m₁.client k).prog = .call c f ∧ N.request? c = some q ∧ N.Carries k q i := by
      intro hk
      obtain ⟨ls₁, m₁, ls₂, rfl, h₁, hi, h₂, hcall⟩ := ih hk
      exact ⟨ls₁, m₁, ls₂ ++ [lab], by simp, h₁, hi, h₂.snoc hs, hcall⟩
    cases hs with
    | @send j c f q i' hp hq hw hc hf hi =>
      rcases List.mem_append.mp hk with hk | hk
      · exact hbefore hk
      · obtain ⟨rfl, rfl⟩ := Prod.mk.inj (List.mem_singleton.mp hk)
        exact ⟨ls, m, [], rfl, h, hi, .refl _, c, f, q, hp, hq, hc⟩
    | own | reply | lost | serve => exact hbefore hk

/-- Where a request was answered: its result has come back to its client. -/
theorem NetSteps.replied (hn : n.Fresh) (h : NetSteps N M n ls n') {a : Act C A ε}
    (hmem : .reply k i a ∈ ls) : (k, i) ∈ n'.sent ∧ ∃ c x q r, a = ⟨c, .ok x⟩ ∧
      N.request? c = some q ∧ N.Carries k q i ∧ (n'.server.party i).status = .done r ∧
      N.Answers c r x := by
  obtain ⟨ls₁, m, ls₂, m', rfl, h₁, hs, h₂⟩ := h.of_mem hmem
  cases hs with
  | @reply _ c f _ r x hp hw hd hx =>
    obtain ⟨hsent, -, c', f', q, hp', hq, hc⟩ := (h₁.tidy hn).waits _ _ hw
    rw [hp] at hp'
    obtain ⟨rfl, -⟩ := Prog.call.inj hp'
    refine ⟨h₂.sent_prefix.subset hsent, _, x, q, r, rfl, hq, hc, ?_, hx⟩
    rw [h₂.server.done_stays hd]
    exact hd

/-- What came to a client without a request, or for want of an answer. -/
theorem NetSteps.own_or_lost (h : NetSteps N M n ls n') {a : Act C A ε} :
    (.own k a ∈ ls → ∃ x, N.request? a.call = none ∧ a = ⟨a.call, .ok x⟩) ∧
      (.lost k a ∈ ls → ∃ x, N.Lost a.call x ∧ a = ⟨a.call, .ok x⟩) := by
  constructor
  · intro hmem
    obtain ⟨ls₁, m, ls₂, m', -, -, hs, -⟩ := h.of_mem hmem
    cases hs with
    | own x hp hq => exact ⟨x, hq, rfl⟩
  · intro hmem
    obtain ⟨ls₁, m, ls₂, m', -, -, hs, -⟩ := h.of_mem hmem
    cases hs with
    | @lost _ c f q x hp hq hx => exact ⟨x, hx, rfl⟩

/-- **Each answer to a client is that of a request of its own**, each of which is
answered at most once. -/
theorem NetSteps.answers (hn : n.Fresh) (h : NetSteps N M n ls n') {P : Act C A ε → Bool}
    (hown : ∀ c x, N.request? c = none → P ⟨c, .ok x⟩ = false)
    (hlost : ∀ c x, N.Lost c x → P ⟨c, .ok x⟩ = false) :
    (history k ls).countP P = (answers k P ls).length ∧ (answers k P ls).Nodup ∧
      ∀ i ∈ answers k P ls, ∃ a, .reply k i a ∈ ls ∧ P a := by
  refine ⟨?_, (h.tidy hn).answeredOnce.sublist (answers_sublist k P ls), ?_⟩
  · induction h with
    | refl => rfl
    | @snoc m m' ls lab _ hs ih =>
      -- neither its own actions nor lost posts count
      have hnone : ∀ {a : Act C A ε} {j : κ}, P a = false →
          (if j = k then [a] else []).countP P = 0 := by
        intro a j ha
        split <;> simp [ha]
      rw [history_append, List.countP_append, ih, Lib.answers, Lib.answers, List.filterMap_append,
        List.length_append]
      congr 1
      cases hs with
      | own x hp hq =>
        rw [history_single rfl]
        exact hnone (hown _ x hq)
      | lost hp hq hx =>
        rw [history_single rfl]
        exact hnone (hlost _ _ hx)
      | @reply j c f i r x hp hw hd hx =>
        rw [history_single rfl]
        by_cases hj : j = k
        · by_cases hP : P ⟨c, .ok x⟩ = true <;> simp [hj, hP]
        · simp [hj]
      | send => rfl
      | serve => rfl
  · intro i hi
    obtain ⟨lab, hlab, ha⟩ := List.mem_filterMap.mp hi
    split at ha
    next j i' a =>
      split at ha
      next hP =>
        obtain ⟨rfl, hP⟩ := hP
        obtain rfl := Option.some.inj ha
        exact ⟨a, hlab, hP⟩
      next => simp at ha
    next => simp at ha

end

end ZeroTrustLab.Lib
