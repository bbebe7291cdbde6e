import ZeroTrustLab.Lib.Prog
import Mathlib.Logic.Function.Basic
import Mathlib.Data.List.Basic

/-!
# Interleaved parties

`Prog.lean` runs one program alone. Here every party of a family runs its own
program against the shared state, one call at a time and in any order, with
calls failing wherever the machine lets them and the environment moving in
between. `Steps M c ls c'` is one such run, `ls` its trace: who made which
call, with which answer, who left, what the environment did. `acts i ls` is
party `i`'s own part of the trace, the history its program has seen.

`run_steps` is the bridge to `Machine.run`: what one party does alone is one
of the interleavings, so a fact of every interleaving is a fact of requests
processed one at a time.

Runs are built up at the end, so an invariant is shown of a run by what its
last step does. For witnesses there is the other direction: a schedule
(`Machine.play`) is a list of parties, and what it makes them do, one call
after the other, is a run by construction.
-/

namespace ZeroTrustLab.Lib

/-- One answered call: what was asked, and the answer or the exception. -/
structure Act (C : Type) (A : C → Type) (ε : Type) where
  call : C
  ans : Except ε (A call)

/-- Where a party is: inside its program, or out of it with a result. -/
inductive Status (C : Type) (A : C → Type) (ε α : Type) where
  | running (p : Prog C A ε α)
  | done (r : Except ε α)

/-- A party: its own state and where it is. -/
structure Party (C : Type) (A : C → Type) (ε α L : Type) where
  loc : L
  status : Status C A ε α

/-- A configuration: the shared state and every party. -/
structure Cfg (C : Type) (A : C → Type) (ε α ι L W : Type) where
  world : W
  party : ι → Party C A ε α L

/-- One move of a run. -/
inductive Label (C : Type) (A : C → Type) (ε ι E : Type) where
  | call (i : ι) (a : Act C A ε)
  | exit (i : ι)
  | env (e : E)

section

variable {C : Type} {A : C → Type} {ε α ι L W E : Type}

/-- The result a program has come to, if it is at a leaf. -/
def Prog.result? : Prog C A ε α → Option (Except ε α)
  | .pure a => some (.ok a)
  | .throw e => some (.error e)
  | .call _ _ => none

/-- A program with a result has returned or raised it. -/
theorem Prog.result?_cases {p : Prog C A ε α} {r : Except ε α} (h : p.result? = some r) :
    (∃ a, p = .pure a ∧ r = .ok a) ∨ ∃ e, p = .throw e ∧ r = .error e := by
  cases p with
  | pure a => exact .inl ⟨a, rfl, (Option.some.inj h).symm⟩
  | throw e => exact .inr ⟨e, rfl, (Option.some.inj h).symm⟩
  | call c k => cases h

/-- The party that makes a move; the environment is none. -/
def Label.by? : Label C A ε ι E → Option ι
  | .call i _ => some i
  | .exit i => some i
  | .env _ => none

variable [DecidableEq ι]

/-- The call of party `i` in a move, if it is one. -/
def Label.act? (i : ι) : Label C A ε ι E → Option (Act C A ε)
  | .call j a => if j = i then some a else none
  | _ => none

/-- Party `i`'s own history: its answered calls, in order. -/
def acts (i : ι) (ls : List (Label C A ε ι E)) : List (Act C A ε) :=
  ls.filterMap (Label.act? i)

@[simp] theorem acts_nil (i : ι) : acts i ([] : List (Label C A ε ι E)) = [] := rfl

@[simp] theorem acts_append (i : ι) (ls ls' : List (Label C A ε ι E)) :
    acts i (ls ++ ls') = acts i ls ++ acts i ls' :=
  List.filterMap_append

@[simp] theorem acts_call_self (i : ι) (a : Act C A ε) :
    acts i [(Label.call i a : Label C A ε ι E)] = [a] := by
  simp [acts, Label.act?]

theorem acts_eq_nil {i : ι} {lab : Label C A ε ι E} (h : lab.by? ≠ some i) :
    acts i [lab] = [] := by
  cases lab with
  | call j a =>
    have hj : j ≠ i := fun e => h (congrArg some e)
    simp [acts, Label.act?, hj]
  | exit j => rfl
  | env e => rfl

@[simp] theorem acts_exit (i j : ι) : acts i [(Label.exit j : Label C A ε ι E)] = [] := rfl

@[simp] theorem acts_env (i : ι) (e : E) : acts i [(Label.env e : Label C A ε ι E)] = [] := rfl

/-- A label holds an act of a party just when it is a call of it. -/
theorem Label.act?_eq_some {i : ι} {lab : Label C A ε ι E} {a : Act C A ε} :
    lab.act? i = some a ↔ lab = .call i a := by
  cases lab with
  | call j b =>
    by_cases hj : j = i
    · simp [Label.act?, hj]
    · simp [Label.act?, hj]
  | exit j => simp [Label.act?]
  | env e => simp [Label.act?]

/-- An entry of a party's history was a move of the run. -/
theorem mem_acts {i : ι} {a : Act C A ε} {ls : List (Label C A ε ι E)} :
    a ∈ acts i ls ↔ Label.call i a ∈ ls := by
  constructor
  · intro h
    obtain ⟨lab, hlab, ha⟩ := List.mem_filterMap.mp h
    rwa [Label.act?_eq_some.mp ha] at hlab
  · intro h
    exact List.mem_filterMap.mpr ⟨_, h, Label.act?_eq_some.mpr rfl⟩

/-- Where a party's history can be cut, the trace can be cut. -/
theorem acts_cut {i : ι} {a : Act C A ε} {h₁ h₂ : List (Act C A ε)} :
    ∀ {ls : List (Label C A ε ι E)}, acts i ls = h₁ ++ a :: h₂ →
      ∃ ls₁ ls₂, ls = ls₁ ++ .call i a :: ls₂ ∧ acts i ls₁ = h₁ ∧ acts i ls₂ = h₂ := by
  intro ls h
  obtain ⟨ls₁, rest, rfl, hfront, hrest⟩ := List.filterMap_eq_append_iff.mp h
  obtain ⟨pre, lab, ls₂, rfl, hpre, hlab, hls₂⟩ := List.filterMap_eq_cons_iff.mp hrest
  obtain rfl := Label.act?_eq_some.mp hlab
  -- between `ls₁` and the call are moves of the others
  refine ⟨ls₁ ++ pre, ls₂, by simp, ?_, hls₂⟩
  have hnil : acts i pre = [] := List.filterMap_eq_nil_iff.mpr hpre
  rw [acts_append, hnil, List.append_nil]
  exact hfront

/-- The configuration in which party `i` has just moved. -/
def Cfg.set (c : Cfg C A ε α ι L W) (i : ι) (l : L) (s : Status C A ε α) (w : W) :
    Cfg C A ε α ι L W :=
  ⟨w, Function.update c.party i ⟨l, s⟩⟩

@[simp] theorem Cfg.set_world (c : Cfg C A ε α ι L W) (i : ι) (l : L) (s : Status C A ε α) (w : W) :
    (c.set i l s w).world = w := rfl

@[simp] theorem Cfg.set_party_self (c : Cfg C A ε α ι L W) (i : ι) (l : L) (s : Status C A ε α)
    (w : W) : (c.set i l s w).party i = ⟨l, s⟩ :=
  Function.update_self ..

@[simp] theorem Cfg.set_party_ne (c : Cfg C A ε α ι L W) {i j : ι} (l : L) (s : Status C A ε α)
    (w : W) (h : j ≠ i) : (c.set i l s w).party j = c.party j :=
  Function.update_of_ne h ..

variable (M : Machine C A ε ι L W E)

/-- A call that ends in an exception: the machine answers it so, or it fails. -/
def Machine.Raises (i : ι) (c : C) (l : L) (w : W) (e : ε) (l' : L) (w' : W) : Prop :=
  M.serve i c l w = (.error e, l', w') ∨ M.fault i c l w = some (e, l', w')

/-- One move of one party, or of the environment. -/
inductive Step : Cfg C A ε α ι L W → Label C A ε ι E → Cfg C A ε α ι L W → Prop where
  | served {cfg : Cfg C A ε α ι L W} {i : ι} {c : C} {k : A c → Prog C A ε α} {x : A c} {l' : L}
      {w' : W} (hp : (cfg.party i).status = .running (.call c k))
      (hs : M.serve i c (cfg.party i).loc cfg.world = (.ok x, l', w')) :
      Step cfg (.call i ⟨c, .ok x⟩) (cfg.set i l' (.running (k x)) w')
  | raised {cfg : Cfg C A ε α ι L W} {i : ι} {c : C} {k : A c → Prog C A ε α} {e : ε} {l' : L}
      {w' : W} (hp : (cfg.party i).status = .running (.call c k))
      (hs : M.Raises i c (cfg.party i).loc cfg.world e l' w') :
      Step cfg (.call i ⟨c, .error e⟩) (cfg.set i l' (.running (.throw e)) w')
  | exited {cfg : Cfg C A ε α ι L W} {i : ι} {p : Prog C A ε α} {r : Except ε α}
      (hp : (cfg.party i).status = .running p) (hr : p.result? = some r) :
      Step cfg (.exit i)
        (cfg.set i (M.close i (cfg.party i).loc cfg.world).1 (.done r)
          (M.close i (cfg.party i).loc cfg.world).2)
  | env {cfg : Cfg C A ε α ι L W} (e : E) :
      Step cfg (.env e) ⟨M.env e cfg.world, cfg.party⟩

/-- A run: the moves made, in order. -/
inductive Steps : Cfg C A ε α ι L W → List (Label C A ε ι E) → Cfg C A ε α ι L W → Prop where
  | refl (c : Cfg C A ε α ι L W) : Steps c [] c
  | snoc {c c' c'' : Cfg C A ε α ι L W} {ls : List (Label C A ε ι E)} {lab : Label C A ε ι E} :
      Steps c ls c' → Step M c' lab c'' → Steps c (ls ++ [lab]) c''

variable {M}

theorem Steps.single {c c' : Cfg C A ε α ι L W} {lab : Label C A ε ι E} (h : Step M c lab c') :
    Steps M c [lab] c' :=
  Steps.snoc (.refl c) h

theorem Steps.trans {c c' c'' : Cfg C A ε α ι L W} {ls ls' : List (Label C A ε ι E)}
    (h : Steps M c ls c') (h' : Steps M c' ls' c'') : Steps M c (ls ++ ls') c'' := by
  induction h' with
  | refl => rw [List.append_nil]; exact h
  | snoc _ hs ih => rw [← List.append_assoc]; exact ih.snoc hs

/-- A run can be cut at any point of its trace. -/
theorem Steps.split {c c' : Cfg C A ε α ι L W} {ls : List (Label C A ε ι E)} (h : Steps M c ls c') :
    ∀ ls₁ ls₂, ls = ls₁ ++ ls₂ → ∃ m, Steps M c ls₁ m ∧ Steps M m ls₂ c' := by
  induction h with
  | refl =>
    intro ls₁ ls₂ he
    obtain ⟨rfl, rfl⟩ := List.append_eq_nil_iff.mp he.symm
    exact ⟨c, .refl c, .refl c⟩
  | @snoc c₁ c₂ ls lab h hs ih =>
    intro ls₁ ls₂ he
    -- either the cut is behind the last move, or in the run before it
    rcases List.eq_nil_or_concat ls₂ with rfl | ⟨ls₃, lab', rfl⟩
    · rw [List.append_nil] at he
      subst he
      exact ⟨c₂, h.snoc hs, .refl c₂⟩
    · rw [List.concat_eq_append, ← List.append_assoc] at he
      obtain ⟨hfront, hlast⟩ := List.append_inj' he rfl
      obtain ⟨rfl, -⟩ := List.cons_eq_cons.mp hlast
      obtain ⟨m, h₁, h₂⟩ := ih ls₁ ls₃ hfront
      rw [List.concat_eq_append]
      exact ⟨m, h₁, h₂.snoc hs⟩

/-- A one-move run is that move. -/
theorem Steps.of_single {c c' : Cfg C A ε α ι L W} {lab : Label C A ε ι E}
    (h : Steps M c [lab] c') : Step M c lab c' := by
  generalize hl : [lab] = l at h
  cases h with
  | refl => exact absurd hl (by simp)
  | @snoc c₁ _ ls lab' h hs =>
    -- what precedes the one move is empty
    obtain ⟨hnil, hlast⟩ := List.append_inj' (show [] ++ [lab] = ls ++ [lab'] from hl) rfl
    obtain ⟨rfl, -⟩ := List.cons_eq_cons.mp hlast
    generalize hl' : ls = l' at h
    cases h with
    | refl => exact hs
    | snoc h' hs' => exact absurd (hnil.trans hl') (by simp)

/-- Every move in the trace was made somewhere in the run. -/
theorem Steps.of_mem {c c' : Cfg C A ε α ι L W} {ls : List (Label C A ε ι E)} (h : Steps M c ls c')
    {ls₁ ls₂ : List (Label C A ε ι E)} {lab : Label C A ε ι E} (he : ls = ls₁ ++ lab :: ls₂) :
    ∃ m m', Steps M c ls₁ m ∧ Step M m lab m' ∧ Steps M m' ls₂ c' := by
  obtain ⟨m', h₁, h₂⟩ := h.split (ls₁ ++ [lab]) ls₂ (by rw [he]; simp)
  obtain ⟨m, h₃, h₄⟩ := h₁.split ls₁ [lab] rfl
  exact ⟨m, m', h₃, h₄.of_single, h₂⟩

/-- A move of somebody else leaves a party where it is. -/
theorem Step.party_ne {c c' : Cfg C A ε α ι L W} {lab : Label C A ε ι E} (hs : Step M c lab c')
    {i : ι} (h : lab.by? ≠ some i) : c'.party i = c.party i := by
  cases hs with
  | @served j _ _ _ _ _ _ _ =>
    exact Cfg.set_party_ne _ _ _ _ fun e => h (congrArg some e.symm)
  | @raised j _ _ _ _ _ _ _ =>
    exact Cfg.set_party_ne _ _ _ _ fun e => h (congrArg some e.symm)
  | @exited j _ _ _ _ =>
    exact Cfg.set_party_ne _ _ _ _ fun e => h (congrArg some e.symm)
  | env e => rfl

/-- A move of nobody is one of the environment. -/
theorem Step.eq_env {c c' : Cfg C A ε α ι L W} {lab : Label C A ε ι E} (hs : Step M c lab c')
    (h : lab.by? = none) : ∃ e, lab = .env e ∧ c' = ⟨M.env e c.world, c.party⟩ := by
  cases hs with
  | served => simp [Label.by?] at h
  | raised => simp [Label.by?] at h
  | exited => simp [Label.by?] at h
  | env e => exact ⟨e, rfl, rfl⟩

/-- A party that has left makes no move. -/
theorem Step.done_stays {c c' : Cfg C A ε α ι L W} {lab : Label C A ε ι E} (hs : Step M c lab c')
    {i : ι} {r : Except ε α} (hd : (c.party i).status = .done r) : c'.party i = c.party i := by
  refine hs.party_ne fun hby => ?_
  cases hs with
  | served hp =>
    obtain rfl := Option.some.inj hby
    rw [hp] at hd
    cases hd
  | raised hp =>
    obtain rfl := Option.some.inj hby
    rw [hp] at hd
    cases hd
  | exited hp =>
    obtain rfl := Option.some.inj hby
    rw [hp] at hd
    cases hd
  | env e => cases hby

/-- A party that is done stays as it is. -/
theorem Steps.done_stays {c c' : Cfg C A ε α ι L W} {ls : List (Label C A ε ι E)}
    (h : Steps M c ls c') {i : ι} {r : Except ε α} (hd : (c.party i).status = .done r) :
    c'.party i = c.party i := by
  induction h with
  | refl => rfl
  | snoc _ hs ih =>
    rw [hs.done_stays (by rw [ih]; exact hd)]
    exact ih

/-! ## One party alone is an interleaving -/

/-- If the move is a call that raises, the exception was the machine's answer
and no fault. -/
def Machine.Answers (M : Machine C A ε ι L W E) (lab : Label C A ε ι E) : Prop :=
  ∀ i c e, lab = .call i ⟨c, .error e⟩ → ∃ l w s, M.serve i c l w = (.error e, s)

/-- What a party does when it runs alone, every call answered, is a run of
the whole family in which nobody else moves. -/
theorem run_steps (i : ι) : ∀ (p : Prog C A ε α) (cfg : Cfg C A ε α ι L W),
    (cfg.party i).status = .running p →
      ∃ ls, Steps M cfg ls
          (cfg.set i (M.close i (M.run i p (cfg.party i).loc cfg.world).2.1
              (M.run i p (cfg.party i).loc cfg.world).2.2).1
            (.done (M.run i p (cfg.party i).loc cfg.world).1)
            (M.close i (M.run i p (cfg.party i).loc cfg.world).2.1
              (M.run i p (cfg.party i).loc cfg.world).2.2).2) ∧
        ∀ lab ∈ ls, lab.by? = some i ∧ M.Answers lab := by
  intro p
  induction p with
  | pure a =>
    intro cfg hp
    exact ⟨[.exit i], .single (.exited hp rfl), by simp [Label.by?, Machine.Answers]⟩
  | throw e =>
    intro cfg hp
    exact ⟨[.exit i], .single (.exited hp rfl), by simp [Label.by?, Machine.Answers]⟩
  | call c k ih =>
    intro cfg hp
    -- the machine's answer decides which move it is
    rcases hs : M.serve i c (cfg.party i).loc cfg.world with ⟨r, l', w'⟩
    cases r with
    | ok x =>
      have hstep : Step M cfg _ (cfg.set i l' (.running (k x)) w') := .served hp hs
      obtain ⟨ls, hls, hby⟩ := ih x (cfg.set i l' (.running (k x)) w') (by simp)
      refine ⟨.call i ⟨c, .ok x⟩ :: ls, ?_, ?_⟩
      · -- `ih` starts where the first move has led
        rw [Machine.run_call M i hs]
        have h := Steps.trans (.single hstep) hls
        simpa [Cfg.set] using h
      · intro lab hlab
        rcases List.mem_cons.mp hlab with rfl | hlab
        · refine ⟨rfl, fun j d e he => ?_⟩
          obtain ⟨-, hact⟩ := Label.call.inj he
          obtain ⟨rfl, hans⟩ := Act.mk.inj hact
          exact absurd (eq_of_heq hans) (by simp)
        · exact hby lab hlab
    | error e =>
      have hstep : Step M cfg _ (cfg.set i l' (.running (.throw e)) w') := .raised hp (.inl hs)
      have hexit : Step M (cfg.set i l' (.running (.throw e)) w') (.exit i) _ :=
        .exited (p := .throw e) (by simp) rfl
      refine ⟨[.call i ⟨c, .error e⟩, .exit i], ?_, ?_⟩
      · rw [Machine.run_call_error M i hs]
        have h := Steps.trans (.single hstep) (.single hexit)
        simpa [Cfg.set] using h
      · intro lab hlab
        rcases List.mem_cons.mp hlab with rfl | hlab
        · refine ⟨rfl, fun j d e' he => ?_⟩
          obtain ⟨rfl, hact⟩ := Label.call.inj he
          obtain ⟨rfl, hans⟩ := Act.mk.inj hact
          rw [← Except.error.inj (eq_of_heq hans)]
          exact ⟨_, _, _, hs⟩
        · rw [List.mem_singleton.mp hlab]
          exact ⟨rfl, fun _ _ _ he => by cases he⟩

/-- The same, said of the configuration it ends in. -/
theorem run_alone {i : ι} {p : Prog C A ε α} {cfg : Cfg C A ε α ι L W}
    (hp : (cfg.party i).status = .running p) {r : Except ε α} {l : L} {w : W}
    (hr : M.run i p (cfg.party i).loc cfg.world = (r, l, w)) :
    ∃ ls c, Steps M cfg ls c ∧ (∀ lab ∈ ls, lab.by? = some i ∧ M.Answers lab) ∧
      (c.party i).status = .done r ∧
      c.world = (M.close i l w).2 ∧ ∀ j ≠ i, c.party j = cfg.party j := by
  obtain ⟨ls, hls, hby⟩ := run_steps (M := M) i p cfg hp
  rw [hr] at hls
  exact ⟨ls, _, hls, hby, by simp, rfl, fun j hj => Cfg.set_party_ne _ _ _ _ hj⟩

/-! ## Schedules -/

/-- The result of a party that has left. -/
def Status.result? : Status C A ε α → Option (Except ε α)
  | .running _ => none
  | .done r => some r

/-- A status with a result is that of a party that is done. -/
theorem Status.eq_done {s : Status C A ε α} {r : Except ε α} (h : s.result? = some r) :
    s = .done r := by
  cases s with
  | running p => simp [Status.result?] at h
  | done r' => rw [Option.some.inj h]

/-- Party `i` leaves with the result `r`. -/
def Machine.leave (M : Machine C A ε ι L W E) (cfg : Cfg C A ε α ι L W) (i : ι)
    (r : Except ε α) : List (Label C A ε ι E) × Cfg C A ε α ι L W :=
  ([.exit i], cfg.set i (M.close i (cfg.party i).loc cfg.world).1 (.done r)
    (M.close i (cfg.party i).loc cfg.world).2)

/-- Party `i`, standing at a program, makes its next move; no call fails on
its own. -/
def Machine.advance (M : Machine C A ε ι L W E) (cfg : Cfg C A ε α ι L W) (i : ι) :
    Prog C A ε α → List (Label C A ε ι E) × Cfg C A ε α ι L W
  | .pure a => M.leave cfg i (.ok a)
  | .throw e => M.leave cfg i (.error e)
  | .call c k =>
    match M.serve i c (cfg.party i).loc cfg.world with
    | (.ok x, l', w') => ([.call i ⟨c, .ok x⟩], cfg.set i l' (.running (k x)) w')
    | (.error e, l', w') => ([.call i ⟨c, .error e⟩], cfg.set i l' (.running (.throw e)) w')

/-- Party `i` makes its next move, if it has not left. -/
def Machine.move (M : Machine C A ε ι L W E) (cfg : Cfg C A ε α ι L W) (i : ι) :
    List (Label C A ε ι E) × Cfg C A ε α ι L W :=
  match (cfg.party i).status with
  | .done _ => ([], cfg)
  | .running p => M.advance cfg i p

/-- The parties move in the order of the schedule. -/
def Machine.play (M : Machine C A ε ι L W E) (cfg : Cfg C A ε α ι L W) :
    List ι → List (Label C A ε ι E) × Cfg C A ε α ι L W
  | [] => ([], cfg)
  | i :: is =>
    let (ls, cfg') := M.move cfg i
    let (ls', cfg'') := M.play cfg' is
    (ls ++ ls', cfg'')

/-- Party `i`'s next call fails, if that call can. -/
def Machine.fail (M : Machine C A ε ι L W E) (cfg : Cfg C A ε α ι L W) (i : ι) :
    List (Label C A ε ι E) × Cfg C A ε α ι L W :=
  match (cfg.party i).status with
  | .running (.call c _) =>
    match M.fault i c (cfg.party i).loc cfg.world with
    | some (e, l', w') => ([.call i ⟨c, .error e⟩], cfg.set i l' (.running (.throw e)) w')
    | none => ([], cfg)
  | _ => ([], cfg)

theorem Machine.advance_steps (M : Machine C A ε ι L W E) {cfg : Cfg C A ε α ι L W} {i : ι}
    {p : Prog C A ε α} (hp : (cfg.party i).status = .running p) :
    Steps M cfg (M.advance cfg i p).1 (M.advance cfg i p).2 := by
  cases p with
  | pure a => exact .single (.exited hp rfl)
  | throw e => exact .single (.exited hp rfl)
  | call c k =>
    rcases hs : M.serve i c (cfg.party i).loc cfg.world with ⟨x, l', w'⟩
    cases x with
    | ok x =>
      simp only [Machine.advance, hs]
      exact .single (.served hp hs)
    | error e =>
      simp only [Machine.advance, hs]
      exact .single (.raised hp (.inl hs))

theorem Machine.move_steps (M : Machine C A ε ι L W E) (cfg : Cfg C A ε α ι L W) (i : ι) :
    Steps M cfg (M.move cfg i).1 (M.move cfg i).2 := by
  unfold Machine.move
  rcases hst : (cfg.party i).status with p | r
  · exact M.advance_steps hst
  · exact .refl cfg

theorem Machine.fail_steps (M : Machine C A ε ι L W E) (cfg : Cfg C A ε α ι L W) (i : ι) :
    Steps M cfg (M.fail cfg i).1 (M.fail cfg i).2 := by
  unfold Machine.fail
  split
  next c k hst =>
    split
    next e l' w' hf => exact .single (.raised hst (.inr hf))
    next => exact .refl cfg
  next => exact .refl cfg

/-- The environment has no part in what a party does. -/
theorem Machine.move_by (M : Machine C A ε ι L W E) (cfg : Cfg C A ε α ι L W) (i : ι) :
    ∀ lab ∈ (M.move cfg i).1, lab.by? = some i := by
  intro lab hlab
  unfold Machine.move at hlab
  split at hlab
  next => simp at hlab
  next p hst =>
    cases p with
    | pure a => rw [List.mem_singleton.mp hlab]; rfl
    | throw e => rw [List.mem_singleton.mp hlab]; rfl
    | call c k =>
      unfold Machine.advance at hlab
      dsimp only at hlab
      split at hlab
      next => rw [List.mem_singleton.mp hlab]; rfl
      next => rw [List.mem_singleton.mp hlab]; rfl

theorem Machine.play_by (M : Machine C A ε ι L W E) (is : List ι) (cfg : Cfg C A ε α ι L W) :
    ∀ lab ∈ (M.play cfg is).1, ∃ i ∈ is, lab.by? = some i := by
  induction is generalizing cfg with
  | nil => intro lab hlab; simp [Machine.play] at hlab
  | cons i is ih =>
    intro lab hlab
    rcases List.mem_append.mp hlab with hlab | hlab
    · exact ⟨i, List.mem_cons_self, M.move_by cfg i lab hlab⟩
    · obtain ⟨j, hj, hby⟩ := ih (M.move cfg i).2 lab hlab
      exact ⟨j, List.mem_cons_of_mem _ hj, hby⟩

/-- A schedule is an interleaving. -/
theorem Machine.play_steps (M : Machine C A ε ι L W E) (is : List ι) (cfg : Cfg C A ε α ι L W) :
    Steps M cfg (M.play cfg is).1 (M.play cfg is).2 := by
  induction is generalizing cfg with
  | nil => exact .refl cfg
  | cons i is ih => exact (M.move_steps cfg i).trans (ih (M.move cfg i).2)

end

end ZeroTrustLab.Lib
