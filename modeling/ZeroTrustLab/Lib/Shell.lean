import ZeroTrustLab.Lib.Interleave

/-!
# Shell scripts

A shell script is a `Prog` whose calls are the external commands, each answered
by its exit status, and the lines it prints. The one thing that is not in the
program text is whether `errexit` is in force: a command list is therefore a
function of that, and the constructs that ignore it (a condition, `!`, the left
side of `||`) hand `false` to their parts.

`Does P Q s` is the triple of a command list under an ignored `errexit`: it runs
to its end, with calls in `P` and a status in `Q`. Its rule for a sequence is
where the trap lies: of the commands before the last one nothing is asked, for
their statuses count for nothing.

`Ends` runs a command list on a machine, with one rule for each construct.

Below that stands the rule of a program that is fed its answers: `feed` runs it
on a function from histories to answers, and `Makes` says what all such runs
have in common.
-/

namespace ZeroTrustLab.Lib

/-! ## Programs on given answers -/

section

variable {C : Type} {A : C → Type} {ε α β : Type}

namespace Prog

/-- The calls the program makes after the history `h`, and its result, where
`reply` answers every call. -/
def feed (reply : List (Act C A ε) → (c : C) → A c) :
    Prog C A ε α → List (Act C A ε) → List (Act C A ε) × Except ε α
  | .pure a, _ => ([], .ok a)
  | .throw e, _ => ([], .error e)
  | .call c k, h =>
    let a : Act C A ε := ⟨c, .ok (reply h c)⟩
    let rest := feed reply (k (reply h c)) (h ++ [a])
    (a :: rest.1, rest.2)

variable {reply : List (Act C A ε) → (c : C) → A c} {p : Prog C A ε α}
  {f : α → Prog C A ε β} {h acts : List (Act C A ε)}

/-- The head returned. -/
theorem feed_bind_ok {a : α} (hp : p.feed reply h = (acts, .ok a)) :
    (p >>= f).feed reply h =
      (acts ++ ((f a).feed reply (h ++ acts)).1, ((f a).feed reply (h ++ acts)).2) := by
  induction p generalizing h acts with
  | pure b =>
    obtain ⟨rfl, hb⟩ := Prod.mk.inj hp
    obtain rfl := Except.ok.inj hb
    simp
  | throw e => cases hp
  | call c k ih =>
    obtain ⟨rfl, hr⟩ := Prod.mk.inj hp
    have hrest := ih _ (Prod.ext rfl hr)
    rw [call_bind, feed, hrest]
    simp

/-- The head raised. -/
theorem feed_bind_error {e : ε} (hp : p.feed reply h = (acts, .error e)) :
    (p >>= f).feed reply h = (acts, .error e) := by
  induction p generalizing h acts with
  | pure b => cases hp
  | throw e' =>
    obtain ⟨rfl, he⟩ := Prod.mk.inj hp
    obtain rfl := Except.error.inj he
    rfl
  | call c k ih =>
    obtain ⟨rfl, hr⟩ := Prod.mk.inj hp
    have hrest := ih _ (Prod.ext rfl hr)
    rw [call_bind, feed, hrest]

/-- Whatever the answers, the calls the program makes and its result satisfy
`Q`. -/
def Makes (Q : List (Act C A ε) → Except ε α → Prop) (p : Prog C A ε α) : Prop :=
  ∀ reply h, Q (p.feed reply h).1 (p.feed reply h).2

variable {Q Q' : List (Act C A ε) → Except ε α → Prop}

theorem makes_pure {a : α} (hQ : Q [] (.ok a)) : (Prog.pure a).Makes Q := fun _ _ => hQ

theorem makes_call {c : C} {k : A c → Prog C A ε α}
    (hk : ∀ x, (k x).Makes fun acts r => Q (⟨c, .ok x⟩ :: acts) r) : (Prog.call c k).Makes Q :=
  fun reply h => hk (reply h c) reply _

theorem Makes.mono (hp : p.Makes Q) (hQ : ∀ acts r, Q acts r → Q' acts r) : p.Makes Q' :=
  fun reply h => hQ _ _ (hp reply h)

/-- The rule for a sequence. -/
theorem Makes.bind {R : List (Act C A ε) → Except ε β → Prop} (hp : p.Makes Q)
    (hf : ∀ acts a, Q acts (.ok a) → (f a).Makes fun acts' r => R (acts ++ acts') r)
    (he : ∀ acts e, Q acts (.error e) → R acts (.error e)) : (p >>= f).Makes R := by
  intro reply h
  have hhead := hp reply h
  rcases hr : p.feed reply h with ⟨acts, e | a⟩
  · rw [hr] at hhead
    rw [feed_bind_error hr]
    exact he acts e hhead
  · rw [hr] at hhead
    rw [feed_bind_ok hr]
    exact hf acts a hhead reply _

end Prog

end

/-! ## Command lists -/

/-- What a script does: it runs a command, or prints a line. -/
inductive ShellCall (C L : Type) where
  | command (c : C)
  | echo (line : L)
  deriving DecidableEq

@[reducible] def ShellAns {C L : Type} : ShellCall C L → Type
  | .command _ => ℕ
  | .echo _ => Unit

/-- How a command list that has not ended the shell ends: with the status of
its last command, or by `return`. -/
inductive Flow where
  | next (status : ℕ)
  | ret (status : ℕ)
  deriving DecidableEq

def Flow.status : Flow → ℕ
  | .next n => n
  | .ret n => n

/-- What runs in the shell. An exit of the shell is an exception, its status. -/
abbrev ShellProg (C L α : Type) := Prog (ShellCall C L) ShellAns ℕ α

abbrev ShellAct (C L : Type) := Act (ShellCall C L) ShellAns ℕ

/-- A command list, for `errexit` in force or ignored. -/
abbrev Shell (C L : Type) := (errexit : Bool) → ShellProg C L Flow

variable {C L : Type}

/-- A `return` skips what follows. -/
def Flow.proceed (rest : ℕ → ShellProg C L Flow) : Flow → ShellProg C L Flow
  | .next n => rest n
  | .ret n => .pure (.ret n)

namespace Shell

/-- A command has ended with status `n`. -/
def leave (errexit : Bool) (n : ℕ) : ShellProg C L Flow :=
  if errexit && n != 0 then .throw n else .pure (.next n)

/-- `:` -/
def null : Shell C L := fun _ => .pure (.next 0)

/-- The exit status of a command. -/
def status (c : C) : ShellProg C L ℕ := Prog.ask (ShellCall.command c)

def run (c : C) : Shell C L := fun errexit => status c >>= leave errexit

/-- `c | d`, with `pipefail`. -/
def pipe (c d : C) : Shell C L := fun errexit => do
  let n ← status c
  let m ← status d
  leave errexit (if m = 0 then n else m)

def echo (line : L) : Shell C L := fun _ => Prog.ask (.echo line) >>= fun _ => .pure (.next 0)

/-- `return n` -/
def ret (n : ℕ) : Shell C L := fun _ => .pure (.ret n)

/-- `s; t` -/
def seq (s t : Shell C L) : Shell C L := fun errexit =>
  s errexit >>= Flow.proceed fun _ => t errexit

/-- Command lists one after the other: a function's body, or a `for` loop. -/
def block : List (Shell C L) → Shell C L
  | [] => null
  | [s] => s
  | s :: t :: l => seq s (block (t :: l))

/-- `if test; then yes; else no; fi` -/
def cond (test yes no : Shell C L) : Shell C L := fun errexit =>
  test false >>= Flow.proceed fun n => if n = 0 then yes errexit else no errexit

/-- `! s` -/
def neg (s : Shell C L) : Shell C L := fun _ =>
  s false >>= Flow.proceed fun n => .pure (.next (if n = 0 then 1 else 0))

/-- `s || t` -/
def orElse (s t : Shell C L) : Shell C L := fun errexit =>
  s false >>= Flow.proceed fun n => if n = 0 then .pure (.next 0) else t errexit

/-- The call of a function. -/
def invoke (body : Shell C L) : Shell C L := fun errexit =>
  body errexit >>= fun flow => leave errexit flow.status

/-! ## `errexit` ignored -/

/-- Where `errexit` is ignored, the commands of `s` run to their end, with calls
in `P` and a status in `Q`. -/
def Does (P : ShellCall C L → Prop) (Q : ℕ → Prop) (s : Shell C L) : Prop :=
  (s false).Makes fun acts r => (∀ a ∈ acts, P a.call) ∧ ∃ n, r = .ok (.next n) ∧ Q n

variable {P : ShellCall C L → Prop} {Q : ℕ → Prop} {s t : Shell C L}

theorem does_null (hQ : Q 0) : null.Does P Q :=
  Prog.makes_pure ⟨by simp, 0, rfl, hQ⟩

theorem does_run {c : C} (hc : P (.command c)) : (run c).Does P fun _ => True := by
  refine Prog.makes_call fun n => Prog.makes_pure ⟨?_, n, rfl, trivial⟩
  simpa using hc

theorem does_pipe {c d : C} (hc : P (.command c)) (hd : P (.command d)) :
    (pipe c d).Does P fun _ => True := by
  refine Prog.makes_call fun n => Prog.makes_call fun m => Prog.makes_pure ⟨?_, _, rfl, trivial⟩
  simpa using ⟨hc, hd⟩

theorem does_echo {line : L} (hl : P (.echo line)) (hQ : Q 0) : (echo line).Does P Q := by
  refine Prog.makes_call fun _ => Prog.makes_pure ⟨?_, 0, rfl, hQ⟩
  simpa using hl

/-- After a part that runs to its end, the rest decides. -/
theorem Does.proceed {R : ℕ → Prop} {p : ShellProg C L Flow} {rest : ℕ → ShellProg C L Flow}
    (hp : p.Makes fun acts r => (∀ a ∈ acts, P a.call) ∧ ∃ n, r = .ok (.next n) ∧ R n)
    (hrest : ∀ n, R n → (rest n).Makes fun acts r =>
      (∀ a ∈ acts, P a.call) ∧ ∃ m, r = .ok (.next m) ∧ Q m) :
    (p >>= Flow.proceed rest).Makes fun acts r =>
      (∀ a ∈ acts, P a.call) ∧ ∃ m, r = .ok (.next m) ∧ Q m := by
  refine hp.bind (fun acts flow ⟨hall, n, hr, hn⟩ => ?_) fun acts e ⟨_, _, hr, _⟩ => by cases hr
  obtain rfl := Except.ok.inj hr
  refine (hrest n hn).mono fun acts' r ⟨hall', hend⟩ => ⟨fun a ha => ?_, hend⟩
  rcases List.mem_append.mp ha with ha | ha
  · exact hall a ha
  · exact hall' a ha

/-- Of the first part no status is asked. -/
theorem Does.seq (hs : s.Does P fun _ => True) (ht : t.Does P Q) : (seq s t).Does P Q :=
  Does.proceed hs fun _ _ => ht

theorem Does.cond {test : Shell C L} (htest : test.Does P fun _ => True) (hs : s.Does P Q)
    (ht : t.Does P Q) : (cond test s t).Does P Q := by
  refine Does.proceed htest fun n _ => ?_
  split
  · exact hs
  · exact ht

theorem Does.invoke (hs : s.Does P Q) : (invoke s).Does P Q := by
  refine hs.bind (fun acts flow ⟨hall, n, hr, hn⟩ => ?_) fun acts e ⟨_, _, hr, _⟩ => by cases hr
  obtain rfl := Except.ok.inj hr
  exact Prog.makes_pure ⟨by simpa using hall, n, rfl, hn⟩

/-! ## On a machine -/

/-- `exit n` -/
def exit (n : ℕ) : Shell C L := fun _ => .throw n

section

variable {ι K W E : Type} {M : Machine (ShellCall C L) ShellAns ℕ ι K W E} {i : ι}
  {k k' k'' : K} {w w' w'' : W} {r : Except ℕ Flow}

variable (M i) in
/-- On this machine, where `errexit` is ignored, `s` ends so. -/
def Ends (s : Shell C L) (k : K) (w : W) (r : Except ℕ Flow) (k' : K) (w' : W) : Prop :=
  M.run i (s false) k w = (r, k', w')

theorem ends_null : Ends M i null k w (.ok (.next 0)) k w := rfl

theorem ends_exit {n : ℕ} : Ends M i (exit n) k w (.error n) k w := rfl

theorem ends_run {c : C} {n : ℕ} (h : M.serve i (.command c) k w = (.ok n, k', w')) :
    Ends M i (run c) k w (.ok (.next n)) k' w' :=
  Machine.run_call M i h

theorem ends_echo {line : L} (h : M.serve i (.echo line) k w = (.ok (), k', w')) :
    Ends M i (echo line) k w (.ok (.next 0)) k' w' :=
  Machine.run_call M i h

/-- The first command list has run to its end, and the rest decides. -/
theorem Ends.proceed {n : ℕ} {rest : ℕ → ShellProg C L Flow}
    (hs : Ends M i s k w (.ok (.next n)) k' w') (hrest : M.run i (rest n) k' w' = (r, k'', w'')) :
    M.run i (s false >>= Flow.proceed rest) k w = (r, k'', w'') := by
  rw [Machine.run_bind_ok M i hs]
  exact hrest

theorem Ends.seq {n : ℕ} (hs : Ends M i s k w (.ok (.next n)) k' w')
    (ht : Ends M i t k' w' r k'' w'') : Ends M i (seq s t) k w r k'' w'' :=
  hs.proceed ht

/-- An exit ends the whole. -/
theorem Ends.seq_exit {n : ℕ} (hs : Ends M i s k w (.error n) k' w') :
    Ends M i (Shell.seq s t) k w (.error n) k' w' :=
  Machine.run_bind_error M i hs

theorem Ends.cond {test : Shell C L} {n : ℕ} (htest : Ends M i test k w (.ok (.next n)) k' w')
    (hbranch : Ends M i (if n = 0 then s else t) k' w' r k'' w'') :
    Ends M i (cond test s t) k w r k'' w'' := by
  refine htest.proceed ?_
  by_cases hn : n = 0
  · rw [if_pos hn] at hbranch ⊢
    exact hbranch
  · rw [if_neg hn] at hbranch ⊢
    exact hbranch

theorem Ends.neg {n : ℕ} (hs : Ends M i s k w (.ok (.next n)) k' w') :
    Ends M i (neg s) k w (.ok (.next (if n = 0 then 1 else 0))) k' w' :=
  hs.proceed rfl

/-- Of `s || t` the second is asked when the first fails. -/
theorem Ends.orElse {n : ℕ} (hs : Ends M i s k w (.ok (.next n)) k' w')
    (ht : Ends M i (if n = 0 then null else t) k' w' r k'' w'') :
    Ends M i (orElse s t) k w r k'' w'' := by
  refine hs.proceed ?_
  by_cases hn : n = 0
  · rw [if_pos hn] at ht ⊢
    exact ht
  · rw [if_neg hn] at ht ⊢
    exact ht

end

end Shell

end ZeroTrustLab.Lib
