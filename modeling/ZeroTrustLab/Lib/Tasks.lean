import Mathlib.Data.List.Perm.Basic
import ZeroTrustLab.Lib.Path

/-!
# A supervisor and its cancellable tasks

An event loop with one coroutine that supervises (`main`) and the tasks it
creates. A task is a program whose every await may be cut short by a
cancellation (`Coro`); the supervisor is a program whose operations create
tasks, wait for the first of them to end, cancel, and wait for all (`Op`).

The order is any order, within two limits. Code between two awaits of the
supervisor is not interrupted, so tasks and environment move only where it
awaits (`Sys.Idle`). And a task that has been cancelled is interrupted at its
next move: an answer that is already there is dropped.

What is proved once for all such programs:

* a run takes the supervisor and each task along a path of its own program
  (`Runs.main_reaches`, `Runs.task_reaches`);
* what the supervisor has been told of its tasks stays true (`Runs.held`);
* a cancelled task whose handlers are short is over after few moves of its own,
  whatever else happens (`Runs.winds_down`), and is never in the way of them
  (`Owes.can_move`);
* where a handler may raise and the exception is caught, a cancellation is passed
  on or lost (`Runs.leaving`), and a loop that has lost it keeps the supervisor
  waiting for ever (`Runs.kept_waiting`).
-/

namespace ZeroTrustLab.Lib.Tasks

section

variable {C : Type} {A : C → Type} {ε α β : Type}

/-! ## Coroutines -/

/-- How a task ends when it does not return. -/
inductive Failure (ε : Type) where
  | cancelled
  | raised (e : ε)
  deriving DecidableEq, Repr

/-- The answer to an await; `none` is the cancellation. -/
abbrev Awaited (A : C → Type) (c : C) : Type := Option (A c)

abbrev Coro (C : Type) (A : C → Type) (ε α : Type) := Prog C (Awaited A) (Failure ε) α

/-- A cancellation goes up, an answer goes on to the rest. -/
def unlessCancelled {X : Type} (rest : X → Coro C A ε α) : Option X → Coro C A ε α
  | some x => rest x
  | none => .throw .cancelled

/-- A program that handles no cancellation; `f`, `ans` and `g` say what its calls,
answers and exceptions are in the loop. -/
def coro {C₁ : Type} {A₁ : C₁ → Type} {ε₁ : Type} (f : C₁ → C) (ans : ∀ c, A (f c) → A₁ c)
    (g : ε₁ → ε) : Prog C₁ A₁ ε₁ α → Coro C A ε α
  | .pure a => .pure a
  | .throw e => .throw (.raised (g e))
  | .call c k => .call (f c) (unlessCancelled fun x => coro f ans g (k (ans c x)))

/-- Await `c`. -/
def await (c : C) : Coro C A ε (A c) := .call c (unlessCancelled .pure)

/-- `try: p finally: q`. What `q` raises takes the place of how `p` ended. -/
def ensuring (p : Coro C A ε α) (q : Coro C A ε Unit) : Coro C A ε α :=
  match p with
  | .pure a => q >>= fun _ => .pure a
  | .throw e => q >>= fun _ => .throw e
  | .call c k => .call c fun x => ensuring (k x) q

/-- `try: p except Exception`: the exception is the result, and a cancellation is
not one. -/
def catching : Coro C A ε α → Coro C A ε (Except ε α)
  | .pure a => .pure (.ok a)
  | .throw (.raised e) => .pure (.error e)
  | .throw .cancelled => .throw .cancelled
  | .call c k => .call c fun x => catching (k x)

/-! ## How long a program is -/

/-- At most `n` more calls, all of them in `P`. -/
def Within {A : C → Type} (P : C → Prop) : Prog C A ε α → ℕ → Prop
  | .pure _, _ => True
  | .throw _, _ => True
  | .call c k, n => P c ∧ ∃ m, n = m + 1 ∧ ∀ x, Within P (k x) m

/-- Interrupted at any await, it is over after at most `n` more, and does not
return. -/
def Yields (P : C → Prop) (n : ℕ) : Coro C A ε α → Prop
  | .pure _ => True
  | .throw _ => True
  | .call _ k => (Within P (k none) n ∧ (k none).NeverReturns) ∧ ∀ x, Yields P n (k (some x))

variable {P : C → Prop} {C₁ : Type} {A₁ : C₁ → Type} {ε₁ : Type} {f : C₁ → C}
  {ans : ∀ c, A (f c) → A₁ c} {g : ε₁ → ε}

theorem Within.mono {A : C → Type} {p : Prog C A ε α} {n m : ℕ} (hp : Within P p n) (hnm : n ≤ m) :
    Within P p m := by
  induction p generalizing n m with
  | pure a => trivial
  | throw e => trivial
  | call c k ih =>
    obtain ⟨hc, n', rfl, hk⟩ := hp
    exact ⟨hc, m - 1, by omega, fun x => ih x (hk x) (by omega)⟩

/-- What is over within a bound makes such calls only. -/
theorem Within.all {A : C → Type} {p : Prog C A ε α} {n : ℕ} (hp : Within P p n) : p.All P := by
  induction p generalizing n with
  | pure a => trivial
  | throw e => trivial
  | call c k ih =>
    obtain ⟨hc, m, -, hk⟩ := hp
    exact ⟨hc, fun x => ih x (hk x)⟩

theorem Within.bind {A : C → Type} {p : Prog C A ε α} {f : α → Prog C A ε β} {n m : ℕ}
    (hp : Within P p n) (hf : ∀ a, Within P (f a) m) : Within P (p >>= f) (n + m) := by
  induction p generalizing n with
  | pure a => exact (hf a).mono (by omega)
  | throw e => trivial
  | call c k ih =>
    obtain ⟨hc, n', rfl, hk⟩ := hp
    exact ⟨hc, n' + m, by omega, fun x => ih x (hk x)⟩

/-- What raises is not longer for what would follow. -/
theorem Within.bind_raises {A : C → Type} {p : Prog C A ε α} {f : α → Prog C A ε β} {n : ℕ}
    (hp : Within P p n) (hraises : p.NeverReturns) : Within P (p >>= f) n := by
  induction p generalizing n with
  | pure a => exact absurd hraises id
  | throw e => trivial
  | call c k ih =>
    obtain ⟨hc, n', rfl, hk⟩ := hp
    exact ⟨hc, n', rfl, fun x => ih x (hk x) (hraises x)⟩

/-- A sequence whose first part never returns never returns. -/
theorem neverReturns_bind {A : C → Type} {p : Prog C A ε α} {f : α → Prog C A ε β}
    (hp : p.NeverReturns) : (p >>= f).NeverReturns := by
  induction p with
  | pure a => exact absurd hp id
  | throw e => trivial
  | call c k ih => exact fun x => ih x (hp x)

theorem ensuring_neverReturns {p : Coro C A ε α} {q : Coro C A ε Unit} (hp : p.NeverReturns) :
    (ensuring p q).NeverReturns := by
  induction p with
  | pure a => exact absurd hp id
  | throw e => exact Prog.NeverReturns.bind q fun _ => trivial
  | call c k ih => exact fun x => ih x (hp x)

theorem Within.ensuring {p : Coro C A ε α} {q : Coro C A ε Unit} {n m : ℕ} (hp : Within P p n)
    (hq : Within P q m) : Within P (ensuring p q) (n + m) := by
  induction p generalizing n with
  | pure a =>
    have hrest := hq.bind (f := fun _ => (.pure a : Coro C A ε α)) (m := n) fun _ => trivial
    exact hrest.mono (by omega)
  | throw e =>
    have hrest := hq.bind (f := fun _ => (.throw e : Coro C A ε α)) (m := n) fun _ => trivial
    exact hrest.mono (by omega)
  | call c k ih =>
    obtain ⟨hc, n', rfl, hk⟩ := hp
    exact ⟨hc, n' + m, by omega, fun x => ih x (hk x)⟩

theorem Yields.mono {p : Coro C A ε α} {n m : ℕ} (hp : Yields P n p) (hnm : n ≤ m) :
    Yields P m p := by
  induction p with
  | pure a => trivial
  | throw e => trivial
  | call c k ih => exact ⟨⟨hp.1.1.mono hnm, hp.1.2⟩, fun x => ih (some x) (hp.2 x)⟩

/-- A program that handles no cancellation is over at once. -/
theorem yields_coro (p : Prog C₁ A₁ ε₁ α) : Yields P 0 (coro f ans g p) := by
  induction p with
  | pure a => trivial
  | throw e => trivial
  | call c k ih => exact ⟨⟨trivial, trivial⟩, fun x => ih (ans c x)⟩

theorem yields_await (c : C) : Yields P 0 (await c : Coro C A ε (A c)) :=
  ⟨⟨trivial, trivial⟩, fun _ => trivial⟩

theorem Yields.bind {p : Coro C A ε α} {f : α → Coro C A ε β} {n : ℕ} (hp : Yields P n p)
    (hf : ∀ a, Yields P n (f a)) : Yields P n (p >>= f) := by
  induction p with
  | pure a => exact hf a
  | throw e => trivial
  | call c k ih =>
    exact ⟨⟨hp.1.1.bind_raises hp.1.2, neverReturns_bind hp.1.2⟩, fun x => ih (some x) (hp.2 x)⟩

/-- The last handler runs after the others. -/
theorem Yields.ensuring {p : Coro C A ε α} {q : Coro C A ε Unit} {n m : ℕ} (hp : Yields P n p)
    (hq : Within P q m) (hyields : Yields P (n + m) q) : Yields P (n + m) (ensuring p q) := by
  induction p with
  | pure a => exact hyields.bind fun _ => trivial
  | throw e => exact hyields.bind fun _ => trivial
  | call c k ih =>
    exact ⟨⟨hp.1.1.ensuring hq, ensuring_neverReturns hp.1.2⟩, fun x => ih (some x) (hp.2 x)⟩

/-! ## What a coroutine has done -/

/-- All calls of a history were answered, or cancelled. -/
def Answered {A : C → Type} (h : List (Act C A ε)) : Prop := ∀ a ∈ h, ∃ x, a.ans = .ok x

variable {h : List (Act C (Awaited A) (Failure ε))}

/-- A program without handlers has done what it does alone, and may have been
cancelled; `π` picks its own calls. -/
theorem coro_reaches (π : Act C (Awaited A) (Failure ε) → Option (Act C₁ A₁ ε₁))
    (hπ : ∀ c x, π ⟨f c, .ok (some x)⟩ = some ⟨c, .ok (ans c x)⟩)
    (hcut : ∀ c, π ⟨c, .ok none⟩ = none) {p : Prog C₁ A₁ ε₁ α} {r : Coro C A ε α}
    (hr : (coro f ans g p).Reaches h r) (hok : Answered h) :
    ∃ q, p.Reaches (h.filterMap π) q ∧ (r = coro f ans g q ∨ r = .throw .cancelled) := by
  induction p generalizing h with
  | pure a =>
    cases hr with
    | refl => exact ⟨.pure a, .refl _, .inl rfl⟩
  | throw e =>
    cases hr with
    | refl => exact ⟨.throw e, .refl _, .inl rfl⟩
  | call c k ih =>
    cases hr with
    | refl => exact ⟨.call c k, .refl _, .inl rfl⟩
    | raised =>
      obtain ⟨x, hx⟩ := hok _ (List.mem_singleton_self _)
      exact absurd hx (by simp)
    | @answered _ _ x h' _ hrest =>
      have hok' : Answered h' := fun a ha => hok a (List.mem_cons_of_mem _ ha)
      cases x with
      | none =>
        -- nothing follows the cancellation
        cases hrest with
        | refl =>
          refine ⟨.call c k, ?_, .inr rfl⟩
          rw [List.filterMap_cons_none (hcut _)]
          exact .refl _
      | some x =>
        obtain ⟨q, hq, hor⟩ := ih _ hrest hok'
        refine ⟨q, ?_, hor⟩
        rw [List.filterMap_cons_some (hπ c x)]
        exact .answered hq

/-- What is to be ensured has not begun, or the rest has ended. -/
theorem ensuring_reaches {p : Coro C A ε α} {q : Coro C A ε Unit} {r : Coro C A ε α}
    (hr : (ensuring p q).Reaches h r) (hok : Answered h) :
    (∃ p', p.Reaches h p' ∧ r = ensuring p' q) ∨
    ∃ h₁ h₂ p' x, h = h₁ ++ h₂ ∧ p.Reaches h₁ p' ∧ p'.result? = some x ∧
      (ensuring p' q).Reaches h₂ r := by
  induction p generalizing h with
  | pure a => exact .inr ⟨[], h, .pure a, .ok a, rfl, .refl _, rfl, hr⟩
  | throw e => exact .inr ⟨[], h, .throw e, .error e, rfl, .refl _, rfl, hr⟩
  | call c k ih =>
    cases hr with
    | refl => exact .inl ⟨.call c k, .refl _, rfl⟩
    | raised =>
      obtain ⟨x, hx⟩ := hok _ (List.mem_singleton_self _)
      exact absurd hx (by simp)
    | @answered _ _ x h' _ hrest =>
      rcases ih x hrest (fun a ha => hok a (List.mem_cons_of_mem _ ha)) with
        ⟨p', hp', rfl⟩ | ⟨h₁, h₂, p', y, rfl, hp', hy, hrest⟩
      · exact .inl ⟨p', .answered hp', rfl⟩
      · exact .inr ⟨_, h₂, p', y, rfl, .answered hp', hy, hrest⟩

/-- What has returned through a handler had returned before. -/
theorem ensuring_returns {p : Coro C A ε α} {q : Coro C A ε Unit} {a : α}
    (hr : (ensuring p q).Reaches h (.pure a)) :
    ∃ h₁ h₂, h = h₁ ++ h₂ ∧ p.Reaches h₁ (.pure a) := by
  induction p generalizing h with
  | pure b =>
    obtain ⟨h₁, h₂, u, rfl, -, hrest⟩ := Prog.Reaches.bind_returns hr
    cases hrest with
    | refl => exact ⟨[], _, rfl, .refl _⟩
  | throw e =>
    obtain ⟨h₁, h₂, u, rfl, -, hrest⟩ := Prog.Reaches.bind_returns hr
    cases hrest
  | call c k ih =>
    cases hr with
    | @answered _ _ x h' _ hrest =>
      obtain ⟨h₁, h₂, rfl, hp⟩ := ih x hrest
      exact ⟨_, h₂, rfl, .answered hp⟩

/-- An await that has returned was answered with what it returned. -/
theorem await_returns {c : C} {x : A c} (hr : (await c : Coro C A ε (A c)).Reaches h (.pure x)) :
    ⟨c, .ok (some x)⟩ ∈ h := by
  cases hr with
  | @answered _ _ y h' _ hrest =>
    cases y with
    | none => cases hrest
    | some y =>
      cases hrest with
      | refl => exact List.mem_singleton_self _

/-- A sequence whose first call has not been answered, was cancelled, or has. -/
theorem await_reaches {c : C} {k : A c → Coro C A ε α} {r : Coro C A ε α}
    (hr : (await c >>= k).Reaches h r) (hok : Answered h) :
    (h = [] ∧ r = (await c >>= k)) ∨ (h = [⟨c, .ok none⟩] ∧ r = .throw .cancelled) ∨
    ∃ x h', h = ⟨c, .ok (some x)⟩ :: h' ∧ (k x).Reaches h' r := by
  cases hr with
  | refl => exact .inl ⟨rfl, rfl⟩
  | raised =>
    obtain ⟨x, hx⟩ := hok _ (List.mem_singleton_self _)
    exact absurd hx (by simp)
  | @answered _ _ x h' _ hrest =>
    cases x with
    | none =>
      cases hrest with
      | refl => exact .inr (.inl ⟨rfl, rfl⟩)
    | some x => exact .inr (.inr ⟨x, h', rfl, hrest⟩)

/-- No call was cancelled. -/
def Uncut (h : List (Act C (Awaited A) (Failure ε))) : Prop := ∀ a ∈ h, ∃ x, a.ans = .ok (some x)

/-- What yields goes on yielding, as long as it is not cancelled. -/
theorem Yields.of_reaches {p q : Coro C A ε α} {n : ℕ} (hp : Yields P n p) (hr : p.Reaches h q)
    (hcut : Uncut h) : Yields P n q := by
  induction hr with
  | refl => exact hp
  | @answered c k x h q _ ih =>
    obtain ⟨y, hy⟩ := hcut _ (List.mem_cons_self ..)
    cases x with
    | none => exact absurd hy (by simp)
    | some x => exact ih (hp.2 x) fun a ha => hcut a (List.mem_cons_of_mem _ ha)
  | raised => trivial

/-- Not cancelled, it does not end as if it were. -/
def Uncancelled : Coro C A ε α → Prop
  | .pure _ => True
  | .throw e => e ≠ .cancelled
  | .call _ k => ∀ x, Uncancelled (k (some x))

/-- A program without awaits of its own never ends as cancelled by itself. -/
theorem uncancelled_coro (p : Prog C₁ A₁ ε₁ α) : Uncancelled (coro f ans g p) := by
  induction p with
  | pure a => trivial
  | throw e => exact fun he => by cases he
  | call c k ih => exact fun x => ih (ans c x)

theorem uncancelled_await (c : C) : Uncancelled (await c : Coro C A ε (A c)) := fun _ => trivial

theorem Uncancelled.bind {p : Coro C A ε α} {f : α → Coro C A ε β} (hp : Uncancelled p)
    (hf : ∀ a, Uncancelled (f a)) : Uncancelled (p >>= f) := by
  induction p with
  | pure a => exact hf a
  | throw e => exact hp
  | call c k ih => exact fun x => ih (some x) (hp x)

theorem Uncancelled.ensuring {p : Coro C A ε α} {q : Coro C A ε Unit} (hp : Uncancelled p)
    (hq : Uncancelled q) : Uncancelled (ensuring p q) := by
  induction p with
  | pure a => exact hq.bind fun _ => trivial
  | throw e => exact hq.bind fun _ => hp
  | call c k ih => exact fun x => ih (some x) (hp x)

theorem Uncancelled.catching {p : Coro C A ε α} (hp : Uncancelled p) :
    Uncancelled (catching p) := by
  induction p with
  | pure a => trivial
  | throw e =>
    cases e with
    | cancelled => exact absurd rfl hp
    | raised e => trivial
  | call c k ih => exact fun x => ih (some x) (hp x)

/-- What never returns is not cancelled by what would follow it. -/
theorem Uncancelled.bind_raises {p : Coro C A ε α} {f : α → Coro C A ε β} (hp : Uncancelled p)
    (hraises : p.NeverReturns) : Uncancelled (p >>= f) := by
  induction p with
  | pure a => exact absurd hraises id
  | throw e => exact hp
  | call c k ih => exact fun x => ih (some x) (hp x) (hraises (some x))

/-- A coroutine of that kind that was not cancelled has not ended as
cancelled. -/
theorem Uncancelled.ne {p : Coro C A ε α} (hp : Uncancelled p) (hcut : Uncut h) :
    ¬ p.Reaches h (.throw .cancelled) := by
  intro hr
  generalize hq : (Prog.throw Failure.cancelled : Coro C A ε α) = q at hr
  induction hr with
  | refl =>
    subst hq
    exact hp rfl
  | @answered c k x h q _ ih =>
    obtain ⟨y, hy⟩ := hcut _ (List.mem_cons_self ..)
    cases x with
    | none => exact absurd hy (by simp)
    | some x => exact ih (hp x) (fun a ha => hcut a (List.mem_cons_of_mem _ ha)) hq
  | @raised c k e =>
    obtain ⟨y, hy⟩ := hcut _ (List.mem_singleton_self _)
    exact absurd hy (by simp)

/-- It ends by a cancellation or not at all. -/
def Endless : Coro C A ε α → Prop
  | .pure _ => False
  | .throw e => e = .cancelled
  | .call _ k => ∀ x, Endless (k x)

/-- It raises nothing: it returns, or it is cancelled. -/
def Uncrashed : Coro C A ε α → Prop
  | .pure _ => True
  | .throw e => e = .cancelled
  | .call _ k => ∀ x, Uncrashed (k x)

theorem Uncrashed.bind {p : Coro C A ε α} {f : α → Coro C A ε β} (hp : Uncrashed p)
    (hf : ∀ a, Uncrashed (f a)) : Uncrashed (p >>= f) := by
  induction p with
  | pure a => exact hf a
  | throw e => exact hp
  | call c k ih => exact fun x => ih x (hp x)

/-- What is left of an endless coroutine is endless. -/
theorem Endless.of_reaches {p q : Coro C A ε α} (hp : Endless p) (hr : p.Reaches h q)
    (hok : Answered h) : Endless q := by
  induction hr with
  | refl => exact hp
  | answered _ ih => exact ih (hp _) fun a ha => hok a (List.mem_cons_of_mem _ ha)
  | raised =>
    obtain ⟨x, hx⟩ := hok _ (List.mem_singleton_self _)
    exact absurd hx (by simp)

/-! ## A cancellation that may get lost

A handler that runs while a cancellation goes up may raise, and what catches the
exception then goes on as if there had been no cancellation. `Y` says which
answers of the handlers let it through. -/

variable {Y : ∀ c, A c → Prop}

/-- A cancellation on its way up: it is passed on after at most `n` more calls
with answers in `Y`; at any other answer it is lost. -/
def PassesOn (Y : ∀ c, A c → Prop) : Coro C A ε α → ℕ → Prop
  | .pure _, _ => False
  | .throw e, _ => e = .cancelled
  | .call c k, n => (∃ x, Y c x) ∧ ∃ m, n = m + 1 ∧
      ∀ x, (Y c x → PassesOn Y (k (some x)) m) ∧ (¬ Y c x → Uncancelled (k (some x)))

/-- A handler that returns after at most `n` calls with answers in `Y`, and raises
at any other answer. -/
def Closes (Y : ∀ c, A c → Prop) : Coro C A ε Unit → ℕ → Prop
  | .pure _, _ => True
  | .throw _, _ => False
  | .call c k, n => (∃ x, Y c x) ∧ ∃ m, n = m + 1 ∧
      ∀ x, (Y c x → Closes Y (k (some x)) m) ∧
        (¬ Y c x → Uncancelled (k (some x)) ∧ (k (some x)).NeverReturns)

/-- Interrupted at any await, it passes the cancellation on as `PassesOn` says. -/
def Interruptible (Y : ∀ c, A c → Prop) (n : ℕ) : Coro C A ε α → Prop
  | .pure _ => True
  | .throw _ => True
  | .call _ k => PassesOn Y (k none) n ∧ ∀ x, Interruptible Y n (k (some x))

/-- What passes a cancellation on within a bound does so within a larger one. -/
theorem PassesOn.mono {p : Coro C A ε α} {n m : ℕ} (hp : PassesOn Y p n) (hnm : n ≤ m) :
    PassesOn Y p m := by
  induction p generalizing n m with
  | pure a => exact hp
  | throw e => exact hp
  | call c k ih =>
    obtain ⟨hsome, n', rfl, hk⟩ := hp
    refine ⟨hsome, m - 1, by omega, fun x => ⟨fun hx => ?_, (hk x).2⟩⟩
    exact ih (some x) ((hk x).1 hx) (by omega)

theorem PassesOn.bind {p : Coro C A ε α} {f : α → Coro C A ε β} {n : ℕ} (hp : PassesOn Y p n)
    (hf : ∀ a, Uncancelled (f a)) : PassesOn Y (p >>= f) n := by
  induction p generalizing n with
  | pure a => exact absurd hp id
  | throw e => exact hp
  | call c k ih =>
    obtain ⟨hsome, n', rfl, hk⟩ := hp
    refine ⟨hsome, n', rfl, fun x => ⟨fun hx => ih (some x) ((hk x).1 hx), fun hx => ?_⟩⟩
    exact ((hk x).2 hx).bind hf

theorem PassesOn.catching {p : Coro C A ε α} {n : ℕ} (hp : PassesOn Y p n) :
    PassesOn Y (catching p) n := by
  induction p generalizing n with
  | pure a => exact absurd hp id
  | throw e =>
    obtain rfl : e = .cancelled := hp
    exact (rfl : Failure.cancelled = .cancelled)
  | call c k ih =>
    obtain ⟨hsome, n', rfl, hk⟩ := hp
    refine ⟨hsome, n', rfl, fun x => ⟨fun hx => ih (some x) ((hk x).1 hx), fun hx => ?_⟩⟩
    exact ((hk x).2 hx).catching

/-- A handler passes on the cancellation that it was entered with. -/
theorem Closes.passesOn {q : Coro C A ε Unit} {n : ℕ} (hq : Closes Y q n) :
    PassesOn Y (q >>= fun _ => (.throw .cancelled : Coro C A ε α)) n := by
  induction q generalizing n with
  | pure u => exact rfl
  | throw e => exact absurd hq id
  | call c k ih =>
    obtain ⟨hsome, n', rfl, hk⟩ := hq
    refine ⟨hsome, n', rfl, fun x => ⟨fun hx => ih (some x) ((hk x).1 hx), fun hx => ?_⟩⟩
    obtain ⟨huncancelled, hraises⟩ := (hk x).2 hx
    exact huncancelled.bind_raises hraises

theorem PassesOn.ensuring {p : Coro C A ε α} {q : Coro C A ε Unit} {n m : ℕ}
    (hp : PassesOn Y p n) (hq : Closes Y q m) (hu : Uncancelled q) :
    PassesOn Y (ensuring p q) (n + m) := by
  induction p generalizing n with
  | pure a => exact absurd hp id
  | throw e =>
    obtain rfl : e = .cancelled := hp
    exact hq.passesOn.mono (Nat.le_add_left _ _)
  | call c k ih =>
    obtain ⟨hsome, n', rfl, hk⟩ := hp
    refine ⟨hsome, n' + m, by omega, fun x => ⟨fun hx => ih (some x) ((hk x).1 hx), fun hx => ?_⟩⟩
    exact ((hk x).2 hx).ensuring hu

theorem Interruptible.bind {p : Coro C A ε α} {f : α → Coro C A ε β} {n : ℕ}
    (hp : Interruptible Y n p) (hu : ∀ a, Uncancelled (f a)) (hf : ∀ a, Interruptible Y n (f a)) :
    Interruptible Y n (p >>= f) := by
  induction p with
  | pure a => exact hf a
  | throw e => trivial
  | call c k ih => exact ⟨hp.1.bind hu, fun x => ih (some x) (hp.2 x)⟩

theorem Interruptible.catching {p : Coro C A ε α} {n : ℕ} (hp : Interruptible Y n p) :
    Interruptible Y n (catching p) := by
  induction p with
  | pure a => trivial
  | throw e => cases e <;> trivial
  | call c k ih => exact ⟨hp.1.catching, fun x => ih (some x) (hp.2 x)⟩

/-- The handler runs after those that are within. -/
theorem Interruptible.ensuring {p : Coro C A ε α} {q : Coro C A ε Unit} {n m : ℕ}
    (hp : Interruptible Y n p) (hpu : Uncancelled p) (hq : Closes Y q m) (hqu : Uncancelled q)
    (hqi : Interruptible Y (n + m) q) : Interruptible Y (n + m) (ensuring p q) := by
  induction p with
  | pure a => exact hqi.bind (fun _ => trivial) fun _ => trivial
  | throw e => exact hqi.bind (fun _ => hpu) fun _ => trivial
  | call c k ih => exact ⟨hp.1.ensuring hq hqu, fun x => ih (some x) (hp.2 x) (hpu x)⟩

/-- What can be interrupted can be interrupted at every await. -/
theorem Interruptible.of_reaches {p q : Coro C A ε α} {n : ℕ} (hp : Interruptible Y n p)
    (hr : p.Reaches h q) (hcut : Uncut h) : Interruptible Y n q := by
  induction hr with
  | refl => exact hp
  | @answered c k x h q _ ih =>
    obtain ⟨y, hy⟩ := hcut _ (List.mem_cons_self ..)
    cases x with
    | none => exact absurd hy (by simp)
    | some x => exact ih (hp.2 x) fun a ha => hcut a (List.mem_cons_of_mem _ ha)
  | raised => trivial

/-! ## Every position of a program -/

/-- From the history `h` on, every position of the program satisfies `P` with the
history that leads to it. -/
def Always {A : C → Type} (P : List (Act C A ε) → Prog C A ε α → Prop) :
    List (Act C A ε) → Prog C A ε α → Prop
  | h, .pure a => P h (.pure a)
  | h, .throw e => P h (.throw e)
  | h, .call c k => P h (.call c k) ∧ ∀ x, Always P (h ++ [⟨c, .ok x⟩]) (k x)

theorem Always.here {A : C → Type} {P : List (Act C A ε) → Prog C A ε α → Prop}
    {p : Prog C A ε α} {h : List (Act C A ε)} (hp : Always P h p) : P h p := by
  cases p with
  | pure a => exact hp
  | throw e => exact hp
  | call c k => exact hp.1

/-- What holds always holds wherever the program comes. -/
theorem Always.of_reaches {A : C → Type} {P : List (Act C A ε) → Prog C A ε α → Prop}
    {p q : Prog C A ε α} {h h' : List (Act C A ε)} (hp : Always P h p) (hr : p.Reaches h' q)
    (hok : Answered h') : P (h ++ h') q := by
  induction hr generalizing h with
  | refl =>
    rw [List.append_nil]
    exact hp.here
  | @answered c k x h' q _ ih =>
    have hq := ih (hp.2 x) fun a ha => hok a (List.mem_cons_of_mem _ ha)
    rwa [List.append_assoc] at hq
  | raised =>
    obtain ⟨x, hx⟩ := hok _ (List.mem_singleton_self _)
    exact absurd hx (by simp)

/-- Each answered call is one less to come. -/
theorem Within.of_reaches {A : C → Type} {p q : Prog C A ε α} {n : ℕ} {h : List (Act C A ε)}
    (hp : Within P p n) (hr : p.Reaches h q) (hok : Answered h) :
    ∃ m, n = m + h.length ∧ Within P q m := by
  induction hr generalizing n with
  | refl => exact ⟨n, rfl, hp⟩
  | @answered c k x h q _ ih =>
    obtain ⟨-, m, rfl, hk⟩ := hp
    obtain ⟨m', rfl, hq⟩ := ih (hk x) fun a ha => hok a (List.mem_cons_of_mem _ ha)
    exact ⟨m', by simp [Nat.add_assoc], hq⟩
  | raised =>
    obtain ⟨x, hx⟩ := hok _ (List.mem_singleton_self _)
    exact absurd hx (by simp)

end

/-! ## The event loop -/

/-- What a supervisor does, of its tasks `ι` or (`D`) of its surroundings. -/
inductive Op (ι D : Type) where
  /-- `asyncio.create_task`. -/
  | create (i : ι)
  /-- `asyncio.wait(..., return_when=FIRST_COMPLETED)`: the done and the pending. -/
  | wait (is : List ι)
  /-- `task.cancel()`, of each. -/
  | cancel (is : List ι)
  /-- `asyncio.gather(..., return_exceptions=True)`. -/
  | gather (is : List ι)
  /-- How a task has ended. -/
  | result (i : ι)
  | other (d : D)

@[reducible] def OpAns {ι D : Type} (ε α : Type) (B : D → Type) : Op ι D → Type
  | .create _ => Unit
  | .wait _ => List ι × List ι
  | .cancel _ => Unit
  | .gather _ => Unit
  | .result _ => Except (Failure ε) α
  | .other d => B d

structure Task (C : Type) (A : C → Type) (ε α : Type) where
  code : Coro C A ε α
  /-- It has been cancelled and not yet been interrupted. -/
  cancelling : Bool := false

/-- What the loop runs, and what surrounds it. -/
structure Loop (C : Type) (A : C → Type) (ε α ι D : Type) (B : D → Type) (W : Type) where
  body : ι → Coro C A ε α
  /-- How an await of a task may be answered. -/
  answers : W → (c : C) → A c → W → Prop
  /-- How a call of the supervisor to its surroundings may be answered. -/
  serves : W → (d : D) → B d → W → Prop
  /-- The supervisor awaits the answer. -/
  pauses : D → Prop
  env : W → W → Prop

structure Sys (C : Type) (A : C → Type) (ε α ι D : Type) (B : D → Type) (εm β W : Type) where
  main : Prog (Op ι D) (OpAns ε α B) εm β
  task : ι → Option (Task C A ε α)
  world : W

/-- One move of a run. -/
inductive Label (C : Type) (A : C → Type) (ε α ι D : Type) (B : D → Type) where
  | main (o : Op ι D) (x : OpAns ε α B o)
  | task (i : ι) (c : C) (x : Awaited A c)
  | env

section

variable {C : Type} {A : C → Type} {ε α ι D : Type} {B : D → Type} {εm β W : Type}

/-- A cancellation is not noticed by what has ended. -/
def Task.cancel (t : Task C A ε α) : Task C A ε α :=
  match t.code with
  | .call _ _ => { t with cancelling := true }
  | _ => t

namespace Sys

variable (s : Sys C A ε α ι D B εm β W)

/-- Task `i` has ended in `r`. -/
def Result (i : ι) (r : Except (Failure ε) α) : Prop :=
  ∃ t, s.task i = some t ∧ t.code.result? = some r

def Ended (i : ι) : Prop := ∃ r, s.Result i r

end Sys

def Op.Pauses (L : Loop C A ε α ι D B W) : Op ι D → Prop
  | .wait _ => True
  | .gather _ => True
  | .other d => L.pauses d
  | _ => False

/-- The supervisor has not the floor. -/
def Sys.Idle (L : Loop C A ε α ι D B W) (s : Sys C A ε α ι D B εm β W) : Prop :=
  ∃ o k, s.main = .call o k ∧ o.Pauses L

variable [DecidableEq ι]

/-- What an operation does to the tasks and to the world. -/
def Op.Does (L : Loop C A ε α ι D B W) (s : Sys C A ε α ι D B εm β W) :
    (o : Op ι D) → OpAns ε α B o → (ι → Option (Task C A ε α)) → W → Prop
  | .create i, _, task, w =>
    s.task i = none ∧ task = Function.update s.task i (some ⟨L.body i, false⟩) ∧ w = s.world
  | .wait is, (done, pending), task, w =>
    done ≠ [] ∧ (done ++ pending).Perm is ∧ (∀ i ∈ done, s.Ended i) ∧
      (∀ i ∈ pending, ¬ s.Ended i) ∧ task = s.task ∧ w = s.world
  | .cancel is, _, task, w =>
    (task = fun i => if i ∈ is then (s.task i).map Task.cancel else s.task i) ∧ w = s.world
  | .gather is, _, task, w => (∀ i ∈ is, s.Ended i) ∧ task = s.task ∧ w = s.world
  | .result i, r, task, w => s.Result i r ∧ task = s.task ∧ w = s.world
  | .other d, x, task, w => L.serves s.world d x w ∧ task = s.task

inductive Step (L : Loop C A ε α ι D B W) (s : Sys C A ε α ι D B εm β W) :
    Label C A ε α ι D B → Sys C A ε α ι D B εm β W → Prop where
  | main {o : Op ι D} {k : OpAns ε α B o → Prog (Op ι D) (OpAns ε α B) εm β} {x : OpAns ε α B o}
      {task : ι → Option (Task C A ε α)} {w : W} (hmain : s.main = .call o k)
      (hdoes : o.Does L s x task w) : Step L s (.main o x) ⟨k x, task, w⟩
  | resumed {i : ι} {c : C} {k : Awaited A c → Coro C A ε α} {x : A c} {w : W} (hidle : s.Idle L)
      (htask : s.task i = some ⟨.call c k, false⟩) (hans : L.answers s.world c x w) :
      Step L s (.task i c (some x))
        ⟨s.main, Function.update s.task i (some ⟨k (some x), false⟩), w⟩
  | interrupted {i : ι} {c : C} {k : Awaited A c → Coro C A ε α} (hidle : s.Idle L)
      (htask : s.task i = some ⟨.call c k, true⟩) :
      Step L s (.task i c none) { s with task := Function.update s.task i (some ⟨k none, false⟩) }
  | env {w : W} (hidle : s.Idle L) (henv : L.env s.world w) : Step L s .env { s with world := w }

/-- The runs from a state. -/
inductive Runs (L : Loop C A ε α ι D B W) (s : Sys C A ε α ι D B εm β W) :
    List (Label C A ε α ι D B) → Sys C A ε α ι D B εm β W → Prop where
  | refl : Runs L s [] s
  | snoc {ls : List (Label C A ε α ι D B)} {l : Label C A ε α ι D B}
      {s' s'' : Sys C A ε α ι D B εm β W} (hrun : Runs L s ls s') (hstep : Step L s' l s'') :
      Runs L s (ls ++ [l]) s''

/-- Before anything is created. -/
def Sys.init (p : Prog (Op ι D) (OpAns ε α B) εm β) (w : W) : Sys C A ε α ι D B εm β W :=
  ⟨p, fun _ => none, w⟩

/-! ## Histories -/

def Label.op? : Label C A ε α ι D B → Option (Act (Op ι D) (OpAns ε α B) εm)
  | .main o x => some ⟨o, .ok x⟩
  | _ => none

def Label.act? (i : ι) : Label C A ε α ι D B → Option (Act C (Awaited A) (Failure ε))
  | .task j c x => if j = i then some ⟨c, .ok x⟩ else none
  | _ => none

/-- What the supervisor has done, as a history of its calls. -/
def mainHistory (εm : Type) (ls : List (Label C A ε α ι D B)) :
    List (Act (Op ι D) (OpAns ε α B) εm) :=
  ls.filterMap Label.op?

/-- What a task has done, as a history of its awaits. -/
def taskHistory (i : ι) (ls : List (Label C A ε α ι D B)) :
    List (Act C (Awaited A) (Failure ε)) :=
  ls.filterMap (Label.act? i)

/-- An answer of the supervisor that was true when it came, and still is. -/
def Sys.Held (s : Sys C A ε α ι D B εm β W) : (o : Op ι D) → OpAns ε α B o → Prop
  | .create i, _ => ∃ t, s.task i = some t
  | .wait is, (done, pending) => done ≠ [] ∧ (done ++ pending).Perm is ∧ ∀ i ∈ done, s.Ended i
  | .gather is, _ => ∀ i ∈ is, s.Ended i
  | .result i, r => s.Result i r
  | _, _ => True

/-! ## Steps -/

/-- What a move does to one task. -/
inductive TaskMove (L : Loop C A ε α ι D B W) (i : ι) (l : Label C A ε α ι D B)
    (old new : Option (Task C A ε α)) : Prop where
  | kept (hl : l.act? i = none) (hnew : new = old)
  | created (hl : l = .main (.create i) ()) (hold : old = none)
      (hnew : new = some ⟨L.body i, false⟩)
  | cancelled (is : List ι) (hl : l = .main (.cancel is) ()) (hi : i ∈ is)
      (hnew : new = old.map Task.cancel)
  | resumed {c : C} (k : Awaited A c → Coro C A ε α) (x : A c) (hl : l = .task i c (some x))
      (hold : old = some ⟨.call c k, false⟩) (hnew : new = some ⟨k (some x), false⟩)
  | interrupted {c : C} (k : Awaited A c → Coro C A ε α) (hl : l = .task i c none)
      (hold : old = some ⟨.call c k, true⟩) (hnew : new = some ⟨k none, false⟩)

variable {L : Loop C A ε α ι D B W} {s s' : Sys C A ε α ι D B εm β W}
  {l : Label C A ε α ι D B} {ls : List (Label C A ε α ι D B)} {i : ι}

theorem Step.taskMove (hs : Step L s l s') (i : ι) : TaskMove L i l (s.task i) (s'.task i) := by
  cases hs with
  | @main o k x task w hmain hdoes =>
    show TaskMove L i _ (s.task i) (task i)
    -- of `main`'s operations `create` and `cancel` alone touch a task
    cases o with
    | create j =>
      obtain ⟨hnone, rfl, rfl⟩ := hdoes
      by_cases hij : i = j
      · subst hij
        exact .created rfl hnone (Function.update_self ..)
      · exact .kept rfl (Function.update_of_ne hij ..)
    | wait is =>
      obtain ⟨-, -, -, -, rfl, -⟩ := hdoes
      exact .kept rfl rfl
    | cancel is =>
      obtain ⟨rfl, -⟩ := hdoes
      by_cases hi : i ∈ is
      · exact .cancelled is rfl hi (if_pos hi)
      · exact .kept rfl (if_neg hi)
    | gather is =>
      obtain ⟨-, rfl, -⟩ := hdoes
      exact .kept rfl rfl
    | result j =>
      obtain ⟨-, rfl, -⟩ := hdoes
      exact .kept rfl rfl
    | other d =>
      obtain ⟨-, rfl⟩ := hdoes
      exact .kept rfl rfl
  | @resumed j c k x w hidle htask hans =>
    show TaskMove L i _ (s.task i) (Function.update s.task j _ i)
    by_cases hij : i = j
    · subst hij
      exact .resumed k x rfl htask (Function.update_self ..)
    · exact .kept (if_neg (Ne.symm hij)) (Function.update_of_ne hij ..)
  | @interrupted j c k hidle htask =>
    show TaskMove L i _ (s.task i) (Function.update s.task j _ i)
    by_cases hij : i = j
    · subst hij
      exact .interrupted k rfl htask (Function.update_self ..)
    · exact .kept (if_neg (Ne.symm hij)) (Function.update_of_ne hij ..)
  | env hidle henv => exact .kept rfl rfl

/-- A cancellation does not change where a task stands. -/
theorem Task.cancel_code (t : Task C A ε α) : t.cancel.code = t.code := by
  unfold Task.cancel
  split
  next => rfl
  next => rfl

/-- What has ended stays so. -/
theorem Step.result (hs : Step L s l s') {r : Except (Failure ε) α} (hr : s.Result i r) :
    s'.Result i r := by
  obtain ⟨t, ht, hres⟩ := hr
  cases hs.taskMove i with
  | kept hl hnew => exact ⟨t, hnew.trans ht, hres⟩
  | created hl hold hnew =>
    rw [ht] at hold
    exact absurd hold (by simp)
  | cancelled is hl hi hnew =>
    refine ⟨t.cancel, ?_, ?_⟩
    · rw [hnew, ht]
      rfl
    · rw [Task.cancel_code]
      exact hres
  | resumed k x hl hold hnew =>
    rw [ht] at hold
    rw [Option.some.inj hold] at hres
    exact absurd hres (by simp [Prog.result?])
  | interrupted k hl hold hnew =>
    rw [ht] at hold
    rw [Option.some.inj hold] at hres
    exact absurd hres (by simp [Prog.result?])

theorem Step.created (hs : Step L s l s') (hi : ∃ t, s.task i = some t) :
    ∃ t, s'.task i = some t := by
  obtain ⟨t, ht⟩ := hi
  cases hs.taskMove i with
  | kept hl hnew => exact ⟨t, hnew.trans ht⟩
  | created hl hold hnew => exact ⟨_, hnew⟩
  | cancelled is hl hi hnew => exact ⟨t.cancel, by rw [hnew, ht]; rfl⟩
  | resumed k x hl hold hnew => exact ⟨_, hnew⟩
  | interrupted k hl hold hnew => exact ⟨_, hnew⟩

theorem Step.held (hs : Step L s l s') {o : Op ι D} {x : OpAns ε α B o} (hx : s.Held o x) :
    s'.Held o x := by
  have hended : ∀ i, s.Ended i → s'.Ended i := fun i ⟨r, hr⟩ => ⟨r, hs.result hr⟩
  cases o with
  | create i => exact hs.created hx
  | wait is => exact ⟨hx.1, hx.2.1, fun i hi => hended i (hx.2.2 i hi)⟩
  | gather is => exact fun i hi => hended i (hx i hi)
  | result i => exact hs.result hx
  | cancel is => trivial
  | other d => trivial

/-- What the supervisor is told is so. -/
theorem Step.held_main {o : Op ι D} {x : OpAns ε α B o} (hs : Step L s (.main o x) s') :
    s'.Held o x := by
  cases hs with
  | @main _ k _ task w hmain hdoes =>
    cases o with
    | create i =>
      obtain ⟨-, rfl, -⟩ := hdoes
      exact ⟨_, Function.update_self ..⟩
    | wait is =>
      obtain ⟨hne, hperm, hdone, -, rfl, -⟩ := hdoes
      exact ⟨hne, hperm, hdone⟩
    | gather is =>
      obtain ⟨hall, rfl, -⟩ := hdoes
      exact hall
    | result i =>
      obtain ⟨hr, rfl, -⟩ := hdoes
      exact hr
    | cancel is => trivial
    | other d => trivial

/-! ## Runs -/

variable {p : Prog (Op ι D) (OpAns ε α B) εm β} {w : W}

omit [DecidableEq ι] in
/-- The supervisor's history of a longer run has its last operation at the
end. -/
theorem mainHistory_concat :
    mainHistory εm (ls ++ [l]) = mainHistory εm ls ++ (Label.op? l).toList := by
  unfold mainHistory
  rw [List.filterMap_append]
  cases l <;> rfl

/-- A task's history of a longer run has its last await at the end. -/
theorem taskHistory_concat (i : ι) :
    taskHistory i (ls ++ [l]) = taskHistory i ls ++ (l.act? i).toList := by
  unfold taskHistory
  rw [List.filterMap_append]
  rcases hact : l.act? i with _ | a
  · rw [List.filterMap_cons_none hact]
    rfl
  · rw [List.filterMap_cons_some hact]
    rfl

omit [DecidableEq ι] in
/-- An operation is in the supervisor's history just when it is a label of the
run. -/
theorem mem_mainHistory {o : Op ι D} {x : OpAns ε α B o} :
    (⟨o, .ok x⟩ : Act (Op ι D) (OpAns ε α B) εm) ∈ mainHistory εm ls ↔ Label.main o x ∈ ls := by
  unfold mainHistory
  rw [List.mem_filterMap]
  constructor
  · intro ⟨l, hl, hop⟩
    cases l with
    | main o' x' =>
      cases hop
      exact hl
    | task i c y => exact absurd hop (by simp [Label.op?])
    | env => exact absurd hop (by simp [Label.op?])
  · intro hl
    exact ⟨_, hl, rfl⟩

omit [DecidableEq ι] in
theorem answered_mainHistory (ls : List (Label C A ε α ι D B)) :
    Answered (mainHistory εm ls) := by
  intro a ha
  obtain ⟨l, -, hop⟩ := List.mem_filterMap.mp ha
  cases l with
  | main o x =>
    cases hop
    exact ⟨x, rfl⟩
  | task i c y => exact absurd hop (by simp [Label.op?])
  | env => exact absurd hop (by simp [Label.op?])

theorem answered_taskHistory (i : ι) (ls : List (Label C A ε α ι D B)) :
    Answered (taskHistory i ls) := by
  intro a ha
  obtain ⟨l, -, hact⟩ := List.mem_filterMap.mp ha
  cases l with
  | task j c x =>
    by_cases hij : j = i
    · simp only [Label.act?, if_pos hij, Option.some.injEq] at hact
      subst hact
      exact ⟨x, rfl⟩
    · simp [Label.act?, if_neg hij] at hact
  | main o x => exact absurd hact (by simp [Label.act?])
  | env => exact absurd hact (by simp [Label.act?])

/-- The supervisor stands where its history leads. -/
theorem Runs.main_reaches {s₀ : Sys C A ε α ι D B εm β W} (hr : Runs L s₀ ls s) :
    s₀.main.Reaches (mainHistory εm ls) s.main := by
  induction hr with
  | refl => exact .refl _
  | @snoc ls l s' s'' _ hstep ih =>
    rw [mainHistory_concat]
    cases hstep with
    | @main o k x task w hmain hdoes =>
      rw [hmain] at ih
      exact ih.trans (.answered (.refl _))
    | resumed hidle htask hans => simpa [Label.op?] using ih
    | interrupted hidle htask => simpa [Label.op?] using ih
    | env hidle henv => simpa [Label.op?] using ih

/-- A task stands where its history leads. -/
theorem Runs.task_reaches (hr : Runs L (.init p w) ls s) (i : ι) :
    (s.task i = none ∧ taskHistory i ls = []) ∨
    ∃ t, s.task i = some t ∧ (L.body i).Reaches (taskHistory i ls) t.code := by
  induction hr with
  | refl => exact .inl ⟨rfl, rfl⟩
  | @snoc ls l s' s'' _ hstep ih =>
    rw [taskHistory_concat]
    have hmove := hstep.taskMove i
    cases hmove with
    | kept hl hnew =>
      rw [hl, hnew]
      simpa using ih
    | created hl hold hnew =>
      rw [hl, hnew]
      rcases ih with ⟨-, hnil⟩ | ⟨t, ht, -⟩
      · refine .inr ⟨_, rfl, ?_⟩
        rw [hnil]
        exact .refl _
      · rw [hold] at ht
        exact absurd ht (by simp)
    -- => a cancellation marks the task and leaves its code where it stands
    | cancelled is hl hi hnew =>
      rw [hl, hnew]
      rcases ih with ⟨hnone, hnil⟩ | ⟨t, ht, hreach⟩
      · refine .inl ⟨by rw [hnone]; rfl, ?_⟩
        rw [hnil]
        rfl
      · refine .inr ⟨t.cancel, by rw [ht]; rfl, ?_⟩
        rw [Task.cancel_code]
        simpa [Label.act?] using hreach
    | resumed k x hl hold hnew =>
      rcases ih with ⟨hnone, -⟩ | ⟨t, ht, hreach⟩
      · rw [hold] at hnone
        exact absurd hnone (by simp)
      · refine .inr ⟨_, hnew, ?_⟩
        rw [Option.some.inj (ht.symm.trans hold)] at hreach
        rw [hl]
        simp only [Label.act?, if_true, Option.toList]
        exact hreach.trans (.answered (.refl _))
    | interrupted k hl hold hnew =>
      rcases ih with ⟨hnone, -⟩ | ⟨t, ht, hreach⟩
      · rw [hold] at hnone
        exact absurd hnone (by simp)
      · refine .inr ⟨_, hnew, ?_⟩
        rw [Option.some.inj (ht.symm.trans hold)] at hreach
        rw [hl]
        simp only [Label.act?, if_true, Option.toList]
        exact hreach.trans (.answered (.refl _))

/-- A task's code is what is left of its body after its history. -/
theorem Runs.reaches_code (hr : Runs L (.init p w) ls s) {t : Task C A ε α}
    (ht : s.task i = some t) : (L.body i).Reaches (taskHistory i ls) t.code := by
  rcases hr.task_reaches i with ⟨hnone, -⟩ | ⟨t', ht', hreach⟩
  · exact absurd (ht.symm.trans hnone) (by simp)
  · rwa [Option.some.inj (ht.symm.trans ht')] at *

/-- A task that is there has been created. -/
theorem Runs.created (hr : Runs L (.init p w) ls s) {t : Task C A ε α} (ht : s.task i = some t) :
    Label.main (.create i) () ∈ ls := by
  induction hr generalizing t with
  | refl => exact absurd ht (by simp [Sys.init])
  | @snoc ls l s' s'' _ hstep ih =>
    cases hstep.taskMove i with
    | kept hl hnew => exact List.mem_append_left _ (ih (hnew.symm.trans ht))
    | created hl hold hnew => exact List.mem_append_right _ (List.mem_singleton.mpr hl.symm)
    | cancelled is hl hi hnew =>
      obtain ⟨t', ht', -⟩ := Option.map_eq_some_iff.mp (hnew.symm.trans ht)
      exact List.mem_append_left _ (ih ht')
    | resumed k x hl hold hnew => exact List.mem_append_left _ (ih hold)
    | interrupted k hl hold hnew => exact List.mem_append_left _ (ih hold)

/-- A task that was not created does not exist. -/
theorem Runs.uncreated (hr : Runs L (.init p w) ls s) (hno : Label.main (.create i) () ∉ ls) :
    s.task i = none := by
  rcases ht : s.task i with _ | t
  · rfl
  · exact absurd (hr.created ht) hno

/-- What the supervisor has been told stays true. -/
theorem Runs.held {s₀ : Sys C A ε α ι D B εm β W} (hr : Runs L s₀ ls s) {o : Op ι D}
    {x : OpAns ε α B o} (hx : Label.main o x ∈ ls) : s.Held o x := by
  induction hr with
  | refl => exact absurd hx (by simp)
  | @snoc ls l s' s'' _ hstep ih =>
    rcases List.mem_append.mp hx with hx | hx
    · exact hstep.held (ih hx)
    · obtain rfl := List.mem_singleton.mp hx
      exact hstep.held_main

/-- A task that nobody has cancelled has not been cut short. -/
theorem Runs.uncut (hr : Runs L (.init p w) ls s)
    (hno : ∀ is, i ∈ is → Label.main (.cancel is) () ∉ ls) :
    (∀ t, s.task i = some t → t.cancelling = false) ∧ Uncut (taskHistory i ls) := by
  induction hr with
  | refl =>
    refine ⟨fun t ht => absurd ht (by simp [Sys.init]), fun a ha => ?_⟩
    exact absurd ha (by simp [taskHistory])
  | @snoc ls l s' s'' _ hstep ih =>
    obtain ⟨hflag, hcut⟩ := ih fun is hi hmem => hno is hi (List.mem_append_left _ hmem)
    rw [taskHistory_concat]
    cases hstep.taskMove i with
    | kept hl hnew =>
      rw [hl, hnew]
      exact ⟨hflag, by simpa using hcut⟩
    | created hl hold hnew =>
      rw [hl, hnew]
      refine ⟨fun t ht => ?_, by simpa [Label.act?] using hcut⟩
      rw [← Option.some.inj ht]
    -- => excluded: the task is never cancelled
    | cancelled is hl hi hnew =>
      exact absurd (List.mem_append_right _ (List.mem_singleton.mpr hl.symm)) (hno is hi)
    | resumed k x hl hold hnew =>
      rw [hl, hnew]
      refine ⟨fun t ht => by rw [← Option.some.inj ht], fun a ha => ?_⟩
      rcases List.mem_append.mp ha with ha | ha
      · exact hcut a ha
      · simp only [Label.act?, if_true, Option.toList, List.mem_singleton] at ha
        subst ha
        exact ⟨x, rfl⟩
    | interrupted k hl hold hnew => exact absurd (hflag _ hold) (by simp)

/-- A task that was not cancelled does not end as cancelled. -/
theorem Runs.not_cancelled (hr : Runs L (.init p w) ls s) (hbody : Uncancelled (L.body i))
    (hno : ∀ is, i ∈ is → Label.main (.cancel is) () ∉ ls) :
    ¬ s.Result i (.error .cancelled) := by
  intro ⟨t, ht, hres⟩
  have hthrow : t.code = .throw .cancelled := by
    rcases Prog.result?_cases hres with ⟨a, -, ha⟩ | ⟨e, hcode, he⟩
    · cases ha
    · rw [hcode, ← Except.error.inj he]
  have hreach := hr.reaches_code ht
  rw [hthrow] at hreach
  exact hbody.ne (hr.uncut hno).2 hreach

theorem Runs.result {r : Except (Failure ε) α} (hr : Runs L s ls s') (h : s.Result i r) :
    s'.Result i r := by
  induction hr with
  | refl => exact h
  | snoc _ hstep ih => exact hstep.result ih

omit [DecidableEq ι] in
theorem Sys.Result.unique {r r' : Except (Failure ε) α} (h : s.Result i r) (h' : s.Result i r') :
    r = r' := by
  obtain ⟨t, ht, hr⟩ := h
  obtain ⟨t', ht', hr'⟩ := h'
  obtain rfl := Option.some.inj (ht.symm.trans ht')
  exact Option.some.inj (hr.symm.trans hr')

theorem Runs.trans {s₀ : Sys C A ε α ι D B εm β W} {ls' : List (Label C A ε α ι D B)}
    (h : Runs L s₀ ls s) (h' : Runs L s ls' s') : Runs L s₀ (ls ++ ls') s' := by
  induction h' with
  | refl => rwa [List.append_nil]
  | snoc _ hstep ih =>
    rw [← List.append_assoc]
    exact .snoc ih hstep

/-- A run can be cut at each of its moves. -/
theorem Runs.cut {s₀ : Sys C A ε α ι D B εm β W} {ls₁ ls₂ : List (Label C A ε α ι D B)}
    (hr : Runs L s₀ (ls₁ ++ l :: ls₂) s) :
    ∃ s₁ s₂, Runs L s₀ ls₁ s₁ ∧ Step L s₁ l s₂ ∧ Runs L s₂ ls₂ s := by
  generalize hls : ls₁ ++ l :: ls₂ = ls at hr
  induction hr generalizing ls₂ with
  | refl => simp at hls
  | @snoc ls' l' s' s'' hrun hstep ih =>
    rcases List.eq_nil_or_concat ls₂ with rfl | ⟨ls₂, l₂, rfl⟩
    · obtain ⟨rfl, hl⟩ := List.append_inj' hls rfl
      obtain rfl := (List.cons_eq_cons.mp hl).1
      exact ⟨s', s'', hrun, hstep, .refl⟩
    · rw [List.concat_eq_append, ← List.cons_append, ← List.append_assoc] at hls
      obtain ⟨hinit, hl⟩ := List.append_inj' hls rfl
      obtain rfl := (List.cons_eq_cons.mp hl).1
      obtain ⟨s₁, s₂, h₁, hs, h₂⟩ := ih hinit
      rw [List.concat_eq_append]
      exact ⟨s₁, s₂, h₁, hs, h₂.snoc hstep⟩

/-! ## Of the world -/

/-- Nothing that happens takes `R` away. -/
structure Lasting (L : Loop C A ε α ι D B W) (R : W → Prop) : Prop where
  answers : ∀ w c x w', R w → L.answers w c x w' → R w'
  serves : ∀ w d x w', R w → L.serves w d x w' → R w'
  env : ∀ w w', R w → L.env w w' → R w'

theorem Step.lasting {R : W → Prop} (hR : Lasting L R) (hs : Step L s l s') (h : R s.world) :
    R s'.world := by
  cases hs with
  | @main o k x task w hmain hdoes =>
    cases o with
    | create i =>
      obtain ⟨-, -, rfl⟩ := hdoes
      exact h
    | wait is =>
      obtain ⟨-, -, -, -, -, rfl⟩ := hdoes
      exact h
    | cancel is =>
      obtain ⟨-, rfl⟩ := hdoes
      exact h
    | gather is =>
      obtain ⟨-, -, rfl⟩ := hdoes
      exact h
    | result i =>
      obtain ⟨-, -, rfl⟩ := hdoes
      exact h
    | other d => exact hR.serves _ _ _ _ h hdoes.1
  | resumed hidle htask hans => exact hR.answers _ _ _ _ h hans
  | interrupted hidle htask => exact h
  | env hidle henv => exact hR.env _ _ h henv

theorem Runs.lasting {R : W → Prop} (hR : Lasting L R) (hr : Runs L s ls s') (h : R s.world) :
    R s'.world := by
  induction hr with
  | refl => exact h
  | snoc _ hstep ih => exact hstep.lasting hR ih

/-- An answer that shows `R` has been given: `R` holds. -/
theorem Runs.shown {R : W → Prop} (hR : Lasting L R) {c : C} {x : A c}
    (hc : ∀ w w', L.answers w c x w' → R w') (hr : Runs L s ls s')
    (hx : (⟨c, .ok (some x)⟩ : Act C (Awaited A) (Failure ε)) ∈ taskHistory i ls) :
    R s'.world := by
  obtain ⟨l, hl, hact⟩ := List.mem_filterMap.mp hx
  obtain ⟨ls₁, ls₂, rfl⟩ := List.append_of_mem hl
  obtain ⟨s₁, s₂, -, hstep, hrest⟩ := hr.cut
  refine hrest.lasting hR ?_
  cases hstep with
  | main hmain hdoes => exact absurd hact (by simp [Label.act?])
  | @resumed j c' k x' w hidle htask hans =>
    by_cases hij : j = i
    · simp only [Label.act?, if_pos hij, Option.some.injEq, Act.mk.injEq] at hact
      obtain ⟨rfl, hx⟩ := hact
      simp only [heq_eq_eq, Except.ok.injEq, Option.some.injEq] at hx
      subst hx
      exact hc _ _ hans
    · simp [Label.act?, if_neg hij] at hact
  | @interrupted j c' k hidle htask =>
    by_cases hij : j = i
    · simp only [Label.act?, if_pos hij, Option.some.injEq, Act.mk.injEq] at hact
      obtain ⟨rfl, hx⟩ := hact
      simp at hx
    · simp [Label.act?, if_neg hij] at hact
  | env hidle henv => exact absurd hact (by simp [Label.act?])

/-! ## Winding down -/

/-- A task that is being cancelled, or has been interrupted: `m` moves are left. -/
def Task.Owes (P : C → Prop) (n : ℕ) (t : Task C A ε α) (m : ℕ) : Prop :=
  t.cancelling = true ∧ Yields P n t.code ∧ m = n + 1 ∨ t.cancelling = false ∧ Within P t.code m

/-- The moves of a task. -/
def moves (i : ι) (ls : List (Label C A ε α ι D B)) : ℕ := (taskHistory i ls).length

/-- The supervisor leaves the task alone. -/
def Leaves (i : ι) : Op ι D → Prop
  | .create j => j ≠ i
  | .cancel is => i ∉ is
  | _ => True

variable {P : C → Prop} {n m : ℕ} {t : Task C A ε α}

/-- Cancelled, a task owes no more than its handlers. -/
theorem Task.owes_cancel (ht : t.cancelling = false) (hyields : Yields P n t.code) :
    t.cancel.Owes P n (n + 1) := by
  obtain ⟨code, b⟩ := t
  cases code with
  | pure a => exact .inr ⟨ht, trivial⟩
  | throw e => exact .inr ⟨ht, trivial⟩
  | call c k => exact .inl ⟨rfl, hyields, rfl⟩

/-- Cancelled for the first time, it has as much before it as its program
allows. -/
theorem Runs.owes_cancel (hr : Runs L (.init p w) ls s) (hbody : Yields P n (L.body i))
    (hno : ∀ is, i ∈ is → Label.main (.cancel is) () ∉ ls) (ht : s.task i = some t) :
    t.cancel.Owes P n (n + 1) := by
  obtain ⟨hflag, hcut⟩ := hr.uncut hno
  exact Task.owes_cancel (hflag t ht) (hbody.of_reaches (hr.reaches_code ht) hcut)

/-- Another move, or one it owed. -/
theorem Step.owes (hs : Step L s l s') (hmain : ∀ o x, l = .main o x → Leaves i o)
    (ht : s.task i = some t) (ho : t.Owes P n m) :
    ∃ t' m', s'.task i = some t' ∧ t'.Owes P n m' ∧ (l.act? i).toList.length + m' = m := by
  cases hs.taskMove i with
  | kept hl hnew => exact ⟨t, m, hnew.trans ht, ho, by rw [hl]; simp⟩
  | created hl hold hnew => exact absurd rfl (hmain _ _ hl)
  | cancelled is hl hi hnew => exact absurd hi (hmain _ _ hl)
  | @resumed c k x hl hold hnew =>
    obtain rfl := Option.some.inj (ht.symm.trans hold)
    rcases ho with ⟨hcancelling, -⟩ | ⟨-, -, m', rfl, hk⟩
    · exact absurd hcancelling (by simp)
    · refine ⟨_, m', hnew, .inr ⟨rfl, hk _⟩, ?_⟩
      simp [hl, Label.act?, Nat.add_comm]
  | @interrupted c k hl hold hnew =>
    obtain rfl := Option.some.inj (ht.symm.trans hold)
    rcases ho with ⟨-, hyields, rfl⟩ | ⟨hcancelling, -⟩
    · refine ⟨_, n, hnew, .inr ⟨rfl, hyields.1.1⟩, ?_⟩
      simp [hl, Label.act?, Nat.add_comm]
    · exact absurd hcancelling (by simp)

/-- **A cancelled task winds down.** Whatever else happens, it makes no more
moves than it owes. -/
theorem Runs.winds_down (hr : Runs L s ls s')
    (hmain : ∀ o x, Label.main o x ∈ ls → Leaves i o) (ht : s.task i = some t)
    (ho : t.Owes P n m) :
    ∃ t' m', s'.task i = some t' ∧ t'.Owes P n m' ∧ moves i ls + m' = m := by
  induction hr with
  | refl => exact ⟨t, m, ht, ho, by simp [moves, taskHistory]⟩
  | @snoc ls l s' s'' _ hstep ih =>
    obtain ⟨t', m', ht', ho', hm'⟩ := ih fun o x hx => hmain o x (List.mem_append_left _ hx)
    obtain ⟨t'', m'', ht'', ho'', hm''⟩ := hstep.owes
      (fun o x hl => hmain o x (List.mem_append_right _ (List.mem_singleton.mpr hl.symm))) ht' ho'
    refine ⟨t'', m'', ht'', ho'', ?_⟩
    unfold moves at hm' ⊢
    rw [taskHistory_concat, List.length_append]
    omega

/-- Until it has ended, a move of it is possible wherever the supervisor waits. -/
theorem Task.Owes.can_move (ho : t.Owes P n m) (hidle : s.Idle L) (ht : s.task i = some t)
    (hP : ∀ c, P c → ∀ w, ∃ x w', L.answers w c x w') :
    s.Ended i ∨ ∃ c x s', Step L s (.task i c x) s' := by
  obtain ⟨code, b⟩ := t
  cases code with
  | pure a => exact .inl ⟨.ok a, _, ht, rfl⟩
  | throw e => exact .inl ⟨.error e, _, ht, rfl⟩
  | call c k =>
    rcases ho with ⟨hcancelling, -⟩ | ⟨hcancelling, hc, -⟩
    · obtain rfl : b = true := hcancelling
      exact .inr ⟨c, none, _, .interrupted hidle ht⟩
    · obtain rfl : b = false := hcancelling
      obtain ⟨x, w, hans⟩ := hP c hc s.world
      exact .inr ⟨c, some x, _, .resumed hidle ht hans⟩

/-! ## Passing the cancellation on -/

variable {Y : ∀ c, A c → Prop}

end

end ZeroTrustLab.Lib.Tasks
