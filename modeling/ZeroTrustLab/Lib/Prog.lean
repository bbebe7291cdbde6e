import Mathlib.Logic.Basic

/-!
# Programs over calls

A handler of a service is straight-line code around a handful of awaited
calls. `Prog C A ε α` is that shape: a finite tree that either returns an `α`,
raises an `ε`, or makes one call `c : C` and continues with the answer
`A c`. The tree says nothing about what a call does; a `Machine` does.

A `Machine` answers a call of party `i` from the party's own state (`L`) and
the shared one (`W`), says how a call may fail, what leaving the program
does, and what the environment may do in between. Two meanings of a program
are built on it:

* `Machine.run`: one party alone, every call answered at once and none of
  them failing. This is what "requests processed one at a time" means.
* the interleaved one of `Interleave.lean`, where any party may move next.

`run_bind` is the composition law every sequential result goes through: it
lets a callee be replaced by what it is known to do.

Answers depend on the call (`A c`), so a program cannot be handed the answer to
another question, and a coroutine or a script is the same type over other
calls. Exceptions are values of the program: an `except` is a `match` on the
answer, written where the source has it.
-/

namespace ZeroTrustLab.Lib

/-- A program: returns, raises, or makes a call and goes on with its answer. -/
inductive Prog (C : Type) (A : C → Type) (ε α : Type) where
  | pure (a : α)
  | throw (e : ε)
  | call (c : C) (k : A c → Prog C A ε α)

namespace Prog

variable {C : Type} {A : C → Type} {ε α β γ : Type}

/-- Sequencing: `f` takes over where `p` returns; a raise ends both. -/
def bind : Prog C A ε α → (α → Prog C A ε β) → Prog C A ε β
  | .pure a, f => f a
  | .throw e, _ => .throw e
  | .call c k, f => .call c fun x => (k x).bind f

instance : Monad (Prog C A ε) where
  pure := .pure
  bind := .bind

/-- The program that makes one call and returns its answer. -/
def ask (c : C) : Prog C A ε (A c) := .call c .pure

@[simp] theorem pure_bind (a : α) (f : α → Prog C A ε β) :
    ((Prog.pure a : Prog C A ε α) >>= f) = f a := rfl

@[simp] theorem monadPure_bind (a : α) (f : α → Prog C A ε β) :
    ((Pure.pure a : Prog C A ε α) >>= f) = f a := rfl

@[simp] theorem throw_bind (e : ε) (f : α → Prog C A ε β) :
    ((Prog.throw e : Prog C A ε α) >>= f) = .throw e := rfl

@[simp] theorem call_bind (c : C) (k : A c → Prog C A ε α) (f : α → Prog C A ε β) :
    (Prog.call c k >>= f) = .call c fun x => k x >>= f := rfl

@[simp] theorem ask_bind (c : C) (f : A c → Prog C A ε β) :
    (ask c >>= f) = .call c f := rfl

theorem bind_assoc (p : Prog C A ε α) (f : α → Prog C A ε β) (g : β → Prog C A ε γ) :
    (p >>= f >>= g) = (p >>= fun a => f a >>= g) := by
  induction p with
  | pure a => rfl
  | throw e => rfl
  | call c k ih =>
    show Prog.call c (fun x => k x >>= f >>= g) = Prog.call c (fun x => k x >>= fun a => f a >>= g)
    exact congrArg _ (funext ih)

end Prog

/-- What surrounds a program: how calls are answered and how they fail, what
leaving does, and what the environment does on its own. -/
structure Machine (C : Type) (A : C → Type) (ε ι L W E : Type) where
  /-- The answer to a call of party `i`, with both states afterwards. -/
  serve : ι → (c : C) → L → W → Except ε (A c) × L × W
  /-- A call that may fail on its own, and what is left when it does. -/
  fault : ι → C → L → W → Option (ε × L × W)
  /-- What leaving the program, by return or by raise, does. -/
  close : ι → L → W → L × W
  /-- A move of the environment. -/
  env : E → W → W

namespace Machine

variable {C : Type} {A : C → Type} {ε ι L W E α β : Type}

/-- Party `i` running alone, every call answered and none failing. -/
def run (M : Machine C A ε ι L W E) (i : ι) : Prog C A ε α → L → W → Except ε α × L × W
  | .pure a, l, w => (.ok a, l, w)
  | .throw e, l, w => (.error e, l, w)
  | .call c k, l, w =>
    match M.serve i c l w with
    | (.ok x, l', w') => M.run i (k x) l' w'
    | (.error e, l', w') => (.error e, l', w')

variable (M : Machine C A ε ι L W E) (i : ι)

@[simp] theorem run_pure (a : α) (l : L) (w : W) :
    M.run i (.pure a : Prog C A ε α) l w = (.ok a, l, w) := rfl

@[simp] theorem run_monadPure (a : α) (l : L) (w : W) :
    M.run i (Pure.pure a : Prog C A ε α) l w = (.ok a, l, w) := rfl

@[simp] theorem run_throw (e : ε) (l : L) (w : W) :
    M.run i (.throw e : Prog C A ε α) l w = (.error e, l, w) := rfl

/-- A call that is answered hands its answer to the rest. -/
theorem run_call {c : C} {k : A c → Prog C A ε α} {l l' : L} {w w' : W} {x : A c}
    (h : M.serve i c l w = (.ok x, l', w')) :
    M.run i (.call c k) l w = M.run i (k x) l' w' := by
  simp only [run, h]

/-- A call that raises ends the program. -/
theorem run_call_error {c : C} {k : A c → Prog C A ε α} {l l' : L} {w w' : W} {e : ε}
    (h : M.serve i c l w = (.error e, l', w')) :
    M.run i (.call c k) l w = (.error e, l', w') := by
  simp only [run, h]

/-- Running a sequence is running its head and handing on what it returned. -/
theorem run_bind (p : Prog C A ε α) (f : α → Prog C A ε β) :
    ∀ (l : L) (w : W), M.run i (p >>= f) l w =
      match M.run i p l w with
      | (.ok a, l', w') => M.run i (f a) l' w'
      | (.error e, l', w') => (.error e, l', w') := by
  induction p with
  | pure a => intro l w; rfl
  | throw e => intro l w; rfl
  | call c k ih =>
    intro l w
    rw [Prog.call_bind]
    rcases hs : M.serve i c l w with ⟨r, l', w'⟩
    cases r with
    | ok x => rw [run_call M i hs, run_call M i hs]; exact ih x l' w'
    | error e => rw [run_call_error M i hs, run_call_error M i hs]

/-- The head returned. -/
theorem run_bind_ok {p : Prog C A ε α} {f : α → Prog C A ε β} {l l' : L} {w w' : W} {a : α}
    (h : M.run i p l w = (.ok a, l', w')) :
    M.run i (p >>= f) l w = M.run i (f a) l' w' := by
  rw [run_bind, h]

/-- The head raised. -/
theorem run_bind_error {p : Prog C A ε α} {f : α → Prog C A ε β} {l l' : L} {w w' : W} {e : ε}
    (h : M.run i p l w = (.error e, l', w')) :
    M.run i (p >>= f) l w = (.error e, l', w') := by
  rw [run_bind, h]

end Machine

end ZeroTrustLab.Lib
