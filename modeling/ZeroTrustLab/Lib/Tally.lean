import Mathlib.Algebra.BigOperators.Group.Finset.Piecewise
import ZeroTrustLab.Lib.Interleave

/-!
# Counting by party

A counter of the process counts what all parties do; a proof about a program
counts what one party does. `sum_tally_acts` says that the first is the sum of
the second, and `sum_tally_keys` the same of any list whose entries have
owners. The sum is over a finite set that holds everybody who moved
(`movers`).

Both are the same exchange of two sums, over the labels of a trace and over the
parties that made them. A run of any length over any type of parties has
finitely many movers, so the sum over them is an ordinary finite one.
-/

namespace ZeroTrustLab.Lib

variable {α β γ ι : Type}

/-- The sum of `f` over a list. -/
def tally (f : α → ℕ) : List α → ℕ
  | [] => 0
  | a :: l => f a + tally f l

@[simp] theorem tally_nil (f : α → ℕ) : tally f [] = 0 := rfl

@[simp] theorem tally_cons (f : α → ℕ) (a : α) (l : List α) :
    tally f (a :: l) = f a + tally f l := rfl

@[simp] theorem tally_append (f : α → ℕ) (l l' : List α) :
    tally f (l ++ l') = tally f l + tally f l' := by
  induction l with
  | nil => exact (Nat.zero_add _).symm
  | cons a l ih =>
    show f a + tally f (l ++ l') = f a + tally f l + tally f l'
    rw [ih]
    omega

theorem tally_map (f : β → ℕ) (g : α → β) (l : List α) :
    tally f (l.map g) = tally (fun a => f (g a)) l := by
  induction l with
  | nil => rfl
  | cons a l ih => rw [List.map_cons, tally_cons, tally_cons, ih]

theorem tally_flatten (f : α → ℕ) (ls : List (List α)) : tally f ls.flatten = tally (tally f) ls := by
  induction ls with
  | nil => rfl
  | cons l ls ih => rw [List.flatten_cons, tally_append, tally_cons, ih]

/-- Counting what a list yields is a tally over the list. -/
theorem countP_filterMap (g : α → Option β) (p : β → Bool) (l : List α) :
    (l.filterMap g).countP p = tally (fun a => (g a).toList.countP p) l := by
  induction l with
  | nil => rfl
  | cons a l ih =>
    rw [tally_cons, ← ih]
    rcases hg : g a with _ | b
    · rw [List.filterMap_cons_none hg]
      simp
    · rw [List.filterMap_cons_some hg, List.countP_cons]
      simp only [Option.toList_some, List.countP_singleton]
      omega

variable [DecidableEq ι]

/-- A tally over entries with owners is the sum of each owner's. -/
theorem sum_tally_keys (f : β → ℕ) {S : Finset ι} : ∀ {js : List (ι × β)}, (∀ j ∈ js, j.1 ∈ S) →
    ∑ i ∈ S, tally f ((js.filter fun j => decide (j.1 = i)).map Prod.snd)
      = tally (fun j => f j.2) js
  | [], _ => by simp
  | j :: js, hS => by
    have hrest := sum_tally_keys f fun k hk => hS k (List.mem_cons_of_mem _ hk)
    have hone : ∀ i, tally f (((j :: js).filter fun k => decide (k.1 = i)).map Prod.snd)
        = (if j.1 = i then f j.2 else 0)
          + tally f ((js.filter fun k => decide (k.1 = i)).map Prod.snd) := by
      intro i
      by_cases hi : j.1 = i
      · simp [hi]
      · simp [hi]
    rw [Finset.sum_congr rfl fun i _ => hone i, Finset.sum_add_distrib, hrest, Finset.sum_ite_eq,
      if_pos (hS j (List.mem_cons_self ..)), tally_cons]

variable {C : Type} {A : C → Type} {ε E : Type}

/-- The parties that have moved. -/
def movers (ls : List (Label C A ε ι E)) : Finset ι := (ls.filterMap Label.by?).toFinset

/-- The movers are the parties of the labels. -/
theorem mem_movers {i : ι} {ls : List (Label C A ε ι E)} :
    i ∈ movers ls ↔ ∃ lab ∈ ls, lab.by? = some i := by
  unfold movers
  rw [List.mem_toFinset, List.mem_filterMap]

/-- Who has not moved has made no call. -/
theorem acts_of_idle {i : ι} {ls : List (Label C A ε ι E)} (hi : i ∉ movers ls) :
    acts i ls = [] := by
  refine List.eq_nil_iff_forall_not_mem.mpr fun a ha => hi ?_
  exact mem_movers.mpr ⟨_, mem_acts.mp ha, rfl⟩

/-- What a move counts for. -/
def Label.worth (f : Act C A ε → ℕ) : Label C A ε ι E → ℕ
  | .call _ a => f a
  | _ => 0

/-- The calls of a trace with their parties. -/
private def calls (ls : List (Label C A ε ι E)) : List (ι × Act C A ε) :=
  ls.filterMap fun
    | .call i a => some (i, a)
    | _ => none

/-- The acts of a party are its share of the calls. -/
private theorem acts_eq_calls (i : ι) (ls : List (Label C A ε ι E)) :
    acts i ls = ((calls ls).filter fun j => decide (j.1 = i)).map Prod.snd := by
  induction ls with
  | nil => rfl
  | cons lab ls ih =>
    unfold acts calls at ih ⊢
    cases lab with
    | call j a =>
      by_cases hj : j = i
      · simp [Label.act?, hj, ih]
      · simp [Label.act?, hj, ih]
    | exit j => exact ih
    | env e => exact ih

omit [DecidableEq ι] in
private theorem tally_calls (f : Act C A ε → ℕ) (ls : List (Label C A ε ι E)) :
    tally (fun j => f j.2) (calls ls) = tally (Label.worth f) ls := by
  induction ls with
  | nil => rfl
  | cons lab ls ih =>
    rw [tally_cons, ← ih]
    cases lab with
    | call i a => exact tally_cons ..
    | exit i => exact (Nat.zero_add _).symm
    | env e => exact (Nat.zero_add _).symm

/-- **A tally over a run** is the sum of the parties' own. -/
theorem sum_tally_acts (f : Act C A ε → ℕ) (ls : List (Label C A ε ι E)) :
    ∑ i ∈ movers ls, tally f (acts i ls) = tally (Label.worth f) ls := by
  have hmoved : ∀ j ∈ calls ls, j.1 ∈ movers ls := by
    intro j hj
    obtain ⟨lab, hlab, hcall⟩ := List.mem_filterMap.mp hj
    refine mem_movers.mpr ⟨lab, hlab, ?_⟩
    cases lab with
    | call i a =>
      obtain rfl := Option.some.inj hcall
      rfl
    | exit i => simp at hcall
    | env e => simp at hcall
  rw [← tally_calls, ← sum_tally_keys f hmoved]
  exact Finset.sum_congr rfl fun i _ => by rw [acts_eq_calls]

end ZeroTrustLab.Lib
