import Mathlib.Algebra.Order.Group.Basic
import Mathlib.Algebra.Order.Monoid.Canonical.Defs
import Mathlib.Algebra.Order.Monoid.Unbundled.Pow
import Mathlib.Data.List.Induction
import Mathlib.Data.List.TakeWhile

/-!
# Leases

Something that is good until it expires, and that a check renews when little of
its time is left. Whoever renews it has to be served to do so, and nobody is
served who holds an expired one.

How long may whoever serves be away? `Lease.alive` answers it: with checks no
more than `period` apart, and of every `k` of them one that is served, the
lease is good at all times if `k` periods are shorter than the window. What is
left after a check is the window less one period for each check in vain
(`Lease.remaining`), and of those there are fewer than `k` at any time.

Time is any linearly ordered commutative group. A check comes with its moment
and with whether it was served; `Paced` and `Attended` are the two conditions
on a list of them, and both hold of every initial part of a list of which they
hold, which is what the induction from the end needs.
-/

namespace ZeroTrustLab.Lib

/-- The time for which a lease is granted, and the time left under which a
check asks for a new one. -/
structure Lease (T : Type) where
  life : T
  window : T

/-- A check, at its time; whether a renewal would be served then. -/
structure Check (T : Type) where
  time : T
  served : Bool
  deriving DecidableEq, Repr

section

variable {T : Type} {k : ℕ} {cs cs' : List (Check T)}

/-- When the last of the checks was, the one before them having been at `t`. -/
def lastTime (t : T) (cs : List (Check T)) : T := (cs.getLast?.map Check.time).getD t

/-- Of every `k` checks in a row one is served. -/
def Attended (k : ℕ) (cs : List (Check T)) : Prop :=
  ∀ front run back, cs = front ++ run ++ back → run.length = k → ∃ c ∈ run, c.served = true

/-- How many checks have been in vain since the last that was served. -/
def idle (cs : List (Check T)) : ℕ := (cs.reverse.takeWhile fun c => !c.served).length

theorem lastTime_concat (t : T) (cs : List (Check T)) (c : Check T) :
    lastTime t (cs ++ [c]) = c.time := by
  simp [lastTime]

/-- One more check in vain is one more in the row, and a served one ends it. -/
theorem idle_concat (cs : List (Check T)) (c : Check T) :
    idle (cs ++ [c]) = if c.served then 0 else idle cs + 1 := by
  unfold idle
  rw [List.reverse_concat, List.takeWhile_cons]
  by_cases hc : c.served = true
  · simp [hc]
  · simp [hc]

theorem Attended.front (h : Attended k (cs ++ cs')) : Attended k cs := by
  intro front run back he
  exact h front run (back ++ cs') (by rw [he]; simp)

/-- Among attended checks there are never as many in vain in a row. -/
theorem Attended.idle_lt (h : Attended k cs) : idle cs < k := by
  by_contra hle
  have hle : k ≤ (cs.reverse.takeWhile fun c => !c.served).length := Nat.not_lt.mp hle
  -- the last `k` checks were all in vain
  let run := (cs.reverse.take k).reverse
  have hsplit : cs = (cs.reverse.drop k).reverse ++ run ++ [] := by
    rw [List.append_nil, ← List.reverse_append, List.take_append_drop, List.reverse_reverse]
  have hlen : run.length = k := by
    have hk : k ≤ cs.reverse.length := hle.trans (List.takeWhile_prefix _).length_le
    show (cs.reverse.take k).reverse.length = k
    rw [List.length_reverse, List.length_take, Nat.min_eq_left hk]
  obtain ⟨c, hc, hserved⟩ := h _ run _ hsplit hlen
  have hvain : c ∈ cs.reverse.takeWhile fun c => !c.served := by
    have hprefix : cs.reverse.take k <+: cs.reverse.takeWhile fun c => !c.served :=
      List.prefix_of_prefix_length_le (List.take_prefix _ _) (List.takeWhile_prefix _)
        ((List.length_take_le _ _).trans hle)
    exact hprefix.subset (List.mem_reverse.mp hc)
  have hno := List.mem_takeWhile_imp hvain
  simp [hserved] at hno

end

section

variable {T : Type} [AddCommGroup T] [LinearOrder T]

/-- When the lease expires after a check. -/
def Lease.check (l : Lease T) (expiry : T) (c : Check T) : T :=
  if expiry - c.time < l.window ∧ c.time < expiry ∧ c.served then c.time + l.life else expiry

def Lease.checks (l : Lease T) (expiry : T) (cs : List (Check T)) : T := cs.foldl l.check expiry

/-- Each check follows the one before it within a period. -/
def Paced (period : T) (t : T) (cs : List (Check T)) : Prop :=
  ∀ front c back, cs = front ++ c :: back →
    lastTime t front ≤ c.time ∧ c.time ≤ lastTime t front + period

variable {l : Lease T} {expiry period t : T} {k : ℕ} {cs cs' : List (Check T)} {c : Check T}

theorem Lease.checks_concat (l : Lease T) (expiry : T) (cs : List (Check T)) (c : Check T) :
    l.checks expiry (cs ++ [c]) = l.check (l.checks expiry cs) c :=
  List.foldl_append

theorem Paced.front (h : Paced period t (cs ++ cs')) : Paced period t cs := by
  intro front c back he
  exact h front c (back ++ cs') (by rw [he]; simp)

/-- The last check comes in time after the one before it. -/
theorem Paced.last (h : Paced period t (cs ++ [c])) :
    lastTime t cs ≤ c.time ∧ c.time ≤ lastTime t cs + period :=
  h cs c [] rfl

variable [IsOrderedAddMonoid T]

/-- What is left after the checks: the window, less a period for each check in
vain. -/
theorem Lease.remaining (hstart : l.window ≤ expiry - t) (hlife : l.window ≤ l.life)
    (hperiod : 0 ≤ period) (hk : k • period < l.window) (hp : Paced period t cs)
    (ha : Attended k cs) : l.window - idle cs • period ≤ l.checks expiry cs - lastTime t cs := by
  induction cs using List.reverseRecOn with
  | nil => simpa [idle, Lease.checks, lastTime] using hstart
  | append_singleton cs c ih =>
    have ih := ih hp.front ha.front
    obtain ⟨-, hnext⟩ := hp.last
    have hidle : idle cs + 1 ≤ k := ha.front.idle_lt
    -- at the check, a period later at most
    have hnow : l.window - (idle cs + 1) • period ≤ l.checks expiry cs - c.time := by
      have hlater : l.checks expiry cs - (lastTime t cs + period) ≤ l.checks expiry cs - c.time :=
        sub_le_sub_left hnext _
      refine le_trans ?_ hlater
      rw [succ_nsmul, ← sub_sub, ← sub_sub]
      exact sub_le_sub_right ih period
    have hgood : c.time < l.checks expiry cs := by
      have hle : (idle cs + 1) • period ≤ k • period := nsmul_le_nsmul_left hperiod hidle
      have hpos : 0 < l.window - (idle cs + 1) • period := sub_pos.mpr (hle.trans_lt hk)
      exact sub_pos.mp (hpos.trans_le hnow)
    rw [Lease.checks_concat, lastTime_concat, idle_concat]
    unfold Lease.check
    by_cases hc : c.served = true
    · rw [if_pos hc, zero_nsmul, sub_zero]
      by_cases hleft : l.checks expiry cs - c.time < l.window
      · rw [if_pos ⟨hleft, hgood, hc⟩, add_sub_cancel_left]
        exact hlife
      · rw [if_neg fun hno => hleft hno.1]
        exact not_lt.mp hleft
    · rw [if_neg hc, if_neg fun hno => hc hno.2.2]
      exact hnow

/-- **The lease stays alive**, at every check and until the next one is due. -/
theorem Lease.alive (hstart : l.window ≤ expiry - t) (hlife : l.window ≤ l.life)
    (hperiod : 0 ≤ period) (hk : k • period < l.window) (hp : Paced period t cs)
    (ha : Attended k cs) {now : T} (hnow : now ≤ lastTime t cs + period) :
    now < l.checks expiry cs := by
  have hleft := l.remaining hstart hlife hperiod hk hp ha
  have hidle : (idle cs + 1) • period ≤ k • period := nsmul_le_nsmul_left hperiod ha.idle_lt
  have hpos : 0 < l.window - (idle cs + 1) • period := sub_pos.mpr (hidle.trans_lt hk)
  rw [succ_nsmul, ← sub_sub] at hpos
  have hmore := hpos.trans_le (sub_le_sub_right hleft period)
  rw [sub_sub] at hmore
  exact hnow.trans_lt (sub_pos.mp hmore)

end

end ZeroTrustLab.Lib
