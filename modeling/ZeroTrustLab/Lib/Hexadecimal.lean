import Mathlib.Tactic.IntervalCases
import ZeroTrustLab.Lib.Text

/-!
# Spellings of a number in base 16

A number has many spellings: either case for each letter, and leading zeros.
`Spells n s` is the relation; `int16?_spells` says that reading is a function
on it, and `spells_hex` that what is printed is a spelling. With both, numbers
survive any number of trips through text.

Reading goes digit by digit from the left with an accumulator, printing from
the right, so the bridge is what one more digit at the end does to the value
(`hexDigits?_concat`). Blanks, signs, the prefix `0x` and underscores are all
accepted by the reader, and none of them is a digit.
-/

namespace ZeroTrustLab.Lib.Text

/-- `s` is `n` in hexadecimal: leading zeros, then its digits in any case. -/
def Spells (n : ℕ) (s : List Char) : Prop :=
  ∃ k t, s = List.replicate k '0' ++ t ∧ t.map Char.toLower = Nat.toDigits 16 n

/-! ## One digit -/

theorem hexDigit?_digitChar {d : ℕ} (hd : d < 16) : hexDigit? (Nat.digitChar d) = some d := by
  interval_cases d <;> rfl

/-- Case does not matter. -/
theorem hexDigit?_toLower (c : Char) : hexDigit? c.toLower = hexDigit? c := by
  by_cases hup : 65 ≤ c.toNat ∧ c.toNat ≤ 90
  · obtain ⟨hlow, hhigh⟩ := hup
    rw [← Char.ofNat_toNat c]
    generalize c.toNat = n at hlow hhigh
    interval_cases n <;> rfl
  · have hsame : c.toLower = c := by
      unfold Char.toLower
      exact dif_neg hup
    rw [hsame]

theorem hexDigit?_range {c : Char} {d : ℕ} (hc : hexDigit? c = some d) :
    (48 ≤ c.toNat ∧ c.toNat ≤ 57) ∨ (97 ≤ c.toNat ∧ c.toNat ≤ 102) ∨
      (65 ≤ c.toNat ∧ c.toNat ≤ 70) := by
  unfold hexDigit? at hc
  split at hc
  next h => exact .inl h
  next =>
    split at hc
    next h => exact .inr (.inl h)
    next =>
      split at hc
      next h => exact .inr (.inr h)
      next => simp at hc

/-- A digit is none of the characters that are no digits. -/
theorem hexDigit?_ne {c e : Char} {d : ℕ} (hc : hexDigit? c = some d)
    (he : hexDigit? e = none) : c ≠ e := by
  rintro rfl
  rw [hc] at he
  simp at he

/-- A digit is no blank. -/
theorem hexDigit?_not_space {c : Char} {d : ℕ} (hc : hexDigit? c = some d) :
    isIntSpace c = false := by
  have hrange := hexDigit?_range hc
  unfold isIntSpace isSpace
  simp only [Bool.or_eq_false_iff, Bool.and_eq_false_iff, decide_eq_false_iff_not, beq_eq_false_iff_ne]
  omega

/-! ## A run of digits -/

/-- One more digit. -/
theorem hexDigits?_concat {c : Char} {d v : ℕ} (hc : hexDigit? c = some d) :
    ∀ {s : List Char} {acc : ℕ} {b : Bool}, hexDigits? acc b s = some v →
      hexDigits? acc b (s ++ [c]) = some (v * 16 + d)
  | [], acc, b, hs => by
    have hne : c ≠ '_' := hexDigit?_ne hc rfl
    cases b with
    | false => simp [hexDigits?] at hs
    | true =>
      obtain rfl : acc = v := by simpa [hexDigits?] using hs
      simp [hexDigits?, hne, hc]
  | e :: s, acc, b, hs => by
    unfold hexDigits? at hs
    show hexDigits? acc b (e :: (s ++ [c])) = _
    unfold hexDigits?
    split at hs
    next he =>
      rw [if_pos he]
      split at hs
      next hb =>
        rw [if_pos hb]
        exact hexDigits?_concat hc hs
      next => simp at hs
    next he =>
      rw [if_neg he]
      split at hs
      next d' hd' => exact hexDigits?_concat hc hs
      next => simp at hs

/-- Digits alone are read as the number they spell. -/
theorem hexDigits?_digits {n : ℕ} {t : List Char} (b : Bool)
    (ht : t.map Char.toLower = Nat.toDigits 16 n) : hexDigits? 0 b t = some n := by
  induction n using Nat.strongRecOn generalizing t with
  | ind n ih =>
    have hlast : ∀ {c : Char} {d : ℕ}, d < 16 → c.toLower = Nat.digitChar d →
        hexDigit? c = some d := by
      intro c d hd hc
      rw [← hexDigit?_toLower, hc, hexDigit?_digitChar hd]
    rw [Nat.toDigits_eq_if (by omega)] at ht
    split at ht
    next hsmall =>
      obtain ⟨c, rfl, hc⟩ := List.map_eq_singleton_iff.mp ht
      have hd := hlast hsmall hc
      have hne : c ≠ '_' := hexDigit?_ne hd rfl
      simp [hexDigits?, hne, hd]
    next hlarge =>
      obtain ⟨t₁, t₂, rfl, ht₁, ht₂⟩ := List.map_eq_append_iff.mp ht
      obtain ⟨c, rfl, hc⟩ := List.map_eq_singleton_iff.mp ht₂
      have hdigits := ih (n / 16) (by omega) ht₁
      rw [hexDigits?_concat (hlast (Nat.mod_lt n (by omega)) hc) hdigits, Nat.div_add_mod']

theorem hexDigits?_zeros (k : ℕ) {t : List Char} {n : ℕ}
    (ht : ∀ b, hexDigits? 0 b t = some n) (b : Bool) :
    hexDigits? 0 b (List.replicate k '0' ++ t) = some n := by
  induction k generalizing b with
  | zero => exact ht b
  | succ k ih => exact ih true

/-! ## Reading and printing -/

theorem mem_toDigits {n : ℕ} {c : Char} (hc : c ∈ Nat.toDigits 16 n) :
    ∃ d < 16, c = Nat.digitChar d := by
  induction n using Nat.strongRecOn with
  | ind n ih =>
    rw [Nat.toDigits_eq_if (by omega)] at hc
    split at hc
    next hsmall => exact ⟨n, hsmall, List.mem_singleton.mp hc⟩
    next hlarge =>
      rcases List.mem_append.mp hc with hc | hc
      · exact ih (n / 16) (by omega) hc
      · exact ⟨n % 16, Nat.mod_lt n (by omega), List.mem_singleton.mp hc⟩

/-- A spelling is made of digits. -/
theorem Spells.digits {n : ℕ} {s : List Char} (hs : Spells n s) :
    ∀ c ∈ s, ∃ d, hexDigit? c = some d := by
  obtain ⟨k, t, rfl, ht⟩ := hs
  intro c hc
  rcases List.mem_append.mp hc with hc | hc
  · rw [List.eq_of_mem_replicate hc]
    exact ⟨0, rfl⟩
  · have hmem : c.toLower ∈ Nat.toDigits 16 n := by
      rw [← ht]
      exact List.mem_map_of_mem hc
    obtain ⟨d, hd, he⟩ := mem_toDigits hmem
    refine ⟨d, ?_⟩
    rw [← hexDigit?_toLower, he, hexDigit?_digitChar hd]

/-- No spelling looks like `0x`. -/
theorem hexPrefix_digits {s : List Char} (hs : ∀ c ∈ s, ∃ d, hexDigit? c = some d) :
    hexPrefix s = s := by
  unfold hexPrefix
  split
  next x cs =>
    obtain ⟨d, hd⟩ := hs x (by simp)
    rw [if_neg]
    intro hx
    rcases hx with hx | hx
    · exact hexDigit?_ne hd rfl hx
    · exact hexDigit?_ne hd rfl hx
  next => rfl

/-- **Every spelling of a number is read as it.** -/
theorem int16?_spells {n : ℕ} {s : List Char} (hs : Spells n s) : int16? s = some (n : ℤ) := by
  have hdigits := hs.digits
  have htrim : trim isIntSpace s = s := by
    refine trim_eq_self (fun c hc => ?_) fun c hc => ?_
    · obtain ⟨d, hd⟩ := hdigits c (List.mem_of_head? hc)
      exact hexDigit?_not_space hd
    · obtain ⟨d, hd⟩ := hdigits c (List.mem_of_getLast? hc)
      exact hexDigit?_not_space hd
  have hvalue : hexDigits? 0 false (hexPrefix s) = some n := by
    rw [hexPrefix_digits hdigits]
    obtain ⟨k, t, rfl, ht⟩ := hs
    exact hexDigits?_zeros k (fun b => hexDigits?_digits b ht) false
  unfold int16?
  rw [htrim]
  split
  next cs =>
    obtain ⟨d, hd⟩ := hdigits '-' (List.mem_cons_self ..)
    exact absurd rfl (hexDigit?_ne hd rfl)
  next cs =>
    obtain ⟨d, hd⟩ := hdigits '+' (List.mem_cons_self ..)
    exact absurd rfl (hexDigit?_ne hd rfl)
  next => rw [hvalue]; rfl

/-- What is printed is a spelling. -/
theorem spells_hex (n : ℕ) : Spells n (hex n) := by
  refine ⟨0, Nat.toDigits 16 n, rfl, ?_⟩
  conv_rhs => rw [← List.map_id (Nat.toDigits 16 n)]
  refine List.map_congr_left fun c hc => ?_
  obtain ⟨d, hd, rfl⟩ := mem_toDigits hc
  interval_cases d <;> rfl

end ZeroTrustLab.Lib.Text
