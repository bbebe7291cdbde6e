import Mathlib.Data.List.AList
import ZeroTrustLab.Lib.Tally

/-!
# Dictionaries as Python's loops fill them

`Dict κ ν` is Mathlib's association list without repeated keys. Two loops are
described by what they leave behind: counting rows by a key (`lookup_countBy`,
`total_countBy`) and copying one dictionary into another, entry by entry
(`lookup_copy`, `total_copy`). The order of the entries is not specified.

Both loops are folds, and each is proved by induction over the list with the
dictionary it starts from left general; the statements at the empty dictionary
are special cases. Totals are counted by erasing one key at a time
(`tally_kerase`).
-/

namespace ZeroTrustLab.Lib

abbrev Dict (κ ν : Type) := AList fun _ : κ => ν

namespace Dict

variable {κ ν α : Type} [DecidableEq κ]

/-- The sum of all values. -/
def total (d : Dict κ ℕ) : ℕ := tally Sigma.snd d.entries

/-- `counts[key] += 1` of a `Counter`. -/
def bump (d : Dict κ ℕ) (k : κ) : Dict κ ℕ := d.insert k ((d.lookup k).getD 0 + 1)

/-- The loop that counts rows by a key. -/
def countBy (f : α → κ) (rows : List α) : Dict κ ℕ := rows.foldl (fun d a => d.bump (f a)) ∅

/-- The loop that sets each entry of a dictionary in an empty one. -/
def copy (d : Dict κ ν) : Dict κ ν := d.entries.foldl (fun g e => g.insert e.1 e.2) ∅

/-! ## One entry -/

private theorem tally_kerase (k : κ) (l : List (Sigma fun _ : κ => ℕ)) :
    tally Sigma.snd (l.kerase k) + (l.dlookup k).getD 0 = tally Sigma.snd l := by
  induction l with
  | nil => rfl
  | cons e l ih =>
    by_cases hk : k = e.1
    · subst hk
      rw [List.kerase_cons_eq rfl, tally_cons]
      show _ + (List.dlookup e.1 (⟨e.1, e.2⟩ :: l)).getD 0 = _
      rw [List.dlookup_cons_eq, Option.getD_some]
      omega
    · rw [List.kerase_cons_ne hk, List.dlookup_cons_ne _ _ hk, tally_cons, tally_cons]
      omega

/-- Setting an entry replaces its value in the sum. -/
theorem total_insert (d : Dict κ ℕ) (k : κ) (v : ℕ) :
    total (d.insert k v) + (d.lookup k).getD 0 = total d + v := by
  have herase := tally_kerase k d.entries
  unfold total
  rw [AList.entries_insert, tally_cons, ← herase]
  show v + _ + (List.dlookup k d.entries).getD 0 = _
  omega

/-- Counting one more adds one to the total. -/
theorem total_bump (d : Dict κ ℕ) (k : κ) : total (d.bump k) = total d + 1 := by
  have hinsert := total_insert d k ((d.lookup k).getD 0 + 1)
  unfold bump
  omega

/-! ## Counting -/

/-- After counting a list, each key has its earlier count and its
occurrences. -/
private theorem lookup_bumps (f : α → κ) (k : κ) (rows : List α) : ∀ d : Dict κ ℕ,
    (rows.foldl (fun d a => d.bump (f a)) d).lookup k =
      if rows.countP (fun a => decide (f a = k)) = 0 then d.lookup k
      else some ((d.lookup k).getD 0 + rows.countP fun a => decide (f a = k)) := by
  induction rows with
  | nil => exact fun d => (if_pos rfl).symm
  | cons a rows ih =>
    intro d
    rw [List.foldl_cons, ih]
    by_cases hk : f a = k
    · have hbump : (d.bump (f a)).lookup k = some ((d.lookup k).getD 0 + 1) := by
        rw [← hk]
        exact AList.lookup_insert d
      rw [hbump, List.countP_cons_of_pos (by simpa using hk), if_neg (Nat.succ_ne_zero _)]
      split
      next hzero => rw [hzero]
      next =>
        rw [Option.getD_some]
        exact congrArg some (by omega)
    · have hbump : (d.bump (f a)).lookup k = d.lookup k :=
        AList.lookup_insert_ne fun he => hk he.symm
      rw [hbump, List.countP_cons_of_neg (by simpa using hk)]

/-- **What the counting loop has for a key**: nothing, or how many rows have
it. -/
theorem lookup_countBy (f : α → κ) (rows : List α) (k : κ) :
    (countBy f rows).lookup k =
      if rows.countP (fun a => decide (f a = k)) = 0 then none
      else some (rows.countP fun a => decide (f a = k)) := by
  unfold countBy
  rw [lookup_bumps, AList.lookup_empty, Option.getD_none, Nat.zero_add]

/-- The counts of a list add up to its length. -/
theorem total_countBy (f : α → κ) (rows : List α) : total (countBy f rows) = rows.length := by
  have hall : ∀ d : Dict κ ℕ, total (rows.foldl (fun d a => d.bump (f a)) d)
      = total d + rows.length := by
    induction rows with
    | nil => exact fun d => rfl
    | cons a rows ih =>
      intro d
      rw [List.foldl_cons, ih, total_bump, List.length_cons]
      omega
  unfold countBy
  rw [hall]
  exact Nat.zero_add _

/-! ## Copying -/

/-- After setting a list of entries, each key has the entry of the list or what
it had. -/
private theorem lookup_sets (k : κ) (l : List (Sigma fun _ : κ => ν)) (hl : l.NodupKeys) :
    ∀ g : Dict κ ν, (l.foldl (fun g e => g.insert e.1 e.2) g).lookup k
      = (l.dlookup k).or (g.lookup k) := by
  induction l with
  | nil => exact fun g => rfl
  | cons e l ih =>
    intro g
    obtain ⟨hnew, hl⟩ := List.nodupKeys_cons.mp hl
    rw [List.foldl_cons, ih hl]
    by_cases hk : k = e.1
    · subst hk
      have hnone : List.dlookup e.1 l = none := List.dlookup_eq_none.mpr hnew
      have hfirst : List.dlookup e.1 (e :: l) = some e.2 := List.dlookup_cons_eq l e.1 e.2
      rw [hnone, AList.lookup_insert, Option.none_or, hfirst, Option.some_or]
    · rw [AList.lookup_insert_ne hk, List.dlookup_cons_ne _ _ hk]

theorem lookup_copy (d : Dict κ ν) (k : κ) : (copy d).lookup k = d.lookup k := by
  unfold copy
  rw [lookup_sets k d.entries d.nodupKeys, AList.lookup_empty, Option.or_none]
  rfl

private theorem tally_perm {f : α → ℕ} {l l' : List α} (h : l.Perm l') : tally f l = tally f l' := by
  induction h with
  | nil => rfl
  | cons a _ ih => rw [tally_cons, tally_cons, ih]
  | swap a b l =>
    simp only [tally_cons]
    omega
  | trans _ _ ih ih' => exact ih.trans ih'

theorem total_copy (d : Dict κ ℕ) : total (copy d) = total d := by
  refine tally_perm (List.lookup_ext (copy d).nodupKeys d.nodupKeys fun k v => ?_)
  exact Eq.to_iff (congrArg (v ∈ ·) (lookup_copy d k))

end Dict

end ZeroTrustLab.Lib
