import Mathlib.Data.List.Nodup

/-!
# Reading a growing list page by page

A client reads a sorted list in pages of one size and stops at the first page
that is not full. Between two reads rows may be inserted anywhere, none is
removed. `mem_pages` says that nothing of the first list is missed: what was
not seen yet can only have moved to a later offset.

`mergeSort_sublist` is where growth comes from: sorting more rows leaves those
that were there in their order, as long as the order does not tie two of them.

The induction is over the reads, with one invariant: a row of the first list is
on a page that was read, or lies beyond the offset reached. An insertion can
only push it further on, and the first page that is not full has nothing beyond
it.
-/

namespace ZeroTrustLab.Lib

variable {α : Type}

/-- The `k`-th page. -/
def page (l : List α) (size k : ℕ) : List α := (l.drop (k * size)).take size

/-- A page is a part of the list, in its order. -/
theorem page_sublist (l : List α) (size k : ℕ) : (page l size k).Sublist l :=
  (List.take_sublist ..).trans (List.drop_sublist ..)

/-- The first pages are a prefix. -/
theorem flatMap_page (l : List α) (size n : ℕ) :
    (List.range n).flatMap (page l size) = l.take (n * size) := by
  induction n with
  | zero => simp
  | succ n ih =>
    rw [List.range_succ, List.flatMap_append, ih, List.flatMap_singleton, Nat.succ_mul,
      List.take_add]
    rfl

/-- Behind a page that is not full there is nothing. -/
theorem drop_of_short {l : List α} {size n : ℕ} (h : (page l size n).length < size) :
    l.drop ((n + 1) * size) = [] := by
  unfold page at h
  rw [List.length_take, List.length_drop] at h
  rw [List.drop_eq_nil_iff, Nat.succ_mul]
  omega

/-- The pages up to the first short one are the whole list. -/
theorem flatMap_page_of_short {l : List α} {size n : ℕ} (h : (page l size n).length < size) :
    (List.range (n + 1)).flatMap (page l size) = l := by
  rw [flatMap_page, List.take_of_length_le (List.drop_eq_nil_iff.mp (drop_of_short h))]

/-- One read: what is not behind the pages read so far was seen just now or is
not behind this page either. -/
theorem mem_page_or {l l' : List α} {size k : ℕ} (hgrow : l.Sublist l') {x : α}
    (hx : x ∈ l.drop (k * size)) : x ∈ page l size k ∨ x ∈ l'.drop ((k + 1) * size) := by
  rw [← List.take_append_drop size (l.drop (k * size)), List.drop_drop] at hx
  rcases List.mem_append.mp hx with hseen | hlater
  · exact .inl hseen
  · -- rows inserted in front push it further back
    rw [Nat.succ_mul]
    exact .inr ((hgrow.drop _).subset hlater)

/-- **Nothing is missed.** -/
theorem mem_pages {l : ℕ → List α} {size n : ℕ} (hgrow : ∀ k < n, (l k).Sublist (l (k + 1)))
    (hshort : (page (l n) size n).length < size) {x : α} (hx : x ∈ l 0) :
    ∃ k ≤ n, x ∈ page (l k) size k := by
  have hreads : ∀ m ≤ n, (∃ k < m, x ∈ page (l k) size k) ∨ x ∈ (l m).drop (m * size) := by
    intro m
    induction m with
    | zero =>
      intro _
      rw [Nat.zero_mul]
      exact .inr hx
    | succ m ih =>
      intro hm
      rcases ih (by omega) with ⟨k, hk, hseen⟩ | hlater
      · exact .inl ⟨k, by omega, hseen⟩
      · rcases mem_page_or (hgrow m (by omega)) hlater with hseen | hlater
        · exact .inl ⟨m, by omega, hseen⟩
        · exact .inr hlater
  rcases hreads n (Nat.le_refl n) with ⟨k, hk, hseen⟩ | hlast
  · exact ⟨k, by omega, hseen⟩
  · rcases mem_page_or (List.Sublist.refl (l n)) hlast with hseen | hbehind
    · exact ⟨n, Nat.le_refl n, hseen⟩
    · rw [drop_of_short hshort] at hbehind
      exact absurd hbehind List.not_mem_nil

/-- Sorting some more rows keeps the others in their order. -/
theorem mergeSort_sublist {le : α → α → Bool} (htrans : ∀ a b c, le a b → le b c → le a c)
    (htotal : ∀ a b, le a b || le b a) {l l' new : List α} (hl : l'.Perm (l ++ new))
    (hanti : ∀ a ∈ l', ∀ b ∈ l', le a b → le b a → a = b) :
    (l.mergeSort le).Sublist (l'.mergeSort le) := by
  have hsorted := List.pairwise_mergeSort htrans htotal
  have hsame : (l.mergeSort le ++ new).mergeSort le = l'.mergeSort le := by
    have hperm : ((l.mergeSort le ++ new).mergeSort le).Perm l' :=
      (List.mergeSort_perm _ _).trans
        (((List.mergeSort_perm l le).append_right new).trans hl.symm)
    refine List.Perm.eq_of_pairwise (fun a b ha hb => ?_) (hsorted _) (hsorted _)
      (hperm.trans (List.mergeSort_perm _ _).symm)
    exact hanti a (hperm.mem_iff.mp ha) b (List.mem_mergeSort.mp hb)
  rw [← hsame]
  exact List.sublist_mergeSort htrans htotal (hsorted l) (List.sublist_append_left ..)

/-- Sorting is stable: rows that tie keep an order they came in. -/
theorem pairwise_mergeSort_stable {le : α → α → Bool} (htrans : ∀ a b c, le a b → le b c → le a c)
    (htotal : ∀ a b, le a b || le b a) {r : α → α → Prop} (hrefl : ∀ a, r a a) {l : List α}
    (hl : l.Pairwise r) : (l.mergeSort le).Pairwise fun a b => le a b ∧ (le b a → r a b) := by
  rw [← List.mergeSort_zipIdx, List.pairwise_map]
  have hsorted := List.pairwise_mergeSort (List.zipIdxLE_trans htrans) (List.zipIdxLE_total htotal)
    l.zipIdx
  refine hsorted.imp_of_mem fun {x y} hx hy hxy => ?_
  have hfst := List.mem_zipIdx_iff_getElem?.mp (List.mem_mergeSort.mp hx)
  have hsnd := List.mem_zipIdx_iff_getElem?.mp (List.mem_mergeSort.mp hy)
  unfold List.zipIdxLE at hxy
  by_cases hle : le x.1 y.1
  · refine ⟨hle, fun hge => ?_⟩
    rw [if_pos hle, if_pos hge, decide_eq_true_eq] at hxy
    rcases Nat.lt_or_eq_of_le hxy with hlt | heq
    · obtain ⟨hi, hfst⟩ := List.getElem?_eq_some_iff.mp hfst
      obtain ⟨hj, hsnd⟩ := List.getElem?_eq_some_iff.mp hsnd
      rw [← hfst, ← hsnd]
      exact List.pairwise_iff_getElem.mp hl _ _ hi hj hlt
    · rw [heq, hsnd] at hfst
      rw [Option.some.inj hfst]
      exact hrefl x.1
  · rw [if_neg hle] at hxy
    exact absurd hxy (by simp)

end ZeroTrustLab.Lib
