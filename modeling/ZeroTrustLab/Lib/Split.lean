import ZeroTrustLab.Lib.Text

/-!
# `s.split(sep)` and `s.strip()`

What is in the list that `split` returns (`mem_split`), and what `strip`
returns: a text that it leaves as it is (`strip_strip`), the same one however
its argument was padded (`strip_pad`).

`Between sep s e` is the specification, free of recursion: the entry `e` stands
in `s` with a separator, or an end of the text, on either side, and holds none
itself. `split` returns exactly these, so a proof about a setting never unfolds
it.
-/

namespace ZeroTrustLab.Lib.Text

/-- `s.split(sep)`, for a separator of one character. -/
def split (sep : Char) (s : List Char) : List (List Char) := s.splitOn sep

/-! ## What `split` returns -/

/-- `e` stands in `s` between two separators, or between one and an end. -/
def Between (sep : Char) (s e : List Char) : Prop :=
  sep ∉ e ∧ ∃ front rest, s = front ++ e ++ rest ∧
    (front = [] ∨ front.getLast? = some sep) ∧ (rest = [] ∨ rest.head? = some sep)

theorem between_self {sep : Char} {e : List Char} (he : sep ∉ e) : Between sep e e :=
  ⟨he, [], [], by simp, .inl rfl, .inl rfl⟩

/-- A text is one word, or a word, a separator and a text. -/
theorem exists_word (sep : Char) (s : List Char) :
    sep ∉ s ∨ ∃ word rest, s = word ++ sep :: rest ∧ sep ∉ word := by
  by_cases hs : sep ∈ s
  · exact .inr (List.eq_append_cons_of_mem hs)
  · exact .inl hs

/-- Further to the right is still between. -/
theorem Between.append {sep : Char} {word s e : List Char} (h : Between sep s e) :
    Between sep (word ++ sep :: s) e := by
  obtain ⟨he, front, rest, rfl, hfront, hrest⟩ := h
  refine ⟨he, word ++ sep :: front, rest, by simp, .inr ?_, hrest⟩
  rcases hfront with rfl | hfront
  · simp
  · rcases List.eq_nil_or_concat front with rfl | ⟨f, c, rfl⟩
    · simp at hfront
    · rw [List.concat_eq_append] at hfront ⊢
      obtain rfl : c = sep := by simpa using hfront
      rw [← List.cons_append, ← List.append_assoc]
      exact List.getLast?_concat

/-- **The entries of a text** are what stands between its separators. -/
theorem mem_split {sep : Char} {s e : List Char} : e ∈ split sep s ↔ Between sep s e := by
  constructor
  · intro he
    induction hn : s.length using Nat.strongRecOn generalizing s with
    | ind n ih =>
      -- is there a separator left?
      rcases exists_word sep s with hs | ⟨word, rest, rfl, hw⟩
      · have hone : split sep s = [s] := List.splitOn_eq_singleton hs
        rw [hone] at he
        rw [List.mem_singleton.mp he]
        exact between_self hs
      · have hcut : split sep (word ++ sep :: rest) = word :: split sep rest :=
          List.splitOn_append_cons_self_of_not_mem hw rest
        rw [hcut] at he
        rcases List.mem_cons.mp he with rfl | he
        · exact ⟨hw, [], sep :: rest, by simp, .inl rfl, .inr rfl⟩
        · have hlt : rest.length < n := by
            rw [← hn]
            simp
            omega
          exact (ih rest.length hlt he rfl).append
  · intro ⟨he, front, rest, hs, hfront, hrest⟩
    have hone : split sep e = [e] := List.splitOn_eq_singleton he
    -- `e` is the first element of what is left of it to the end
    have hright : e ∈ split sep (e ++ rest) := by
      rcases hrest with rfl | hrest
      · rw [List.append_nil, hone]
        exact List.mem_singleton_self e
      · cases rest with
        | nil => simp at hrest
        | cons c r =>
          obtain rfl := Option.some.inj hrest
          have hcut : split c (e ++ c :: r) = split c e ++ split c r :=
            List.splitOn_append_cons_self e r
          rw [hcut, hone]
          exact List.mem_cons_self ..
    rw [hs, List.append_assoc]
    rcases hfront with rfl | hfront
    · exact hright
    · rcases List.eq_nil_or_concat front with rfl | ⟨f, c, rfl⟩
      · simp at hfront
      · rw [List.concat_eq_append] at hfront ⊢
        obtain rfl : c = sep := by simpa using hfront
        have hcut : split c (f ++ c :: (e ++ rest)) = split c f ++ split c (e ++ rest) :=
          List.splitOn_append_cons_self f (e ++ rest)
        rw [List.append_assoc, List.singleton_append, hcut]
        exact List.mem_append_right _ hright

/-! ## What `strip` returns -/

/-- Padding does not change what is left. -/
theorem trim_pad {p : Char → Bool} {u e v : List Char} (hu : ∀ c ∈ u, p c = true)
    (hv : ∀ c ∈ v, p c = true) : trim p (u ++ e ++ v) = trim p e := by
  have hback : ∀ x : List Char, (x ++ v).rdropWhile p = x.rdropWhile p := by
    intro x
    unfold List.rdropWhile
    rw [List.reverse_append, List.dropWhile_append_of_pos fun c hc => hv c (List.mem_reverse.mp hc)]
  unfold trim
  rw [List.append_assoc, List.dropWhile_append_of_pos hu, List.dropWhile_append]
  split
  next hempty =>
    -- only padding is left
    have hnil : e.dropWhile p = [] := List.isEmpty_iff.mp hempty
    rw [hnil, List.dropWhile_eq_nil_iff.mpr hv]
  next => exact hback _

theorem strip_pad {u e v : List Char} (hu : ∀ c ∈ u, isSpace c = true)
    (hv : ∀ c ∈ v, isSpace c = true) : strip (u ++ e ++ v) = strip e :=
  trim_pad hu hv

/-- What has been stripped has nothing to strip. -/
theorem strip_strip (s : List Char) : strip (strip s) = strip s := by
  unfold strip
  refine trim_eq_self (fun c hc => ?_) fun c hc => ?_
  · -- its first character is the first one that was not dropped
    have hprefix : trim isSpace s <+: s.dropWhile isSpace := List.rdropWhile_prefix _ _
    obtain ⟨rest, hrest⟩ := hprefix
    have hfirst := List.head?_dropWhile_not isSpace s
    rw [← hrest, List.head?_append_of_ne_nil _ (by rintro hnil; rw [hnil] at hc; simp at hc), hc]
      at hfirst
    exact hfirst
  · have hne : (s.dropWhile isSpace).rdropWhile isSpace ≠ [] := by
      intro hnil
      unfold trim at hc
      rw [hnil] at hc
      simp at hc
    have hlast := List.rdropWhile_last_not isSpace (s.dropWhile isSpace) hne
    have hget : (trim isSpace s).getLast?
        = some (((s.dropWhile isSpace).rdropWhile isSpace).getLast hne) :=
      List.getLast?_eq_getLast_of_ne_nil hne
    rw [hget] at hc
    rw [← Option.some.inj hc]
    simpa using hlast

end ZeroTrustLab.Lib.Text
