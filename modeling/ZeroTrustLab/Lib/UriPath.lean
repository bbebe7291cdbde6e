import Mathlib.Data.List.Forall2
import Mathlib.Data.List.MinMax
import Mathlib.Tactic.IntervalCases
import ZeroTrustLab.Lib.Url

/-!
# Normalized paths and the longest prefix

A server that chooses by path prefix compares with the *normalized* path: the
percent-decoded octets, with a run of slashes taken for one and the segments
`.` and `..` resolved. It may still hand on the path as it was sent, and then
the two ends read different paths out of one request.

`normalizePath_join` normalizes a path segment by segment; `resolveDots_keeps`
bounds what the `..` among its last segments can take away. The other end need
not even decode to the same octets: a client may send escapes that are not
UTF-8, and a text has U+FFFD there. `Alike.normalizePath` says that the two ends
still agree on every segment and every prefix in ASCII. `longest` is the choice
itself.
-/

namespace ZeroTrustLab.Lib.Url

open Lib.Text (hexDigit?)

/-- The octets of a text. -/
abbrev octets (text : String) : List UInt8 := utf8 text.toList

def slash : UInt8 := 47

def dot : UInt8 := 46

/-- Every `%` begins an escape, and none stands for NUL. -/
def wellEscaped : List Char → Bool
  | [] => true
  | c :: cs =>
    if c = '%' then
      match cs with
      | h :: l :: ds =>
        match hexDigit? h, hexDigit? l with
        | some a, some b => a * 16 + b != 0 && wellEscaped ds
        | _, _ => false
      | _ => false
    else wellEscaped cs

/-! ## Segments -/

/-- A segment that names no child. -/
def Special (seg : List UInt8) : Prop := seg = [] ∨ seg = [dot] ∨ seg = [dot, dot]

instance (seg : List UInt8) : Decidable (Special seg) :=
  inferInstanceAs (Decidable (seg = [] ∨ seg = [dot] ∨ seg = [dot, dot]))

/-- The segments that are left, after those on the stack (the last one first);
`none` when a `..` leads above the root. -/
def resolveDots : List (List UInt8) → List (List UInt8) → Option (List (List UInt8))
  | stack, [] => some stack.reverse
  | stack, seg :: segs =>
    if seg = [] ∨ seg = [dot] then resolveDots stack segs
    else if seg = [dot, dot] then stack.tail?.bind fun below => resolveDots below segs
    else resolveDots (seg :: stack) segs

/-- The path made of the segments. -/
def join (segs : List (List UInt8)) : List UInt8 := segs.flatMap (slash :: ·)

/-- A path whose last segment names no child ends in a slash. -/
def ending (segs : List (List UInt8)) : List (List UInt8) :=
  if Special (segs.getLastD []) then [[]] else []

/-- The normalized path; `none` for a path that does not begin with a slash or
leads above the root. -/
def normalizePath : List UInt8 → Option (List UInt8)
  | [] => none
  | c :: cs =>
    if c = slash then
      (resolveDots [] (cs.splitOn slash)).map fun kept => join (kept ++ ending (cs.splitOn slash))
    else none

theorem join_append (xs ys : List (List UInt8)) : join (xs ++ ys) = join xs ++ join ys :=
  List.flatMap_append

theorem join_cons (seg : List UInt8) (segs : List (List UInt8)) :
    join (seg :: segs) = slash :: [slash].intercalate (seg :: segs) := by
  induction segs generalizing seg with
  | nil => simp [join]
  | cons next segs ih =>
    show slash :: (seg ++ join (next :: segs)) = _
    rw [ih, List.intercalate_cons_cons]
    simp

/-- Segment by segment. -/
theorem normalizePath_join {segs : List (List UInt8)} (hne : segs ≠ [])
    (hs : ∀ seg ∈ segs, slash ∉ seg) :
    normalizePath (join segs) = (resolveDots [] segs).map fun kept => join (kept ++ ending segs) := by
  obtain ⟨seg, segs, rfl⟩ := List.exists_cons_of_ne_nil hne
  rw [join_cons, normalizePath, if_pos rfl, List.splitOn_intercalate slash hs hne]

/-- `k` segments `..` take away at most `k` of those before them. -/
theorem resolveDots_keeps : ∀ {segs stack kept : List (List UInt8)},
    resolveDots stack segs = some kept →
      stack.reverse.take (stack.length - segs.count [dot, dot]) <+: kept
  | [], stack, kept, h => by
    obtain rfl := Option.some.inj h
    exact List.take_prefix _ _
  | seg :: segs, stack, kept, h => by
    rw [resolveDots] at h
    by_cases hskip : seg = [] ∨ seg = [dot]
    · rw [if_pos hskip] at h
      have hne : seg ≠ [dot, dot] := by
        rintro rfl
        exact absurd hskip (by decide)
      rw [List.count_cons_of_ne hne]
      exact resolveDots_keeps h
    · rw [if_neg hskip] at h
      by_cases hup : seg = [dot, dot]
      · subst hup
        rw [if_pos rfl] at h
        cases stack with
        | nil => simp at h
        | cons top below =>
          have hkept := resolveDots_keeps h
          rw [List.count_cons_self]
          refine List.IsPrefix.trans ?_ hkept
          rw [List.reverse_cons, List.length_cons, show below.length + 1
            - (segs.count [dot, dot] + 1) = below.length - segs.count [dot, dot] by omega,
            List.take_append_of_le_length (by simp)]
      · rw [if_neg hup] at h
        have hkept := resolveDots_keeps h
        rw [List.count_cons_of_ne hup]
        rw [List.reverse_cons, List.length_cons] at hkept
        have hshort : stack.reverse.take (stack.length - segs.count [dot, dot])
            = (stack.reverse ++ [seg]).take (stack.length - segs.count [dot, dot]) :=
          (List.take_append_of_le_length (by simp)).symm
        rw [hshort]
        exact (List.take_prefix_take_left (by omega)).trans hkept

/-- Segments that name children stay. -/
theorem resolveDots_plain : ∀ {front : List (List UInt8)}, (∀ seg ∈ front, ¬ Special seg) →
    ∀ stack rest, resolveDots stack (front ++ rest) = resolveDots (front.reverse ++ stack) rest
  | [], _, _, _ => rfl
  | seg :: front, h, stack, rest => by
    have hseg := h seg (List.mem_cons_self ..)
    rw [List.cons_append, resolveDots, if_neg fun hs => hseg (hs.imp_right .inl),
      if_neg fun hs => hseg (.inr (.inr hs)),
      resolveDots_plain (fun s hs => h s (List.mem_cons_of_mem _ hs))]
    simp

/-- A text without a slash has none in its encoding. -/
theorem slash_notMem_utf8 {text : List Char} (h : '/' ∉ text) : slash ∉ utf8 text :=
  fun hmem => h (mem_of_octet_mem (by decide) hmem)

/-! ## Octets that are the same but beyond ASCII -/

section Alike

variable {xs ys : List UInt8} {segs segs' stack stack' : List (List UInt8)}

/-- There is no slash among octets beyond ASCII. -/
theorem slash_notMem_high {front : List UInt8} (h : ∀ b ∈ front, 128 ≤ b.toNat) : slash ∉ front := by
  intro hmem
  exact absurd (h slash hmem) (by decide)

theorem splitOn_append {front : List UInt8} (h : slash ∉ front) (xs : List UInt8) :
    (front ++ xs).splitOn slash = (xs.splitOn slash).modifyHead (front ++ ·) := by
  induction front with
  | nil => exact (congrFun List.modifyHead_id _).symm
  | cons b front ih =>
    obtain ⟨hb, hfront⟩ := not_or.mp (mt List.mem_cons.mpr h)
    rw [List.cons_append, List.splitOn_cons_eq_if_modifyHead, if_neg (by simpa using Ne.symm hb),
      ih hfront, List.modifyHead_modifyHead]
    rfl

theorem forall₂_modifyHead {f g : List UInt8 → List UInt8}
    (hfg : ∀ {x y}, Alike x y → Alike (f x) (g y)) (h : List.Forall₂ Alike segs segs') :
    List.Forall₂ Alike (segs.modifyHead f) (segs'.modifyHead g) := by
  cases h with
  | nil => exact .nil
  | cons hxy h => exact .cons (hfg hxy) h

/-- The segments of the one are those of the other. -/
theorem Alike.splitOn (h : Alike xs ys) :
    List.Forall₂ Alike (xs.splitOn slash) (ys.splitOn slash) := by
  induction h with
  | nil => exact .cons .nil .nil
  | @ascii b xs ys hb _ ih =>
    by_cases hs : b = slash
    · subst hs
      have hcons : ∀ zs : List UInt8, (slash :: zs).splitOn slash = [] :: zs.splitOn slash := by
        intro zs
        rw [List.splitOn_cons_eq_if_modifyHead]
        exact if_pos (by decide)
      rw [hcons, hcons]
      exact .cons .nil ih
    · have hno : slash ∉ [b] := by simpa using Ne.symm hs
      have hx := splitOn_append hno xs
      have hy := splitOn_append hno ys
      rw [List.singleton_append] at hx hy
      rw [hx, hy]
      exact forall₂_modifyHead (fun hxy => .ascii hb hxy) ih
  | high hf hb hfront hback _ ih =>
    rw [splitOn_append (slash_notMem_high hfront), splitOn_append (slash_notMem_high hback)]
    exact forall₂_modifyHead (fun hxy => .high hf hb hfront hback hxy) ih

/-- The special segments are ASCII, so the two are special together. -/
theorem Alike.special (h : Alike xs ys) : Special xs ↔ Special ys := by
  unfold Special
  rw [h.eq_iff (show Ascii [] by decide), h.eq_iff (show Ascii [dot] by decide),
    h.eq_iff (show Ascii [dot, dot] by decide)]

/-- The two resolve their dot segments in the same way. -/
theorem resolveDots_alike (h : List.Forall₂ Alike segs segs') :
    ∀ {stack stack'}, List.Forall₂ Alike stack stack' →
      Option.Rel (List.Forall₂ Alike) (resolveDots stack segs) (resolveDots stack' segs') := by
  induction h with
  | nil => exact fun hs => .some (List.rel_reverse hs)
  | @cons seg seg' segs segs' hseg _ ih =>
    intro stack stack' hs
    have hempty := hseg.eq_iff (show Ascii [] by decide)
    have hdot := hseg.eq_iff (show Ascii [dot] by decide)
    have hdots := hseg.eq_iff (show Ascii [dot, dot] by decide)
    simp only [resolveDots, hempty, hdot, hdots]
    split
    next => exact ih hs
    next =>
      split
      next =>
        cases hs with
        | nil => exact .none
        | cons _ hbelow => exact ih hbelow
      next => exact ih (.cons hseg hs)

/-- Segments that are alike make paths that are. -/
theorem join_alike (h : List.Forall₂ Alike segs segs') : Alike (join segs) (join segs') := by
  induction h with
  | nil => exact .nil
  | cons hseg _ ih => exact .ascii (by decide) (hseg.append ih)

theorem ending_alike (h : List.Forall₂ Alike segs segs') :
    List.Forall₂ Alike (ending segs) (ending segs') := by
  have hlast : Alike (segs.getLastD []) (segs'.getLastD []) := by
    have hrel := List.rel_reverse h
    rw [List.getLastD_eq_getLast?, List.getLastD_eq_getLast?, ← List.head?_reverse,
      ← List.head?_reverse]
    generalize segs.reverse = last, segs'.reverse = last' at hrel
    cases hrel with
    | nil => exact .nil
    | cons hseg _ => exact hseg
  simp only [ending, hlast.special]
  split
  next => exact .cons .nil .nil
  next => exact .nil

/-- **Normalizing keeps the difference beyond ASCII**: the two paths are refused
together, and what is left of them is the same but there. -/
theorem Alike.normalizePath (h : Alike xs ys) :
    Option.Rel Alike (normalizePath xs) (normalizePath ys) := by
  cases h with
  | nil => exact .none
  | @ascii b xs ys hb h =>
    have hsegs := h.splitOn
    have hresolve := resolveDots_alike hsegs .nil
    have hending := ending_alike hsegs
    rw [Url.normalizePath, Url.normalizePath]
    generalize resolveDots [] (xs.splitOn slash) = kept, resolveDots [] (ys.splitOn slash) = kept'
      at hresolve
    split
    next =>
      cases hresolve with
      | none => exact .none
      | some hkept => exact .some (join_alike (List.rel_append hkept hending))
    next => exact .none
  | high hf hb hfront hback h =>
    have hnone : ∀ {front rest : List UInt8}, front ≠ [] → (∀ b ∈ front, 128 ≤ b.toNat) →
        Url.normalizePath (front ++ rest) = none := by
      intro front rest hne hhigh
      obtain ⟨b, front, rfl⟩ := List.exists_cons_of_ne_nil hne
      have hne : b ≠ slash := fun he => slash_notMem_high hhigh (he ▸ List.mem_cons_self ..)
      rw [List.cons_append, Url.normalizePath, if_neg hne]
    rw [hnone hf hfront, hnone hb hback]
    exact .none

end Alike

/-! ## Encoded text as a target -/

/-- An octet that stands for itself is none of the characters with a meaning. -/
theorem unreserved_plain {b : UInt8} (hb : unreserved b = true) :
    Char.ofNat b.toNat ≠ '%' ∧ Char.ofNat b.toNat ≠ '?' ∧ Char.ofNat b.toNat ≠ '#' := by
  have hall : ∀ n : Fin 256, unreserved (UInt8.ofNat n) = true →
      Char.ofNat n ≠ '%' ∧ Char.ofNat n ≠ '?' ∧ Char.ofNat n ≠ '#' := by
    decide +kernel
  have h := hall ⟨b.toNat, b.toNat_lt⟩
  rw [UInt8.ofNat_toNat] at h
  exact h hb

theorem hexDigit_plain {n : Nat} (h : n < 16) : hexDigit n ≠ '?' ∧ hexDigit n ≠ '#' := by
  revert n
  decide

/-- What stands for an octet ends no path. -/
theorem quoteByte_chars (b : UInt8) : ∀ c ∈ quoteByte b, c ≠ '?' ∧ c ≠ '#' := by
  intro c hc
  have hlt : b.toNat < 256 := b.toNat_lt
  unfold quoteByte at hc
  split at hc
  next hu =>
    rw [List.mem_singleton.mp hc]
    exact (unreserved_plain hu).2
  next =>
    simp only [List.mem_cons, List.not_mem_nil, or_false] at hc
    rcases hc with rfl | rfl | rfl
    · decide
    · exact hexDigit_plain (by omega)
    · exact hexDigit_plain (by omega)

theorem quote_chars (text : List Char) : ∀ c ∈ quote text, c ≠ '?' ∧ c ≠ '#' := by
  intro c hc
  obtain ⟨b, -, hb⟩ := List.mem_flatMap.mp hc
  exact quoteByte_chars b c hb

/-- An encoded octet other than NUL is well escaped. -/
theorem wellEscaped_quoteByte {b : UInt8} (hb : b ≠ 0) (cs : List Char) :
    wellEscaped (quoteByte b ++ cs) = wellEscaped cs := by
  have hlt : b.toNat < 256 := b.toNat_lt
  have hpos : b.toNat ≠ 0 := fun h => hb (UInt8.toNat_inj.mp h)
  unfold quoteByte
  by_cases hu : unreserved b = true
  · rw [if_pos hu, List.singleton_append, wellEscaped.eq_def]
    exact if_neg (unreserved_plain hu).1
  · have hhi : hexDigit? (hexDigit (b.toNat / 16)) = some (b.toNat / 16) :=
      hexDigit_hexDigit? (by omega)
    have hlo : hexDigit? (hexDigit (b.toNat % 16)) = some (b.toNat % 16) :=
      hexDigit_hexDigit? (by omega)
    have hsum : b.toNat / 16 * 16 + b.toNat % 16 = b.toNat := by omega
    rw [if_neg hu]
    show wellEscaped ('%' :: _ :: _ :: cs) = _
    rw [wellEscaped, if_pos rfl]
    simp only [hhi, hlo, hsum]
    simp [hpos]

/-- An encoded text without NUL is well escaped. -/
theorem wellEscaped_quote {text : List Char} (h : (0 : UInt8) ∉ utf8 text) :
    wellEscaped (quote text) = true := by
  unfold quote
  generalize utf8 text = bytes at h
  induction bytes with
  | nil => rfl
  | cons b bs ih =>
    rw [List.flatMap_cons, wellEscaped_quoteByte fun hb => h (hb ▸ List.mem_cons_self ..)]
    exact ih fun hbs => h (List.mem_cons_of_mem _ hbs)

/-! ## Paths that need no encoding -/

/-- A segment that is the same in a URL, and names a child: `unreserved`
characters, and neither `.` nor `..`. -/
def Segment (text : List Char) : Prop :=
  ¬ Special (utf8 text) ∧ ∀ c ∈ text, c.toNat < 128 ∧ unreserved (UInt8.ofNat c.toNat) = true

instance (text : List Char) : Decidable (Segment text) :=
  have := List.decidableBAll (fun c => c.toNat < 128 ∧ unreserved (UInt8.ofNat c.toNat) = true) text
  instDecidableAnd

/-- The path made of the segments, as text. -/
def joinText (segs : List (List Char)) : List Char := segs.flatMap ('/' :: ·)

/-- A path that is the same for whoever encodes, decodes or normalizes it. -/
def PlainPath (path : List Char) : Prop :=
  ∃ segs, segs ≠ [] ∧ path = joinText segs ∧ ∀ seg ∈ segs, Segment seg

variable {text path : List Char}

/-- The encoding of a path made of segments is made of theirs. -/
theorem utf8_joinText (segs : List (List Char)) : utf8 (joinText segs) = join (segs.map utf8) := by
  induction segs with
  | nil => rfl
  | cons seg segs ih =>
    show utf8 ('/' :: (seg ++ joinText segs)) = slash :: (utf8 seg ++ join (segs.map utf8))
    rw [← ih, ← utf8_append]
    rfl

private theorem unreserved_octet {c : Char} (hc : c.toNat < 128)
    (hu : unreserved (UInt8.ofNat c.toNat) = true) : c ≠ '%' ∧ c ≠ '?' ∧ c ≠ '#' ∧ c ≠ '/' := by
  refine ⟨?_, ?_, ?_, ?_⟩
  all_goals
    rintro rfl
    exact absurd hu (by decide)

theorem Segment.isParam (h : Segment text) : IsParam text := by
  refine ⟨?_, fun hmem => ?_⟩
  · rintro rfl
    exact h.1 (.inl rfl)
  · obtain ⟨hc, hu⟩ := h.2 _ hmem
    exact (unreserved_octet hc hu).2.2.2 rfl

/-- A plain path is ASCII, and has none of the characters with a meaning. -/
theorem PlainPath.plain (h : PlainPath path) : ∀ c ∈ path, c.toNat < 128 ∧ c ≠ '%' ∧ c ≠ '?' ∧
    c ≠ '#' := by
  obtain ⟨segs, -, rfl, hsegs⟩ := h
  intro c hc
  obtain ⟨seg, hseg, hin⟩ := List.mem_flatMap.mp hc
  rcases List.mem_cons.mp hin with rfl | hin
  · decide
  · obtain ⟨hlow, hu⟩ := (hsegs seg hseg).2 c hin
    obtain ⟨hpercent, hquery, hfragment, -⟩ := unreserved_octet hlow hu
    exact ⟨hlow, hpercent, hquery, hfragment⟩

/-- A plain path is decoded to itself, as octets and as text. -/
theorem PlainPath.unquote (h : PlainPath path) :
    Url.unquoteBytes path = utf8 path ∧ Url.unquote path = some path := by
  have hplain : Plain path := fun c hc => ⟨(h.plain c hc).2.1, (h.plain c hc).1⟩
  have hempty : Plain [] := by decide
  have hbytes := unquoteBytes_url hplain hempty []
  have hback := unquote_url hplain hempty []
  rw [show quote [] = [] from rfl, List.append_nil, List.append_nil] at hbytes hback
  exact ⟨hbytes, hback⟩

theorem wellEscaped_plain (h : ∀ c ∈ path, c ≠ '%') : wellEscaped path = true := by
  induction path with
  | nil => rfl
  | cons c cs ih =>
    rw [wellEscaped.eq_def]
    dsimp only
    rw [if_neg (h c (List.mem_cons_self ..))]
    exact ih fun d hd => h d (List.mem_cons_of_mem _ hd)

/-- A plain path is normal already. -/
theorem PlainPath.normal (h : PlainPath path) : normalizePath (utf8 path) = some (utf8 path) := by
  obtain ⟨segs, hne, rfl, hsegs⟩ := h
  have hspecial : ∀ seg ∈ segs.map utf8, ¬ Special seg := by
    intro seg hseg
    obtain ⟨text, htext, rfl⟩ := List.mem_map.mp hseg
    exact (hsegs text htext).1
  have hslash : ∀ seg ∈ segs.map utf8, slash ∉ seg := by
    intro seg hseg
    obtain ⟨text, htext, rfl⟩ := List.mem_map.mp hseg
    exact slash_notMem_utf8 (hsegs text htext).isParam.2
  have hresolve := resolveDots_plain hspecial [] []
  simp only [List.append_nil] at hresolve
  have hending : ending (segs.map utf8) = [] := by
    have hmem : (segs.map utf8).getLastD [] ∈ segs.map utf8 := by
      rw [List.getLastD_eq_getLast?, List.getLast?_eq_some_getLast (by simpa using hne)]
      exact List.getLast_mem _
    exact if_neg (hspecial _ hmem)
  rw [utf8_joinText, normalizePath_join (by simpa using hne) hslash, hresolve, hending]
  simp [resolveDots]

/-! ## The longest prefix -/

section Longest

variable {α β : Type} [DecidableEq α] {key : β → List α} {path : List α} {table : List β} {b : β}

/-- The entry with the longest key that is a prefix of the path. -/
def longest (key : β → List α) (table : List β) (path : List α) : Option β :=
  (table.filter fun b => (key b).isPrefixOf path).argmax fun b => (key b).length

/-- The entry that is chosen is one of the table, and its key is a prefix. -/
theorem longest_mem (h : longest key table path = some b) : b ∈ table ∧ key b <+: path := by
  have hmem := List.mem_filter.mp (List.argmax_mem h)
  exact ⟨hmem.1, List.isPrefixOf_iff_prefix.mp hmem.2⟩

end Longest

end ZeroTrustLab.Lib.Url
