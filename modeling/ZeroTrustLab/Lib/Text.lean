import Mathlib.Data.List.DropRight
import Mathlib.Data.List.Infix
import Mathlib.Data.Nat.Digits.Defs

/-!
# Python's `str`, as far as the services use it

The operations here follow the documented behaviour of CPython on strings of
code points: `str.strip`, `str.startswith`, `str.split(sep)[0]`, `int(s, 16)`
and the format `f"{n:x}"`. The text reaching them comes out of HTTP headers,
which the servers decode as Latin-1, so `int`'s acceptance of decimal digits
beyond ASCII has no counterpart here.

They are functions of `List Char`; callers go through `String.toList`.

Two kinds of blank are kept apart, as CPython does: `strip` removes whatever
`str.isspace` accepts, which takes in the separators 0x1c to 0x1f; `int` skips
those of C's locale in ASCII text, and beyond ASCII what `str.isspace` accepts.
Underscores are allowed between digits, a sign and the prefix `0x` in front.
-/

namespace ZeroTrustLab.Lib.Text

/-- `str.isspace` of one character. -/
def isSpace (c : Char) : Bool :=
  let n := c.toNat
  (9 ≤ n && n ≤ 13) || (28 ≤ n && n ≤ 32) || n == 0x85 || n == 0xa0 || n == 0x1680
    || (0x2000 ≤ n && n ≤ 0x200a) || n == 0x2028 || n == 0x2029 || n == 0x202f
    || n == 0x205f || n == 0x3000

/-- What `int` skips: `isspace` in C's locale, and beyond ASCII what `str.isspace`
takes for a blank. -/
def isIntSpace (c : Char) : Bool :=
  let n := c.toNat
  (9 ≤ n && n ≤ 13) || n == 32 || (128 ≤ n && isSpace c)

/-- Both ends trimmed of the characters satisfying `p`. -/
def trim (p : Char → Bool) (s : List Char) : List Char := (s.dropWhile p).rdropWhile p

/-- `s.strip()`. -/
def strip (s : List Char) : List Char := trim isSpace s

/-- `s.startswith(pre)`. -/
def startsWith (pre s : List Char) : Bool := pre.isPrefixOf s

/-- `s.split(sep)[0]`. -/
def splitHead (sep : Char) (s : List Char) : List Char := s.takeWhile (· ≠ sep)

/-! ## `int(s, 16)` and `f"{n:x}"` -/

/-- The value of a hexadecimal digit, in either case. -/
def hexDigit? (c : Char) : Option Nat :=
  if '0' ≤ c ∧ c ≤ '9' then some (c.toNat - '0'.toNat)
  else if 'a' ≤ c ∧ c ≤ 'f' then some (c.toNat - 'a'.toNat + 10)
  else if 'A' ≤ c ∧ c ≤ 'F' then some (c.toNat - 'A'.toNat + 10)
  else none

/-- The digits of a literal. Underscores may stand between two digits only;
`afterDigit` says whether the character before was a digit. -/
def hexDigits? : Nat → Bool → List Char → Option Nat
  | acc, afterDigit, [] => if afterDigit then some acc else none
  | acc, afterDigit, c :: cs =>
    if c = '_' then if afterDigit then hexDigits? acc false cs else none
    else
      match hexDigit? c with
      | some d => hexDigits? (acc * 16 + d) true cs
      | none => none

/-- An optional `0x`, after which one underscore is allowed. -/
def hexPrefix : List Char → List Char
  | '0' :: x :: cs =>
    if x = 'x' ∨ x = 'X' then
      match cs with
      | '_' :: ds => ds
      | ds => ds
    else '0' :: x :: cs
  | cs => cs

/-- `int(s, 16)`; `none` is the `ValueError`. -/
def int16? (s : List Char) : Option Int :=
  match trim isIntSpace s with
  | '-' :: cs => (hexDigits? 0 false (hexPrefix cs)).map fun n => -(n : Int)
  | '+' :: cs => (hexDigits? 0 false (hexPrefix cs)).map fun n => (n : Int)
  | cs => (hexDigits? 0 false (hexPrefix cs)).map fun n => (n : Int)

/-- `f"{n:x}"`. -/
def hex : Int → List Char
  | .ofNat n => Nat.toDigits 16 n
  | .negSucc n => '-' :: Nat.toDigits 16 (n + 1)

example : int16? "957414D2".toList = some 0x957414d2 := by decide
example : int16? "-0x_1f".toList = some (-31) := by decide
example : int16? "1__f".toList = none := by decide
example : hex 0x957414d2 = "957414d2".toList := by decide

/-! ## Trimming -/

/-- Dropping characters from the front keeps the number of the others. -/
private theorem countP_dropWhile (p : Char → Bool) :
    ∀ s : List Char, (s.dropWhile p).countP (!p ·) = s.countP (!p ·)
  | [] => rfl
  | c :: cs => by
    by_cases hc : p c = true
    · rw [List.dropWhile_cons_of_pos hc, countP_dropWhile p cs,
        List.countP_cons_of_neg (by simp [hc])]
    · rw [List.dropWhile_cons_of_neg hc]

/-- Trimming keeps every character that is not trimmed. -/
theorem countP_trim (p : Char → Bool) (s : List Char) :
    (trim p s).countP (!p ·) = s.countP (!p ·) := by
  unfold trim List.rdropWhile
  rw [List.countP_reverse, countP_dropWhile, List.countP_reverse, countP_dropWhile]

/-- Nothing is trimmed from a text that neither begins nor ends in it. -/
theorem trim_eq_self {p : Char → Bool} {s : List Char} (hh : ∀ c, s.head? = some c → p c = false)
    (hl : ∀ c, s.getLast? = some c → p c = false) : trim p s = s := by
  unfold trim
  rw [show s.dropWhile p = s from ?_]
  · rcases List.eq_nil_or_concat s with rfl | ⟨cs, c, rfl⟩
    · rfl
    · rw [List.concat_eq_append] at hl ⊢
      exact List.rdropWhile_concat_neg _ _ _ (by simp [hl c (by simp)])
  · cases s with
    | nil => rfl
    | cons c cs => exact List.dropWhile_cons_of_neg (by simp [hh c rfl])

/-- What is left of a text was in it. -/
theorem mem_of_mem_trim {p : Char → Bool} {s : List Char} {c : Char} (h : c ∈ trim p s) : c ∈ s := by
  unfold trim List.rdropWhile at h
  have h₁ := List.dropWhile_sublist p |>.subset (List.mem_reverse.mp h)
  exact List.dropWhile_sublist p |>.subset (List.mem_reverse.mp h₁)

theorem mem_trim {p : Char → Bool} {s : List Char} {c : Char} (hc : c ∈ s) (hp : p c = false) :
    c ∈ trim p s := by
  have hdrop : ∀ {t : List Char}, c ∈ t → c ∈ t.dropWhile p := by
    intro t ht
    have hsplit : c ∈ t.takeWhile p ++ t.dropWhile p := by rwa [List.takeWhile_append_dropWhile]
    rcases List.mem_append.mp hsplit with h | h
    · exact absurd (List.mem_takeWhile_imp h) (by simp [hp])
    · exact h
  have hr : c ∈ (s.dropWhile p).reverse := List.mem_reverse.mpr (hdrop hc)
  exact List.mem_reverse.mpr (hdrop hr)

/-! ## Words in a text of several pieces -/

section Words

variable {α : Type} {w : List α} {sep : α}

/-- A word without the separator does not straddle one. -/
theorem infix_append_sep (hw : sep ∉ w) {x y : List α} (h : w <:+: x ++ sep :: y) :
    w <:+: x ∨ w <:+: y := by
  rcases List.infix_append_iff.mp h with h | h | ⟨u, v, rfl, hu, hv⟩
  · exact .inl h
  · rcases List.infix_cons_iff.mp h with h | h
    · rcases List.prefix_cons_iff.mp h with rfl | ⟨t, rfl, -⟩
      · exact .inl List.nil_infix
      · exact absurd (List.mem_cons_self ..) hw
    · exact .inr h
  · rcases List.prefix_cons_iff.mp hv with rfl | ⟨t, rfl, -⟩
    · rw [List.append_nil]
      exact .inl hu.isInfix
    · exact absurd (List.mem_append_right u (List.mem_cons_self ..)) hw

/-- A word without the separator lies in one of the pieces that are joined. -/
theorem infix_intercalate (hw : sep ∉ w) (hne : w ≠ []) :
    ∀ {xs : List (List α)}, w <:+: [sep].intercalate xs → ∃ x ∈ xs, w <:+: x
  | [], h => absurd (List.infix_nil.mp h) hne
  | [x], h => ⟨x, List.mem_singleton_self x, by simpa [List.intercalate] using h⟩
  | x :: y :: xs, h => by
    rw [List.intercalate_cons_cons, List.append_assoc] at h
    rcases infix_append_sep hw h with h | h
    · exact ⟨x, List.mem_cons_self .., h⟩
    · obtain ⟨z, hz, hwz⟩ := infix_intercalate hw hne h
      exact ⟨z, List.mem_cons_of_mem _ hz, hwz⟩

/-- A word without the separator lies in one of the pieces, or in what follows
them. -/
theorem infix_flatMap_append (hw : sep ∉ w) {β : Type} (f : β → List α) {rest : List α} :
    ∀ {xs : List β}, w <:+: (xs.flatMap fun x => f x ++ [sep]) ++ rest →
      (∃ x ∈ xs, w <:+: f x) ∨ w <:+: rest
  | [], h => .inr h
  | x :: xs, h => by
    rw [List.flatMap_cons, List.append_assoc, List.append_assoc] at h
    rcases infix_append_sep hw h with h | h
    · exact .inl ⟨x, List.mem_cons_self .., h⟩
    · rcases infix_flatMap_append hw f h with ⟨z, hz, hwz⟩ | h
      · exact .inl ⟨z, List.mem_cons_of_mem _ hz, hwz⟩
      · exact .inr h

end Words

end ZeroTrustLab.Lib.Text
