import Mathlib.Data.List.TakeWhile
import ZeroTrustLab.Lib.Text
import ZeroTrustLab.Lib.Utf8

/-!
# URL paths

Percent-encoding of text as UTF-8 and its inverse (Python's
`urllib.parse.quote` with no safe characters, and `unquote`), and the matching
of a path against a template, which is a sequence of literal pieces and
parameters. A parameter takes the longest run of characters other than `/`,
and at least one; the literal after a parameter begins with `/`, so the run
never has to be given back. A template is a regular expression that ends in
`$`, which matches at the end of the path and also before a line feed that is
its last character.

`unquote` is total on ASCII: escapes that are not UTF-8 are read as U+FFFD.
`unquote_url` is the round trip through a URL that is put together from
literals and one encoded text; `render_of_match` is what a match says about
its path, and `match_param_end` and `match_param_lit` say which texts the two
usual templates take as their parameter.
-/

namespace ZeroTrustLab.Lib.Url

open Lib.Text (hexDigit?)

/-! ## Percent-encoding -/

/-- The bytes that stand for themselves. -/
def unreserved (b : UInt8) : Bool :=
  let n := b.toNat
  (48 ≤ n && n ≤ 57) || (65 ≤ n && n ≤ 90) || (97 ≤ n && n ≤ 122) || n == 45 || n == 46 || n == 95
    || n == 126

def hexDigit (n : Nat) : Char := "0123456789ABCDEF".toList.getD n '0'

def quoteByte (b : UInt8) : List Char :=
  if unreserved b then [Char.ofNat b.toNat]
  else ['%', hexDigit (b.toNat / 16), hexDigit (b.toNat % 16)]

/-- `quote(text, safe="")`. -/
def quote (text : List Char) : List Char := (utf8 text).flatMap quoteByte

/-- The bytes of a path; a `%` without two digits after it stands for itself. -/
def unquoteBytes : List Char → List UInt8
  | [] => []
  | c :: cs =>
    if c = '%' then
      match cs with
      | h :: l :: ds =>
        match hexDigit? h, hexDigit? l with
        | some a, some b => UInt8.ofNat (a * 16 + b) :: unquoteBytes ds
        | _, _ => UInt8.ofNat c.toNat :: unquoteBytes (h :: l :: ds)
      | ds => UInt8.ofNat c.toNat :: unquoteBytes ds
    else UInt8.ofNat c.toNat :: unquoteBytes cs

def ascii (text : List Char) : Bool := text.all fun c => decide (c.toNat < 128)

/-- `unquote(path)`, for a path that is ASCII; any other is not a path of a
request. -/
def unquote (path : List Char) : Option (List Char) :=
  if ascii path then some (decode (unquoteBytes path)) else none

theorem hexDigit_hexDigit? {n : Nat} (h : n < 16) : hexDigit? (hexDigit n) = some n := by
  revert n
  decide

theorem unquoteBytes_cons {c : Char} (hc : c ≠ '%') (cs : List Char) :
    unquoteBytes (c :: cs) = UInt8.ofNat c.toNat :: unquoteBytes cs := by
  rw [unquoteBytes.eq_def]
  exact if_neg hc

private theorem unreserved_char (b : UInt8) (hb : unreserved b = true) :
    Char.ofNat b.toNat ≠ '%' ∧ UInt8.ofNat (Char.ofNat b.toNat).toNat = b := by
  have hall : ∀ n : Fin 256, unreserved (UInt8.ofNat n) = true →
      Char.ofNat n ≠ '%' ∧ UInt8.ofNat (Char.ofNat n).toNat = UInt8.ofNat n := by decide +kernel
  have h := hall ⟨b.toNat, b.toNat_lt⟩
  rw [UInt8.ofNat_toNat] at h
  exact h hb

theorem unquoteBytes_quoteByte (b : UInt8) (cs : List Char) :
    unquoteBytes (quoteByte b ++ cs) = b :: unquoteBytes cs := by
  unfold quoteByte
  by_cases hb : unreserved b = true
  · obtain ⟨hne, hback⟩ := unreserved_char b hb
    rw [if_pos hb, List.singleton_append, unquoteBytes_cons hne, hback]
  · have hlt : b.toNat < 256 := b.toNat_lt
    have hhi : hexDigit? (hexDigit (b.toNat / 16)) = some (b.toNat / 16) :=
      hexDigit_hexDigit? (by omega)
    have hlo : hexDigit? (hexDigit (b.toNat % 16)) = some (b.toNat % 16) :=
      hexDigit_hexDigit? (by omega)
    have hsum : b.toNat / 16 * 16 + b.toNat % 16 = b.toNat := by omega
    rw [if_neg hb]
    show unquoteBytes ('%' :: _ :: _ :: cs) = _
    rw [unquoteBytes, if_pos rfl]
    simp only [hhi, hlo, hsum, UInt8.ofNat_toNat]

theorem unquoteBytes_quote (text cs : List Char) :
    unquoteBytes (quote text ++ cs) = utf8 text ++ unquoteBytes cs := by
  unfold quote
  induction utf8 text with
  | nil => rfl
  | cons b bs ih =>
    rw [List.flatMap_cons, List.append_assoc, unquoteBytes_quoteByte, ih]
    rfl

/-- Text that is the same in a URL: ASCII without `%`. -/
def Plain (text : List Char) : Prop := ∀ c ∈ text, c ≠ '%' ∧ c.toNat < 128

instance (text : List Char) : Decidable (Plain text) :=
  List.decidableBAll (fun c => c ≠ '%' ∧ c.toNat < 128) text

theorem unquoteBytes_plain {text : List Char} (h : Plain text) (cs : List Char) :
    unquoteBytes (text ++ cs) = utf8 text ++ unquoteBytes cs := by
  induction text with
  | nil => rfl
  | cons c text ih =>
    obtain ⟨hne, hlt⟩ := h c (List.mem_cons_self ..)
    have ih := ih fun d hd => h d (List.mem_cons_of_mem _ hd)
    rw [List.cons_append, unquoteBytes_cons hne, ih]
    unfold utf8
    rw [List.flatMap_cons, utf8_plain_char hlt]
    rfl

/-- An octet is encoded in ASCII. -/
theorem quoteByte_ascii (b : UInt8) : ∀ c ∈ quoteByte b, c.toNat < 128 := by
  have hplain : ∀ n : Fin 256, unreserved (UInt8.ofNat n) = true → (Char.ofNat n).toNat < 128 := by
    decide +kernel
  have hdigit : ∀ n, n < 16 → (hexDigit n).toNat < 128 := by decide
  have hlt : b.toNat < 256 := b.toNat_lt
  intro c hc
  unfold quoteByte at hc
  split at hc
  next hb =>
    obtain rfl := List.mem_singleton.mp hc
    refine hplain ⟨b.toNat, hlt⟩ ?_
    rwa [UInt8.ofNat_toNat]
  next =>
    simp only [List.mem_cons, List.not_mem_nil, or_false] at hc
    rcases hc with rfl | rfl | rfl
    · decide
    · exact hdigit _ (by omega)
    · exact hdigit _ (by omega)

/-- The octets of a URL that was put together. -/
theorem unquoteBytes_url {front back : List Char} (hf : Plain front) (hb : Plain back)
    (text : List Char) : unquoteBytes (front ++ quote text ++ back) = utf8 (front ++ text ++ back) := by
  have hback := unquoteBytes_plain hb []
  rw [List.append_nil] at hback
  rw [List.append_assoc, unquoteBytes_plain hf, unquoteBytes_quote, hback]
  simp [utf8, unquoteBytes]

/-- **The round trip**: what was put into a URL is read out of it. -/
theorem unquote_url {front back : List Char} (hf : Plain front) (hb : Plain back)
    (text : List Char) : unquote (front ++ quote text ++ back) = some (front ++ text ++ back) := by
  have hascii : ascii (front ++ quote text ++ back) = true := by
    refine List.all_eq_true.mpr fun c hc => decide_eq_true ?_
    rcases List.mem_append.mp hc with hc | hc
    · rcases List.mem_append.mp hc with hc | hc
      · exact (hf c hc).2
      · obtain ⟨b, -, hin⟩ := List.mem_flatMap.mp hc
        exact quoteByte_ascii b c hin
    · exact (hb c hc).2
  rw [unquote, if_pos hascii, unquoteBytes_url hf hb, decode_utf8]

/-- The text that is read and the octets differ beyond ASCII only. -/
theorem alike_of_unquote {path text : List Char} (h : unquote path = some text) :
    Alike (unquoteBytes path) (utf8 text) := by
  unfold unquote at h
  split at h
  next =>
    obtain rfl := Option.some.inj h
    exact alike_decode _
  next => exact absurd h (by simp)

/-! ## Templates -/

inductive Piece where
  | lit (text : List Char)
  | param
  deriving DecidableEq, Repr

/-- Where `$` matches. -/
def atEnd (path : List Char) : Bool := path == [] || path == ['\n']

/-- The parameters of a path that matches the template as a whole. -/
def matchPath : List Piece → List Char → Option (List (List Char))
  | [], path => if atEnd path then some [] else none
  | .lit text :: ps, path =>
    if text.isPrefixOf path then matchPath ps (path.drop text.length) else none
  | .param :: ps, path =>
    let value := path.takeWhile (· ≠ '/')
    if value = [] then none
    else (matchPath ps (path.drop value.length)).map (value :: ·)

/-- The path a template makes of its parameters. -/
def render : List Piece → List (List Char) → List Char
  | .lit text :: ps, vs => text ++ render ps vs
  | .param :: ps, v :: vs => v ++ render ps vs
  | _, _ => []

/-- What a parameter can be. -/
def IsParam (value : List Char) : Prop := value ≠ [] ∧ '/' ∉ value

instance (value : List Char) : Decidable (IsParam value) :=
  inferInstanceAs (Decidable (value ≠ [] ∧ '/' ∉ value))

/-- A match reads its path but for a last line feed, one value for each
parameter. -/
theorem render_of_match : ∀ {ps : List Piece} {path : List Char} {vs : List (List Char)},
    matchPath ps path = some vs → ∃ last, atEnd last = true ∧
      path = render ps vs ++ last ∧ vs.length = ps.countP (· = .param) ∧ ∀ v ∈ vs, IsParam v
  | [], path, vs, h => by
    unfold matchPath at h
    split at h
    next hend =>
      obtain rfl := Option.some.inj h
      exact ⟨path, hend, rfl, rfl, by simp⟩
    next => exact absurd h (by simp)
  | .lit text :: ps, path, vs, h => by
    unfold matchPath at h
    split at h
    next hpre =>
      obtain ⟨rest, rfl⟩ := List.isPrefixOf_iff_prefix.mp hpre
      rw [List.drop_left] at h
      obtain ⟨last, hend, rfl, hlen, hvs⟩ := render_of_match h
      exact ⟨last, hend, (List.append_assoc _ _ _).symm, by rw [hlen]; simp, hvs⟩
    next => exact absurd h (by simp)
  | .param :: ps, path, vs, h => by
    unfold matchPath at h
    dsimp only at h
    split at h
    next => exact absurd h (by simp)
    next hne =>
      obtain ⟨us, hus, rfl⟩ := Option.map_eq_some_iff.mp h
      obtain ⟨last, hend, hrest, hlen, hvs⟩ := render_of_match hus
      have hslash : '/' ∉ path.takeWhile (· ≠ '/') := by
        intro hmem
        simpa using List.mem_takeWhile_imp hmem
      -- the segment taken is all up to the next slash
      refine ⟨last, hend, ?_, by simp [hlen], fun v hv => ?_⟩
      · show path = path.takeWhile (· ≠ '/') ++ render ps us ++ last
        rw [List.append_assoc, ← hrest]
        exact (List.prefix_iff_eq_append.mp (List.takeWhile_prefix _)).symm
      · rcases List.mem_cons.mp hv with rfl | hv
        · exact ⟨hne, hslash⟩
        · exact hvs v hv

theorem match_lit (text : List Char) (ps : List Piece) (path : List Char) :
    matchPath (.lit text :: ps) (text ++ path) = matchPath ps path := by
  show (if text.isPrefixOf (text ++ path) then matchPath ps ((text ++ path).drop text.length)
    else none) = _
  rw [if_pos (List.isPrefixOf_iff_prefix.mpr (List.prefix_append _ _)), List.drop_left]

/-- A parameter takes all that comes before the next `/`. -/
theorem match_param {value : List Char} (hv : IsParam value) (ps : List Piece) {rest : List Char}
    (hrest : ∀ c, rest.head? = some c → c = '/') :
    matchPath (.param :: ps) (value ++ rest) = (matchPath ps rest).map (value :: ·) := by
  have htake : (value ++ rest).takeWhile (· ≠ '/') = value := by
    rw [List.takeWhile_append_of_pos (by
      intro c hc
      have hne : c ≠ '/' := fun he => hv.2 (he ▸ hc)
      simp [hne])]
    cases rest with
    | nil => simp
    | cons c cs =>
      rw [hrest c rfl, List.takeWhile_cons_of_neg (by simp), List.append_nil]
  rw [matchPath]
  simp only [htake, if_neg hv.1, List.drop_left]

/-- A parameter at the end of a template: a last line feed belongs to it. -/
theorem match_param_end (value : List Char) :
    matchPath [.param] value = if IsParam value then some [value] else none := by
  by_cases hv : IsParam value
  · have hend : ∀ c, ([] : List Char).head? = some c → c = '/' := by simp
    have h := match_param hv [] hend
    rw [List.append_nil] at h
    rw [if_pos hv, h]
    rfl
  · rw [if_neg hv]
    refine Option.eq_none_iff_forall_ne_some.mpr fun vs hvs => ?_
    obtain ⟨last, hend, hpath, hlen, hparam⟩ := render_of_match hvs
    obtain ⟨v, rfl⟩ := List.length_eq_one_iff.mp (hlen.trans (by simp))
    have hpath : value = v ++ last := by simpa [render] using hpath
    have hlast : '/' ∉ last := by
      intro hmem
      rcases Bool.or_eq_true_iff.mp hend with he | he
      all_goals
        rw [eq_of_beq he] at hmem
        exact absurd hmem (by decide)
    obtain ⟨hne, hslash⟩ := hparam v (List.mem_singleton_self v)
    refine hv ⟨fun he => hne ?_, fun hmem => ?_⟩
    · exact (List.append_eq_nil_iff.mp (hpath.symm.trans he)).1
    · rw [hpath] at hmem
      rcases List.mem_append.mp hmem with hmem | hmem
      · exact hslash hmem
      · exact hlast hmem

/-- A parameter with a literal after it, which holds no line feed. -/
theorem match_param_lit {text : List Char} (ht : ∀ c, text.head? = some c → c = '/')
    (hline : text ≠ [] ∧ '\n' ∉ text) (value : List Char) :
    matchPath [.param, .lit text] (value ++ text)
      = if IsParam value then some [value] else none := by
  by_cases hv : IsParam value
  · have hlit := match_lit text [] []
    rw [List.append_nil] at hlit
    rw [if_pos hv, match_param hv _ ht, hlit]
    rfl
  · rw [if_neg hv]
    refine Option.eq_none_iff_forall_ne_some.mpr fun vs hvs => ?_
    obtain ⟨last, hend, hpath, hlen, hparam⟩ := render_of_match hvs
    obtain ⟨v, rfl⟩ := List.length_eq_one_iff.mp (hlen.trans (by simp))
    have happend : value ++ text = v ++ text ++ last := by simpa [render] using hpath
    have hlast : last = [] := by
      rcases Bool.or_eq_true_iff.mp hend with he | he
      · exact eq_of_beq he
      · -- a last line feed would be the literal's
        rw [eq_of_beq he] at happend
        have hgetLast := congrArg List.getLast? happend
        rw [List.getLast?_append_of_ne_nil _ hline.1, List.getLast?_concat] at hgetLast
        exact absurd (List.mem_of_getLast? hgetLast) hline.2
    rw [hlast, List.append_nil] at happend
    exact hv (List.append_cancel_right happend ▸ hparam v (by simp))

end ZeroTrustLab.Lib.Url
