import Mathlib.Data.List.TakeWhile

/-!
# UTF-8 with replacement characters

A decoder that is told to `replace` errors reads every sequence of octets: what
is not UTF-8 is read as U+FFFD, one for each *maximal part* of a broken
sequence, which is a lead octet with those continuation octets after it that
the lead allows. What comes next is read afresh.

Two programs that look at the same octets, one as octets and one as decoded
text, then see different things beyond ASCII only. `Alike` says it of two
sequences of octets: they are the same but that a run of octets with the high
bit set may stand for another such run. `alike_decode` holds the octets to the
encoding of the text that was read out of them, and whatever is decided by ASCII
octets alone is decided the same way on both (`Alike.eq_of_ascii`,
`Alike.prefix_of_ascii`).

`decode_utf8` is the round trip: what was encoded is read back as it was.
-/

namespace ZeroTrustLab.Lib.Url

/-- The encoding of a text. -/
def utf8 (text : List Char) : List UInt8 := text.flatMap String.utf8EncodeChar

/-- How many continuation octets a lead octet announces, and the least and the
greatest value of the first of them (overlong forms, surrogates and what lies
beyond U+10FFFF are shut out there). -/
def lead (b : UInt8) : Option (Nat × Nat × Nat) :=
  let n := b.toNat
  if 0xC2 ≤ n ∧ n ≤ 0xDF then some (1, 0x80, 0xBF)
  else if n = 0xE0 then some (2, 0xA0, 0xBF)
  else if n = 0xED then some (2, 0x80, 0x9F)
  else if 0xE1 ≤ n ∧ n ≤ 0xEF then some (2, 0x80, 0xBF)
  else if n = 0xF0 then some (3, 0x90, 0xBF)
  else if 0xF1 ≤ n ∧ n ≤ 0xF3 then some (3, 0x80, 0xBF)
  else if n = 0xF4 then some (3, 0x80, 0x8F)
  else none

def continuation (b : UInt8) : Bool := 0x80 ≤ b.toNat && b.toNat ≤ 0xBF

/-- The octets that a broken sequence has after its first. -/
def broken (b : UInt8) (bs : List UInt8) : List UInt8 :=
  match lead b, bs with
  | some (more, low, high), c :: cs =>
    if low ≤ c.toNat ∧ c.toNat ≤ high then c :: (cs.take (more - 1)).takeWhile continuation else []
  | _, _ => []

/-- Decodes what is left after `skip` octets. -/
def decodeAfter : Nat → List UInt8 → List Char
  | _, [] => []
  | skip + 1, _ :: bs => decodeAfter skip bs
  | 0, b :: bs =>
    match (b :: bs).toByteArray.utf8DecodeChar? 0 with
    | some c => c :: decodeAfter (c.utf8Size - 1) bs
    | none => Char.ofNat 0xFFFD :: decodeAfter (broken b bs).length bs

/-- `bytes.decode("utf-8", "replace")`. -/
def decode (bytes : List UInt8) : List Char := decodeAfter 0 bytes

example : decode [0x61, 0xFF, 0xE2, 0x82, 0x2F] = ['a', Char.ofNat 0xFFFD, Char.ofNat 0xFFFD, '/'] := by
  decide +kernel

/-! ## Encoding -/

theorem utf8_append (xs ys : List Char) : utf8 (xs ++ ys) = utf8 xs ++ utf8 ys :=
  List.flatMap_append

theorem utf8_cons (c : Char) (cs : List Char) : utf8 (c :: cs) = String.utf8EncodeChar c ++ utf8 cs :=
  rfl

/-- An ASCII character is encoded with its octet. -/
theorem utf8_plain_char {c : Char} (h : c.toNat < 128) :
    String.utf8EncodeChar c = [UInt8.ofNat c.toNat] := by
  have hle : c.val.toNat ≤ 127 := Nat.le_of_lt_succ h
  unfold String.utf8EncodeChar
  simp only [hle, if_true]
  rfl

theorem utf8EncodeChar_ne_nil (c : Char) : String.utf8EncodeChar c ≠ [] := by
  have hpos : 0 < (String.utf8EncodeChar c).length := by
    rw [String.length_utf8EncodeChar]
    exact c.utf8Size_pos
  exact List.length_pos_iff.mp hpos

/-- Beyond ASCII, every octet has its high bit set. -/
theorem high_octets {c : Char} (hc : 128 ≤ c.toNat) : ∀ b ∈ String.utf8EncodeChar c, 128 ≤ b.toNat := by
  have hbeyond : ¬ c.val.toNat ≤ 127 := Nat.not_le.mpr hc
  unfold String.utf8EncodeChar
  simp only [hbeyond, if_false]
  split
  next =>
    simp only [List.mem_cons, forall_eq_or_imp, List.not_mem_nil, IsEmpty.forall_iff, implies_true,
      and_true, UInt8.toNat_ofNat']
    omega
  next =>
    split
    next =>
      simp only [List.mem_cons, forall_eq_or_imp, List.not_mem_nil, IsEmpty.forall_iff, implies_true,
      and_true, UInt8.toNat_ofNat']
      omega
    next =>
      simp only [List.mem_cons, forall_eq_or_imp, List.not_mem_nil, IsEmpty.forall_iff, implies_true,
      and_true, UInt8.toNat_ofNat']
      omega

/-- Only an ASCII character is encoded with its octet. -/
theorem mem_of_octet_mem {a : Char} (ha : a.toNat < 128) {text : List Char}
    (hmem : UInt8.ofNat a.toNat ∈ utf8 text) : a ∈ text := by
  obtain ⟨c, hc, hin⟩ := List.mem_flatMap.mp hmem
  have hoctet : (UInt8.ofNat a.toNat).toNat = a.toNat :=
    UInt8.toNat_ofNat_of_lt' (Nat.lt_trans ha (by decide))
  rcases Nat.lt_or_ge c.toNat 128 with hlow | hhigh
  · rw [utf8_plain_char hlow] at hin
    have htoNat := congrArg UInt8.toNat (List.mem_singleton.mp hin)
    rw [hoctet, UInt8.toNat_ofNat_of_lt' (Nat.lt_trans hlow (by decide))] at htoNat
    exact Char.toNat_inj.mp htoNat ▸ hc
  · have hhigh := high_octets hhigh _ hin
    omega

/-- A text that begins with the octet of an ASCII character begins with it. -/
theorem head_of_octet {a : Char} (ha : a.toNat < 128) {text : List Char} {rest : List UInt8}
    (h : utf8 text = UInt8.ofNat a.toNat :: rest) : ∃ more, text = a :: more := by
  cases text with
  | nil => simp [utf8] at h
  | cons c more =>
    have hin : UInt8.ofNat a.toNat ∈ utf8 [c] := by
      obtain ⟨b, bs, hb⟩ := List.exists_cons_of_ne_nil (utf8EncodeChar_ne_nil c)
      have hcons : utf8 (c :: more) = b :: (bs ++ utf8 more) := by
        rw [utf8_cons, hb]
        rfl
      obtain ⟨rfl, -⟩ := List.cons_eq_cons.mp (hcons.symm.trans h)
      show _ ∈ String.utf8EncodeChar c ++ []
      rw [hb]
      simp
    obtain rfl := List.mem_singleton.mp (mem_of_octet_mem ha hin)
    exact ⟨more, rfl⟩

/-! ## One step of the decoder -/

theorem decodeAfter_drop : ∀ (skip : Nat) (bytes : List UInt8),
    decodeAfter skip bytes = decode (bytes.drop skip)
  | 0, _ => rfl
  | _ + 1, [] => rfl
  | skip + 1, _ :: bytes => decodeAfter_drop skip bytes

/-- A character is read, and decoding goes on after its octets. -/
theorem decode_cons_some {b : UInt8} {bs : List UInt8} {c : Char}
    (h : (b :: bs).toByteArray.utf8DecodeChar? 0 = some c) :
    decode (b :: bs) = c :: decode (bs.drop (c.utf8Size - 1)) := by
  rw [← decodeAfter_drop, decode, decodeAfter, h]

/-- U+FFFD is read, and decoding goes on after the broken sequence. -/
theorem decode_cons_none {b : UInt8} {bs : List UInt8}
    (h : (b :: bs).toByteArray.utf8DecodeChar? 0 = none) :
    decode (b :: bs) = Char.ofNat 0xFFFD :: decode (bs.drop (broken b bs).length) := by
  rw [← decodeAfter_drop, decode, decodeAfter, h]

/-- The encoding of a character is read as the character. -/
theorem utf8DecodeChar_encode (c : Char) (bs : List UInt8) :
    (String.utf8EncodeChar c ++ bs).toByteArray.utf8DecodeChar? 0 = some c := by
  rw [List.toByteArray_append]
  exact ByteArray.utf8DecodeChar?_utf8EncodeChar_append

/-- Nothing but the encoding of a character is read as the character. -/
theorem encode_of_utf8DecodeChar {bytes : List UInt8} {c : Char}
    (h : bytes.toByteArray.utf8DecodeChar? 0 = some c) :
    ∃ rest, bytes = String.utf8EncodeChar c ++ rest := by
  obtain ⟨rest, hrest⟩ := ByteArray.exists_of_utf8DecodeChar?_eq_some h
  refine ⟨rest.data.toList, ?_⟩
  have hdata := congrArg (fun a => a.data.toList) hrest
  simpa using hdata

theorem decode_encode (c : Char) (bs : List UInt8) :
    decode (String.utf8EncodeChar c ++ bs) = c :: decode bs := by
  obtain ⟨b, more, hb⟩ := List.exists_cons_of_ne_nil (utf8EncodeChar_ne_nil c)
  have hread := utf8DecodeChar_encode c bs
  have hlen : c.utf8Size - 1 = more.length := by
    rw [← String.length_utf8EncodeChar, hb]
    rfl
  rw [hb, List.cons_append] at hread
  rw [hb, List.cons_append, decode_cons_some hread, hlen, List.drop_left]

/-- **The round trip**: what was encoded is read back. -/
theorem decode_utf8 (text : List Char) : decode (utf8 text) = text := by
  induction text with
  | nil => rfl
  | cons c cs ih => rw [utf8_cons, decode_encode, ih]

/-! ## The same but beyond ASCII -/

/-- The same octets, but that a run of octets with the high bit set may stand
for another. -/
inductive Alike : List UInt8 → List UInt8 → Prop
  | nil : Alike [] []
  | ascii {b : UInt8} {xs ys : List UInt8} (hb : b.toNat < 128) (h : Alike xs ys) :
      Alike (b :: xs) (b :: ys)
  | high {front back xs ys : List UInt8} (hf : front ≠ []) (hb : back ≠ [])
      (hfront : ∀ b ∈ front, 128 ≤ b.toNat) (hback : ∀ b ∈ back, 128 ≤ b.toNat) (h : Alike xs ys) :
      Alike (front ++ xs) (back ++ ys)

/-- Octets of ASCII characters alone. -/
def Ascii (bytes : List UInt8) : Prop := ∀ b ∈ bytes, b.toNat < 128

instance (bytes : List UInt8) : Decidable (Ascii bytes) :=
  List.decidableBAll (fun b : UInt8 => b.toNat < 128) bytes

variable {xs ys pre : List UInt8}

theorem Alike.symm (h : Alike xs ys) : Alike ys xs := by
  induction h with
  | nil => exact .nil
  | ascii hb _ ih => exact .ascii hb ih
  | high hf hb hfront hback _ ih => exact .high hb hf hback hfront ih

theorem Alike.append {xs' ys' : List UInt8} (h : Alike xs ys) (h' : Alike xs' ys') :
    Alike (xs ++ xs') (ys ++ ys') := by
  induction h with
  | nil => exact h'
  | ascii hb _ ih => exact .ascii hb ih
  | high hf hb hfront hback _ ih =>
    rw [List.append_assoc, List.append_assoc]
    exact .high hf hb hfront hback ih

/-- A prefix of ASCII octets is a prefix of both. -/
theorem Alike.prefix_of_ascii (h : Alike xs ys) (hpre : Ascii pre) (hx : pre <+: xs) : pre <+: ys := by
  induction h generalizing pre with
  | nil => exact hx
  | ascii _ _ ih =>
    cases pre with
    | nil => exact List.nil_prefix
    | cons p pre =>
      obtain ⟨rfl, hrest⟩ := List.cons_prefix_cons.mp hx
      have hpre : Ascii pre := fun b hb => hpre b (List.mem_cons_of_mem _ hb)
      exact List.cons_prefix_cons.mpr ⟨rfl, ih hpre hrest⟩
  | high hf _ hfront _ _ _ =>
    cases pre with
    | nil => exact List.nil_prefix
    | cons p pre =>
      obtain ⟨b, front, rfl⟩ := List.exists_cons_of_ne_nil hf
      obtain ⟨rfl, -⟩ := List.cons_prefix_cons.mp hx
      have hlow := hpre p (List.mem_cons_self ..)
      have hhigh := hfront p (List.mem_cons_self ..)
      omega

/-- What is ASCII is alike to itself only. -/
theorem Alike.eq_of_ascii (h : Alike xs ys) (hxs : Ascii xs) : ys = xs := by
  induction h with
  | nil => rfl
  | ascii _ _ ih => rw [ih fun b hb => hxs b (List.mem_cons_of_mem _ hb)]
  | high hf _ hfront _ _ _ =>
    obtain ⟨b, front, rfl⟩ := List.exists_cons_of_ne_nil hf
    have hlow := hxs b (List.mem_cons_self ..)
    have hhigh := hfront b (List.mem_cons_self ..)
    omega

/-- The two are equal to an ASCII text together. -/
theorem Alike.eq_iff (h : Alike xs ys) (hpre : Ascii pre) : xs = pre ↔ ys = pre := by
  constructor
  · rintro rfl
    exact h.eq_of_ascii hpre
  · rintro rfl
    exact h.symm.eq_of_ascii hpre

/-! ## What is read out of octets -/

/-- An octet below the high bit is always read as its character. -/
theorem utf8DecodeChar_low {b : UInt8} (hb : b.toNat < 128) (bs : List UInt8) :
    (b :: bs).toByteArray.utf8DecodeChar? 0 = some (Char.ofNat b.toNat) := by
  have hall : ∀ n : Fin 128, (Char.ofNat n).toNat = n := by decide
  have htoNat : (Char.ofNat b.toNat).toNat = b.toNat := hall ⟨b.toNat, hb⟩
  have hread := utf8DecodeChar_encode (Char.ofNat b.toNat) bs
  rwa [utf8_plain_char (by rwa [htoNat]), htoNat, UInt8.ofNat_toNat] at hread

/-- All that a broken sequence has after its first octet has the high bit set. -/
theorem broken_spec (b : UInt8) (bs : List UInt8) :
    broken b bs <+: bs ∧ ∀ c ∈ broken b bs, 128 ≤ c.toNat := by
  have hlow : ∀ more low high, lead b = some (more, low, high) → 128 ≤ low := by
    intro more low high h
    unfold lead at h
    grind
  unfold broken
  split
  next more low high c cs hlead =>
    split
    next hin =>
      refine ⟨List.cons_prefix_cons.mpr ⟨rfl, (List.takeWhile_prefix _).trans (List.take_prefix _ _)⟩,
        ?_⟩
      intro d hd
      rcases List.mem_cons.mp hd with rfl | hd
      · exact Nat.le_trans (hlow _ _ _ hlead) hin.1
      · have hd := List.mem_takeWhile_imp hd
        simp only [continuation, Bool.and_eq_true, decide_eq_true_eq] at hd
        exact hd.1
    next => exact ⟨List.nil_prefix, by simp⟩
  next => exact ⟨List.nil_prefix, by simp⟩

/-- **The text that is read differs from the octets beyond ASCII only.** -/
theorem alike_decode (bytes : List UInt8) : Alike bytes (utf8 (decode bytes)) := by
  induction hn : bytes.length using Nat.strong_induction_on generalizing bytes with
  | _ n ih =>
    cases bytes with
    | nil => exact .nil
    | cons b bs =>
      rcases hread : (b :: bs).toByteArray.utf8DecodeChar? 0 with _ | c
      · -- the broken sequence goes, and U+FFFD takes its place
        rw [decode_cons_none hread]
        obtain ⟨⟨rest, hrest⟩, hhigh⟩ := broken_spec b bs
        have hb : 128 ≤ b.toNat := by
          by_contra hlow
          rw [utf8DecodeChar_low (Nat.lt_of_not_le hlow)] at hread
          simp at hread
        have hdrop : bs.drop (broken b bs).length = rest := by
          have hleft : (broken b bs ++ rest).drop (broken b bs).length = rest := List.drop_left
          rwa [hrest] at hleft
        have hsplit : b :: bs = (b :: broken b bs) ++ rest := by rw [List.cons_append, hrest]
        have hlen : rest.length < n := by
          rw [← hn, hsplit, List.length_append, List.length_cons]
          omega
        rw [hdrop, utf8_cons, hsplit]
        refine .high (List.cons_ne_nil _ _) (utf8EncodeChar_ne_nil _) ?_
          (high_octets (by decide)) (ih _ hlen rest rfl)
        intro d hd
        rcases List.mem_cons.mp hd with rfl | hd
        · exact hb
        · exact hhigh d hd
      · -- a character goes, encoded
        obtain ⟨rest, hrest⟩ := encode_of_utf8DecodeChar hread
        have hpos : 0 < (String.utf8EncodeChar c).length :=
          List.length_pos_iff.mpr (utf8EncodeChar_ne_nil c)
        have hlen : rest.length < n := by
          rw [← hn, hrest, List.length_append]
          omega
        have hrestAlike := ih _ hlen rest rfl
        rw [hrest, decode_encode, utf8_cons]
        rcases Nat.lt_or_ge c.toNat 128 with hlow | hhigh
        · have hoctet : (UInt8.ofNat c.toNat).toNat = c.toNat :=
            UInt8.toNat_ofNat_of_lt' (Nat.lt_trans hlow (by decide))
          rw [utf8_plain_char hlow]
          exact .ascii (by rwa [hoctet]) hrestAlike
        · exact .high (utf8EncodeChar_ne_nil c) (utf8EncodeChar_ne_nil c) (high_octets hhigh)
            (high_octets hhigh) hrestAlike

end ZeroTrustLab.Lib.Url
