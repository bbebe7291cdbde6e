import ZeroTrustLab.Controller.Identity

/-!
# From the certificate's subject to the identity

nginx hands the controller the subject as text: OpenSSL's RFC 2253 printer
walks the subject backwards, so it writes the RDNs last to first, joined by `,`,
and the attributes of one RDN last to first, joined by `+`, each as
`SHORTNAME=value` with the special characters of the value escaped by a
backslash (`render`). The controller looks for `CN=` in that text
(`cnSearch`), which is a search for three characters and not a parser of the
printed form.

`commonName_eq_iff` says exactly for which subjects the search finds the
commonName's value. The search stops at its *first mention*: the leftmost
`CN=` followed by a character of a value. Either no attribute printed before
the commonName has one, and then the value comes back when it is printed as it
is (`Plain`) and ends its RDN; or one has, and then the name is read out of
that attribute, and is right only if the text there happens to be the same.

The search lemmas (`cnSearch_of_first`, `exists_first`) are about any text.

A `Cut` is a subject with one of its commonNames picked out, and what the
printer writes before and after it. The condition is about that text alone, so
it speaks of escapes, multi-valued RDNs and look-alikes in other attributes at
once; `searchFinds_sound` and `searchFinds_complete` are its two directions.
-/

namespace ZeroTrustLab.Controller

open Lib.Text (strip isSpace countP_trim trim_eq_self mem_of_mem_trim)

/-! ## The printer -/

/-- A character of a short name: `CN`, `dnQualifier`, `2.5.4.41`, .... -/
def typeChar (c : Char) : Bool := c.isAlphanum || c == '.' || c == '-'

/-- Printable ASCII. -/
def printable (c : Char) : Bool := 0x20 ≤ c.toNat && c.toNat ≤ 0x7e

/-- One attribute: its short name and its value. -/
structure Attribute where
  type : List Char
  value : List Char
  type_ok : type.all typeChar = true
  value_ok : value.all printable = true

/-- One RDN: its attributes in certificate order, of which there is at least one. -/
structure Rdn where
  attrs : List Attribute
  nonempty : attrs ≠ []

/-- A subject: its RDNs in certificate order. -/
abbrev Subject := List Rdn

/-- Whether the printer escapes a character, given whether it is the first and
whether it is the last of its value. -/
def escaped (first last : Bool) (c : Char) : Bool :=
  [',', '+', '"', '\\', '<', '>', ';'].contains c || (first && (c == '#' || c == ' '))
    || (last && c == ' ')

/-- A value as it is printed, `first` at its beginning. -/
def escape (first : Bool) : List Char → List Char
  | [] => []
  | c :: cs =>
    if escaped first cs.isEmpty c then '\\' :: c :: escape false cs else c :: escape false cs

/-- `SHORTNAME=value`. -/
def Attribute.print (a : Attribute) : List Char := a.type ++ '=' :: escape true a.value

/-- The attributes of an RDN, last to first. -/
def Rdn.print (r : Rdn) : List Char := ['+'].intercalate (r.attrs.reverse.map Attribute.print)

/-- The subject as nginx forwards it. -/
def render (s : Subject) : List Char := [','].intercalate (s.reverse.map Rdn.print)

/-- The short name of commonName. -/
def cnType : List Char := ['C', 'N']

/-- A common name is printed after `CN=`, escaped. -/
theorem Attribute.print_cn {a : Attribute} (h : a.type = cnType) :
    a.print = 'C' :: 'N' :: '=' :: escape true a.value := by
  rw [Attribute.print, h]
  rfl

/-- The commonName attributes of a subject. -/
def Subject.commonNames (s : Subject) : List Attribute :=
  (s.flatMap Rdn.attrs).filter fun a => decide (a.type = cnType)

/-- A value is printed as it is, and holds no `/`, where the search stops. -/
def Plain (v : List Char) : Prop := escape true v = v ∧ '/' ∉ v

instance (v : List Char) : Decidable (Plain v) := inferInstanceAs (Decidable (_ ∧ _))

/-! ## Where a subject has its commonName -/

/-- A subject cut at an attribute, in the order it is printed: the RDNs before
the attribute's own, the attributes before it there, and what follows. -/
structure Cut where
  before : List Rdn
  left : List Attribute
  cn : Attribute
  right : List Attribute
  after : List Rdn

/-- The subject that was cut. -/
def Cut.subject (k : Cut) : Subject :=
  (k.before ++ ⟨(k.left ++ k.cn :: k.right).reverse, by simp⟩ :: k.after).reverse

/-- What is printed before the attribute. -/
def Cut.head (k : Cut) : List Char :=
  (k.before.flatMap fun r => r.print ++ [',']) ++ k.left.flatMap fun a => a.print ++ ['+']

/-- What is printed after it. -/
def Cut.tail (k : Cut) : List Char :=
  (k.right.flatMap fun a => '+' :: a.print) ++ k.after.flatMap fun r => ',' :: r.print

/-- A text in a joined list stands between those in front of it and those after
it. -/
private theorem intercalate_append_cons (sep : Char) (x : List Char) (ys : List (List Char)) :
    ∀ xs : List (List Char), [sep].intercalate (xs ++ x :: ys)
      = (xs.flatMap fun t => t ++ [sep]) ++ x ++ ys.flatMap fun t => sep :: t
  | [] => by
    induction ys generalizing x with
    | nil => simp [List.intercalate]
    | cons y ys ih =>
      have h := ih y
      simp only [List.nil_append, List.flatMap_nil] at h ⊢
      rw [List.intercalate_cons_cons, h]
      simp
  | t :: xs => by
    have h := intercalate_append_cons sep x ys xs
    rcases hx : xs ++ x :: ys with _ | ⟨z, zs⟩
    · simp at hx
    · rw [hx] at h
      rw [List.cons_append, hx, List.intercalate_cons_cons, h]
      simp

/-- The printed subject is what precedes the name, the name, and what follows
it. -/
theorem render_cut (k : Cut) : render k.subject = k.head ++ k.cn.print ++ k.tail := by
  unfold render Cut.subject Cut.head Cut.tail
  rw [List.reverse_reverse, List.map_append, List.map_cons, intercalate_append_cons]
  simp only [Rdn.print, List.reverse_reverse, List.map_append, List.map_cons,
    intercalate_append_cons, List.flatMap_map, List.append_assoc]

/-- A subject with a commonName can be cut there. -/
theorem exists_cut {s : Subject} {a : Attribute} (h : a ∈ s.flatMap Rdn.attrs) :
    ∃ k : Cut, k.subject = s ∧ k.cn = a := by
  obtain ⟨r, hr, ha⟩ := List.mem_flatMap.mp h
  obtain ⟨after, before, hs⟩ := List.append_of_mem hr
  obtain ⟨left, right, hattrs⟩ := List.append_of_mem ha
  refine ⟨⟨before.reverse, right.reverse, a, left.reverse, after.reverse⟩, ?_, rfl⟩
  obtain ⟨attrs, hne⟩ := r
  subst hattrs hs
  simp [Cut.subject]

/-! ## The search -/

/-- The text has a `CN=` with a character of a value after it. -/
def Mentions (u : List Char) : Prop :=
  ∃ x c y, u = x ++ 'C' :: 'N' :: '=' :: c :: y ∧ cnChar c = true

/-- The search ends at a `CN=` with a character of the group after it. -/
private theorem cnSearch_hit {c : Char} (hc : cnChar c = true) (y : List Char) :
    cnSearch ('C' :: 'N' :: '=' :: c :: y) = some ((c :: y).takeWhile cnChar) := by
  have hrun : (c :: y).takeWhile cnChar ≠ [] := by rw [List.takeWhile_cons_of_pos hc]; simp
  unfold cnSearch
  rw [if_pos ⟨rfl, hrun⟩]
  rfl

private theorem cnSearch_miss {c : Char} {cs : List Char}
    (h : ∀ d y, c :: cs = 'C' :: 'N' :: '=' :: d :: y → cnChar d = false) :
    cnSearch (c :: cs) = cnSearch cs := by
  rw [cnSearch, if_neg]
  rintro ⟨hpre, hrun⟩
  obtain ⟨rest, hrest⟩ := List.isPrefixOf_iff_prefix.mp hpre
  rw [show "CN=".toList = ['C', 'N', '='] from rfl] at hrest
  rw [← hrest] at hrun h
  rcases rest with _ | ⟨d, y⟩
  · exact hrun rfl
  · refine hrun ?_
    show (d :: y).takeWhile cnChar = []
    exact List.takeWhile_cons_of_neg (by simp [h d y rfl])

/-- What the search returns holds none of the characters it stops at. -/
theorem cnChar_of_mem_cnSearch : ∀ {t g : List Char}, cnSearch t = some g → ∀ c ∈ g, cnChar c = true
  | [], g, h => by simp [cnSearch] at h
  | c :: cs, g, h => by
    rw [cnSearch] at h
    split at h
    next =>
      obtain rfl := Option.some.inj h
      exact fun d hd => List.mem_takeWhile_imp hd
    next => exact cnChar_of_mem_cnSearch h

private theorem mentions_head {c d : Char} {x y z : List Char}
    (h : c :: (x ++ 'C' :: 'N' :: '=' :: z) = 'C' :: 'N' :: '=' :: d :: y) (hd : cnChar d = true) :
    Mentions (c :: (x ++ ['C', 'N', '='])) := by
  -- the mention at the head overlaps the `CN=` at the end in one way only
  rcases x with _ | ⟨a, _ | ⟨b, _ | ⟨e, x⟩⟩⟩
  · simp at h
  · simp at h
  · simp only [List.cons_append, List.nil_append, List.cons.injEq] at h
    obtain ⟨rfl, rfl, rfl, rfl, -⟩ := h
    exact ⟨[], 'C', ['N', '='], rfl, rfl⟩
  · simp only [List.cons_append, List.cons.injEq] at h
    obtain ⟨rfl, rfl, rfl, rfl, -⟩ := h
    exact ⟨[], e, x ++ ['C', 'N', '='], rfl, hd⟩

/-- The search reads the value at the first mention. -/
theorem cnSearch_of_first {c : Char} (hc : cnChar c = true) (y : List Char) :
    ∀ x : List Char, ¬ Mentions (x ++ ['C', 'N', '=']) →
      cnSearch (x ++ 'C' :: 'N' :: '=' :: c :: y) = some ((c :: y).takeWhile cnChar)
  | [], _ => cnSearch_hit hc y
  | a :: x, h => by
    rw [List.cons_append, cnSearch_miss, cnSearch_of_first hc y x]
    · rintro ⟨x', d, z, he, hd⟩
      exact h ⟨a :: x', d, z, by rw [List.cons_append, he]; rfl, hd⟩
    · intro d z he
      by_contra hd
      exact h (mentions_head he (by simpa using hd))

/-- A text with a mention has a first one. -/
theorem exists_first : ∀ {u : List Char}, Mentions u → ∃ x c y,
    u = x ++ 'C' :: 'N' :: '=' :: c :: y ∧ cnChar c = true ∧ ¬ Mentions (x ++ ['C', 'N', '='])
  | [], h => by obtain ⟨x, c, y, he, -⟩ := h; simp at he
  | a :: u, h => by
    by_cases hhead : ∃ d y, a :: u = 'C' :: 'N' :: '=' :: d :: y ∧ cnChar d = true
    · obtain ⟨d, y, he, hd⟩ := hhead
      refine ⟨[], d, y, he, hd, ?_⟩
      rintro ⟨x', e, z, hlen, -⟩
      have h3 := congrArg List.length hlen
      simp only [List.nil_append, List.length_cons, List.length_nil, List.length_append] at h3
      omega
    · have hu : Mentions u := by
        obtain ⟨x, c, y, he, hc⟩ := h
        rcases x with _ | ⟨b, x⟩
        · exact absurd ⟨c, y, he, hc⟩ hhead
        · exact ⟨x, c, y, (List.cons_eq_cons.mp he).2, hc⟩
      obtain ⟨x, c, y, rfl, hc, hfirst⟩ := exists_first hu
      refine ⟨a :: x, c, y, rfl, hc, ?_⟩
      rintro ⟨x', d, z, he, hd⟩
      rcases x' with _ | ⟨b, x'⟩
      · refine hhead ⟨d, z ++ c :: y, ?_, hd⟩
        have he' : a :: (x ++ ['C', 'N', '=']) = 'C' :: 'N' :: '=' :: d :: z := he
        calc a :: (x ++ 'C' :: 'N' :: '=' :: c :: y)
            = (a :: (x ++ ['C', 'N', '='])) ++ c :: y := by simp
          _ = 'C' :: 'N' :: '=' :: d :: (z ++ c :: y) := by rw [he']; rfl
      · exact hfirst ⟨x', d, z, (List.cons_eq_cons.mp he).2, hd⟩

/-! ## The printed value -/

private theorem escape_cons_pos {first : Bool} {c : Char} {cs : List Char}
    (h : escaped first cs.isEmpty c = true) :
    escape first (c :: cs) = '\\' :: c :: escape false cs := by
  rw [escape, if_pos h]

private theorem escape_cons_neg {first : Bool} {c : Char} {cs : List Char}
    (h : ¬ escaped first cs.isEmpty c = true) : escape first (c :: cs) = c :: escape false cs := by
  rw [escape, if_neg h]

/-- Printing keeps every character of the value. -/
theorem sublist_escape : ∀ (first : Bool) (v : List Char), v.Sublist (escape first v)
  | _, [] => .slnil
  | first, c :: cs => by
    by_cases h : escaped first cs.isEmpty c = true
    · rw [escape_cons_pos h]
      exact .cons _ ((sublist_escape false cs).cons_cons c)
    · rw [escape_cons_neg h]
      exact (sublist_escape false cs).cons_cons c

/-- Escaping brings in no character that would end the group. -/
theorem cnChar_escape : ∀ (first : Bool) {v : List Char}, (∀ c ∈ v, cnChar c = true) →
    ∀ c ∈ escape first v, cnChar c = true
  | _, [], _, c, hc => by simp [escape] at hc
  | first, d :: v, h, c, hc => by
    have hd := h d (List.mem_cons_self ..)
    have hrest := cnChar_escape false fun e he => h e (List.mem_cons_of_mem _ he)
    by_cases hesc : escaped first v.isEmpty d = true
    · rw [escape_cons_pos hesc] at hc
      rcases List.mem_cons.mp hc with rfl | hc
      · rfl
      · rcases List.mem_cons.mp hc with rfl | hc
        · exact hd
        · exact hrest c hc
    · rw [escape_cons_neg hesc] at hc
      rcases List.mem_cons.mp hc with rfl | hc
      · exact hd
      · exact hrest c hc

/-- The number of characters of a text that no trimming removes. -/
def inked (s : List Char) : Nat := s.countP (!isSpace ·)

theorem inked_cons (c : Char) (s : List Char) :
    inked (c :: s) = inked s + if isSpace c then 0 else 1 := by
  unfold inked
  rw [List.countP_cons]
  cases isSpace c <;> rfl

theorem inked_append (s t : List Char) : inked (s ++ t) = inked s + inked t := List.countP_append

theorem inked_strip (s : List Char) : inked (strip s) = inked s := countP_trim isSpace s

/-- Escaping adds ink, unless it adds nothing. -/
theorem inked_escape : ∀ (first : Bool) (v : List Char),
    escape first v = v ∨ inked v < inked (escape first v)
  | _, [] => .inl rfl
  | first, c :: cs => by
    have hle : inked cs ≤ inked (escape false cs) := (sublist_escape false cs).countP_le
    by_cases h : escaped first cs.isEmpty c = true
    · right
      rw [escape_cons_pos h, inked_cons, inked_cons, inked_cons, show isSpace '\\' = false from rfl]
      simp only [Bool.false_eq_true, if_false]
      omega
    · rw [escape_cons_neg h]
      rcases inked_escape false cs with heq | hlt
      · left; rw [heq]
      · right
        rw [inked_cons, inked_cons]
        omega

/-- A text that is printed as it is has no character that is escaped. -/
private theorem escape_tail {first : Bool} {c : Char} {cs : List Char}
    (h : escape first (c :: cs) = c :: cs) :
    escaped first cs.isEmpty c = false ∧ escape false cs = cs := by
  by_cases hesc : escaped first cs.isEmpty c = true
  · rw [escape_cons_pos hesc] at h
    have h₁ := (sublist_escape false cs).length_le
    have h₂ := congrArg List.length h
    simp only [List.length_cons] at h₂
    omega
  · rw [escape_cons_neg hesc] at h
    exact ⟨by simpa using hesc, (List.cons_eq_cons.mp h).2⟩

/-- A value printed as it is holds no comma. -/
theorem comma_notMem_of_escape_eq : ∀ {first : Bool} {v : List Char}, escape first v = v → ',' ∉ v
  | _, [], _, h => by simp at h
  | first, c :: cs, he, h => by
    obtain ⟨hesc, htail⟩ := escape_tail he
    rcases List.mem_cons.mp h with rfl | h
    · simp [escaped] at hesc
    · exact comma_notMem_of_escape_eq htail h

/-- A value printed as it is does not end in a space. -/
theorem getLast_of_escape_eq : ∀ {first : Bool} {v : List Char}, escape first v = v →
    ∀ c, v.getLast? = some c → c ≠ ' '
  | _, [], _, c, h => by simp at h
  | first, d :: [], he, c, h => by
    obtain ⟨hesc, -⟩ := escape_tail he
    obtain rfl : d = c := by simpa using h
    rintro rfl
    simp [escaped] at hesc
  | first, d :: e :: cs, he, c, h => by
    rw [List.getLast?_cons_cons] at h
    exact getLast_of_escape_eq (escape_tail he).2 c h

/-- A value printed as it is does not begin with a space. -/
theorem head_of_escape_eq {v : List Char} (he : escape true v = v) :
    ∀ c, v.head? = some c → c ≠ ' ' := by
  intro c hc
  rcases v with _ | ⟨d, cs⟩
  · simp at hc
  · obtain rfl : d = c := by simpa using hc
    rintro rfl
    have h := (escape_tail he).1
    simp [escaped] at h

/-- The only printable character that is trimmed is the space. -/
theorem isSpace_of_printable {c : Char} (hp : printable c = true) (hc : c ≠ ' ') :
    isSpace c = false := by
  have hne : c.toNat ≠ 32 := fun h => hc (Char.toNat_inj.mp h)
  simp only [printable, Bool.and_eq_true, decide_eq_true_eq] at hp
  simp only [isSpace, Bool.or_eq_false_iff, Bool.and_eq_false_iff, decide_eq_false_iff_not,
    beq_eq_false_iff_ne]
  omega

/-! ## Which commonName comes back -/

/-- What the search comes to on a cut subject, said of the subject. Either
nothing printed before the commonName mentions a name, its value is printed as
it is and ends its RDN; or something does, and the first text mentioned there
reads, up to the `,` or `/` that ends it, like the value. -/
def SearchFinds (k : Cut) : Prop :=
  (¬ Mentions k.head ∧ Plain k.cn.value ∧ k.right = []) ∨
  ∃ x run stop z, k.head = x ++ 'C' :: 'N' :: '=' :: (run ++ stop :: z) ∧
    ¬ Mentions (x ++ ['C', 'N', '=']) ∧ run ≠ [] ∧ (∀ c ∈ run, cnChar c = true) ∧
    cnChar stop = false ∧ strip run = k.cn.value

private theorem takeWhile_run {run z : List Char} {stop : Char} (hrun : ∀ c ∈ run, cnChar c = true)
    (hstop : cnChar stop = false) : (run ++ stop :: z).takeWhile cnChar = run := by
  rw [List.takeWhile_append_of_pos hrun, List.takeWhile_cons_of_neg (by simp [hstop]),
    List.append_nil]

/-- A text with a stopping character is a run up to the first one. -/
private theorem split_run {y : List Char} (h : ∃ c ∈ y, cnChar c = false) :
    ∃ stop z, y = y.takeWhile cnChar ++ stop :: z ∧ cnChar stop = false := by
  rcases hd : y.dropWhile cnChar with _ | ⟨stop, z⟩
  · obtain ⟨c, hc, hcn⟩ := h
    have hall : y.takeWhile cnChar = y := by
      have hsplit := List.takeWhile_append_dropWhile (p := cnChar) (l := y)
      rwa [hd, List.append_nil] at hsplit
    rw [← hall] at hc
    exact absurd (List.mem_takeWhile_imp hc) (by simp [hcn])
  · refine ⟨stop, z, ?_, ?_⟩
    · rw [← hd, List.takeWhile_append_dropWhile]
    · have h := List.head_dropWhile_not cnChar (l := y) (by rw [hd]; simp)
      simpa [hd] using h

/-- What is printed before the commonName ends in a separator. -/
theorem head_eq_nil_or (k : Cut) :
    k.head = [] ∨ ∃ u sep, k.head = u ++ [sep] ∧ (sep = ',' ∨ sep = '+') := by
  unfold Cut.head
  rcases List.eq_nil_or_concat k.left with hl | ⟨as, a, hl⟩
  · rcases List.eq_nil_or_concat k.before with hb | ⟨rs, r, hb⟩
    · left; rw [hl, hb]; rfl
    · right
      exact ⟨(rs.flatMap fun r => r.print ++ [',']) ++ r.print, ',', by simp [hl, hb], .inl rfl⟩
  · right
    refine ⟨(k.before.flatMap fun r => r.print ++ [',']) ++ (as.flatMap fun a => a.print ++ ['+'])
      ++ a.print, '+', by simp [hl], .inr rfl⟩

/-- A `CN=` added behind a separator is no mention in front of it. -/
private theorem mentions_of_append_cn {u : List Char} {sep : Char} (hsep : sep = ',' ∨ sep = '+')
    (h : Mentions (u ++ [sep] ++ ['C', 'N', '='])) : Mentions (u ++ [sep]) := by
  obtain ⟨x, c, y, he, hc⟩ := h
  have hr := congrArg List.reverse he
  simp only [List.reverse_append, List.reverse_cons, List.append_assoc, List.reverse_nil,
    List.nil_append, List.cons_append] at hr
  -- read from the right: the last characters are `=`, `N`, `C` and the separator
  rcases hy : y.reverse with _ | ⟨d, _ | ⟨e, _ | ⟨f, z⟩⟩⟩
  · rw [hy] at hr
    simp at hr
  · rw [hy] at hr
    simp at hr
  · rw [hy] at hr
    simp only [List.nil_append, List.cons_append, List.cons.injEq] at hr
    obtain ⟨-, -, -, rfl, -⟩ := hr
    rcases hsep with h | h <;> simp at h
  · rw [hy] at hr
    simp only [List.cons_append, List.cons.injEq] at hr
    obtain ⟨-, -, -, hr⟩ := hr
    refine ⟨x, c, z.reverse, ?_, hc⟩
    have hr' := congrArg List.reverse hr
    simpa using hr'

/-- The `CN=` of the commonName itself completes no mention before it. -/
theorem not_mentions_head_append {k : Cut} (h : ¬ Mentions k.head) :
    ¬ Mentions (k.head ++ ['C', 'N', '=']) := by
  rcases head_eq_nil_or k with hnil | ⟨u, sep, hu, hsep⟩
  · rw [hnil]
    rintro ⟨x, c, y, he, -⟩
    have h3 := congrArg List.length he
    simp only [List.nil_append, List.length_cons, List.length_nil, List.length_append] at h3
    omega
  · rw [hu] at h ⊢
    exact fun hm => h (mentions_of_append_cn hsep hm)

/-- A value that is printed as it is has no blank at its ends. -/
private theorem isSpace_of_plain {a : Attribute} (h : escape true a.value = a.value) :
    strip a.value = a.value := by
  have hp : ∀ c ∈ a.value, printable c = true := List.all_eq_true.mp a.value_ok
  refine trim_eq_self (fun c hc => ?_) (fun c hc => ?_)
  · exact isSpace_of_printable (hp c (List.mem_of_head? hc)) (head_of_escape_eq h c hc)
  · exact isSpace_of_printable (hp c (List.mem_of_getLast? hc)) (getLast_of_escape_eq h c hc)

/-- What follows a value that ends its RDN does not go on with a value. -/
private theorem takeWhile_append_tail {k : Cut} {v : List Char} (hv : ∀ c ∈ v, cnChar c = true)
    (hr : k.right = []) : (v ++ k.tail).takeWhile cnChar = v := by
  rw [List.takeWhile_append_of_pos hv]
  unfold Cut.tail
  rw [hr]
  rcases k.after with _ | ⟨r, rs⟩
  · simp
  · simp [show cnChar ',' = false from rfl]

/-- What the search must come to for the identity to carry the value. -/
private theorem found_iff {settings : Settings} {serial : Option String} {dn v : List Char} :
    (∃ identity, identityOf settings ⟨some "SUCCESS", some (String.ofList dn), serial⟩
        = .ok identity ∧ identity.commonName = String.ofList v) ↔
      ∃ g, cnSearch dn = some g ∧ strip g = v := by
  rw [identityOf_verified, String.toList_ofList]
  rcases cnSearch dn with _ | g
  · simp
  · simp [String.ofList_inj]

theorem searchFinds_sound {k : Cut} (hcn : k.cn.type = cnType) (hv : k.cn.value ≠ [])
    (h : SearchFinds k) : ∃ g, cnSearch (render k.subject) = some g ∧ strip g = k.cn.value := by
  rw [render_cut]
  rcases h with ⟨hhead, ⟨hesc, hslash⟩, hright⟩ |
    ⟨x, run, stop, z, hhead, hfirst, hne, hrun, hstop, hv'⟩
  · have hall : ∀ c ∈ k.cn.value, cnChar c = true := by
      intro c hc
      have hcomma := comma_notMem_of_escape_eq hesc
      have h₁ : c ≠ ',' := fun he => hcomma (he ▸ hc)
      have h₂ : c ≠ '/' := fun he => hslash (he ▸ hc)
      simp [cnChar, h₁, h₂]
    have htake := takeWhile_append_tail hall hright
    obtain ⟨c, y, hcy⟩ := List.exists_cons_of_ne_nil hv
    refine ⟨k.cn.value, ?_, isSpace_of_plain hesc⟩
    have hs := cnSearch_of_first (hall c (by simp [hcy])) (y ++ k.tail) k.head
      (not_mentions_head_append hhead)
    rw [← List.cons_append, ← hcy, htake] at hs
    rw [← hs, Attribute.print_cn hcn, hesc]
    simp
  · obtain ⟨c, y, rfl⟩ := List.exists_cons_of_ne_nil hne
    refine ⟨c :: y, ?_, hv'⟩
    have hs := cnSearch_of_first (hrun c (List.mem_cons_self ..))
      (y ++ stop :: (z ++ k.cn.print ++ k.tail)) x hfirst
    rw [← List.cons_append, takeWhile_run hrun hstop] at hs
    rw [← hs, hhead]
    simp

/-- Where the search finds the value, the condition holds. -/
theorem searchFinds_complete {k : Cut} (hcn : k.cn.type = cnType) (hv : k.cn.value ≠ [])
    {g : List Char} (hg : cnSearch (render k.subject) = some g) (hgv : strip g = k.cn.value) :
    SearchFinds k := by
  have hcng := cnChar_of_mem_cnSearch hg
  have hcnv : ∀ c ∈ k.cn.value, cnChar c = true := fun c hc =>
    hcng c (mem_of_mem_trim (hgv ▸ hc))
  -- no character that stops the run comes in by the escaping
  have hesc : ∀ c ∈ escape true k.cn.value, cnChar c = true := cnChar_escape true hcnv
  have hink : inked g = inked k.cn.value := by rw [← hgv, inked_strip]
  rw [render_cut, Attribute.print_cn hcn] at hg
  -- is there a `CN=` printed before the attribute's own?
  by_cases hm : Mentions k.head
  · right
    obtain ⟨x, c, y, hhead, hc, hfirst⟩ := exists_first hm
    rw [hhead] at hg
    have hs := cnSearch_of_first hc
      (y ++ 'C' :: 'N' :: '=' :: (escape true k.cn.value ++ k.tail)) x hfirst
    have hg' : (c :: y ++ 'C' :: 'N' :: '=' :: (escape true k.cn.value ++ k.tail)).takeWhile cnChar
        = g := by
      have he := hs.symm.trans (Eq.trans (by simp) hg)
      exact Option.some.inj he
    by_cases hstop : ∃ d ∈ c :: y, cnChar d = false
    · obtain ⟨stop, z, hy, hst⟩ := split_run hstop
      have hrun : ∀ d ∈ (c :: y).takeWhile cnChar, cnChar d = true := fun d hd =>
        List.mem_takeWhile_imp hd
      refine ⟨x, (c :: y).takeWhile cnChar, stop, z, ?_, hfirst, ?_, hrun, hst, ?_⟩
      · rw [← hy]; exact hhead
      · rw [List.takeWhile_cons_of_pos hc]; simp
      · rw [← hgv, ← hg']
        conv_rhs => rw [hy]
        rw [List.append_assoc, List.cons_append, takeWhile_run hrun hst]
    · -- the run swallows `CN=` and the whole value, so it holds more ink than the value
      exfalso
      push Not at hstop
      have hall : ∀ d ∈ c :: y, cnChar d = true := fun d hd => by simpa using hstop d hd
      rw [List.takeWhile_append_of_pos hall,
        show 'C' :: 'N' :: '=' :: (escape true k.cn.value ++ k.tail)
          = ['C', 'N', '='] ++ (escape true k.cn.value ++ k.tail) from rfl,
        List.takeWhile_append_of_pos (by simp [cnChar]), List.takeWhile_append_of_pos hesc] at hg'
      rw [← hg', inked_append, inked_append, inked_append] at hink
      have h₁ : inked k.cn.value ≤ inked (escape true k.cn.value) :=
        (sublist_escape true _).countP_le
      have h₂ : inked ['C', 'N', '='] = 3 := rfl
      omega
  · left
    obtain ⟨c, y, hcy⟩ : ∃ c y, escape true k.cn.value = c :: y := by
      refine List.exists_cons_of_ne_nil fun hnil => hv ?_
      exact List.sublist_nil.mp (hnil ▸ sublist_escape true k.cn.value)
    have hs := cnSearch_of_first (hesc c (by simp [hcy])) (y ++ k.tail) k.head
      (not_mentions_head_append hm)
    rw [← List.cons_append, ← hcy, List.takeWhile_append_of_pos hesc] at hs
    have hg' : escape true k.cn.value ++ k.tail.takeWhile cnChar = g := by
      have he := hs.symm.trans (Eq.trans (by simp [hcy]) hg)
      exact Option.some.inj he
    rw [← hg', inked_append] at hink
    have heq : escape true k.cn.value = k.cn.value := by
      rcases inked_escape true k.cn.value with h | h
      · exact h
      · omega
    refine ⟨hm, ⟨heq, fun hslash => ?_⟩, ?_⟩
    · simpa [cnChar] using hcnv '/' hslash
    · rcases hr : k.right with _ | ⟨b, bs⟩
      · rfl
      · -- a further attribute of the RDN begins with `+`, which the run would keep
        exfalso
        have htail : k.tail.takeWhile cnChar = '+' :: (b.print ++
            ((bs.flatMap fun a => '+' :: a.print) ++ k.after.flatMap fun r => ',' :: r.print)).takeWhile
              cnChar := by
          unfold Cut.tail
          rw [hr]
          simp [show cnChar '+' = true from rfl]
        rw [heq, htail, inked_cons, show isSpace '+' = false from rfl] at hink
        simp at hink

/-- **When the name that comes back is the certificate's.** The certificate is
verified and has one commonName, which the cut picks out; nothing else is asked
of the subject. The identity then exists with that value as its name just when
the search finds it in the printed text. -/
theorem commonName_eq_iff (settings : Settings) (serial : Option String) {s : Subject}
    {a : Attribute} (hs : s.commonNames = [a]) (hv : a.value ≠ []) :
    (∃ k : Cut, k.subject = s ∧ k.cn = a) ∧
    ∀ k : Cut, k.subject = s → k.cn = a →
      ((∃ identity, identityOf settings ⟨some "SUCCESS", some (String.ofList (render s)), serial⟩
          = .ok identity ∧ identity.commonName = String.ofList a.value) ↔ SearchFinds k) := by
  have hmem : a ∈ s.commonNames := by rw [hs]; exact List.mem_singleton_self a
  obtain ⟨hin, htype⟩ := List.mem_filter.mp hmem
  have hcn : a.type = cnType := of_decide_eq_true htype
  refine ⟨exists_cut hin, ?_⟩
  rintro k rfl rfl
  rw [found_iff]
  constructor
  · rintro ⟨g, hg, hgv⟩
    exact searchFinds_complete hcn hv hg hgv
  · exact searchFinds_sound hcn hv

/-- A node's certificate whose organisation reads like the controller's name. -/
def disguised : Subject :=
  [⟨[⟨cnType, "pi-03.thesis.local".toList, rfl, by decide⟩], by simp⟩,
    ⟨[⟨['O'], "CN=controller.thesis.local".toList, rfl, by decide⟩], by simp⟩]

/-- The organisation is printed first, and the node is taken for the controller. -/
theorem disguised_is_controller :
    disguised.commonNames.map Attribute.value = ["pi-03.thesis.local".toList] ∧
    String.ofList (render disguised) = "O=CN=controller.thesis.local,CN=pi-03.thesis.local" ∧
    ((identityOf {} ⟨some "SUCCESS", some (String.ofList (render disguised)), some "01"⟩).map
      fun identity => (identity.commonName, identity.isController, identity.nodeId))
        = .ok ("controller.thesis.local", true, none) := by
  decide +kernel

/-- An ordinary node certificate: the organisation, then the name. -/
def ordinary : Subject :=
  [⟨[⟨['O'], "Thesis/Lab".toList, rfl, by decide⟩], by simp⟩,
    ⟨[⟨cnType, "pi-03.thesis.local".toList, rfl, by decide⟩], by simp⟩]

theorem ordinary_commonName_eq_iff :
    (∃ k : Cut, k.subject = ordinary ∧ k.cn = ordinary.commonNames.head (by decide)) ∧
    ∀ k : Cut, k.subject = ordinary → k.cn = ordinary.commonNames.head (by decide) →
      ((∃ identity, identityOf {} ⟨some "SUCCESS", some (String.ofList (render ordinary)), none⟩
          = .ok identity ∧ identity.commonName = "pi-03.thesis.local") ↔ SearchFinds k) :=
  commonName_eq_iff {} none (s := ordinary) (a := ordinary.commonNames.head (by decide)) rfl
    (by decide)

end ZeroTrustLab.Controller
