import ZeroTrustLab.Controller.SubjectName

/-!
# One certificate, two readers

The controller reads the CN out of nginx's text of the subject
(`SubjectName.lean`); the agent's metrics server reads it out of the structured
subject of `getpeercert()`. Both look for the first commonName, but the text
has the whole subject last to first, the attributes of an RDN included, and the
search goes on over the `+` between the attributes of one RDN.

`sameName_iff` says for which subjects the two agree, the values being free of
anything that the printer escapes or the search stops at. The controller reads
the last commonName of the certificate, together with whatever precedes it in
its RDN; the agent reads the first.

The two readings are compared over one model of the subject, a list of RDNs as
the certificate has them. `infix_render` is the bridge: where the printed text
has a `CN=` at all, some attribute is a common name, because no modest value
can hold one. From there the search can be followed to its place in the text
(`Cut`), and what it returns is what stands there.
-/

namespace ZeroTrustLab.Agent

open Controller
open Lib.Text (strip isSpace trim_eq_self)

/-! ## `_peer_cn` -/

/-- OpenSSL's names of the attribute types: the long name of each short one. -/
structure OidNames where
  long : List Char → String
  commonName_iff : ∀ t, long t = "commonName" ↔ t = cnType

/-- What `_peer_cn` reads of `getpeercert()`. -/
structure PeerCert where
  subject : List (List (String × String))

/-- `getpeercert()` on a certificate with this subject. -/
def getpeercert (names : OidNames) (s : Subject) : PeerCert :=
  ⟨s.map fun r => r.attrs.map fun a => (names.long a.type, String.ofList a.value)⟩

/-- `_peer_cn`; there may be no SSL object or no certificate. -/
def peerCn (peercert : Option PeerCert) : Option String :=
  match peercert with
  | none => none
  | some cert => cert.subject.findSome? fun rdn => rdn.findSome? fun (key, val) =>
      if key = "commonName" then some val else none

/-- What the controller's `get_mtls_identity` makes of the same certificate. -/
def controllerCn (settings : Controller.Settings) (serial : Option String) (s : Subject) :
    Option String :=
  match identityOf settings ⟨some "SUCCESS", some (String.ofList (render s)), serial⟩ with
  | .ok identity => some identity.commonName
  | .error _ => none

/-! ## Subjects -/

/-- The first commonName of an RDN. -/
def cn? (r : Rdn) : Option Attribute := r.attrs.find? fun a => decide (a.type = cnType)

/-- The first commonName of a subject, in certificate order. -/
def firstCn? (s : Subject) : Option Attribute := s.findSome? cn?

/-- The last RDN with a commonName. -/
def lastRdn? (s : Subject) : Option Rdn := s.reverse.find? fun r => (cn? r).isSome

/-- The value is not empty and of letters, digits, `.` and `-`, and only
commonName's short name ends in `CN`. -/
structure Modest (a : Attribute) : Prop where
  nonempty : a.value ≠ []
  chars : ∀ c ∈ a.value, typeChar c = true
  type : cnType <:+ a.type → a.type = cnType

instance (a : Attribute) : Decidable (Modest a) :=
  have : Decidable (∀ c ∈ a.value, typeChar c = true) := List.decidableBAll _ _
  decidable_of_iff (a.value ≠ [] ∧ (∀ c ∈ a.value, typeChar c = true) ∧
      (cnType <:+ a.type → a.type = cnType))
    ⟨fun h => ⟨h.1, h.2.1, h.2.2⟩, fun h => ⟨h.nonempty, h.chars, h.type⟩⟩

/-- The last RDN with a commonName begins with it and has no other, and it has the
value of the first commonName. -/
def OneName (s : Subject) : Prop :=
  ∀ r ∈ lastRdn? s, (∀ a ∈ r.attrs.tail, a.type ≠ cnType) ∧
    (cn? r).map Attribute.value = (firstCn? s).map Attribute.value

instance (s : Subject) : Decidable (OneName s) := inferInstanceAs (Decidable (∀ r ∈ _, _))

/-- The agent finds the first commonName. -/
theorem peerCn_getpeercert (names : OidNames) (s : Subject) :
    peerCn (some (getpeercert names s)) = (firstCn? s).map fun a => String.ofList a.value := by
  have hrdn : ∀ attrs : List Attribute,
      (attrs.map fun a => (names.long a.type, String.ofList a.value)).findSome?
          (fun (key, val) => if key = "commonName" then some val else none)
        = (attrs.find? fun a => decide (a.type = cnType)).map fun a => String.ofList a.value := by
    intro attrs
    induction attrs with
    | nil => rfl
    | cons a attrs ih =>
      by_cases ha : a.type = cnType
      · simp [ha, (names.commonName_iff cnType).mpr rfl]
      · have hlong : names.long a.type ≠ "commonName" := fun h => ha ((names.commonName_iff _).mp h)
        simp [ha, hlong, ih]
  have hcn : ∀ r : Rdn, r.attrs.find? (fun a => decide (a.type = cnType)) = cn? r := fun _ => rfl
  show ((s.map fun r =>
    r.attrs.map fun a => (names.long a.type, String.ofList a.value)).findSome? _) = _
  unfold firstCn?
  induction s with
  | nil => rfl
  | cons r s ih =>
    rw [List.map_cons, List.findSome?_cons, hrdn, List.findSome?_cons, hcn]
    rcases cn? r with _ | a
    · exact ih
    · rfl

/-! ## The text of a modest subject -/

/-- A character of an attribute type is none that separates attributes. -/
theorem ne_of_typeChar {c d : Char} (hc : typeChar c = true) (hd : typeChar d = false) : c ≠ d := by
  rintro rfl
  rw [hc] at hd
  exact absurd hd (by simp)

/-- A modest value is printed as it is. -/
theorem Modest.escape {a : Attribute} (h : Modest a) : Controller.escape true a.value = a.value := by
  have hall : ∀ (first : Bool) (v : List Char), (∀ c ∈ v, typeChar c = true) →
      Controller.escape first v = v := by
    intro first v
    induction v generalizing first with
    | nil => exact fun _ => rfl
    | cons c v ih =>
      intro hv
      have hc := hv c (List.mem_cons_self ..)
      have hesc : escaped first v.isEmpty c = false := by
        have hne : ∀ d, typeChar d = false → c ≠ d := fun d hd => ne_of_typeChar hc hd
        simp [escaped, hne ',' rfl, hne '+' rfl, hne '"' rfl, hne '\\' rfl, hne '<' rfl, hne '>' rfl,
          hne ';' rfl, hne '#' rfl, hne ' ' rfl]
      rw [Controller.escape, if_neg (by simp [hesc]),
        ih false fun d hd => hv d (List.mem_cons_of_mem _ hd)]
  exact hall true a.value h.chars

/-- Only a commonName is printed with a `CN=` in it. -/
theorem Modest.infix_print {a : Attribute} (h : Modest a) (hcn : ['C', 'N', '='] <:+: a.print) :
    a.type = cnType := by
  rw [Attribute.print, h.escape] at hcn
  have htype : ∀ c ∈ a.type, typeChar c = true := List.all_eq_true.mp a.type_ok
  have heq : ∀ {v : List Char}, (∀ c ∈ v, typeChar c = true) → ¬ ['C', 'N', '='] <:+: v := by
    intro v hv hin
    exact absurd (hv '=' (hin.subset (by simp))) (by decide)
  -- the `=` of the word is the one between type and value
  rcases List.infix_append_iff.mp hcn with hin | hin | ⟨u, v, huv, hu, hv⟩
  · exact absurd hin (heq htype)
  · rcases List.infix_cons_iff.mp hin with hpre | hin
    · exact absurd (List.cons_prefix_cons.mp hpre).1 (by decide)
    · exact absurd hin (heq h.chars)
  · rcases List.prefix_cons_iff.mp hv with rfl | ⟨t, rfl, -⟩
    · rw [List.append_nil] at huv
      exact absurd (huv ▸ hu.isInfix) (heq htype)
    · rcases u with _ | ⟨c, _ | ⟨d, _ | ⟨e, u⟩⟩⟩
      · simp at huv
      · simp at huv
      · obtain ⟨rfl, rfl, -⟩ : c = 'C' ∧ d = 'N' ∧ _ := by simpa [eq_comm] using huv
        exact h.type hu
      · simp at huv

/-- Where the printed text holds `CN=`, some attribute is a common name. -/
theorem infix_render {s : Subject} (hs : ∀ a ∈ s.flatMap Rdn.attrs, Modest a)
    (h : ['C', 'N', '='] <:+: render s) : firstCn? s ≠ none := by
  obtain ⟨x, hx, hin⟩ := Lib.Text.infix_intercalate (by decide) (by simp) h
  obtain ⟨r, hr, rfl⟩ := List.mem_map.mp hx
  obtain ⟨y, hy, hin⟩ := Lib.Text.infix_intercalate (by decide) (by simp) hin
  obtain ⟨a, ha, rfl⟩ := List.mem_map.mp hy
  have hr' : r ∈ s := List.mem_reverse.mp hr
  have ha := List.mem_reverse.mp ha
  have hcn := (hs a (List.mem_flatMap.mpr ⟨r, hr', ha⟩)).infix_print hin
  intro hnone
  have hrn := List.findSome?_eq_none_iff.mp hnone r hr'
  exact absurd (List.find?_eq_none.mp hrn a ha) (by simp [hcn])

/-! ## The controller's reading -/

/-- The controller takes the group that its search finds, stripped. -/
theorem controllerCn_eq (settings : Controller.Settings) (serial : Option String) (s : Subject) :
    controllerCn settings serial s
      = (cnSearch (render s)).map fun g => String.ofList (strip g) := by
  unfold controllerCn
  rw [identityOf_verified, String.toList_ofList]
  rcases cnSearch (render s) with _ | g
  · rfl
  · rfl

/-- Where the search finds something, there is a `CN=`. -/
theorem infix_of_cnSearch : ∀ {t g : List Char}, cnSearch t = some g → ['C', 'N', '='] <:+: t
  | [], _, h => by simp [cnSearch] at h
  | c :: cs, g, h => by
    rw [cnSearch] at h
    split at h
    next hhit => exact (List.isPrefixOf_iff_prefix.mp hhit.1).isInfix
    next => exact List.infix_cons (infix_of_cnSearch h)

/-- A subject with a commonName, cut at the one that is printed first. -/
theorem exists_first_cut {s : Subject} {r : Rdn} (hr : lastRdn? s = some r) :
    ∃ k : Cut, k.subject = s ∧ r.attrs = (k.left ++ k.cn :: k.right).reverse ∧
      k.cn.type = cnType ∧ (∀ r' ∈ k.before, ∀ a ∈ r'.attrs, a.type ≠ cnType) ∧
      ∀ a ∈ k.left, a.type ≠ cnType := by
  obtain ⟨hsome, before, after, hs, hbefore⟩ := List.find?_eq_some_iff_append.mp hr
  obtain ⟨first, hfirst⟩ := Option.isSome_iff_exists.mp hsome
  -- the first that is printed is the last one of the RDN
  obtain ⟨cn, hcn⟩ : ∃ cn, r.attrs.reverse.find? (fun a => decide (a.type = cnType)) = some cn := by
    unfold cn? at hfirst
    refine Option.isSome_iff_exists.mp (List.find?_isSome.mpr ⟨first, ?_, ?_⟩)
    · exact List.mem_reverse.mpr (List.mem_of_find?_eq_some hfirst)
    · simpa using List.find?_some hfirst
  obtain ⟨htype, left, right, hattrs, hleft⟩ := List.find?_eq_some_iff_append.mp hcn
  have hattrs : r.attrs = (left ++ cn :: right).reverse := by rw [← hattrs, List.reverse_reverse]
  refine ⟨⟨before, left, cn, right, after⟩, ?_, hattrs, by simpa using htype, ?_, ?_⟩
  · obtain ⟨attrs, hne⟩ := r
    subst hattrs
    rw [← List.reverse_reverse s, hs]
    rfl
  · intro r' hr' a ha hty
    have hnone : cn? r' = none := by simpa using hbefore r' hr'
    exact absurd (List.find?_eq_none.mp hnone a ha) (by simp [hty])
  · intro a ha hty
    simpa [hty] using hleft a ha

/-- The attributes of the cut's RDN are attributes of the subject. -/
theorem Cut.mem_subject {k : Cut} {a : Attribute} (ha : a ∈ k.left ++ k.cn :: k.right) :
    a ∈ k.subject.flatMap Rdn.attrs :=
  List.mem_flatMap.mpr ⟨⟨(k.left ++ k.cn :: k.right).reverse, by simp⟩, by simp [Cut.subject],
    List.mem_reverse.mpr ha⟩

/-- In front of the first common name of a modest subject there is no `CN=`. -/
theorem Modest.not_mentions_head {k : Cut} (hs : ∀ a ∈ k.subject.flatMap Rdn.attrs, Modest a)
    (hbefore : ∀ r ∈ k.before, ∀ a ∈ r.attrs, a.type ≠ cnType)
    (hleft : ∀ a ∈ k.left, a.type ≠ cnType) : ¬ Mentions k.head := by
  rintro ⟨x, c, y, he, -⟩
  have hin : ['C', 'N', '='] <:+: k.head := ⟨x, c :: y, by rw [he]; simp⟩
  unfold Cut.head at hin
  rcases Lib.Text.infix_flatMap_append (by decide) _ hin with ⟨r, hr, hin⟩ | hin
  · obtain ⟨p, hp, hin⟩ := Lib.Text.infix_intercalate (by decide) (by simp) hin
    obtain ⟨a, ha, rfl⟩ := List.mem_map.mp hp
    have ha := List.mem_reverse.mp ha
    have hmem : a ∈ k.subject.flatMap Rdn.attrs :=
      List.mem_flatMap.mpr ⟨r, by simp [Cut.subject, hr], ha⟩
    exact hbefore r hr a ha ((hs a hmem).infix_print hin)
  · rw [← List.append_nil (k.left.flatMap _)] at hin
    rcases Lib.Text.infix_flatMap_append (by decide) _ hin with ⟨a, ha, hin⟩ | hin
    · have hmem : a ∈ k.subject.flatMap Rdn.attrs :=
        Cut.mem_subject (List.mem_append_left _ ha)
      exact hleft a ha ((hs a hmem).infix_print hin)
    · exact absurd (List.infix_nil.mp hin) (by simp)

/-- What the controller reads: the value, and the rest of its RDN with it. -/
theorem Modest.cnSearch_cut {k : Cut} (hs : ∀ a ∈ k.subject.flatMap Rdn.attrs, Modest a)
    (hcn : k.cn.type = cnType) (hhead : ¬ Mentions k.head) :
    cnSearch (render k.subject) = some (k.cn.value ++ k.tail.takeWhile cnChar) := by
  have hmodest : Modest k.cn := hs k.cn (Cut.mem_subject (by simp))
  have hall : ∀ c ∈ k.cn.value, cnChar c = true := by
    intro c hc
    have hty := hmodest.chars c hc
    simp [cnChar, ne_of_typeChar (d := ',') hty rfl, ne_of_typeChar (d := '/') hty rfl]
  obtain ⟨c, y, hcy⟩ := List.exists_cons_of_ne_nil hmodest.nonempty
  have hfound := cnSearch_of_first (hall c (by simp [hcy])) (y ++ k.tail) k.head
    (not_mentions_head_append hhead)
  rw [← List.cons_append, ← hcy, List.takeWhile_append_of_pos hall] at hfound
  rw [← hfound, render_cut, Attribute.print_cn hcn, hmodest.escape]
  simp

/-- A modest value has no blank at its ends. -/
theorem Modest.strip_value {a : Attribute} (h : Modest a) : strip a.value = a.value := by
  have hspace : ∀ c ∈ a.value, isSpace c = false := fun c hc =>
    isSpace_of_printable (List.all_eq_true.mp a.value_ok c hc) (ne_of_typeChar (h.chars c hc) rfl)
  exact trim_eq_self (fun c hc => hspace c (List.mem_of_head? hc))
    fun c hc => hspace c (List.mem_of_getLast? hc)

/-- A subject without a first common name has no last one either. -/
theorem lastRdn?_eq_none {s : Subject} : lastRdn? s = none ↔ firstCn? s = none := by
  unfold lastRdn? firstCn?
  rw [List.find?_eq_none, List.findSome?_eq_none_iff]
  simp

/-- The first common name is an attribute of the subject. -/
theorem mem_of_firstCn? {s : Subject} {a : Attribute} (h : firstCn? s = some a) :
    a ∈ s.flatMap Rdn.attrs := by
  obtain ⟨r, hr, hcn⟩ := List.exists_of_findSome?_eq_some h
  exact List.mem_flatMap.mpr ⟨r, hr, List.mem_of_find?_eq_some hcn⟩

/-- **When both see the same name.** The two find none on the same subjects; and
where there is one they agree just when the last begins its RDN, has no other
beside it, and reads like the first. The values are modest, so nothing in them
is escaped or stops the search. -/
theorem sameName_iff (settings : Controller.Settings) (serial : Option String) (names : OidNames)
    {s : Subject} (hs : ∀ a ∈ s.flatMap Rdn.attrs, Modest a) :
    (controllerCn settings serial s = none ↔ peerCn (some (getpeercert names s)) = none) ∧
    (controllerCn settings serial s = peerCn (some (getpeercert names s)) ↔ OneName s) := by
  rw [controllerCn_eq, peerCn_getpeercert]
  unfold OneName
  -- without a commonName both find nothing
  rcases hr : lastRdn? s with _ | r
  · have hfirst : firstCn? s = none := lastRdn?_eq_none.mp hr
    have hsearch : cnSearch (render s) = none := by
      rcases hg : cnSearch (render s) with _ | g
      · rfl
      · exact absurd hfirst (infix_render hs (infix_of_cnSearch hg))
    simp [hfirst, hsearch]
  · obtain ⟨k, rfl, hattrs, htype, hbefore, hleft⟩ := exists_first_cut hr
    obtain ⟨a, ha⟩ : ∃ a, firstCn? k.subject = some a := by
      refine Option.ne_none_iff_exists'.mp fun hnone => ?_
      rw [lastRdn?_eq_none.mpr hnone] at hr
      exact absurd hr (by simp)
    rw [Modest.cnSearch_cut hs htype (Modest.not_mentions_head hs hbefore hleft), ha]
    refine ⟨by simp, ?_⟩
    simp only [Option.map_some, Option.some.injEq, Option.mem_def, forall_eq', String.ofList_inj]
    -- is there an attribute printed after the one that the search finds, in the same RDN?
    rcases hright : k.right with _ | ⟨b, bs⟩
    · have htail : k.tail.takeWhile cnChar = [] := by
        unfold Cut.tail
        rw [hright]
        rcases k.after with _ | ⟨r', rs⟩
        · rfl
        · exact List.takeWhile_cons_of_neg (by decide)
      have hmodest : Modest k.cn := hs k.cn (Cut.mem_subject (by simp))
      have hfront : r.attrs = k.cn :: k.left.reverse := by rw [hattrs, hright]; simp
      have hcn : cn? r = some k.cn := by
        unfold cn?
        rw [hfront, List.find?_cons_of_pos (by simpa using htype)]
      rw [htail, List.append_nil, hmodest.strip_value, hfront, hcn]
      simp only [List.tail_cons, List.mem_reverse, Option.map_some, Option.some.injEq]
      exact ⟨fun h => ⟨hleft, h⟩, And.right⟩
    · -- the `+` after the value is read with it, and is in no value
      refine iff_of_false (fun h => ?_) fun h => ?_
      · have hplus : '+' ∈ strip (k.cn.value ++ k.tail.takeWhile cnChar) := by
          refine Lib.Text.mem_trim (List.mem_append_right _ ?_) rfl
          unfold Cut.tail
          rw [hright, List.flatMap_cons, List.cons_append, List.cons_append,
            List.takeWhile_cons_of_pos rfl]
          exact List.mem_cons_self ..
        rw [h] at hplus
        exact absurd ((hs a (mem_of_firstCn? ha)).chars '+' hplus) (by decide)
      · refine absurd htype (h.1 k.cn ?_)
        rw [hattrs, hright, List.reverse_append, List.reverse_cons, List.append_assoc,
          List.tail_append_of_ne_nil (by simp)]
        simp

/-- The types of the certificates here. -/
def longNames : OidNames where
  long t :=
    if t = cnType then "commonName" else if t = ['O', 'U'] then "organizationalUnitName"
    else "undefined"
  commonName_iff t := by
    split_ifs with h₁ h₂
    · simp [h₁]
    · simp [h₁]
    · simp [h₁]

theorem cnType_ok : cnType.all typeChar = true := rfl

/-- One RDN with two attributes, the shorter encoding first, as DER sorts a set. -/
def joined : Subject :=
  [⟨[⟨['O', 'U'], "nodes".toList, rfl, rfl⟩, ⟨cnType, "pi-04.thesis.local".toList, cnType_ok, rfl⟩],
    List.cons_ne_nil _ _⟩]

/-- Two RDNs with a commonName each. -/
def repeated : Subject :=
  [⟨[⟨cnType, "prometheus.thesis.local".toList, cnType_ok, rfl⟩], List.cons_ne_nil _ _⟩,
    ⟨[⟨cnType, "controller.thesis.local".toList, cnType_ok, rfl⟩], List.cons_ne_nil _ _⟩]

/-- The controller keeps the `+OU=nodes`, and takes the other of two names. -/
theorem two_readings :
    (∀ a ∈ joined.flatMap Rdn.attrs, Modest a) ∧
    controllerCn {} (some "01") joined = some "pi-04.thesis.local+OU=nodes" ∧
    peerCn (some (getpeercert longNames joined)) = some "pi-04.thesis.local" ∧
    (∀ a ∈ repeated.flatMap Rdn.attrs, Modest a) ∧
    controllerCn {} (some "01") repeated = some "controller.thesis.local" ∧
    peerCn (some (getpeercert longNames repeated)) = some "prometheus.thesis.local" := by
  rw [controllerCn_eq, controllerCn_eq]
  decide +kernel

/-- A unit in its own RDN, before the name or after it, is no trouble. -/
def apart : Subject :=
  [⟨[⟨['O', 'U'], "nodes".toList, rfl, rfl⟩], List.cons_ne_nil _ _⟩,
    ⟨[⟨cnType, "pi-04.thesis.local".toList, cnType_ok, rfl⟩], List.cons_ne_nil _ _⟩]

/-- Both sides of the theorem at a subject with its name in an RDN of its own. -/
theorem apart_sameName :
    (controllerCn {} (some "01") apart = none ↔ peerCn (some (getpeercert longNames apart)) = none) ∧
    (controllerCn {} (some "01") apart = peerCn (some (getpeercert longNames apart)) ↔
      OneName apart) :=
  sameName_iff {} (some "01") longNames (by decide)

end ZeroTrustLab.Agent
