import ZeroTrustLab.Lib.Interleave

/-!
# How a program comes by its history

The history of a party in a run is not an arbitrary list of calls: it is a
path from the root of its program. `Prog.Reaches p h q` says that `p`, having
made the calls of `h` with the answers there, stands at `q`; `Steps.reaches` is
the fact that parties of a run stand where their histories lead.

With it, what a program *is* becomes a fact about every run: a program without
a certain call never makes it (`Reaches.all`), and a sequence has either not
left its head or finished it (`Reaches.bind_inv`).

`Prog.Upholds` is for calls that depend on earlier answers: it speaks of each
call together with the history before it, and of each result together with the
whole history. A proof of it follows the code, and `Reaches.upholds_at` and
`Reaches.upholds_end` read it off a run.

A failed call is an act like any other, whose answer is an exception and after
which the program is over. Statements that are about successful histories say
so with a hypothesis on the acts, not by another notion of path.
-/

namespace ZeroTrustLab.Lib

section

variable {C : Type} {A : C → Type} {ε α β ι L W E : Type}

namespace Prog

/-- Along the history `h`, the program `p` comes to `q`. -/
inductive Reaches : Prog C A ε α → List (Act C A ε) → Prog C A ε α → Prop where
  | refl (p : Prog C A ε α) : Reaches p [] p
  | answered {c : C} {k : A c → Prog C A ε α} {x : A c} {h : List (Act C A ε)}
      {q : Prog C A ε α} : Reaches (k x) h q → Reaches (.call c k) (⟨c, .ok x⟩ :: h) q
  | raised {c : C} {k : A c → Prog C A ε α} {e : ε} :
      Reaches (.call c k) [⟨c, .error e⟩] (.throw e)

theorem Reaches.trans {p q r : Prog C A ε α} {h h' : List (Act C A ε)} (hp : Reaches p h q)
    (hq : Reaches q h' r) : Reaches p (h ++ h') r := by
  induction hp with
  | refl => exact hq
  | answered _ ih => exact .answered (ih hq)
  | raised =>
    cases hq with
    | refl => exact .raised

/-- Every call in the program, whatever the answers, satisfies `P`. -/
def All (P : C → Prop) : Prog C A ε α → Prop
  | .pure _ => True
  | .throw _ => True
  | .call c k => P c ∧ ∀ x, All P (k x)

/-- Where all calls of both parts satisfy a condition, those of the sequence
do. -/
theorem All.bind {P : C → Prop} {p : Prog C A ε α} {f : α → Prog C A ε β} (hp : p.All P)
    (hf : ∀ a, (f a).All P) : (p >>= f).All P := by
  induction p with
  | pure a => exact hf a
  | throw e => trivial
  | call c k ih => exact ⟨hp.1, fun x => ih x (hp.2 x)⟩

/-- Where all calls of both branches satisfy a condition, those of the choice
do. -/
theorem All.ite {P : C → Prop} {b : Prop} [Decidable b] {p q : Prog C A ε α} (hp : p.All P)
    (hq : q.All P) : (if b then p else q).All P := by
  split
  next => exact hp
  next => exact hq

/-- A history holds only calls of the program. -/
theorem Reaches.all {P : C → Prop} {p q : Prog C A ε α} {h : List (Act C A ε)}
    (hr : Reaches p h q) (hp : p.All P) : ∀ a ∈ h, P a.call := by
  induction hr with
  | refl => simp
  | answered _ ih =>
    intro a ha
    rcases List.mem_cons.mp ha with rfl | ha
    · exact hp.1
    · exact ih (hp.2 _) a ha
  | raised =>
    intro a ha
    rw [List.mem_singleton.mp ha]
    exact hp.1

theorem All.mono {P Q : C → Prop} (hPQ : ∀ c, P c → Q c) {p : Prog C A ε α} (hp : p.All P) :
    p.All Q := by
  induction p with
  | pure a => trivial
  | throw e => trivial
  | call c k ih => exact ⟨hPQ c hp.1, fun x => ih x (hp.2 x)⟩

/-- Only the first call of the program may satisfy `P`. -/
def AtFront (P : C → Prop) : Prog C A ε α → Prop
  | .pure _ => True
  | .throw _ => True
  | .call _ k => ∀ x, (k x).All (¬ P ·)

/-- A program without such calls has them at its front only. -/
theorem All.atFront {P : C → Prop} {p : Prog C A ε α} (hp : p.All (¬ P ·)) : p.AtFront P := by
  cases p with
  | pure a => trivial
  | throw e => trivial
  | call c k => exact hp.2

theorem AtFront.bind {P : C → Prop} {p : Prog C A ε α} {f : α → Prog C A ε β} (hp : p.AtFront P)
    (hf : ∀ a, (f a).All (¬ P ·)) : (p >>= f).AtFront P := by
  cases p with
  | pure a => exact (hf a).atFront
  | throw e => trivial
  | call c k => exact fun x => (hp x).bind hf

/-- A call in a history that satisfies `P` is its first, and the only one. -/
theorem Reaches.atFront {P : C → Prop} {p q : Prog C A ε α} {h : List (Act C A ε)}
    (hr : Reaches p h q) (hp : p.AtFront P) :
    ∀ a ∈ h, P a.call → ∃ rest, h = a :: rest ∧ ∀ b ∈ rest, ¬ P b.call := by
  intro a ha hPa
  cases hr with
  | refl => exact absurd ha (by simp)
  | @raised c k e =>
    obtain rfl := List.mem_singleton.mp ha
    exact ⟨[], rfl, by simp⟩
  | @answered c k x h q hrest =>
    have hnone := hrest.all (hp x)
    rcases List.mem_cons.mp ha with rfl | ha
    · exact ⟨h, rfl, hnone⟩
    · exact absurd hPa (hnone a ha)

/-- What is left of a program holds only calls of the program. -/
theorem Reaches.all_rest {P : C → Prop} {p q : Prog C A ε α} {h : List (Act C A ε)}
    (hr : Reaches p h q) (hp : p.All P) : q.All P := by
  induction hr with
  | refl => exact hp
  | answered _ ih => exact ih (hp.2 _)
  | raised => trivial

/-- Where the program is about to make such a call, it has made none yet. -/
theorem Reaches.eq_nil_of_atFront {P : C → Prop} {p : Prog C A ε α} {h : List (Act C A ε)} {c : C}
    {k : A c → Prog C A ε α} (hr : Reaches p h (.call c k)) (hp : p.AtFront P) (hc : P c) :
    h = [] := by
  cases hr with
  | refl => rfl
  | answered hrest => exact absurd hc (hrest.all_rest (hp _)).1

/-- A call that ended in an exception was the last. -/
theorem Reaches.eq_throw {p q : Prog C A ε α} {h : List (Act C A ε)} (hr : Reaches p h q) {c : C}
    {e : ε} (hc : ⟨c, .error e⟩ ∈ h) : q = .throw e := by
  induction hr with
  | refl => simp at hc
  | answered _ ih =>
    rcases List.mem_cons.mp hc with he | hc
    · cases he
    · exact ih hc
  | raised =>
    cases List.mem_singleton.mp hc
    rfl

/-- Whatever the answers, the program raises. -/
def NeverReturns : Prog C A ε α → Prop
  | .pure _ => False
  | .throw _ => True
  | .call _ k => ∀ x, NeverReturns (k x)

theorem NeverReturns.bind (p : Prog C A ε α) {f : α → Prog C A ε β}
    (hf : ∀ a, (f a).NeverReturns) : (p >>= f).NeverReturns := by
  induction p with
  | pure a => exact hf a
  | throw e => trivial
  | call c k ih => exact ih

/-- What is left of a program that never returns never returns. -/
theorem Reaches.neverReturns {p q : Prog C A ε α} {h : List (Act C A ε)} (hr : Reaches p h q)
    (hp : p.NeverReturns) : q.NeverReturns := by
  induction hr with
  | refl => exact hp
  | answered _ ih => exact ih (hp _)
  | raised => trivial

/-- A sequence is still in its head, or past it. -/
theorem Reaches.bind_inv : ∀ {p : Prog C A ε α} {f : α → Prog C A ε β} {h : List (Act C A ε)}
    {q : Prog C A ε β}, Reaches (p >>= f) h q →
      (∃ q', Reaches p h q' ∧ q = (q' >>= f)) ∨
      ∃ h₁ h₂ a, h = h₁ ++ h₂ ∧ Reaches p h₁ (.pure a) ∧ Reaches (f a) h₂ q := by
  intro p
  induction p with
  | pure a => exact fun {f h q} hr => .inr ⟨[], h, a, rfl, .refl _, hr⟩
  | throw e =>
    intro f h q hr
    cases hr with
    | refl => exact .inl ⟨.throw e, .refl _, rfl⟩
  | call c k ih =>
    intro f h q hr
    cases hr with
    | refl => exact .inl ⟨.call c k, .refl _, rfl⟩
    | raised => exact .inl ⟨.throw _, .raised, rfl⟩
    | answered hrest =>
      rcases ih _ hrest with ⟨q', hq', rfl⟩ | ⟨h₁, h₂, a, rfl, h₁a, h₂q⟩
      · exact .inl ⟨q', .answered hq', rfl⟩
      · exact .inr ⟨_, h₂, a, rfl, .answered h₁a, h₂q⟩

/-- A sequence that has returned had its head return. -/
theorem Reaches.bind_returns {p : Prog C A ε α} {f : α → Prog C A ε β} {h : List (Act C A ε)}
    {b : β} (hr : Reaches (p >>= f) h (.pure b)) :
    ∃ h₁ h₂ a, h = h₁ ++ h₂ ∧ Reaches p h₁ (.pure a) ∧ Reaches (f a) h₂ (.pure b) := by
  rcases hr.bind_inv with ⟨q', hq', hq⟩ | hsplit
  · cases q' with
    | pure a => exact ⟨h, [], a, (List.append_nil h).symm, hq', hq ▸ .refl (f a)⟩
    | throw e => exact absurd hq (by simp)
    | call c k => exact absurd hq (by simp)
  · exact hsplit

/-- A sequence that has ended did so in its head, by an exception, or past it. -/
theorem Reaches.bind_ends {p : Prog C A ε α} {f : α → Prog C A ε β} {h : List (Act C A ε)}
    {q : Prog C A ε β} {r : Except ε β} (hr : Reaches (p >>= f) h q) (hq : q.result? = some r) :
    (∃ e, Reaches p h (.throw e) ∧ r = .error e) ∨
    ∃ h₁ h₂ a, h = h₁ ++ h₂ ∧ Reaches p h₁ (.pure a) ∧ Reaches (f a) h₂ q := by
  rcases hr.bind_inv with ⟨q', hq', rfl⟩ | hpast
  · cases q' with
    | pure a => exact .inr ⟨h, [], a, (List.append_nil h).symm, hq', .refl (f a)⟩
    | throw e => exact .inl ⟨e, hq', (Option.some.inj hq).symm⟩
    | call c k => exact absurd (show none = some r from hq) (by simp)
  · exact .inr hpast

/-! ## Along a history -/

/-- From the history `h` on, every call of the program satisfies `P` with the
history before it, and the program ends in `Q`. `E` are the exceptions a call
may end in. -/
def Upholds (E : C → ε → Prop) (P : List (Act C A ε) → C → Prop)
    (Q : List (Act C A ε) → Except ε α → Prop) (h : List (Act C A ε)) : Prog C A ε α → Prop
  | .pure a => Q h (.ok a)
  | .throw e => Q h (.error e)
  | .call c k => P h c ∧ (∀ x, Upholds E P Q (h ++ [⟨c, .ok x⟩]) (k x)) ∧
      ∀ e, E c e → Q (h ++ [⟨c, .error e⟩]) (.error e)

variable {E' : C → ε → Prop} {P : List (Act C A ε) → C → Prop}
  {Q Q' : List (Act C A ε) → Except ε α → Prop} {h h' : List (Act C A ε)}

/-- The rule for a sequence. -/
theorem Upholds.bind {R : List (Act C A ε) → Except ε β → Prop} {p : Prog C A ε β}
    {f : β → Prog C A ε α} (hp : p.Upholds E' P R h)
    (hf : ∀ h b, R h (.ok b) → (f b).Upholds E' P Q h)
    (he : ∀ h e, R h (.error e) → Q h (.error e)) : (p >>= f).Upholds E' P Q h := by
  induction p generalizing h with
  | pure b => exact hf h b hp
  | throw e => exact he h e hp
  | call c k ih =>
    obtain ⟨hc, hok, herr⟩ := hp
    exact ⟨hc, fun x => ih x (hok x), fun e hE => he _ e (herr e hE)⟩

theorem Upholds.mono {p : Prog C A ε α} (hp : p.Upholds E' P Q h)
    (hQ : ∀ h r, Q h r → Q' h r) : p.Upholds E' P Q' h := by
  induction p generalizing h with
  | pure a => exact hQ h _ hp
  | throw e => exact hQ h _ hp
  | call c k ih =>
    obtain ⟨hc, hok, herr⟩ := hp
    exact ⟨hc, fun x => ih x (hok x), fun e hE => hQ _ _ (herr e hE)⟩

/-- What every call keeps, the program keeps. -/
theorem All.upholds {B : C → Prop} {I : List (Act C A ε) → Prop} {p : Prog C A ε α} (hp : p.All B)
    (hstep : ∀ h a, B a.call → I h → I (h ++ [a])) (hI : I h) :
    p.Upholds E' (fun _ _ => True) (fun h _ => I h) h := by
  induction p generalizing h with
  | pure a => exact hI
  | throw e => exact hI
  | call c k ih =>
    exact ⟨trivial, fun x => ih x (hp.2 x) (hstep h _ hp.1 hI), fun e _ => hstep h _ hp.1 hI⟩

/-- A program that does not return ends in an exception. -/
theorem NeverReturns.upholds {p : Prog C A ε α} (hn : p.NeverReturns) (hp : p.Upholds E' P Q h)
    (hQ : ∀ h e, Q h (.error e) → Q' h (.error e)) : p.Upholds E' P Q' h := by
  induction p generalizing h with
  | pure a => exact absurd hn id
  | throw e => exact hQ h e hp
  | call c k ih =>
    obtain ⟨hc, hok, herr⟩ := hp
    exact ⟨hc, fun x => ih x (hn x) (hok x), fun e hE => hQ _ e (herr e hE)⟩

/-- What is left of the program goes on so. -/
theorem Reaches.upholds {p q : Prog C A ε α} (hr : Reaches p h' q)
    (hE : ∀ c e, ⟨c, .error e⟩ ∈ h' → E' c e) (hp : p.Upholds E' P Q h) :
    q.Upholds E' P Q (h ++ h') := by
  induction hr generalizing h with
  | refl => rwa [List.append_nil]
  | @answered c k x h' q _ ih =>
    have hq := ih (fun c e hc => hE c e (List.mem_cons_of_mem _ hc)) (hp.2.1 x)
    rwa [List.append_assoc] at hq
  | raised => exact hp.2.2 _ (hE _ _ (List.mem_singleton_self _))

/-- A history can be cut at each of its calls. -/
theorem Reaches.cut {p q : Prog C A ε α} {a : Act C A ε} {h₁ h₂ : List (Act C A ε)}
    (hr : Reaches p (h₁ ++ a :: h₂) q) : ∃ k, Reaches p h₁ (.call a.call k) := by
  generalize hh : h₁ ++ a :: h₂ = h at hr
  induction hr generalizing h₁ with
  | refl => simp at hh
  | @answered c k x h q _ ih =>
    cases h₁ with
    | nil =>
      obtain ⟨rfl, -⟩ := List.cons_eq_cons.mp hh
      exact ⟨k, .refl _⟩
    | cons b h₁ =>
      obtain ⟨rfl, hrest⟩ := List.cons_eq_cons.mp hh
      obtain ⟨k', hk'⟩ := ih hrest
      exact ⟨k', .answered hk'⟩
  | @raised c k e =>
    cases h₁ with
    | nil =>
      obtain ⟨rfl, -⟩ := List.cons_eq_cons.mp hh
      exact ⟨k, .refl _⟩
    | cons b h₁ => simp at hh

/-- A call that is made in a run satisfies `P`. -/
theorem Reaches.upholds_at {p q : Prog C A ε α} {a : Act C A ε} {h₁ h₂ : List (Act C A ε)}
    (hr : Reaches p (h₁ ++ a :: h₂) q) (hE : ∀ c e, ⟨c, .error e⟩ ∈ h₁ → E' c e)
    (hp : p.Upholds E' P Q h) : P (h ++ h₁) a.call := by
  obtain ⟨k, hk⟩ := hr.cut
  exact (hk.upholds hE hp).1

/-- A result that is reached in a run satisfies `Q`. -/
theorem Reaches.upholds_end {p q : Prog C A ε α} {r : Except ε α} (hr : Reaches p h' q)
    (hE : ∀ c e, ⟨c, .error e⟩ ∈ h' → E' c e) (hp : p.Upholds E' P Q h)
    (hq : q.result? = some r) : Q (h ++ h') r := by
  have hleaf := hr.upholds hE hp
  rcases Prog.result?_cases hq with ⟨a, rfl, rfl⟩ | ⟨e, rfl, rfl⟩
  · exact hleaf
  · exact hleaf

end Prog

variable [DecidableEq ι]

/-- Where a party stands, given the program it started with and its history. -/
def Party.At (p : Prog C A ε α) (h : List (Act C A ε)) (s : Status C A ε α) : Prop :=
  match s with
  | .running q => p.Reaches h q
  | .done r => ∃ q, p.Reaches h q ∧ q.result? = some r

/-- The parties of a run stand where their histories lead. -/
theorem Steps.reaches {M : Machine C A ε ι L W E} {c c' : Cfg C A ε α ι L W}
    {ls : List (Label C A ε ι E)} (h : Steps M c ls c') {i : ι} {p : Prog C A ε α}
    (hp : (c.party i).status = .running p) : Party.At p (acts i ls) (c'.party i).status := by
  induction h with
  | refl =>
    rw [hp]
    exact .refl p
  | @snoc c₁ c₂ ls lab _ hs ih =>
    -- the party's own move lengthens its path; the others leave it where it stands
    by_cases hby : lab.by? = some i
    · unfold Party.At at ih
      cases hs with
      | @served j c k x l' w' hst hserve =>
        obtain rfl : j = i := Option.some.inj hby
        rw [hst] at ih
        have hr := Prog.Reaches.trans ih (.answered (.refl (k x)))
        simpa [Party.At] using hr
      | @raised j c k e l' w' hst hraise =>
        obtain rfl : j = i := Option.some.inj hby
        rw [hst] at ih
        have hr := Prog.Reaches.trans ih (Prog.Reaches.raised (k := k) (e := e))
        simpa [Party.At] using hr
      | @exited j q r hst hr =>
        obtain rfl : j = i := Option.some.inj hby
        rw [hst] at ih
        simpa [Party.At] using ⟨q, ih, hr⟩
      | env e => simp [Label.by?] at hby
    · rw [acts_append, acts_eq_nil hby, List.append_nil, hs.party_ne hby]
      exact ih

end

end ZeroTrustLab.Lib
