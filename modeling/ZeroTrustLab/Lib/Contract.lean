import ZeroTrustLab.Lib.Interleave

/-!
# A rely/guarantee logic for interleaved parties

Proving something of every interleaving by hand means carrying an invariant
over the product of all program positions. The logic here does it party by
party instead:

* `Contract`: what a party *relies* on the others (and the environment) doing
  to the shared state, and what it *guarantees* of each step of its own.
* `Safe`: at every point of the program, whatever the rely allowed to happen
  meanwhile, the next step keeps the guarantee, and the leaves satisfy `Q`.
  It is a recursion on the program, so a proof follows the code.
* `Triple`: `Safe` from an assertion instead of from one state, with one rule
  for each program constructor (`Triple.call`, `Triple.bind`, ...).
* `Compatible`: each party's guarantee is within every other party's rely.
* `Steps.allSafe`: from compatible contracts and safe programs, every party
  stays safe through every interleaving; `Steps.moveOk`: every move keeps its
  guarantee; `AllSafe.done`: a party that has left satisfies its
  postcondition, from then on.

Nothing is assumed of the parties but that their contracts fit together, so the
same rule serves parties that run different programs, and parties that have not
started yet. A failing call is one more way for a step to go, and the triple of
a call asks for both.
-/

namespace ZeroTrustLab.Lib

section

variable {C : Type} {A : C → Type} {ε α β ι L W E : Type} {M : Machine C A ε ι L W E}

/-! ## Contracts -/

/-- What a party relies on, and what it guarantees of its own steps. -/
structure Contract (C : Type) (A : C → Type) (ε L W : Type) where
  /-- What others may do to the shared state while the party waits. -/
  rely : W → W → Prop
  /-- What a step of the party does, given its history before the step. -/
  guar : List (Act C A ε) → L → W → L → W → Prop

/-- Assertions about a party: its history, its own state and the shared one. -/
abbrev Assn (C : Type) (A : C → Type) (ε L W : Type) := List (Act C A ε) → L → W → Prop

variable (M) in
/-- From here on every step keeps the guarantee, whatever the rely lets happen
before it, and the program ends in `Q`. -/
def Safe (K : Contract C A ε L W) (i : ι) (Q : Except ε α → Assn C A ε L W) :
    Prog C A ε α → List (Act C A ε) → L → W → Prop
  | .pure a, h, l, w => Q (.ok a) h l w
  | .throw e, h, l, w => Q (.error e) h l w
  | .call c k, h, l, w => ∀ w', K.rely w w' →
      (∀ x l' w'', M.serve i c l w' = (.ok x, l', w'') →
        K.guar h l w' l' w'' ∧ Safe K i Q (k x) (h ++ [⟨c, .ok x⟩]) l' w'') ∧
      ∀ e l' w'', M.Raises i c l w' e l' w'' →
        K.guar h l w' l' w'' ∧ Q (.error e) (h ++ [⟨c, .error e⟩]) l' w''

variable (M) in
/-- At a leaf: leaving keeps the guarantee, and `post` holds ever after. -/
def Leaves (K : Contract C A ε L W) (i : ι) (post : Except ε α → Assn C A ε L W) :
    Except ε α → Assn C A ε L W :=
  fun r h l w => ∀ w', K.rely w w' →
    K.guar h l w' (M.close i l w').1 (M.close i l w').2 ∧
    ∀ w'', K.rely (M.close i l w').2 w'' → post r h (M.close i l w').1 w''

variable (M) in
/-- A party wherever it is: safe while it runs, in its postcondition after. -/
def PartySafe (K : Contract C A ε L W) (i : ι) (post : Except ε α → Assn C A ε L W)
    (h : List (Act C A ε)) (w : W) (p : Party C A ε α L) : Prop :=
  match p.status with
  | .running q => Safe M K i (Leaves M K i post) q h p.loc w
  | .done r => ∀ w', K.rely w w' → post r h p.loc w'

variable (M) in
/-- The contracts fit together: each step of a party, and of the environment,
is one every other party relies on. -/
structure Compatible (K : ι → Contract C A ε L W) : Prop where
  refl : ∀ i w, (K i).rely w w
  trans : ∀ i w w' w'', (K i).rely w w' → (K i).rely w' w'' → (K i).rely w w''
  other : ∀ i j, i ≠ j → ∀ h l w l' w', (K j).guar h l w l' w' → (K i).rely w w'
  env : ∀ i e w, (K i).rely w (M.env e w)

/-! ## Triples -/

variable (M) in
/-- From `P` the program is safe and ends in `Q`. -/
def Triple (K : Contract C A ε L W) (i : ι) (P : Assn C A ε L W) (p : Prog C A ε α)
    (Q : Except ε α → Assn C A ε L W) : Prop :=
  ∀ h l w, P h l w → Safe M K i Q p h l w

/-- An assertion that what others do cannot break. -/
def Stable (K : Contract C A ε L W) (P : Assn C A ε L W) : Prop :=
  ∀ h l w w', P h l w → K.rely w w' → P h l w'

variable {K : Contract C A ε L W} {i : ι} {P P' : Assn C A ε L W}

theorem Triple.pure {a : α} {Q : Except ε α → Assn C A ε L W}
    (h : ∀ hs l w, P hs l w → Q (.ok a) hs l w) : Triple M K i P (.pure a) Q := h

theorem Triple.throw {e : ε} {Q : Except ε α → Assn C A ε L W}
    (h : ∀ hs l w, P hs l w → Q (.error e) hs l w) : Triple M K i P (.throw e) Q := h

/-- The rule for a call: both ways it can end keep the guarantee, an answer
establishes what the rest starts from, an exception ends in `Q`. -/
theorem Triple.call {c : C} {k : A c → Prog C A ε α} {Q : Except ε α → Assn C A ε L W}
    {R : A c → Assn C A ε L W} (hst : Stable K P)
    (hok : ∀ h l w x l' w', P h l w → M.serve i c l w = (.ok x, l', w') →
      K.guar h l w l' w' ∧ R x (h ++ [⟨c, .ok x⟩]) l' w')
    (herr : ∀ h l w e l' w', P h l w → M.Raises i c l w e l' w' →
      K.guar h l w l' w' ∧ Q (.error e) (h ++ [⟨c, .error e⟩]) l' w')
    (hk : ∀ x, Triple M K i (R x) (k x) Q) : Triple M K i P (.call c k) Q := by
  intro h l w hP w' hw
  -- the others move first, and `P` survives that
  have hP' := hst h l w w' hP hw
  refine ⟨fun x l' w'' hs => ?_, fun e l' w'' hr => herr h l w' e l' w'' hP' hr⟩
  obtain ⟨hg, hR⟩ := hok h l w' x l' w'' hP' hs
  exact ⟨hg, hk x _ _ _ hR⟩

/-- Weaken what is assumed, strengthen what is left. -/
theorem Triple.conseq {p : Prog C A ε α} {Q Q' : Except ε α → Assn C A ε L W}
    (hp : Triple M K i P p Q) (hP : ∀ h l w, P' h l w → P h l w)
    (hQ : ∀ r h l w, Q r h l w → Q' r h l w) : Triple M K i P' p Q' := by
  have key : ∀ (p : Prog C A ε α) h l w, Safe M K i Q p h l w → Safe M K i Q' p h l w := by
    intro p
    induction p with
    | pure a => exact fun h l w => hQ _ h l w
    | throw e => exact fun h l w => hQ _ h l w
    | call c k ih =>
      intro h l w hs w' hw
      obtain ⟨h₁, h₂⟩ := hs w' hw
      refine ⟨fun x l' w'' hx => ?_, fun e l' w'' hx => ?_⟩
      · exact ⟨(h₁ x l' w'' hx).1, ih x _ _ _ (h₁ x l' w'' hx).2⟩
      · exact ⟨(h₂ e l' w'' hx).1, hQ _ _ _ _ (h₂ e l' w'' hx).2⟩
  exact fun h l w hP' => key p h l w (hp h l w (hP h l w hP'))

/-- The rule for a sequence. -/
theorem Triple.bind {p : Prog C A ε α} {f : α → Prog C A ε β} {R : Except ε α → Assn C A ε L W}
    {Q : Except ε β → Assn C A ε L W} (hp : Triple M K i P p R)
    (hf : ∀ a, Triple M K i (R (.ok a)) (f a) Q)
    (he : ∀ e h l w, R (.error e) h l w → Q (.error e) h l w) : Triple M K i P (p >>= f) Q := by
  have key : ∀ (p : Prog C A ε α) h l w, Safe M K i R p h l w → Safe M K i Q (p >>= f) h l w := by
    intro p
    induction p with
    | pure a => exact fun h l w hR => hf a h l w hR
    | throw e => exact fun h l w hR => he e h l w hR
    | call c k ih =>
      intro h l w hs w' hw
      obtain ⟨h₁, h₂⟩ := hs w' hw
      refine ⟨fun x l' w'' hx => ?_, fun e l' w'' hx => ?_⟩
      · exact ⟨(h₁ x l' w'' hx).1, ih x _ _ _ (h₁ x l' w'' hx).2⟩
      · exact ⟨(h₂ e l' w'' hx).1, he _ _ _ _ (h₂ e l' w'' hx).2⟩
  exact fun h l w hP => key p h l w (hp h l w hP)

end

/-! ## Soundness -/

section

variable {C : Type} {A : C → Type} {ε α ι L W E : Type} {M : Machine C A ε ι L W E}

variable {K : ι → Contract C A ε L W} {post : ι → Except ε α → Assn C A ε L W}

/-- What a party has left stays so while the others move. -/
theorem Leaves.rely (hK : Compatible M K) {i : ι} {r : Except ε α} {h : List (Act C A ε)} {l : L}
    {w w' : W} (hl : Leaves M (K i) i (post i) r h l w) (hw : (K i).rely w w') :
    Leaves M (K i) i (post i) r h l w' :=
  fun w'' hw'' => hl w'' (hK.trans i _ _ _ hw hw'')

/-- What others do while a party waits leaves it safe. -/
theorem PartySafe.rely (hK : Compatible M K) {i : ι} {h : List (Act C A ε)} {w w' : W}
    {p : Party C A ε α L} (hp : PartySafe M (K i) i (post i) h w p) (hw : (K i).rely w w') :
    PartySafe M (K i) i (post i) h w' p := by
  unfold PartySafe at hp ⊢
  rcases hst : p.status with q | r
  · rw [hst] at hp
    -- what it waits at already allows for any such move
    cases q with
    | pure a => exact Leaves.rely hK hp hw
    | throw e => exact Leaves.rely hK hp hw
    | call c k => exact fun w'' hw'' => hp w'' (hK.trans i _ _ _ hw hw'')
  · rw [hst] at hp
    exact fun w'' hw'' => hp w'' (hK.trans i _ _ _ hw hw'')

variable [DecidableEq ι]

variable (M) in
/-- Every party is safe, with the histories of the trace so far. -/
def AllSafe (K : ι → Contract C A ε L W) (post : ι → Except ε α → Assn C A ε L W)
    (ls : List (Label C A ε ι E)) (c : Cfg C A ε α ι L W) : Prop :=
  ∀ i, PartySafe M (K i) i (post i) (acts i ls) c.world (c.party i)

/-- What a move of the run guarantees. -/
def MoveOk (K : ι → Contract C A ε L W) (ls : List (Label C A ε ι E))
    (c c' : Cfg C A ε α ι L W) (lab : Label C A ε ι E) : Prop :=
  ∀ i, lab.by? = some i →
    (K i).guar (acts i ls) (c.party i).loc c.world (c'.party i).loc c'.world

/-- One move: the mover keeps its guarantee and stays safe. -/
theorem Step.mover_safe (hK : Compatible M K) {ls : List (Label C A ε ι E)}
    {c c' : Cfg C A ε α ι L W} {lab : Label C A ε ι E} (hc : AllSafe M K post ls c)
    (hs : Step M c lab c') :
    ∀ i, lab.by? = some i →
      (K i).guar (acts i ls) (c.party i).loc c.world (c'.party i).loc c'.world ∧
      PartySafe M (K i) i (post i) (acts i (ls ++ [lab])) c'.world (c'.party i) := by
  intro i hby
  have hi := hc i
  unfold PartySafe at hi
  -- the three moves of a party; each is covered by the clause of `Safe` for the call it
  -- stands at
  cases hs with
  | @served j c k x l' w' hp hsv =>
    obtain rfl : j = i := Option.some.inj hby
    rw [hp] at hi
    obtain ⟨hg, hsafe⟩ := (hi _ (hK.refl j _)).1 x l' w' hsv
    refine ⟨by simpa using hg, ?_⟩
    simpa [PartySafe] using hsafe
  | @raised j c k e l' w' hp hr =>
    obtain rfl : j = i := Option.some.inj hby
    rw [hp] at hi
    obtain ⟨hg, hleaf⟩ := (hi _ (hK.refl j _)).2 e l' w' hr
    refine ⟨by simpa using hg, ?_⟩
    simpa [PartySafe, Safe] using hleaf
  | @exited j p r hp hr =>
    obtain rfl : j = i := Option.some.inj hby
    rw [hp] at hi
    have hleaf : Leaves M (K j) j (post j) r (acts j ls) (c.party j).loc c.world := by
      rcases Prog.result?_cases hr with ⟨a, rfl, rfl⟩ | ⟨e, rfl, rfl⟩
      · exact hi
      · exact hi
    obtain ⟨hg, hpost⟩ := hleaf _ (hK.refl j _)
    refine ⟨by simpa using hg, ?_⟩
    simpa [PartySafe] using hpost
  | env e => simp [Label.by?] at hby

/-- One move keeps everybody safe. -/
theorem Step.allSafe (hK : Compatible M K) {ls : List (Label C A ε ι E)}
    {c c' : Cfg C A ε α ι L W} {lab : Label C A ε ι E} (hc : AllSafe M K post ls c)
    (hs : Step M c lab c') : AllSafe M K post (ls ++ [lab]) c' ∧ MoveOk K ls c c' lab := by
  have hmover := hs.mover_safe hK hc
  refine ⟨fun i => ?_, fun i hby => (hmover i hby).1⟩
  by_cases hby : lab.by? = some i
  · exact (hmover i hby).2
  · -- the mover's guarantee is what the others rely on
    have hrely : (K i).rely c.world c'.world := by
      rcases hj : lab.by? with _ | j
      · obtain ⟨e, -, rfl⟩ := hs.eq_env hj
        exact hK.env i e _
      · exact hK.other i j (fun e => hby (e ▸ hj)) _ _ _ _ _ (hmover j hj).1
    rw [hs.party_ne hby, acts_append, acts_eq_nil hby, List.append_nil]
    exact (hc i).rely hK hrely

/-- **Soundness.** Compatible contracts and safe programs stay safe through
every interleaving. -/
theorem Steps.allSafe (hK : Compatible M K) {ls₀ ls : List (Label C A ε ι E)}
    {c c' : Cfg C A ε α ι L W} (hc : AllSafe M K post ls₀ c) (h : Steps M c ls c') :
    AllSafe M K post (ls₀ ++ ls) c' := by
  induction h with
  | refl => rw [List.append_nil]; exact hc
  | snoc _ hs ih =>
    rw [← List.append_assoc]
    exact (hs.allSafe hK ih).1

/-- Every move of every interleaving keeps its guarantee. -/
theorem Steps.moveOk (hK : Compatible M K) {ls₀ ls : List (Label C A ε ι E)}
    {c c' c'' : Cfg C A ε α ι L W} {lab : Label C A ε ι E} (hc : AllSafe M K post ls₀ c)
    (h : Steps M c ls c') (hs : Step M c' lab c'') : MoveOk K (ls₀ ++ ls) c' c'' lab :=
  (hs.allSafe hK (h.allSafe hK hc)).2

/-- A party that has left satisfies its postcondition. -/
theorem AllSafe.done (hK : Compatible M K) {ls : List (Label C A ε ι E)}
    {c : Cfg C A ε α ι L W} (hc : AllSafe M K post ls c) {i : ι} {r : Except ε α}
    (hd : (c.party i).status = .done r) : post i r (acts i ls) (c.party i).loc c.world := by
  have h := hc i
  unfold PartySafe at h
  rw [hd] at h
  exact h _ (hK.refl i _)

end

end ZeroTrustLab.Lib
