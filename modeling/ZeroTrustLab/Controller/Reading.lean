import ZeroTrustLab.Controller.Readback
import ZeroTrustLab.Controller.Sequential

/-!
# What a read shows

Requests interleave call by call, and a read makes two calls that matter: the
check of its serial, and later one query. `reads_atomic` says that this is all
there is to it. Every answer of a route that only reads is the one `respond`
gives at once, of the revoked serials of one moment and of the rows committed
at a later one, both between the start of the request and its end.

So reads follow real time (`reads_follow`): what any answered request has shown
of a node, the answer to a request that starts later does not fall behind,
whether the first was a read of the same client, of another one, or the very
registration or heartbeat that wrote the row.

Transactions are not atomic in this sense: a registration that loses a race is
answered 500, and a heartbeat writes what it read before.

The proof is about paths again: a route that only reads makes its one query
after its one check, and nothing that comes after the query can change the
answer. For the order in real time, rows only ever get later (`Kept`), and what
a write has returned was read back from the committed rows before it was
answered.
-/

namespace ZeroTrustLab.Controller

open Lib

variable {settings : Settings} {reqs : Rid → Request} {w₀ : World}
  {before ls ls' : List (Label Call Ans Exc Rid Env)}
  {c₀ c c' : Cfg Call Ans Exc Response Rid Session World} {i j : Rid} {r r' : Except Exc Response}

/-! ## One query -/

/-- The node rows in a response. -/
def Body.shown : Body → List Node
  | .node n => [n]
  | .nodes ns => ns
  | _ => []

/-- The call is what makes the answer, a function of the rows its request sees. -/
def Makes (d : Call) (x : Ans d) (answer : Time → Database → Except Exc Response)
    (r : Except Exc Response) : Prop :=
  ∀ i l w l' w', serve i d l w = (.ok x, l', w') → r = answer w.clock (w.view i)

theorem respondNode_ends {status : Nat} {n : Node} {h : History} {q : Handler Response}
    (hr : (respondNode status n).Reaches h q) (hq : q.result? = some r) :
    h = [] ∧ r = readNode status n := by
  unfold respondNode at hr
  unfold readNode
  by_cases hok : NodeRead.ok n = true
  · rw [if_pos hok] at hr ⊢
    cases hr
    exact ⟨rfl, (Option.some.inj hq).symm⟩
  · rw [if_neg hok] at hr ⊢
    cases hr
    exact ⟨rfl, (Option.some.inj hq).symm⟩

/-- A lookup answers the row there is. -/
theorem serve_selectNode {nodeId : String} {l l' : Session} {w w' : World} {rows : List Node}
    (h : serve i (.selectNode nodeId) l w = (.ok rows, l', w')) :
    rows = ((w.view i).node? nodeId).toList := by
  have hrows := Except.ok.inj (congrArg Prod.fst h)
  rw [← hrows]
  exact (w.view i).nodes.filter_key nodeId

/-- A body that only reads asks one query at most, and answers what that finds. -/
theorem reads_body {ep : Endpoint} (hread : ep.reads = true)
    {body : MTLSIdentity → Handler Response} (hbody : ep.body? = some body)
    {identity : MTLSIdentity} {h : History} {q : Handler Response}
    (hr : (body identity).Reaches h q) (hq : q.result? = some r) (hok : ∀ d e, ⟨d, .error e⟩ ∉ h) :
    (∀ now db, r = (replyBody ep identity now db).1) ∨
    ∃ d x rest, h = ⟨d, .ok x⟩ :: rest ∧
      Makes d x (fun now db => (replyBody ep identity now db).1) r := by
  cases ep with
  | health => simp [Endpoint.body?] at hbody
  | registerNode b => simp [Endpoint.reads] at hread
  | heartbeat nodeId b => simp [Endpoint.reads] at hread
  | whoami =>
    obtain rfl := Option.some.inj hbody
    cases hr
    exact .inl fun now db => (Option.some.inj hq).symm
  | listNodes =>
    obtain rfl := Option.some.inj hbody
    cases hr with
    | refl => exact absurd (show none = some r from hq) (by simp)
    | raised => exact absurd (List.mem_singleton_self _) (hok _ _)
    | @answered _ _ ns h _ hrest =>
      refine .inr ⟨.selectNodes, ns, h, rfl, fun i l w l' w' hserve => ?_⟩
      have hns : _ = ns := Except.ok.inj (congrArg Prod.fst hserve)
      subst hns
      cases hrest with
      | refl => exact absurd (show none = some r from hq) (by simp)
      | raised => exact absurd (List.mem_cons_of_mem _ (List.mem_singleton_self _)) (hok _ _)
      | answered hrest =>
        -- the rows go through the response model
        change (respondNodes _).Reaches _ _ at hrest
        unfold respondNodes at hrest
        unfold replyBody
        dsimp only
        split at hrest
        next hall =>
          cases hrest
          rw [if_pos hall]
          exact (Option.some.inj hq).symm
        next hall =>
          cases hrest
          rw [if_neg hall]
          exact (Option.some.inj hq).symm
  | getNode nodeId =>
    obtain rfl := Option.some.inj hbody
    cases hr with
    | refl => exact absurd (show none = some r from hq) (by simp)
    | raised => exact absurd (List.mem_singleton_self _) (hok _ _)
    | @answered _ _ rows h _ hrest =>
      refine .inr ⟨.selectNode nodeId, rows, h, rfl, fun i l w l' w' hserve => ?_⟩
      obtain rfl := serve_selectNode hserve
      unfold replyBody
      dsimp only
      rcases hfound : (w.view i).node? nodeId with _ | row
      · rw [hfound] at hrest
        cases hrest
        exact (Option.some.inj hq).symm
      · rw [hfound] at hrest
        exact (respondNode_ends hrest hq).2
  | listAuditEvents limit offset actorCn action result =>
    obtain rfl := Option.some.inj hbody
    dsimp only at hr
    unfold replyBody
    dsimp only
    split at hr
    next hbad =>
      cases hr
      refine .inl fun now db => ?_
      rw [if_pos hbad]
      exact (Option.some.inj hq).symm
    next hgood =>
      cases hr with
      | refl => exact absurd (show none = some r from hq) (by simp)
      | raised => exact absurd (List.mem_singleton_self _) (hok _ _)
      | @answered _ _ es h _ hrest =>
        refine .inr ⟨_, es, h, rfl, fun i l w l' w' hserve => ?_⟩
        have hes : _ = es := Except.ok.inj (congrArg Prod.fst hserve)
        subst hes
        dsimp only
        rw [if_neg hgood]
        change (respondEvents _).Reaches _ _ at hrest
        unfold respondEvents at hrest
        split at hrest
        next hall =>
          cases hrest
          rw [if_pos hall]
          exact (Option.some.inj hq).symm
        next hall =>
          cases hrest
          rw [if_neg hall]
          exact (Option.some.inj hq).symm

/-! ## Moments -/

/-- Two moments of the run from `c₀` to `c`, the one not after the other. -/
def Within (c₀ : Cfg Call Ans Exc Response Rid Session World)
    (ls : List (Label Call Ans Exc Rid Env)) (c m m' : Cfg Call Ans Exc Response Rid Session World) :
    Prop :=
  ∃ ls₁ ls₂ ls₃, ls = ls₁ ++ ls₂ ++ ls₃ ∧ Steps controller c₀ ls₁ m ∧ Steps controller m ls₂ m' ∧
    Steps controller m' ls₃ c

/-- The moment at which a request made a call. -/
theorem served_at {h₁ h₂ : History} {d : Call} {x : Ans d} (h : Steps controller c₀ ls c)
    (hcut : acts i ls = h₁ ++ ⟨d, .ok x⟩ :: h₂) :
    ∃ ls₁ ls₂ m, ls = ls₁ ++ ls₂ ∧ acts i ls₁ = h₁ ∧ Steps controller c₀ ls₁ m ∧
      Steps controller m ls₂ c ∧ ∃ l l' w', serve i d l m.world = (.ok x, l', w') := by
  obtain ⟨ls₁, ls₂, rfl, hfront, -⟩ := acts_cut hcut
  obtain ⟨m, m', h₁m, hs, h₂m⟩ := h.of_mem rfl
  cases hs with
  | served hp hserve =>
    exact ⟨ls₁, _, m, rfl, hfront, h₁m, (Steps.single (.served hp hserve)).trans h₂m, _, _, _, hserve⟩

/-- An admitted request had its serial checked, and found not revoked. -/
theorem live_at {headers : Headers} {h₁ h₂ : History} {identity : MTLSIdentity}
    (h : Steps controller c₀ ls c) (hacts : acts i ls = h₁ ++ h₂) (hh : SessionFails h₁)
    (ha : Admitted settings headers h₁ identity) :
    ∃ ls₁ ls₂ m, ls = ls₁ ++ ls₂ ∧ Steps controller c₀ ls₁ m ∧ Steps controller m ls₂ c ∧
      revokedSerial m.world.revokedSerials identity = none := by
  unfold revokedSerial
  rcases hserial : identity.serial with _ | n
  · exact ⟨[], ls, c₀, rfl, .refl c₀, h, rfl⟩
  · obtain ⟨front, rfl⟩ := (ha.checked hh).2 n hserial
    rw [List.append_assoc] at hacts
    obtain ⟨ls₁, ls₂, m, rfl, -, h₁m, h₂m, l, l', w', hserve⟩ := served_at h hacts
    have hlive : Controller.isRevoked m.world.revokedSerials n = false :=
      Except.ok.inj (congrArg Prod.fst hserve)
    refine ⟨ls₁, ls₂, m, rfl, h₁m, h₂m, ?_⟩
    simp [hlive]

/-- What `MTLSIdentityDep` raises, no call having failed. -/
theorem gate_throws {headers : Headers} {h : History} {e : Exc}
    (hr : (mtlsIdentityDep settings headers).Reaches h (.throw e)) (hok : ∀ d e, ⟨d, .error e⟩ ∉ h) :
    identityOf settings headers = .error e ∨
    ∃ identity n, identityOf settings headers = .ok identity ∧ identity.serial = some n ∧
      ⟨.isRevoked n, .ok true⟩ ∈ h ∧ e = .http 403 revokedDetail := by
  let Refused : History → Except Exc MTLSIdentity → Prop := fun h r => ∀ e, r = .error e →
    identityOf settings headers = .error e ∨
    ∃ identity n, identityOf settings headers = .ok identity ∧ identity.serial = some n ∧
      ⟨.isRevoked n, .ok true⟩ ∈ h ∧ e = .http 403 revokedDetail
  have hdep : (mtlsIdentityDep settings headers).Upholds (fun _ _ => False) (fun _ _ => True)
      Refused [] := by
    refine Prog.Upholds.bind (R := fun _ r => r = identityOf settings headers)
      ((notes_getMtlsIdentity settings headers).upholds (fun _ _ => trivial) (fun _ _ => id)
        fun _ _ => rfl) (fun h identity hid => ?_) fun h e he e' he' => ?_
    · unfold requireLiveIdentity
      rcases hserial : identity.serial with _ | n
      · exact fun e he => absurd he (by simp)
      · refine ⟨trivial, fun b => ?_, fun _ => False.elim⟩
        cases b with
        | false => exact fun e he => absurd he (by simp)
        | true =>
          -- the audit row and its commit come before the exception
          refine ⟨trivial, fun _ => ⟨trivial, fun t => ⟨trivial, fun _ => ⟨trivial, fun _ => ⟨trivial,
            fun _ => ⟨trivial, fun _ => ⟨trivial, fun _ => ⟨trivial, fun _ => ?_, fun _ => False.elim⟩,
            fun _ => False.elim⟩, fun _ => False.elim⟩, fun _ => False.elim⟩, fun _ => False.elim⟩,
            fun _ => False.elim⟩, fun _ => False.elim⟩, fun _ => False.elim⟩
          intro e he
          exact .inr ⟨identity, n, hid.symm, hserial, by simp, (Except.error.inj he).symm⟩
    · rw [← he, he']
      exact .inl rfl
  exact hr.upholds_end (fun d e hmem => absurd hmem (hok d e)) hdep rfl e rfl

/-- Before anything is written a request sees the committed rows. -/
theorem view_at {h₁ : History} {identity : MTLSIdentity} {headers : Headers} (hw : w₀.Fresh)
    (h : Run settings reqs w₀ ls c) (hacts : acts i ls = h₁)
    (ha : Admitted settings headers h₁ identity) : c.world.view i = c.world.db := by
  subst hacts
  refine calm_view hw h fun a hmem => ?_
  obtain ⟨d, x⟩ := a
  rcases ha.calls (serving_sessionFails h i) _ hmem with hnote | ⟨n, rfl⟩
  · cases d <;> simp [IsNote, Call.quiet] at hnote ⊢
  · rfl

/-- **A read is answered at a moment**: of the serials that were revoked at one
and the rows that were committed at a later one, while the request was under way. -/
theorem reads_atomic (hw : w₀.Fresh) (h₀ : Run settings reqs w₀ before c₀)
    (hi : ∀ lab ∈ before, lab.by? ≠ some i) (h : Steps controller c₀ ls c)
    (hread : (reqs i).endpoint.reads = true) (hd : (c.party i).status = .done r)
    (hok : ∀ d e, .call i ⟨d, .error e⟩ ∉ ls) :
    ∃ m m', Within c₀ ls c m m' ∧
      r = (respond settings (reqs i) m.world.revokedSerials m'.world.clock m'.world.db).1 := by
  have hrun : Run settings reqs w₀ (before ++ ls) c := h₀.trans h
  have hnone : acts i before = [] := by
    refine List.eq_nil_iff_forall_not_mem.mpr fun a ha => ?_
    exact hi _ (mem_acts.mp ha) rfl
  have hacts : acts i (before ++ ls) = acts i ls := by
    rw [acts_append, hnone, List.nil_append]
  have hok : ∀ d e, ⟨d, .error e⟩ ∉ acts i ls := fun d e hmem => hok d e (mem_acts.mp hmem)
  have hstart : Within c₀ ls c c₀ c₀ := ⟨[], [], ls, rfl, .refl c₀, .refl c₀, h⟩
  obtain ⟨q, hq, hresult⟩ := serving_reaches hrun hd
  have hfails := serving_sessionFails hrun i
  rw [hacts] at hq hfails
  unfold app at hq
  rcases hbody : (reqs i).endpoint.body? with _ | body
  · -- the health check reads the clock
    rw [hbody] at hq
    change health.Reaches _ _ at hq
    generalize hhist : acts i ls = hist at hq hok
    cases hq with
    | refl => exact absurd (show none = some r from hresult) (by simp)
    | raised => exact absurd (List.mem_singleton_self _) (hok _ _)
    | @answered _ _ t h₂ _ hrest =>
      cases hrest
      obtain ⟨ls₁, ls₂, m, rfl, -, h₁m, h₂m, l, l', w', hserve⟩ :=
        served_at h (show acts i ls = [] ++ _ :: [] from hhist)
      have ht : m.world.clock = t := Except.ok.inj (congrArg Prod.fst hserve)
      refine ⟨m, m, ⟨ls₁, [], ls₂, by simp, h₁m, .refl m, h₂m⟩, ?_⟩
      unfold respond
      rw [hbody, ht]
      exact (Option.some.inj hresult).symm
  · rw [hbody] at hq
    have hne : (reqs i).endpoint.body? ≠ none := by simp [hbody]
    rcases hq.bind_ends hresult with ⟨e, hq, rfl⟩ | ⟨h₁, h₂, identity, hcut, ha, hbodyq⟩
    · rcases gate_throws hq hok with hid | ⟨identity, n, hid, hserial, hrev, rfl⟩
      · refine ⟨c₀, c₀, hstart, ?_⟩
        unfold respond
        rw [hbody, hid]
      · obtain ⟨h₁, h₂, hcut⟩ := List.append_of_mem hrev
        obtain ⟨ls₁, ls₂, m, rfl, -, h₁m, h₂m, l, l', w', hserve⟩ := served_at h hcut
        have hrevoked : Controller.isRevoked m.world.revokedSerials n = true :=
          Except.ok.inj (congrArg Prod.fst hserve)
        have hserial : revokedSerial m.world.revokedSerials identity = some n := by
          unfold revokedSerial
          rw [hserial]
          exact Option.filter_some_pos hrevoked
        refine ⟨m, m, ⟨ls₁, [], ls₂, by simp, h₁m, .refl m, h₂m⟩, ?_⟩
        unfold respond
        rw [hbody, hid]
        dsimp only
        rw [hserial]
        rfl
    · have hh₁ : SessionFails h₁ := (hcut ▸ hfails).of_append.1
      have ha : Admitted settings (reqs i).headers h₁ identity := ha
      have hid := (ha.checked hh₁).1
      have hok₂ : ∀ d e, ⟨d, .error e⟩ ∉ h₂ := fun d e hmem =>
        hok d e (hcut ▸ List.mem_append_right _ hmem)
      have hne : (reqs i).endpoint.body? ≠ none := by simp [hbody]
      rcases reads_body hread hbody hbodyq hresult hok₂ with hanswer | ⟨d, x, rest, rfl, hanswer⟩
      · obtain ⟨ls₁, ls₂, m, rfl, h₁m, h₂m, hlive⟩ := live_at h hcut hh₁ ha
        refine ⟨m, m, ⟨ls₁, [], ls₂, by simp, h₁m, .refl m, h₂m⟩, ?_⟩
        rw [respond_admitted hne hid hlive]
        exact hanswer _ _
      · obtain ⟨ls₁, ls₂, m', rfl, hfront, h₁m, h₂m, l, l', w', hserve⟩ := served_at h hcut
        have hbefore : acts i (before ++ ls₁) = h₁ := by
          rw [acts_append, hnone, List.nil_append, hfront]
        have hview := view_at hw (h₀.trans h₁m) hbefore ha
        -- the check came before the query
        obtain ⟨ls₃, ls₄, m, rfl, h₃m, h₄m, hlive⟩ :=
          live_at h₁m (hfront.trans (List.append_nil h₁).symm) hh₁ ha
        refine ⟨m, m', ⟨ls₃, ls₄, ls₂, rfl, h₃m, h₄m, h₂m⟩, ?_⟩
        rw [respond_admitted hne hid hlive, hanswer _ _ _ _ _ hserve, hview]

/-- A node registers, and lists the nodes at the same time. -/
def registersAndLists : Rid → Request :=
  arrivals [.request ⟨nodeHeaders, .registerNode (some ⟨"pi-01", "pi-01.thesis.local", "sensor",
    .onboarding, none, none⟩)⟩, .request ⟨nodeHeaders, .listNodes⟩]

/-- The listing is admitted before the registration starts, and shows the row. -/
def overtaken : List (Label Call Ans Exc Rid Env) × Cfg Call Ans Exc Response Rid Session World :=
  controller.play (serving {} registersAndLists .start)
    ([1, 1] ++ List.replicate 15 0 ++ List.replicate 4 1)

/-- The overtaken listing is one moment's view all the same. -/
theorem overtaken_atomic :
    ∃ resp, (overtaken.2.party 1).status = .done (.ok resp) ∧
      (resp.body.shown.map fun n => n.nodeId) = ["pi-01"] ∧
      ∃ m m', Within (serving {} registersAndLists .start) overtaken.1 overtaken.2 m m' ∧
        .ok resp = (respond {} ⟨nodeHeaders, .listNodes⟩ m.world.revokedSerials m'.world.clock
          m'.world.db).1 := by
  have hshown : ((overtaken.2.party 1).status.result?.map fun r =>
      r.toOption.map fun resp => resp.body.shown.map fun n => n.nodeId) = some (some ["pi-01"]) := by
    decide +kernel
  obtain ⟨r, hr, hresp⟩ := Option.map_eq_some_iff.mp hshown
  rcases r with e | resp
  · simp [Except.toOption] at hresp
  · have hrun : Run {} registersAndLists .start overtaken.1 overtaken.2 := controller.play_steps _ _
    have hd := Status.eq_done hr
    refine ⟨resp, hd, by simpa [Except.toOption] using hresp, ?_⟩
    exact reads_atomic (i := 1) World.start_fresh (.refl _) (by simp) hrun rfl hd fun d e hmem =>
      absurd (serving_result_of_raised hrun hmem hd) (by simp)

/-! ## Rows that were shown -/

/-- A read shows rows of the database it is answered from. -/
theorem respond_shown {req : Request} {revoked : Finset Int} {now : Time} {db : Database}
    {resp : Response} (hread : req.endpoint.reads = true)
    (h : (respond settings req revoked now db).1 = .ok resp) :
    ∀ n ∈ resp.body.shown, n ∈ db.nodes.rows := by
  intro n hn
  unfold respond at h
  rcases hbody : req.endpoint.body? with _ | body
  · rw [hbody] at h
    obtain rfl := Except.ok.inj h
    simp [Body.shown] at hn
  · rw [hbody] at h
    dsimp only at h
    split at h
    next => simp at h
    next identity _ =>
      split at h
      next => simp [reject] at h
      next =>
        -- endpoint by endpoint: which rows its body shows
        generalize req.endpoint = ep at hread h
        cases ep with
        | registerNode b => simp [Endpoint.reads] at hread
        | heartbeat nodeId b => simp [Endpoint.reads] at hread
        | health =>
          obtain rfl := Except.ok.inj h
          simp [Body.shown] at hn
        | whoami =>
          obtain rfl := Except.ok.inj h
          simp [Body.shown] at hn
        | listNodes =>
          unfold replyBody at h
          dsimp only at h
          split at h
          next =>
            obtain rfl := Except.ok.inj h
            exact List.mem_mergeSort.mp hn
          next => simp at h
        | getNode nodeId =>
          unfold replyBody at h
          dsimp only at h
          rcases hfound : db.node? nodeId with _ | row
          · rw [hfound] at h
            simp at h
          · rw [hfound] at h
            unfold readNode at h
            dsimp only at h
            split at h
            next =>
              obtain rfl := Except.ok.inj h
              rw [List.mem_singleton.mp hn]
              exact (Database.node?_eq_some hfound).1
            next => simp at h
        | listAuditEvents limit offset actorCn action result =>
          unfold replyBody at h
          dsimp only at h
          split at h
          next => simp at h
          next =>
            dsimp only at h
            split at h
            next =>
              obtain rfl := Except.ok.inj h
              simp [Body.shown] at hn
            next => simp at h

/-- The commit, and the row read back. -/
theorem readBack_returns {id : Option Nat} {h : History} {n : Node}
    (hr : (ask .commit >>= fun _ => ask (.refresh id) : Handler Node).Reaches h (.pure n)) :
    h = [⟨.commit, .ok ()⟩, ⟨.refresh id, .ok n⟩] := by
  cases hr with
  | answered hr =>
    cases hr with
    | answered hr =>
      cases hr
      rfl

/-- The row that a transaction shows is read back right after its commit. -/
def ReadBack (h : History) (n : Node) : Prop :=
  ∃ h' id, h = (h' ++ [⟨.commit, .ok ()⟩]) ++ [⟨.refresh id, .ok n⟩]

theorem ReadBack.append {h : History} {n : Node} (hb : ReadBack h n) (front : History) :
    ReadBack (front ++ h) n := by
  obtain ⟨h', id, rfl⟩ := hb
  exact ⟨front ++ h', id, by simp⟩

/-- A registration returns a row that it has read back. -/
theorem registerNode_returns {payload : NodeCreate} {identity : MTLSIdentity} {h : History} {n : Node}
    (hr : (registerNode payload identity).Reaches h (.pure n)) : ReadBack h n := by
  unfold registerNode at hr
  split at hr
  next =>
    exact absurd (hr.neverReturns (Prog.NeverReturns.bind _ fun _ _ => trivial)) id
  next =>
    obtain ⟨h₁, h₂, rows, rfl, -, hr⟩ := hr.bind_returns
    obtain ⟨h₃, h₄, existing, rfl, -, hr⟩ := hr.bind_returns
    refine .append (.append ?_ _) _
    rcases existing with _ | row
    · obtain ⟨h₁, h₂, createdAt, rfl, -, hr⟩ := hr.bind_returns
      obtain ⟨h₃, h₄, updatedAt, rfl, -, hr⟩ := hr.bind_returns
      obtain ⟨h₅, h₆, _, rfl, -, hr⟩ := hr.bind_returns
      obtain ⟨h₇, h₈, ids, rfl, -, hr⟩ := hr.bind_returns
      obtain ⟨h₉, h₀, _, rfl, -, hr⟩ := hr.bind_returns
      obtain rfl := readBack_returns hr
      exact .append (.append (.append (.append (.append ⟨[], _, rfl⟩ _) _) _) _) _
    · exact absurd (hr.neverReturns fun _ => trivial) id

/-- A heartbeat returns a row that it has read back. -/
theorem heartbeat_returns {nodeId : String} {body : NodeHeartbeat} {identity : MTLSIdentity}
    {h : History} {n : Node} (hr : (heartbeat nodeId body identity).Reaches h (.pure n)) :
    ReadBack h n := by
  unfold heartbeat at hr
  obtain ⟨h₁, h₂, rows, rfl, -, hr⟩ := hr.bind_returns
  obtain ⟨h₃, h₄, existing, rfl, -, hr⟩ := hr.bind_returns
  refine .append (.append ?_ _) _
  rcases existing with _ | row
  · exact absurd (hr.neverReturns trivial) id
  · dsimp only at hr
    split at hr
    next =>
      exact absurd (hr.neverReturns (Prog.NeverReturns.bind _ fun _ _ => trivial)) id
    next =>
      obtain ⟨h₁, h₂, now, rfl, -, hr⟩ := hr.bind_returns
      obtain ⟨h₃, h₄, _, rfl, -, hr⟩ := hr.bind_returns
      refine .append (.append ?_ _) _
      -- a first heartbeat is audited, any other is only logged
      split at hr
      next =>
        obtain ⟨h₅, h₆, _, rfl, -, hr⟩ := hr.bind_returns
        obtain rfl := readBack_returns hr
        exact .append ⟨[], _, rfl⟩ _
      next =>
        obtain ⟨h₅, h₆, _, rfl, -, hr⟩ := hr.bind_returns
        obtain rfl := readBack_returns hr
        exact .append ⟨[], _, rfl⟩ _

/-- A row that is returned was read back after its commit. -/
theorem app_returns {req : Request} {h : History} {resp : Response}
    (hread : req.endpoint.reads = false) (hr : (app settings req).Reaches h (.pure resp)) :
    ∀ n ∈ resp.body.shown, ReadBack h n := by
  -- both writing endpoints answer with the row they have read back
  have hresponse : ∀ {p : Handler Node} {status : Nat} {h : History},
      (∀ {h n}, p.Reaches h (.pure n) → ReadBack h n) →
      (p >>= respondNode status).Reaches h (.pure resp) → ∀ n ∈ resp.body.shown, ReadBack h n := by
    intro p status h hp hr n hn
    obtain ⟨h₁, h₂, m, rfl, hp₁, hrespond⟩ := hr.bind_returns
    obtain ⟨rfl, he⟩ := respondNode_ends hrespond rfl
    unfold readNode at he
    split at he
    next =>
      obtain rfl := Except.ok.inj he
      rw [List.mem_singleton.mp hn, List.append_nil]
      exact hp hp₁
    next => simp at he
  unfold app at hr
  generalize req.endpoint = ep at hread hr
  cases ep with
  | registerNode b =>
    obtain ⟨h₁, h₂, identity, rfl, -, hr⟩ := hr.bind_returns
    rcases b with _ | b
    · exact absurd (hr.neverReturns trivial) id
    · dsimp only at hr
      split at hr
      next => exact absurd (hr.neverReturns trivial) id
      next => exact fun n hn => (hresponse registerNode_returns hr n hn).append h₁
  | heartbeat nodeId b =>
    obtain ⟨h₁, h₂, identity, rfl, -, hr⟩ := hr.bind_returns
    rcases b with _ | b
    · exact absurd (hr.neverReturns trivial) id
    · exact fun n hn => (hresponse heartbeat_returns hr n hn).append h₁
  | health => simp [Endpoint.reads] at hread
  | whoami => simp [Endpoint.reads] at hread
  | listNodes => simp [Endpoint.reads] at hread
  | getNode nodeId => simp [Endpoint.reads] at hread
  | listAuditEvents => simp [Endpoint.reads] at hread

/-- Whoever has just committed has nothing open. -/
theorem committed_notMine (hw : w₀.Fresh) (h : Run settings reqs w₀ ls c) :
    ∀ {h₁ : History}, acts i ls = h₁ ++ [⟨.commit, .ok ()⟩] → NotMine i c.world := by
  induction h with
  | refl => exact fun he => absurd (congrArg List.length he) (by simp [acts])
  | @snoc c₁ c₂ ls lab h hs ih =>
    intro h₁ he
    rw [acts_append] at he
    by_cases hby : lab.by? = some i
    · cases hs with
      | @served j d k x l' w' hp hserve =>
        obtain rfl : j = i := Option.some.inj hby
        rw [acts_call_self] at he
        have hlast := (List.append_inj' he rfl).2
        cases List.cons_eq_cons.mp hlast with
        | intro hact _ =>
          cases hact
          obtain ⟨ids, w₁, -, rfl⟩ := commitSession_ok hserve
          exact notMine_commitTx j w₁
      | raised hp hr =>
        obtain rfl : _ = i := Option.some.inj hby
        rw [Cfg.set_world, (raises_rollback hr).2]
        exact notMine_rollback
      | exited =>
        obtain rfl : _ = i := Option.some.inj hby
        exact notMine_rollback
      | env e => simp [Label.by?] at hby
    · rw [acts_eq_nil hby, List.append_nil] at he
      exact (ih he).rely (serving_rely hw h hs hby)

/-- **What is shown was committed**, at a moment before the answer. -/
theorem shown_committed (hw : w₀.Fresh) (h : Run settings reqs w₀ ls c) {resp : Response}
    (hd : (c.party i).status = .done (.ok resp)) {n : Node} (hn : n ∈ resp.body.shown) :
    ∃ ls₁ ls₂ m, ls = ls₁ ++ ls₂ ∧ Run settings reqs w₀ ls₁ m ∧ Steps controller m ls₂ c ∧
      n ∈ m.world.db.nodes.rows := by
  rcases hread : (reqs i).endpoint.reads with _ | _
  · obtain ⟨q, hq, hresult⟩ := serving_reaches h hd
    obtain rfl : q = .pure resp := by
      rcases Prog.result?_cases hresult with ⟨a, rfl, ha⟩ | ⟨e, -, he⟩
      · rw [Except.ok.inj ha]
      · cases he
    obtain ⟨h', id, hacts⟩ := app_returns hread hq n hn
    obtain ⟨ls₁, ls₂, m, rfl, hfront, h₁m, h₂m, l, l', w', hserve⟩ := served_at h hacts
    obtain ⟨hfind, -⟩ := refresh_ok hserve
    rw [(committed_notMine hw h₁m hfront).view_eq] at hfind
    exact ⟨ls₁, ls₂, m, rfl, h₁m, h₂m, List.mem_of_find?_eq_some hfind⟩
  · have hok : ∀ d e, .call i ⟨d, .error e⟩ ∉ ls := by
      intro d e hmem
      exact absurd (serving_result_of_raised h hmem hd) (by simp)
    obtain ⟨m, m', ⟨ls₁, ls₂, ls₃, rfl, h₁m, h₂m, h₃m⟩, hr⟩ :=
      reads_atomic hw (.refl _) (by simp) h hread hd hok
    exact ⟨ls₁ ++ ls₂, ls₃, m', rfl, h₁m.trans h₂m, h₃m, respond_shown hread hr.symm n hn⟩

/-- The answer is not behind the row: what has become of it is in it. -/
def Follows (n : Node) (ep : Endpoint) (r : Except Exc Response) : Prop :=
  (ep = .listNodes → ∀ resp, r = .ok resp → ∃ n' ∈ resp.body.shown, Kept n n') ∧
  (ep = .getNode n.nodeId →
    statusOf r ≠ 404 ∧ ∀ resp, r = .ok resp → ∃ n' ∈ resp.body.shown, Kept n n')

/-- Any answer about the row, after it was shown, follows what was shown. -/
theorem respond_follows {req : Request} {revoked : Finset Int} {now : Time} {db : Database}
    {n n' : Node} (hn : n' ∈ db.nodes.rows) (hk : Kept n n') :
    Follows n req.endpoint (respond settings req revoked now db).1 := by
  -- no refusal of the dependency is a 404
  have hgate : ∀ {e : Exc}, identityOf settings req.headers = .error e → e.status ≠ 404 := by
    intro e he
    have hstatus := identityError_status req.headers.xClientVerify req.headers.xClientDn
    rw [← identityOf_error he] at hstatus
    omega
  constructor
  · -- the list
    intro hep resp hresp
    unfold respond at hresp
    rw [hep] at hresp
    dsimp only [Endpoint.body?] at hresp
    split at hresp
    next => simp at hresp
    next =>
      split at hresp
      next => simp [reject] at hresp
      next =>
        unfold replyBody at hresp
        dsimp only at hresp
        split at hresp
        next =>
          obtain rfl := Except.ok.inj hresp
          exact ⟨n', List.mem_mergeSort.mpr hn, hk⟩
        next => simp at hresp
  · -- the single node, which is found
    intro hep
    unfold respond
    rw [hep]
    dsimp only [Endpoint.body?]
    split
    next e he => exact ⟨hgate he, fun resp hresp => absurd hresp (by simp)⟩
    next =>
      split
      next =>
        exact ⟨by simp [reject, statusOf, Exc.status],
          fun resp hresp => absurd hresp (by simp [reject])⟩
      next =>
        unfold replyBody
        dsimp only
        rw [← hk.nodeId, Database.node?_of_mem hn]
        dsimp only
        unfold readNode
        split
        next =>
          refine ⟨by simp [statusOf], fun resp hresp => ?_⟩
          obtain rfl := Except.ok.inj hresp
          exact ⟨n', List.mem_singleton_self _, hk⟩
        next => exact ⟨by simp [statusOf, Exc.status], fun resp hresp => absurd hresp (by simp)⟩

/-- An answer that shows nothing falls behind nothing, unless it is a 404. -/
theorem follows_of_error {n : Node} {ep : Endpoint} {e : Exc} (he : e.status ≠ 404) :
    Follows n ep (.error e) :=
  ⟨fun _ _ hresp => absurd hresp (by simp), fun _ => ⟨he, fun _ hresp => absurd hresp (by simp)⟩⟩

/-- **Reads follow**: once a row has been shown to anybody, by a read or by the
request that wrote it, a listing or a lookup that starts then and returns shows it
as it is or as what it has become. A read that fails shows nothing, and does not
deny the row either. -/
theorem reads_follow (hw : w₀.Fresh) (h : Run settings reqs w₀ ls c) {resp : Response}
    (hd : (c.party i).status = .done (.ok resp)) {n : Node} (hn : n ∈ resp.body.shown)
    (hj : ∀ lab ∈ ls, lab.by? ≠ some j) (h' : Steps controller c ls' c')
    (hd' : (c'.party j).status = .done r') : Follows n (reqs j).endpoint r' := by
  by_cases hfailed : ∃ d e, .call j ⟨d, .error e⟩ ∈ ls'
  · -- the exception of the call is the answer
    obtain ⟨d, e, hcall⟩ := hfailed
    have hall : Run settings reqs w₀ (ls ++ ls') c' := h.trans h'
    have hmem := List.mem_append_right ls hcall
    obtain rfl := serving_result_of_raised hall hmem hd'
    exact follows_of_error (by simp [serving_raised_status hall hmem])
  have hok : ∀ d e, .call j ⟨d, .error e⟩ ∉ ls' := fun d e hcall => hfailed ⟨d, e, hcall⟩
  obtain ⟨ls₁, ls₂, m, rfl, hm, h₂m, hn⟩ := shown_committed hw h hd hn
  have hfollows : ∀ {ls₃ m'}, Steps controller c ls₃ m' → ∀ {revoked now},
      Follows n (reqs j).endpoint (respond settings (reqs j) revoked now m'.world.db).1 := by
    intro ls₃ m' hm' revoked now
    obtain ⟨n', hn', hk⟩ := (serving_grows hw hm (h₂m.trans hm')).1 n hn
    exact respond_follows hn' hk
  rcases hread : (reqs j).endpoint.reads with _ | _
  · -- neither a listing nor a lookup
    constructor
    · exact fun hep => absurd (hep ▸ hread) (by simp [Endpoint.reads])
    · exact fun hep => absurd (hep ▸ hread) (by simp [Endpoint.reads])
  · obtain ⟨m₁, m₂, ⟨l₁, l₂, l₃, rfl, h₁m, h₂m', h₃m⟩, rfl⟩ :=
      reads_atomic hw h hj h' hread hd' hok
    exact hfollows (h₁m.trans h₂m')

/-- The moves and the end of the registration, alone. -/
def registered : List (Label Call Ans Exc Rid Env) × Cfg Call Ans Exc Response Rid Session World :=
  controller.play (serving {} registersAndLists .start) (List.replicate 15 0)

/-- The moves and the end of the listing that comes after it. -/
def listed : List (Label Call Ans Exc Rid Env) × Cfg Call Ans Exc Response Rid Session World :=
  controller.play registered.2 (List.replicate 6 1)

/-- What the node was told of its registration, it finds in the listing. -/
theorem registered_listed :
    ∃ resp n resp', (registered.2.party 0).status = .done (.ok resp) ∧ n ∈ resp.body.shown ∧
      (listed.2.party 1).status = .done (.ok resp') ∧ Follows n .listNodes (.ok resp') := by
  have hfirst : ((registered.2.party 0).status.result?.map fun r =>
      r.toOption.map fun resp => resp.body.shown.length) = some (some 1) := by
    decide +kernel
  have hsecond : ((listed.2.party 1).status.result?.map fun r => r.toOption.isSome) = some true := by
    decide +kernel
  obtain ⟨r, hr, hshown⟩ := Option.map_eq_some_iff.mp hfirst
  obtain ⟨r', hr', hok⟩ := Option.map_eq_some_iff.mp hsecond
  rcases r with e | resp
  · simp [Except.toOption] at hshown
  · rcases r' with e | resp'
    · simp [Except.toOption] at hok
    · have hlen : resp.body.shown.length = 1 := by simpa [Except.toOption] using hshown
      obtain ⟨n, hn⟩ := List.length_eq_one_iff.mp hlen
      have hmem : n ∈ resp.body.shown := by rw [hn]; exact List.mem_singleton_self n
      have hrun : Run {} registersAndLists .start registered.1 registered.2 :=
        controller.play_steps _ _
      have hd' := Status.eq_done hr'
      have hlast : Steps controller registered.2 listed.1 listed.2 := controller.play_steps _ _
      have hquiet : ∀ lab ∈ registered.1, lab.by? ≠ some 1 := by
        intro lab hlab hby
        obtain ⟨i, hi, hi'⟩ := controller.play_by _ _ lab hlab
        rw [List.eq_of_mem_replicate hi, hby] at hi'
        exact absurd hi' (by simp)
      refine ⟨resp, n, resp', Status.eq_done hr, hmem, hd', ?_⟩
      exact reads_follow (j := 1) World.start_fresh hrun (Status.eq_done hr) hmem hquiet hlast hd'

end ZeroTrustLab.Controller
