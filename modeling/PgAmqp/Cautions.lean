import PgAmqp.Sockets
import PgAmqp.Passes
import PgAmqp.Outputs

/-!
# Certificates that are not checked

The load of a host list warns of every TLS host whose certificate is not to be checked, and
it gives the warning before the list can be used. So in every run, also where a cancel
leaves the list half filled, a socket without these checks is opened only behind the
warning about its host. And a login follows only directly upon the socket that was opened
for it, and passes what stands in the row of the host that the socket was opened to.
-/
namespace PgAmqp

open ProgramLogic Transition

/-- Neither the opening of a socket nor a login. -/
def Event.plain : Event → Bool
  | .socketOpen _ _ _ => false
  | .rpc (.login _) _ _ => false
  | _ => true

/-- The record warns of the host, if there is something to warn of. -/
def Announced (b : Int) (log : List Event) (h : BrokerHost) : Prop :=
  (h.useSsl && !h.sslVerify) = true → .warning (.insecureTls b h.host) ∈ log

/-- What has to be in the record before an event. -/
def Event.Prepared (b : Int) (log : List Event) : Event → Prop
  | .socketOpen h _ _ => Announced b log h
  | .rpc (.login args) _ _ => ∃ log₀ h ms, log = log₀ ++ [.socketOpen h ms true] ∧ args = h.loginArgs
  | _ => True

/-- Every event is prepared by those before it. -/
def Prudent (b : Int) (log : List Event) : Prop := ∀ l e, l ++ [e] <+: log → e.Prepared b l

section Prudent

variable {b : Int} {log evs : List Event} {h : BrokerHost} {e : Event}

theorem Announced.append (ha : Announced b log h) (evs : List Event) : Announced b (log ++ evs) h :=
  fun hi => List.mem_append_left _ (ha hi)

theorem Announced.plain (hi : (h.useSsl && !h.sslVerify) = false) : Announced b log h := by
  intro hi'
  rw [hi] at hi'
  cases hi'

theorem Event.plain_prepared (he : e.plain = true) : e.Prepared b log := by
  cases e with
  | socketOpen => cases he
  | rpc kind => cases kind <;> trivial
  | _ => trivial

theorem Prudent.nil : Prudent b [] := by
  intro l e h
  simp at h

theorem Prudent.snoc (hp : Prudent b log) (he : e.Prepared b log) : Prudent b (log ++ [e]) := by
  intro l e' h
  rcases List.prefix_concat_iff.mp h with h | h
  · obtain ⟨rfl, hlast⟩ := List.append_inj' h rfl
    obtain rfl : e' = e := List.singleton_inj.mp hlast
    exact he
  · exact hp l e' h

theorem Prudent.append (hp : Prudent b log) (he : ∀ e ∈ evs, Event.plain e = true) : Prudent b (log ++ evs) := by
  induction evs generalizing log with
  | nil =>
    rw [List.append_nil]
    exact hp
  | cons e rest ih =>
    obtain ⟨hhead, hrest⟩ := List.forall_mem_cons.mp he
    rw [← List.singleton_append, ← List.append_assoc]
    exact ih (hp.snoc (Event.plain_prepared hhead)) hrest

end Prudent

/-- The hosts are the same, and no socket was opened and nobody logged in. -/
structure Plain (c c' : Cell) : Prop where
  brokerId : c'.bs.brokerId = c.bs.brokerId
  hosts : c'.bs.hosts = c.bs.hosts
  log : ∃ evs, c'.log = c.log ++ evs ∧ ∀ e ∈ evs, Event.plain e = true

section Plain

variable {c c' c'' : Cell} {L : Lapses} {p q : Stage × Cell}

theorem Plain.silent (hb : c'.bs.brokerId = c.bs.brokerId) (hh : c'.bs.hosts = c.bs.hosts)
    (hl : c'.log = c.log) : Plain c c' := ⟨hb, hh, [], by rw [hl, List.append_nil], by simp⟩

theorem Plain.said {e : Event} (hb : c'.bs.brokerId = c.bs.brokerId) (hh : c'.bs.hosts = c.bs.hosts)
    (hl : c'.log = c.log ++ [e]) (he : e.plain = true) : Plain c c' := ⟨hb, hh, [e], hl, by simpa using he⟩

theorem Plain.refl (c : Cell) : Plain c c := .silent rfl rfl rfl

theorem Plain.trans (h : Plain c c') (h' : Plain c' c'') : Plain c c'' := by
  obtain ⟨evs, hl, he⟩ := h.log
  obtain ⟨evs', hl', he'⟩ := h'.log
  refine ⟨h'.brokerId.trans h.brokerId, h'.hosts.trans h.hosts, evs ++ evs', ?_, fun e h => ?_⟩
  · rw [hl', hl, List.append_assoc]
  · exact (List.mem_append.mp h).elim (he e) (he' e)

/-- An entry in use says nothing else. -/
theorem Serve.plain (h : Serve L p q) : Plain p.2 q.2 := by
  cases h with
  | @hear g c f rest _ _ =>
    refine ⟨by simp [Cell.taken], by simp [Cell.taken], c.noted f, c.heard_log f rest, fun e he => ?_⟩
    obtain ⟨r, rfl⟩ := c.noted_warning f he
    rfl
  | warn => exact .said rfl rfl rfl rfl
  | refuse => exact .said rfl rfl rfl rfl
  | mishear => exact .said rfl rfl rfl rfl
  | declare => exact .said rfl rfl rfl rfl
  | write => exact .said rfl rfl rfl rfl
  | accept => exact .said rfl rfl rfl rfl
  | drop => exact .said rfl rfl rfl rfl
  | finish k kind a _ hkind =>
    refine .said rfl rfl rfl ?_
    cases kind <;> first | rfl | cases hkind
  | _ => exact .silent rfl rfl rfl

theorem Served.plain (h : Served L p q) : Plain p.2 q.2 := by
  induction h with
  | refl => exact .refl _
  | tail _ hs ih => exact ih.trans hs.plain

end Plain

/-- The record so far is prudent, and warns of the hosts of the list; `past` is the part of
it from before the call. -/
structure Careful (b : Int) (past : List Event) (c : Cell) : Prop where
  brokerId : c.bs.brokerId = b
  hosts : ∀ h ∈ c.bs.hosts.getD [], Announced b (past ++ c.log) h
  prudent : Prudent b (past ++ c.log)

section Careful

variable {b : Int} {past : List Event} {c c' : Cell} {o : Outcomes} {h : BrokerHost}

theorem Careful.plain (hc : Careful b past c) (hp : Plain c c') : Careful b past c' := by
  obtain ⟨evs, hlog, he⟩ := hp.log
  have hall : past ++ c'.log = (past ++ c.log) ++ evs := by rw [hlog, List.append_assoc]
  refine ⟨hp.brokerId.trans hc.brokerId, fun h hh => ?_, ?_⟩
  · rw [hall]
    rw [hp.hosts] at hh
    exact (hc.hosts h hh).append evs
  · rw [hall]
    exact hc.prudent.append he

theorem Careful.warned (hc : Careful b past c) (r : Report) : Careful b past (c.warned r) :=
  hc.plain (.said rfl rfl rfl rfl)

theorem tick_careful (k : Call) : Preserves (Careful b past) (tick k) :=
  fun _ hc => hc.plain (.silent rfl rfl rfl)

theorem elog_careful (r : Report) : Preserves (Careful b past) (elog o r) := by
  intro c hc
  rw [wp_elog]
  split <;> exact hc.warned r

theorem modifyBs_careful {f : BrokerState → BrokerState} (hb : ∀ bs, (f bs).brokerId = bs.brokerId)
    (hh : ∀ bs, (f bs).hosts = bs.hosts) : Preserves (Careful b past) (modifyBs f) :=
  fun c hc => hc.plain (.silent (hb c.bs) (hh c.bs) rfl)

theorem localAmqpConnectFailed_careful : Preserves (Careful b past) (localAmqpConnectFailed o) :=
  .bind (tick_careful _) fun _ => modifyBs_careful (fun _ => rfl) fun _ => rfl

/-- An entry of the list is replaced by one that the record warns of. -/
theorem Careful.put {hs rest : List BrokerHost} {h' : BrokerHost} (hc : Careful b past (c.withHosts (hs ++ h :: rest)))
    (ha : Announced b (past ++ c.log) h') : Careful b past (c.withHosts (hs ++ h' :: rest)) where
  brokerId := hc.brokerId
  hosts := by
    intro x hx
    have hx : x ∈ hs ++ h' :: rest := hx
    rw [List.mem_append, List.mem_cons] at hx
    rcases hx with hx | rfl | hx
    · exact hc.hosts x (List.mem_append_left _ hx)
    · exact ha
    · exact hc.hosts x (List.mem_append_right _ (List.mem_cons_of_mem _ hx))
  prudent := hc.prudent

/-- The turn behind the check of the port: the warning comes before the list is used. -/
theorem fillRest_careful {hs rest : List BrokerHost} {i : Nat} (row : BrokerRow) (hi : i = hs.length)
    (hhost : h.host = row.hostName) (hport : h.port = row.toHost.port)
    (hc : Careful b past (c.withHosts (hs ++ h :: rest))) :
    wp (do
      modifyHost i row.rest
      if row.insecure = true then elog o (.insecureTls b row.hostName))
      (fun _ c' => ∃ c₁ : Cell, c' = c₁.withHosts (hs ++ row.toHost :: rest) ∧ Careful b past c')
      (fun _ => Careful b past) (c.withHosts (hs ++ h :: rest)) := by
  rw [wp_bind, wp_modifyHost hi, BrokerRow.rest_toHost hhost hport, wp_ite]
  split
  · have hin : Announced b (past ++ (c.warned (.insecureTls b row.hostName)).log) row.toHost := by
      intro _
      exact List.mem_append_right _ (List.mem_append_right _ (List.mem_singleton_self _))
    have hwarned := (hc.warned (.insecureTls b row.hostName)).put (c := c.warned _) hin
    rw [wp_elog]
    split
    · exact hwarned
    · exact ⟨c.warned (.insecureTls b row.hostName), rfl, hwarned⟩
  · rename_i hsecure
    exact ⟨c, rfl, hc.put (.plain (Bool.eq_false_iff.mpr hsecure))⟩

theorem localAmqpFillHosts_careful (rows : List BrokerRow) {hs : List BrokerHost} {i : Nat} (hi : i = hs.length)
    (hc : Careful b past (c.withHosts (hs ++ List.replicate rows.length .zero))) :
    wp (localAmqpFillHosts o b i rows) (fun _ => Careful b past) (fun _ => Careful b past)
      (c.withHosts (hs ++ List.replicate rows.length .zero)) := by
  induction rows generalizing c hs i with
  | nil => exact hc
  | cons row rows ih =>
    unfold localAmqpFillHosts
    rw [List.length_cons, List.replicate_succ] at hc ⊢
    have hturn : wp (localAmqpFillHost o b i row)
        (fun _ c' => ∃ c₁ : Cell, c' = c₁.withHosts (hs ++ row.toHost :: List.replicate rows.length .zero) ∧
          Careful b past c') (fun _ => Careful b past)
        (c.withHosts (hs ++ .zero :: List.replicate rows.length .zero)) := by
      have hbegun : Careful b past (c.withHosts (hs ++ row.begun :: List.replicate rows.length .zero)) :=
        hc.put (.plain rfl)
      rw [localAmqpFillHost_eq, wp_bind, wp_modifyHost hi, wp_ite]
      split
      · rename_i hbad
        have hrange : row.port.getD 5672 < 1 ∨ 65535 < row.port.getD 5672 := of_decide_eq_true hbad
        have hwarned := hbegun.warned (.invalidPort b row.hostName row.portNumber)
        rw [wp_bind, wp_elog]
        split
        · exact hwarned
        · have hplain : Announced b (past ++ (c.warned (.invalidPort b row.hostName row.portNumber)).log)
              { row.begun with port := 5672 } := .plain rfl
          have hfixed := hwarned.put (c := c.warned _) hplain
          rw [wp_bind]
          refine Eq.mpr (wp_modifyHost (c := c.warned (.invalidPort b row.hostName row.portNumber)) hi _) ?_
          exact fillRest_careful row hi rfl (if_pos hrange).symm hfixed
      · rename_i hbad
        have hrange : ¬ (row.port.getD 5672 < 1 ∨ 65535 < row.port.getD 5672) :=
          of_decide_eq_false (Bool.eq_false_iff.mpr hbad)
        exact fillRest_careful row hi rfl (if_neg hrange).symm hbegun
    refine wp_seq hturn fun _ c' h' => ?_
    obtain ⟨c₁, rfl, h'⟩ := h'
    have hline : hs ++ row.toHost :: List.replicate rows.length .zero =
        (hs ++ [row.toHost]) ++ List.replicate rows.length .zero := by simp
    rw [hline] at h' ⊢
    exact ih (by simp [hi]) h'

theorem localAmqpLoadHosts_careful : Preserves (Careful b past) (localAmqpLoadHosts o) := by
  have count : Preserves (Careful b past) (do return ((← getBs).nhosts : Int)) :=
    .bind (getBs_preserves _) fun _ => .pure _ _
  intro c hc
  unfold localAmqpLoadHosts
  rw [wp_bind, wp_getBs, wp_ite]
  split
  · exact hc
  rw [wp_bind, wp_tick]
  have ht : Careful b past (c.ticked .spi) := hc.plain (.silent rfl rfl rfl)
  cases o.spi (c.counts .spi) with
  | connectError => exact ht
  | raised => exact ht
  | executeError => exact Preserves.bind (elog_careful _) (fun _ => count) _ ht
  | rows rows =>
    cases rows with
    | nil => exact Preserves.bind (elog_careful _) (fun _ => count) _ ht
    | cons row rows =>
      have hbegun : Careful b past (((c.ticked .spi).modified fun bs =>
          { bs with nhosts := (row :: rows).length }).withHosts ([] ++ List.replicate (row :: rows).length .zero)) := by
        refine ⟨hc.brokerId, fun h hh => ?_, ht.prudent⟩
        obtain rfl : h = .zero := List.eq_of_mem_replicate hh
        exact .plain rfl
      have hfill := localAmqpFillHosts_careful (o := o) (row :: rows) rfl hbegun
      dsimp only
      rw [wp_bind, wp_modifyBs, hc.brokerId]
      refine wp_seq hfill fun _ c' h' => ?_
      exact wp_seq (R := fun _ => Careful b past) (h'.plain (.silent rfl rfl rfl)) fun _ => count

/-- A call that may only find what the record warns of. -/
theorem Careful.currentHost (hc : Careful b past c) : Announced b (past ++ c.log) c.bs.currentHost := by
  unfold BrokerState.currentHost
  rw [List.getD_eq_getElem?_getD]
  cases hget : (c.bs.hosts.getD [])[c.bs.idx]? with
  | none => exact .plain rfl
  | some h => exact hc.hosts h (List.mem_of_getElem? hget)

/-- The socket to this host was opened just now. -/
def JustOpened (past : List Event) (h : BrokerHost) (c : Cell) : Prop :=
  ∃ log₀ ms, past ++ c.log = log₀ ++ [.socketOpen h ms true]

theorem localAmqpOpenSocket_careful (hostCopy : String) (hc : Careful b past c)
    (ha : Announced b (past ++ c.log) h) :
    wp (localAmqpOpenSocket o h hostCopy) (fun r c' => Careful b past c' ∧ (r = true → JustOpened past h c'))
      (fun _ => Careful b past) c := by
  unfold localAmqpOpenSocket
  have ht : Careful b past (c.ticked .socketNew) := hc.plain (.silent rfl rfl rfl)
  have refused : ∀ (r : Report) (c' : Cell), Careful b past c' → wp (do elog o r; return false)
      (fun r c' => Careful b past c' ∧ (r = true → JustOpened past h c')) (fun _ => Careful b past) c' :=
    fun r c' hc' => wp_seq (elog_careful r c' hc') fun _ _ hc' => ⟨hc', fun hr => Bool.noConfusion hr⟩
  rw [wp_bind, wp_getBs, wp_bind, wp_tick, wp_ite]
  split
  · exact refused _ _ ht
  · rw [wp_bind, wp_tick, wp_bind, wp_getGucs, wp_bind, wp_record]
    generalize hopen : o.socketOpen ((c.ticked .socketNew).counts .socketOpen) = opened
    have hcareful : Careful b past (((c.ticked .socketNew).ticked .socketOpen).recorded
        (.socketOpen h c.backend.gucs.connectTimeoutMs opened)) := by
      refine ⟨hc.brokerId, fun x hx => ?_, ?_⟩
      · rw [Cell.recorded_log, ← List.append_assoc]
        exact (hc.hosts x hx).append _
      · rw [Cell.recorded_log, ← List.append_assoc]
        exact hc.prudent.snoc ha
    rw [wp_ite]
    cases opened with
    | false => exact refused _ _ hcareful
    | true =>
      refine ⟨hcareful, fun _ => ⟨past ++ c.log, c.backend.gucs.connectTimeoutMs, ?_⟩⟩
      simp

/-- The login is said directly upon the socket, with what the row of its host says. -/
theorem localAmqpLogin_careful (hc : Careful b past c) (hopened : JustOpened past h c) :
    wp (localAmqpLogin o h) (fun _ => Careful b past) (fun _ => Careful b past) c := by
  unfold localAmqpLogin amqpLoginWithProperties
  rw [wp_bind, wp_tick]
  cases hk : c.bs.conn with
  | none =>
    unfold rpc
    rw [wp_bind, wp_getBs, Cell.ticked_bs, hk]
    exact hc.plain (.silent rfl rfl rfl)
  | some k =>
    rw [wp_rpc (c := c.ticked .login) hk]
    refine ⟨hc.brokerId, fun x hx => ?_, ?_⟩
    · show Announced b (past ++ (c.log ++ [_])) x
      rw [← List.append_assoc]
      exact (hc.hosts x hx).append _
    · show Prudent b (past ++ (c.log ++ [_]))
      rw [← List.append_assoc]
      obtain ⟨log₀, ms, hlog⟩ := hopened
      exact hc.prudent.snoc ⟨log₀, h, ms, hlog, rfl⟩

theorem rpc_careful {kind : Rpc} (hkind : ∀ args, kind ≠ .login args) (a : Answer) :
    Preserves (Careful b past) (rpc kind a) := by
  intro c hc
  cases hk : c.bs.conn with
  | none =>
    unfold rpc
    rw [wp_bind, wp_getBs, hk]
    exact hc
  | some k =>
    rw [wp_rpc hk]
    refine hc.plain (.said rfl rfl rfl ?_)
    cases kind <;> first | rfl | exact absurd rfl (hkind _)

theorem localAmqpTryHost_careful (hostCopy : String) (brokerId : Int) (hc : Careful b past c)
    (ha : Announced b (past ++ c.log) h) :
    wp (localAmqpTryHost o h hostCopy brokerId) (fun _ => Careful b past) (fun _ => Careful b past) c := by
  have stage : ∀ (r : Report) (rest : M Bool), Preserves (Careful b past) rest → ∀ reply : Reply,
      Preserves (Careful b past) (do
        if reply ≠ .normal then
          elog o r
          return false
        rest) := by
    intro r rest hrest reply
    exact .ite (fun _ => .bind (elog_careful r) fun _ => .pure _ _) fun _ => hrest
  unfold localAmqpTryHost
  refine wp_seq (localAmqpOpenSocket_careful hostCopy hc ha) fun ok c₁ h₁ => ?_
  obtain ⟨h₁, hopened⟩ := h₁
  rw [wp_ite]
  cases ok with
  | false => exact h₁
  | true =>
    rw [if_neg (by simp), wp_bind, wp_tick, wp_bind, wp_modifyBs, wp_bind, wp_getGucs, wp_bind, wp_localAmqpSetTimeout]
    have h₂ : Careful b past (((c₁.ticked .sockfd).modified fun bs =>
        { bs with sockfd := o.sockfd (c₁.counts .sockfd) }).timed c₁.backend.gucs.handshakeTimeoutMs) :=
      h₁.plain (.silent rfl rfl rfl)
    have handshake : wp (localAmqpHandshake o h hostCopy brokerId) (fun _ => Careful b past) (fun _ => Careful b past)
        (((c₁.ticked .sockfd).modified fun bs =>
          { bs with sockfd := o.sockfd (c₁.counts .sockfd) }).timed c₁.backend.gucs.handshakeTimeoutMs) := by
      unfold localAmqpHandshake
      refine wp_seq (localAmqpLogin_careful h₂ (hopened rfl)) fun reply c₃ h₃ => stage _ _ ?_ reply c₃ h₃
      refine .bind (.bind (tick_careful _) fun _ => rpc_careful (by simp) _) fun reply => stage _ _ ?_ reply
      refine .bind (.bind (tick_careful _) fun _ => rpc_careful (by simp) _) fun reply => stage _ _ ?_ reply
      refine .bind (.bind (tick_careful _) fun _ => rpc_careful (by simp) _) fun reply => stage _ _ (.pure _ _) reply
    refine wp_seq handshake fun ok c₃ h₃ => ?_
    rw [wp_ite]
    split
    · exact h₃
    · rw [wp_bind, wp_getGucs, wp_bind, wp_localAmqpSetTimeout, wp_bind, wp_modifyBs]
      exact h₃.plain (.silent rfl rfl rfl)

theorem localAmqpDisconnectBs_careful (graceful : Bool) :
    Preserves (Careful b past) (localAmqpDisconnectBs graceful) := by
  intro c hc
  cases hk : c.bs.conn with
  | none =>
    rw [wp_localAmqpDisconnectBs_none graceful hk]
    exact hc
  | some k =>
    cases graceful with
    | false =>
      rw [wp_localAmqpDisconnectBs_some hk]
      exact hc.plain (.said rfl rfl rfl rfl)
    | true =>
      rw [wp_localAmqpDisconnectBs_closed hk]
      have hclosed : Careful b past (c.recorded (.rpc .connectionClose k.closing .none)) :=
        hc.plain (.said rfl rfl rfl rfl)
      exact hclosed.plain (.said rfl rfl rfl rfl)

theorem localAmqpFailover_careful (brokerId deadline : Int) (tries : Nat) :
    Preserves (Careful b past) (localAmqpFailover o brokerId deadline tries) := by
  induction tries with
  | zero => exact .pure _ _
  | succ tries ih =>
    intro c hc
    have hturned : Careful b past c.turned := hc.plain (.silent rfl rfl rfl)
    have next : ∀ hostCopy, Preserves (Careful b past) (do
        if deadline ≠ 0 then
          if deadline ≤ o.nowMs (← tick .nowMs) then
            elog o (.budgetExhausted (← getGucs).connectBudgetMs brokerId)
            return false
        if 0 < tries then
          elog o (.tryingNextHost hostCopy)
        localAmqpFailover o brokerId deadline tries) := by
      intro hostCopy
      have go : Preserves (Careful b past) (do
          if 0 < tries then
            elog o (.tryingNextHost hostCopy)
          localAmqpFailover o brokerId deadline tries) :=
        .ite (fun _ => .bind (elog_careful _) fun _ => ih) fun _ => ih
      refine .ite (fun _ => .bind (tick_careful _) fun _ => .ite (fun _ => ?_) fun _ => go) fun _ => go
      exact .bind (fun _ h => h) fun _ => .bind (elog_careful _) fun _ => .pure _ _
    unfold localAmqpFailover
    rw [wp_bind, wp_modifyBs, wp_bind, wp_getBs, wp_bind, wp_amqpNewConnection]
    split
    · have hnew : Careful b past (c.turned.ticked .newConnection).dialed := hturned.plain (.silent rfl rfl rfl)
      rw [wp_bind, wp_setConn, wp_ite, if_neg (by simp)]
      refine wp_seq (localAmqpTryHost_careful _ brokerId hnew hturned.currentHost) fun ok c₁ h₁ => ?_
      rw [wp_ite]
      split
      · exact h₁
      · exact Preserves.bind (localAmqpDisconnectBs_careful false) (fun _ => next _) c₁ h₁
    · rw [wp_bind, wp_setConn, wp_ite, if_pos (by simp)]
      exact hturned.plain (.silent rfl rfl rfl)

theorem localAmqpGetBs_careful (brokerId : Int) : Preserves (Careful b past) (localAmqpGetBs o brokerId) := by
  intro c hc
  have hlink : Careful b past c.link := hc.plain (.silent rfl rfl rfl)
  have hchecked : Careful b past c.link.checked := by
    unfold Cell.checked
    split
    · exact hlink
    · exact hlink.plain (.silent rfl rfl rfl)
  have dial : ∀ deadline, Preserves (Careful b past) (do
      if !(← localAmqpFailover o brokerId deadline (← getBs).nhosts) then localAmqpConnectFailed o) := fun deadline =>
    .bind (getBs_preserves _) fun _ => .bind (localAmqpFailover_careful brokerId deadline _) fun _ =>
      .ite (fun _ => localAmqpConnectFailed_careful) fun _ => .pure _ _
  unfold localAmqpGetBs
  rw [wp_bind, wp_localAmqpGetABs, wp_bind, wp_getBs, wp_ite]
  split
  · exact hlink
  rw [wp_bind, wp_localAmqpSuppressed, wp_ite]
  split
  · exact hchecked
  refine wp_seq (localAmqpLoadHosts_careful _ hchecked) fun n c₁ h₁ => ?_
  rw [wp_ite]
  split
  · exact Preserves.bind localAmqpConnectFailed_careful (fun _ => .pure _ _) _ h₁
  · rw [wp_bind, wp_getGucs]
    dsimp only
    rw [wp_ite]
    split
    · rw [wp_bind, wp_tick, wp_bind, wp_pure]
      exact dial _ _ (h₁.plain (.silent rfl rfl rfl))
    · rw [wp_bind, wp_pure]
      exact dial _ _ h₁

theorem publishPass_careful (brokerId : Int) (m : Msg) (badMode : Option Int) (channel : Nat) (onceMore : Bool)
    {redo : M Bool} (hredo : Preserves (Careful b past) redo) :
    Preserves (Careful b past) (publishPass o brokerId m badMode channel onceMore redo) := by
  refine .bind (localAmqpGetBs_careful brokerId) fun _ c hc => ?_
  have served : ∀ {c'}, Served .all (.rest, c) (.rest, c') → Careful b past c' := fun hs => hc.plain hs.plain
  exact publishConnected_served (L := .all) (p := (.rest, c)) brokerId badMode
    ⟨fun _ _ => served, fun _ _ hs => served (hs fun _ => trivial), fun c' hs _ => hredo c' (served hs)⟩ .refl

theorem pgAmqpPublishOpt_careful (brokerId : Int) (a : PublishArgs) (channel : Nat) :
    Preserves (Careful b past) (pgAmqpPublishOpt o brokerId a channel) := by
  have pass : ∀ m onceMore redo, Preserves (Careful b past) redo →
      Preserves (Careful b past) (publishPass o brokerId m a.badDeliveryMode channel onceMore redo) :=
    fun m onceMore _ => publishPass_careful brokerId m a.badDeliveryMode channel onceMore
  intro c hc
  unfold pgAmqpPublishOpt
  rw [wp_bind, wp_getGucs, wp_ite]
  split
  · exact Preserves.bind (elog_careful _) (fun _ => .pure _ _) c hc
  · rw [wp_bind, wp_newMsg]
    exact pass _ _ _ (pass _ _ _ (.pure _ _)) _ (hc.plain (.silent rfl rfl rfl))

theorem pgAmqpExchangeDeclare_careful (brokerId : Int) (a : DeclareArgs) :
    Preserves (Careful b past) (pgAmqpExchangeDeclare o brokerId a) := by
  refine .bind (localAmqpGetBs_careful brokerId) fun _ => .bind (getBs_preserves _) fun _ =>
    .ite (fun _ => ?_) fun _ => ?_
  · refine .bind (.bind (tick_careful _) fun _ => rpc_careful (by simp) _) fun _ =>
      .ite (fun _ => .pure _ _) fun _ => ?_
    exact .bind (localAmqpDisconnectBs_careful false) fun _ => .pure _ _
  · exact .pure _ _

theorem localAmqpDisconnect_careful : Preserves (Careful b past) localAmqpDisconnect := by
  intro c hc
  have hlink : Careful b past c.link := hc.plain (.silent rfl rfl rfl)
  unfold localAmqpDisconnect
  rw [wp_bind, wp_localAmqpGetABs]
  refine wp_seq (localAmqpDisconnectBs_careful true _ hlink) fun _ c₁ h₁ => ?_
  unfold localAmqpFreeHosts
  rw [wp_bind, wp_modifyBs, wp_modifyBs]
  have hreset : Careful b past c₁.reset := h₁.plain (.silent rfl rfl rfl)
  refine ⟨?_, fun h hh => ?_, hreset.prudent⟩
  · show c₁.reset.freed.bs.brokerId = b
    unfold Cell.freed
    rw [Cell.modified_bs]
    split <;> exact hreset.brokerId
  · have hh : h ∈ c₁.reset.freed.bs.hosts.getD [] := hh
    rw [Cell.freed_hosts] at hh
    cases hh

end Careful

section Runs

variable {b : Int} {past : List Event} {o : Outcomes} {s : Session} {st : Step}

/-- Careful before, careful after, whatever was said before the call. -/
def Minds (b : Int) (c c' : Cell) : Prop := ∀ past, Careful b past c → Careful b past c'

theorem minds {α : Type} {x : M α} (hx : ∀ past, Preserves (Careful b past) x) (c : Cell) :
    wp x (fun _ => Minds b c) (fun _ => Minds b c) c := by
  unfold wp
  cases hrun : x c with
  | ok v c' =>
    intro past hc
    have h := hx past c hc
    unfold wp at h
    rwa [hrun] at h
  | error e c' =>
    intro past hc
    have h := hx past c hc
    unfold wp at h
    rwa [hrun] at h

theorem Step.Calls.minds {x : M Bool} (hx : st.Calls b x) (c : Cell) :
    wp x (fun _ => Minds b c) (fun _ => Minds b c) c := by
  cases hx with
  | publish _ _ => exact PgAmqp.minds (fun _ => pgAmqpPublishOpt_careful b _ _) c
  | autonomousPublish _ _ => exact PgAmqp.minds (fun _ => pgAmqpPublishOpt_careful b _ _) c
  | exchangeDeclare _ _ => exact PgAmqp.minds (fun _ => pgAmqpExchangeDeclare_careful b _) c
  | disconnect _ =>
    exact PgAmqp.minds (fun _ => .bind localAmqpDisconnect_careful fun _ => .pure _ _) c

/-- Between two calls: all that was said is in the past. -/
structure Cautious (b : Int) (past : List Event) (bs : BrokerState) : Prop where
  brokerId : bs.brokerId = b
  hosts : ∀ h ∈ bs.hosts.getD [], Announced b past h
  prudent : Prudent b past

theorem Cautious.careful {bs : BrokerState} {linked : Bool} {k : Backend} (h : Cautious b past bs) :
    Careful b past (Session.start bs linked k) := by
  have hpast : past ++ (Session.start bs linked k).log = past := List.append_nil _
  refine ⟨h.brokerId, fun x hx => ?_, ?_⟩
  · rw [hpast]
    exact h.hosts x hx
  · rw [hpast]
    exact h.prudent

theorem Trail.cautious {k k' : Backend} {bs bs' : BrokerState} {evs : List Event}
    (h : Trail (Minds b) k bs evs k' bs') (hc : Cautious b past bs) : Cautious b (past ++ evs) bs' := by
  induction h generalizing past with
  | still _ _ =>
    rw [List.append_nil]
    exact hc
  | work h =>
    have hcareful := h past hc.careful
    exact ⟨hcareful.brokerId, hcareful.hosts, hcareful.prudent⟩
  | trans _ _ ih ih' =>
    rw [← List.append_assoc]
    exact ih' (ih hc)

/-- Every step is careful with every entry. -/
theorem next_cautious {ok : Session → Step → Prop} (hs : Runs ok s) (hc : Cautious b past (s.entry b)) :
    Cautious b (past ++ logOf b (trace st s).log) ((next st s).entry b) := by
  by_cases hset : ∃ g, st.action = .set g
  · obtain ⟨g, hg⟩ := hset
    unfold next trace exec
    rw [hg]
    show Cautious b (past ++ []) (s.entry b)
    rw [List.append_nil]
    exact hc
  · have htrails : Trails Minds s (next st s) (trace st s).log := by
      refine exec_works (Runs.shaped hs) (fun g hg => hset ⟨g, hg⟩) (.between fun _ _ _ h past hc => hc.plain h.plain)
        fun b x hx => ?_
      exact wp_mono (wp_and (calls_called (Runs.anchored hs) hx) (hx.minds (s.cell b)))
        (fun _ _ h => h.1.landed h.2) fun _ _ h => h.1.landed h.2
    exact (htrails b).cautious hc

theorem run_cautious (hs : Runs (fun _ _ => True) s) (steps : List Step) (hc : Cautious b past (s.entry b)) :
    Cautious b (past ++ logOf b (gathered next (fun st s => (trace st s).log) steps s))
      ((run next steps s).entry b) := by
  induction steps generalizing s past with
  | nil =>
    show Cautious b (past ++ []) (s.entry b)
    rw [List.append_nil]
    exact hc
  | cons st rest ih =>
    rw [gathered, logOf_append, ← List.append_assoc]
    exact ih (.step st hs trivial) (next_cautious hs hc)

/-- In every run, wherever cancels cut its calls off, a socket whose calls switch a check of
the server's certificate off is only opened behind a warning about its host, and a login is
only said directly upon a socket that was opened, with the virtual host, the user and the
password of the host that it was opened to. -/
theorem sockets_announced (gucs : Gucs) (myProcPid : Nat) (steps : List Step) (b : Int) {log₀ : List Event} {e : Event}
    (h : log₀ ++ [e] <+: logOf b (gathered next (fun st s => (trace st s).log) steps (.loaded gucs myProcPid))) :
    (∀ h ms ok, e = .socketOpen h ms ok → (h.socketCalls ms).any SetupCall.trusts = true →
      .warning (.insecureTls b h.host) ∈ log₀) ∧
    ∀ args k reply, e = .rpc (.login args) k reply →
      ∃ before h ms, log₀ = before ++ [.socketOpen h ms true] ∧ args = h.loginArgs := by
  have hinit := Session.loaded_initial gucs myProcPid
  have hfresh : Cautious b [] ((Session.loaded gucs myProcPid).entry b) := by
    rw [entry_initial hinit]
    exact ⟨rfl, by simp [BrokerState.fresh], .nil⟩
  have hrun := (run_cautious (.init hinit) steps hfresh).prudent log₀ e h
  constructor
  · rintro x ms ok rfl htrusts
    rw [socketCalls_trusts] at htrusts
    exact hrun htrusts
  · rintro args k reply rfl
    exact hrun

end Runs

/-- A TLS host whose certificate is not to be checked. -/
def trusted : BrokerRow := ⟨some "mq", none, none, none, none, some true, some false, none, none, none⟩

def trusting : Step :=
  ⟨.autonomousPublish (.to1 "a"), fun _ => { Outcomes.good with spi := fun _ => .rows [trusted] }⟩

/-- The connection as it is when the login is said. -/
def beforeLogin : Connection := (Connection.new 0).setTimeout 7 2000

theorem trusting_announced :
    let before := [Event.warning (.insecureTls 1 (some "mq"))]
    let opened := before ++ [.socketOpen trusted.toHost 2000 true]
    opened ++ [.rpc (.login trusted.toHost.loginArgs) beforeLogin .normal] <+:
        logOf 1 (gathered next (fun st s => (trace st s).log) [trusting] (.loaded {} 0)) ∧
      .warning (.insecureTls 1 trusted.toHost.host) ∈ before ∧
      ∃ before h ms, opened = before ++ [.socketOpen h ms true] ∧ trusted.toHost.loginArgs = h.loginArgs := by
  intro before opened
  have hlogin : opened ++ [.rpc (.login trusted.toHost.loginArgs) beforeLogin .normal] <+:
      logOf 1 (gathered next (fun st s => (trace st s).log) [trusting] (.loaded {} 0)) := by decide +kernel
  have hopen : before ++ [.socketOpen trusted.toHost 2000 true] <+:
      logOf 1 (gathered next (fun st s => (trace st s).log) [trusting] (.loaded {} 0)) :=
    (List.prefix_append opened _).trans hlogin
  exact ⟨hlogin, (sockets_announced {} 0 [trusting] 1 hopen).1 trusted.toHost 2000 true rfl (by decide),
    (sockets_announced {} 0 [trusting] 1 hlogin).2 _ _ _ rfl⟩

end PgAmqp
