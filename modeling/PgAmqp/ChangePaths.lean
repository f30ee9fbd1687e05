import PgAmqp.HostCache
import PgAmqp.ChannelOne
import PgAmqp.CallbackEffects

/-!
# Every call is a chain of changes

The functions of the extension are gone through once, from the drain to the callbacks,
and each is shown to be a chain. A chain that unwound ends at `rest` as well: what the
next call finds is what this one left behind.
-/
namespace PgAmqp

open ProgramLogic

/-- A cancel is pending at a warning that notes a blocked connection. -/
def Outcomes.Deafens (o : Outcomes) : Prop := ∃ n b, o.unwind n (.blocked b) = true

section Serving

variable {L : Lapses} {o : Outcomes} {p : Stage × Cell} {g : Stage} {c : Cell}

/-- The frames are read from a connection, and it is kept. -/
def Reading (L : Lapses) (p : Stage × Cell) (g : Stage) (c : Cell) : Prop :=
  Served L p (g, c) ∧ c.bs.conn.isSome = true

/-- What a part of a call raises with that may lapse when it reads. -/
def Unless (L : Lapses) (o : Outcomes) (R : Cell → Prop) (_ : Raised) (c : Cell) : Prop :=
  (o.Deafens → L.unheard) → R c

theorem localAmqpDrainLoop_served (hg : g = .rest ∨ g = .flush) (alive : Bool) (fs : List Frame)
    (h : Reading L p g c) :
    wp (localAmqpDrainLoop o alive fs) (fun _ => Reading L p g) (Unless L o (Reading L p g)) c := by
  induction fs generalizing c with
  | nil => exact h
  | cons f rest ih =>
    have heard : Serve L (g, c) (g, c.heard f rest) := .hear f rest h.2 hg
    have htaken : (c.taken f rest).bs.conn.isSome = true := by simpa [Cell.taken] using h.2
    have read : Reading L p g (c.heard f rest) := ⟨h.1.tail heard, by simpa using htaken⟩
    have next := ih read
    unfold localAmqpDrainLoop
    rw [wp_bind, wp_takeFrame]
    cases f with
    | basicReturn r =>
      dsimp only
      rw [wp_bind, wp_getBs, wp_bind, wp_elog]
      split
      · exact fun _ => read
      · exact next
    | connectionBlocked =>
      dsimp only
      rw [wp_bind, wp_getBs, wp_ite]
      have hb : (c.taken .connectionBlocked rest).bs.blocked = c.bs.blocked := rfl
      unfold Cell.heard at next
      dsimp only at next
      rw [hb]
      cases hblocked : c.bs.blocked with
      | true =>
        rw [hblocked, if_pos rfl] at next
        rw [if_neg (by simp), wp_bind, wp_modifyBs]
        exact next
      | false =>
        rw [hblocked, if_neg (by simp)] at next
        rw [if_pos (by simp), wp_bind, wp_elog]
        split
        · rename_i hu
          simp only [Cell.unwinds, Bool.and_eq_true] at hu
          exact fun hL => ⟨h.1.tail (.mishear rest h.2 hg (hL ⟨_, _, hu.2⟩)), htaken⟩
        · rw [wp_bind, wp_modifyBs]
          exact next
    | connectionUnblocked =>
      dsimp only
      rw [wp_bind, wp_modifyBs]
      exact next
    | channelClose n => exact read
    | connectionClose => exact read
    | other => exact next

theorem localAmqpDrainReturns_served (hg : g = .rest ∨ g = .flush) (h : Reading L p g c) :
    wp (localAmqpDrainReturns o) (fun _ => Reading L p g) (Unless L o (Reading L p g)) c := by
  obtain ⟨k, hk⟩ := Option.isSome_iff_exists.mp h.2
  unfold localAmqpDrainReturns
  rw [wp_bind, wp_getBs, hk]
  dsimp only
  rw [wp_bind, wp_tick]
  have ht : Serve L (g, c) (g, c.ticked .poll) := .tick .poll
  exact localAmqpDrainLoop_served hg _ _ ⟨h.1.tail ht, h.2⟩

variable {channel : Nat} {onceMore : Bool} {redo giveUp : M Bool} {m : Msg}
  {Q : Bool → Cell → Prop} {E : Raised → Cell → Prop}

/-- The three ways on from a part of a publish pass. -/
structure Onward (L : Lapses) (o : Outcomes) (p : Stage × Cell) (redo : M Bool) (Q : Bool → Cell → Prop)
    (E : Raised → Cell → Prop) : Prop where
  done : ∀ r c', Served L p (.rest, c') → Q r c'
  raise : ∀ e c', Unless L o (fun c' => Served L p (.rest, c')) e c' → E e c'
  redo : ∀ c', Served L p (.rest, c') → c'.bs.conn = none → wp redo Q E c'

theorem orRedo_served (hon : Onward L o p redo Q E) (h : Reading L p .rest c)
    (hgive : wp giveUp Q E c) : wp (orRedo channel onceMore redo giveUp) Q E c := by
  obtain ⟨k, hk⟩ := Option.isSome_iff_exists.mp h.2
  unfold orRedo
  rw [wp_bind, wp_getBs, wp_ite]
  split
  · rw [wp_bind, wp_localAmqpDisconnectBs_some hk]
    exact hon.redo _ (h.1.tail (.drop k hk)) rfl
  · exact hgive

theorem publishWritten_served (hon : Onward L o p redo Q E) (h : Reading L p .rest c)
    (k : Connection) (rv : Write) :
    wp (publishWritten m channel onceMore redo k rv) Q E c := by
  unfold publishWritten
  rw [wp_ite]
  split
  · refine orRedo_served hon h ?_
    rw [wp_bind, wp_setInerror]
    exact hon.done false _ (h.1.tail (.inerror true))
  · rw [wp_bind, wp_record, wp_bind, wp_modifyBs]
    exact hon.done true _ (h.1.tail (.accept k channel m h.2))

theorem publishPoll_served (h : Reading L p .rest c) :
    wp (publishPoll o m channel) (fun _ => Reading L p .rest) (Unless L o (Reading L p .rest)) c := by
  unfold publishPoll
  rw [wp_ite]
  split
  · rw [wp_bind]
    exact wp_mono (localAmqpDrainReturns_served (.inl rfl) h) (fun _ _ h => h) (fun _ _ h => h)
  · exact h

theorem publishWrite_served (hon : Onward L o p redo Q E) (h : Reading L p .rest c)
    (hb : c.bs.blocked = false) :
    wp (publishWrite o m channel onceMore redo) Q E c := by
  obtain ⟨k, hk⟩ := Option.isSome_iff_exists.mp h.2
  unfold publishWrite
  rw [wp_bind, wp_getBs, hk]
  dsimp only
  rw [wp_bind, wp_amqpBasicPublish, wp_bind]
  have ht : Serve L (.rest, c) (.rest, c.ticked .basicPublish) := .tick .basicPublish
  have hw : Serve L (.rest, c.ticked .basicPublish)
      (.rest, (c.ticked .basicPublish).wrote k channel m (c.written o)) :=
    .write k channel m (c.written o) hk hb
  refine wp_mono (publishPoll_served ⟨(h.1.tail ht).tail hw, rfl⟩) (fun _ c' h' => ?_)
    (fun _ c' h' => hon.raise _ c' fun hL => (h' hL).1)
  exact publishWritten_served hon h' k _

theorem publishDrained_served (brokerId : Int) (badMode : Option Int) (hon : Onward L o p redo Q E)
    (h : Reading L p .rest c) :
    wp (publishDrained o brokerId m badMode channel onceMore redo) Q E c := by
  unfold publishDrained publishMode
  rw [wp_bind, wp_getBs, wp_ite]
  split
  · rename_i hb
    have hr : Serve L (.rest, c) (.rest, c.recorded (.refused c.bs.conn)) := .refuse h.2 hb
    have hw : Serve L (.rest, c.recorded (.refused c.bs.conn))
        (.rest, (c.recorded (.refused c.bs.conn)).warned (.publisherBlocked brokerId)) := .warn _ rfl
    rw [wp_bind, wp_record, wp_bind, wp_elog]
    split
    · exact hon.raise _ _ fun _ => (h.1.tail hr).tail hw
    · exact hon.done false _ ((h.1.tail hr).tail hw)
  · rename_i hb
    have hb := Bool.eq_false_iff.mpr hb
    rw [wp_bind]
    cases badMode with
    | none => exact publishWrite_served hon h hb
    | some mode =>
      have hw : Serve L (.rest, c) (.rest, c.warned (.ignoredDeliveryMode mode)) := .warn _ rfl
      dsimp only
      rw [wp_elog]
      split
      · exact hon.raise _ _ fun _ => h.1.tail hw
      · exact publishWrite_served hon ⟨h.1.tail hw, h.2⟩ hb

theorem publishConnected_served (brokerId : Int) (badMode : Option Int)
    (hon : Onward L o p redo Q E) (h : Served L p (.rest, c)) :
    wp (publishConnected o brokerId m badMode channel onceMore redo) Q E c := by
  unfold publishConnected
  rw [wp_bind, wp_getBs, wp_ite]
  split
  · rename_i hc
    refine wp_seq (wp_mono (localAmqpDrainReturns_served (.inl rfl) ⟨h, hc.1⟩) (fun _ _ h' => h')
      (fun _ _ h' => hon.raise _ _ fun hL => (h' hL).1)) fun r c' h' => ?_
    rw [wp_ite]
    split
    · refine orRedo_served hon h' ?_
      rw [wp_ite]
      split
      · rw [wp_bind, wp_setInerror]
        exact hon.done false _ (h'.1.tail (.inerror true))
      · exact hon.done false _ h'.1
    · exact publishDrained_served brokerId badMode hon h'
  · exact hon.done false _ h

end Serving

section Dialing

variable {L : Lapses} {o : Outcomes} {p : Stage × Cell} {g : Stage} {c : Cell} {n : Nat}
  {hosts : Option (List BrokerHost)}

/-- A connection is being made from this host list. -/
structure Dialing (L : Lapses) (o : Outcomes) (p : Stage × Cell) (hosts : Option (List BrokerHost))
    (n : Nat) (g : Stage) (c : Cell) : Prop where
  chain : Chain L o p (g, c)
  conn : c.bs.conn.isSome = true
  hosts : c.bs.hosts = hosts
  nhosts : c.bs.nhosts = n

theorem Dialing.serve {g' : Stage} {c' : Cell} (h : Dialing L o p hosts n g c)
    (hs : Serve L (g, c) (g', c')) (hc : c'.bs.conn.isSome = true) : Dialing L o p hosts n g' c' :=
  ⟨h.chain.tail (.serve hs), hc, hs.sameList.hosts.trans h.hosts, hs.sameList.nhosts.trans h.nhosts⟩

/-- What an attempt on one host returns with. -/
def Attempted (L : Lapses) (o : Outcomes) (p : Stage × Cell) (hosts : Option (List BrokerHost))
    (n : Nat) (ok : Bool) (c : Cell) : Prop :=
  if ok = true then Dialing L o p hosts n .rest c else ∃ g, Dialing L o p hosts n g c

/-- What it raises with. -/
def Interrupted (L : Lapses) (o : Outcomes) (p : Stage × Cell) (_ : Raised) (c : Cell) : Prop :=
  Chain L o p (.rest, c)

theorem elog_dialing (hhalf : o.HalfOpen → L.halfOpen) {r : Report} (hr : r.isHostFailure = true)
    (h : Dialing L o p hosts n g c) :
    wp (elog o r) (fun _ => Dialing L o p hosts n g) (Interrupted L o p) c := by
  have hret : r.isReturned = false := by cases r <;> first | rfl | cases hr
  have hw : Serve L (g, c) (g, c.warned r) := .warn r hret
  rw [wp_elog]
  split
  · rename_i hu
    simp only [Cell.unwinds, Bool.and_eq_true] at hu
    exact (h.serve hw h.conn).chain.tail (.dial (.unwind (hhalf ⟨_, r, hr, hu.2⟩)))
  · exact h.serve hw h.conn

theorem failed_dialing (hhalf : o.HalfOpen → L.halfOpen) {r : Report} (hr : r.isHostFailure = true)
    (h : Dialing L o p hosts n g c) :
    wp (do elog o r; return false) (fun _ => Dialing L o p hosts n g) (Interrupted L o p) c :=
  wp_seq (elog_dialing hhalf hr h) fun _ _ h' => h'

theorem Dialing.ticked (h : Dialing L o p hosts n g c) (k : Call) : Dialing L o p hosts n g (c.ticked k) :=
  h.serve (.tick k) h.conn

/-- One rpc of the handshake. -/
theorem stage_dialing (hhalf : o.HalfOpen → L.halfOpen) {kind : Rpc} (hkind : kind.handshakes = true)
    {r : Report} (hr : r.isHostFailure = true) (a : Answer) {rest : M Bool}
    (h : Dialing L o p hosts n .shake c)
    (hrest : ∀ c', Dialing L o p hosts n .shake c' →
      wp rest (fun _ => Dialing L o p hosts n .shake) (Interrupted L o p) c') :
    wp (do if (← rpc kind a) ≠ .normal then do elog o r; return false else rest)
      (fun _ => Dialing L o p hosts n .shake) (Interrupted L o p) c := by
  obtain ⟨k, hk⟩ := Option.isSome_iff_exists.mp h.conn
  have hd : Dialing L o p hosts n .shake (c.asked kind a k) :=
    ⟨h.chain.tail (.dial (.ask k kind a hk hkind)), rfl, h.hosts, h.nhosts⟩
  rw [wp_bind, wp_rpc hk, wp_ite]
  split
  · exact failed_dialing hhalf hr hd
  · exact hrest _ hd

theorem localAmqpHandshake_dialing (hhalf : o.HalfOpen → L.halfOpen) (host : BrokerHost) (hostCopy : String)
    (brokerId : Int) (h : Dialing L o p hosts n .shake c) :
    wp (localAmqpHandshake o host hostCopy brokerId) (fun _ => Dialing L o p hosts n .shake)
      (Interrupted L o p) c := by
  unfold localAmqpHandshake localAmqpLogin amqpLoginWithProperties amqpChannelOpen amqpTxSelect
  simp only [bind_assoc, wp_bind, wp_tick]
  rw [← wp_bind]
  refine stage_dialing hhalf rfl rfl _ (h.ticked _) fun c₁ h₁ => ?_
  simp only [wp_bind, wp_tick]
  rw [← wp_bind]
  refine stage_dialing hhalf rfl rfl _ (h₁.ticked _) fun c₂ h₂ => ?_
  simp only [wp_bind, wp_tick]
  rw [← wp_bind]
  refine stage_dialing hhalf rfl rfl _ (h₂.ticked _) fun c₃ h₃ => ?_
  simp only [wp_bind, wp_tick]
  rw [← wp_bind]
  exact stage_dialing hhalf rfl rfl _ (h₃.ticked _) fun c₄ h₄ => h₄

theorem localAmqpOpenSocket_dialing (hhalf : o.HalfOpen → L.halfOpen) (hostCopy : String)
    (h : Dialing L o p hosts n .dial c) :
    wp (localAmqpOpenSocket o c.bs.currentHost hostCopy) (fun _ => Dialing L o p hosts n .dial)
      (Interrupted L o p) c := by
  unfold localAmqpOpenSocket
  rw [wp_bind, wp_getBs, wp_bind, wp_tick, wp_ite]
  have h₁ := h.ticked .socketNew
  split
  · refine failed_dialing hhalf ?_ h₁
    split <;> rfl
  rw [wp_bind, wp_tick, wp_bind, wp_getGucs, wp_bind, wp_record, wp_ite]
  have h₂ := h₁.ticked .socketOpen
  have h₃ : Dialing L o p hosts n .dial (((c.ticked .socketNew).ticked .socketOpen).recorded
      (.socketOpen c.bs.currentHost c.backend.gucs.connectTimeoutMs
        (o.socketOpen ((c.ticked .socketNew).counts .socketOpen)))) :=
    ⟨h₂.chain.tail (.dial (.open _)), h₂.conn, h₂.hosts, h₂.nhosts⟩
  split
  · exact failed_dialing hhalf rfl h₃
  · exact h₃

theorem localAmqpTryHost_dialing (hhalf : o.HalfOpen → L.halfOpen) (hostCopy : String) (brokerId : Int)
    (h : Dialing L o p hosts n .dial c) :
    wp (localAmqpTryHost o c.bs.currentHost hostCopy brokerId) (Attempted L o p hosts n)
      (Interrupted L o p) c := by
  unfold localAmqpTryHost
  refine wp_seq (localAmqpOpenSocket_dialing hhalf hostCopy h) fun opened c₁ h₁ => ?_
  rw [wp_ite]
  split
  · exact ⟨_, h₁⟩
  rw [wp_bind, wp_tick, wp_bind, wp_modifyBs, wp_bind, wp_getGucs, wp_bind, wp_localAmqpSetTimeout]
  have h₂ := h₁.ticked .sockfd
  obtain ⟨k, hk⟩ := Option.isSome_iff_exists.mp h₁.conn
  refine wp_seq (localAmqpHandshake_dialing hhalf _ hostCopy brokerId
    ⟨h₂.chain.tail (.dial (.shake (c₁.counts .sockfd))), by simp [Cell.timed, hk], h₂.hosts,
      h₂.nhosts⟩) fun ok c₃ h₃ => ?_
  rw [wp_ite]
  cases ok with
  | false => exact ⟨_, h₃⟩
  | true =>
    obtain ⟨k₃, hk₃⟩ := Option.isSome_iff_exists.mp h₃.conn
    rw [if_neg (by simp), wp_bind, wp_getGucs, wp_bind, wp_localAmqpSetTimeout, wp_bind, wp_modifyBs]
    exact ⟨h₃.chain.tail (.dial .connect), by simp [Cell.timed, hk₃], h₃.hosts, h₃.nhosts⟩

/-- The entry has no connection, and this host list. -/
structure Unconnected (L : Lapses) (o : Outcomes) (p : Stage × Cell) (hosts : Option (List BrokerHost))
    (n : Nat) (c : Cell) : Prop where
  chain : Chain L o p (.rest, c)
  conn : c.bs.conn = none
  hosts : c.bs.hosts = hosts
  nhosts : c.bs.nhosts = n

theorem Unconnected.serve {c' : Cell} (h : Unconnected L o p hosts n c)
    (hs : Serve L (.rest, c) (.rest, c')) (hc : c'.bs.conn = none) : Unconnected L o p hosts n c' :=
  ⟨h.chain.tail (.serve hs), hc, hs.sameList.hosts.trans h.hosts, hs.sameList.nhosts.trans h.nhosts⟩

theorem Unconnected.interrupted {e : Raised} (h : Unconnected L o p hosts n c) :
    Interrupted L o p e c := h.chain

/-- What the failover loop returns with. -/
def FailedOver (L : Lapses) (o : Outcomes) (p : Stage × Cell) (hosts : Option (List BrokerHost))
    (n : Nat) (ok : Bool) (c : Cell) : Prop :=
  if ok = true then Dialing L o p hosts n .rest c else Unconnected L o p hosts n c

theorem nextHost_chain (deadline : Int) (tries : Nat) (brokerId : Int) (hostCopy : String)
    {rest : M Bool} (h : Unconnected L o p hosts n c)
    (hrest : ∀ c', Unconnected L o p hosts n c' →
      wp rest (FailedOver L o p hosts n) (Interrupted L o p) c') :
    wp (do
      if deadline ≠ 0 then
        if deadline ≤ o.nowMs (← tick .nowMs) then
          elog o (.budgetExhausted (← getGucs).connectBudgetMs brokerId)
          return false
      if 0 < tries then
        elog o (.tryingNextHost hostCopy)
      rest) (FailedOver L o p hosts n) (Interrupted L o p) c := by
  have next : ∀ {c'}, Unconnected L o p hosts n c' → wp (do
      if 0 < tries then elog o (.tryingNextHost hostCopy)
      rest) (FailedOver L o p hosts n) (Interrupted L o p) c' := by
    intro c' h'
    rw [wp_ite]
    split
    · rw [wp_bind, wp_elog]
      have hw := h'.serve (.warn (.tryingNextHost hostCopy) rfl) h'.conn
      split
      · exact hw.interrupted
      · exact hrest _ hw
    · exact hrest _ h'
  rw [wp_ite]
  split
  · rw [wp_bind, wp_tick, wp_ite]
    have h₁ := h.serve (.tick .nowMs) h.conn
    split
    · rw [wp_bind, wp_getGucs, wp_bind, wp_elog]
      have hw := h₁.serve (.warn (.budgetExhausted c.backend.gucs.connectBudgetMs brokerId) rfl) h.conn
      split
      · exact hw.interrupted
      · exact hw
    · exact next h₁
  · exact next h

theorem localAmqpFailover_chain (hhalf : o.HalfOpen → L.halfOpen) (brokerId deadline : Int) (tries : Nat)
    (hn : 0 < tries → 0 < n) (h : Unconnected L o p hosts n c) :
    wp (localAmqpFailover o brokerId deadline tries) (FailedOver L o p hosts n)
      (Interrupted L o p) c := by
  induction tries generalizing c with
  | zero => exact h
  | succ tries ih =>
    have hn : 0 < n := hn (Nat.succ_pos _)
    unfold localAmqpFailover
    rw [wp_bind, wp_modifyBs, wp_bind, wp_getBs, wp_bind, wp_amqpNewConnection]
    have h₁ : Unconnected L o p hosts n c.turned :=
      ⟨h.chain.tail (.dial (.turn h.conn (h.nhosts.symm ▸ hn))), h.conn, h.hosts, h.nhosts⟩
    have h₂ := h₁.serve (.tick .newConnection) h.conn
    split
    · rw [wp_bind, wp_setConn, wp_ite, if_neg (by simp)]
      have h₃ : Dialing L o p hosts n .dial (c.turned.ticked .newConnection).dialed :=
        ⟨h₂.chain.tail (.dial (.new h₂.conn (h₂.nhosts.symm ▸ hn))), rfl, h₂.hosts, h₂.nhosts⟩
      refine wp_seq (localAmqpTryHost_dialing hhalf c.turned.bs.currentHost.hostCopy brokerId h₃)
        fun ok c₄ h₄ => ?_
      rw [wp_ite]
      cases ok with
      | true => exact h₄
      | false =>
        obtain ⟨g, h₄⟩ := h₄
        obtain ⟨k, hk⟩ := Option.isSome_iff_exists.mp h₄.conn
        rw [if_neg (by simp), wp_bind, wp_localAmqpDisconnectBs_some hk]
        exact nextHost_chain deadline tries brokerId _
          ⟨h₄.chain.tail (.serve (.drop k hk)), rfl, h₄.hosts, h₄.nhosts⟩ fun c₅ h₅ => ih (fun _ => hn) h₅
    · rw [wp_bind, wp_setConn, wp_ite, if_pos (by simp)]
      have hsame : ((c.turned.ticked .newConnection).modified fun bs => { bs with conn := none }) =
          c.turned.ticked .newConnection := by
        unfold Cell.modified
        rw [← h₂.conn]
      have h₃ : Unconnected L o p hosts n
          ((c.turned.ticked .newConnection).modified fun bs => { bs with conn := none }) := by
        rw [hsame]
        exact h₂
      exact h₃

/-- The connect attempt is suppressed by the backoff. -/
def Cell.suppressed (c : Cell) (o : Outcomes) : Bool :=
  c.bs.lastFailedConnect ≠ 0 && o.time (c.counts .time) - c.bs.lastFailedConnect <
    reconnectBackoff c.bs.consecutiveFailures c.backend.myProcPid

/-- The cell after the check of the backoff. -/
def Cell.checked (c : Cell) : Cell := if c.bs.lastFailedConnect = 0 then c else c.ticked .time

theorem wp_localAmqpSuppressed {Q : Bool → Cell → Prop} {E : Raised → Cell → Prop} :
    wp (localAmqpSuppressed o) Q E c = Q (c.suppressed o) c.checked := by
  unfold localAmqpSuppressed Cell.suppressed Cell.checked
  rw [wp_bind, wp_getBs, wp_ite]
  by_cases h : c.bs.lastFailedConnect = 0
  · rw [if_pos h, if_pos h]
    simp [h]
  · rw [if_neg h, if_neg h]
    simp only [ne_eq, h, not_false_eq_true, decide_true, Bool.true_and]
    rfl

@[simp] theorem Cell.checked_bs : c.checked.bs = c.bs := by
  unfold Cell.checked
  split <;> rfl

@[simp] theorem Cell.checked_backend : c.checked.backend = c.backend := by
  unfold Cell.checked
  split <;> rfl

theorem Cell.checked_counts {k : Call} (hk : k ≠ .time) : c.checked.counts k = c.counts k := by
  unfold Cell.checked
  split
  · rfl
  · exact c.ticked_other hk

/-- The next call of `local_amqp_get_bs` leaves a host list that is not complete. -/
def Cell.leavesPartly (c : Cell) (o : Outcomes) : Bool :=
  c.bs.conn.isNone && !c.suppressed o && c.bs.hosts.isNone && match o.spi (c.counts .spi) with
    | .rows rows => !fillsAll (fun n r => !c.backend.holdoff && o.unwind n r) c.bs.brokerId
        (c.counts .elog) rows
    | _ => false

/-- What the host lookup leaves behind. -/
structure LookedUp (L : Lapses) (o : Outcomes) (p : Stage × Cell) (c : Cell) : Prop where
  chain : Chain L o p (.rest, c)
  conn : c.bs.conn = none

theorem Served.warned {r : Report} (hr : r.isReturned = false) (h : Chain L o p (g, c)) :
    Chain L o p (g, c.warned r) := h.tail (.serve (.warn r hr))

theorem localAmqpLoadHosts_chain (h : Chain L o p (.rest, c)) (hc : c.bs.conn = none)
    (hpart : c.bs.hosts = none → ∀ rows, o.spi (c.counts .spi) = .rows rows →
      fillsAll (fun n r => !c.backend.holdoff && o.unwind n r) c.bs.brokerId (c.counts .elog) rows =
        false → L.partly) :
    wp (localAmqpLoadHosts o) (fun r c' => LookedUp L o p c' ∧ (0 < r → 0 < c'.bs.nhosts))
      (fun _ => LookedUp L o p) c := by
  have ht : Chain L o p (.rest, c.ticked .spi) := h.tail (.serve (.tick .spi))
  refine wp_mono localAmqpLoadHosts_spec (fun r c' hl => ?_) (fun e c' hl => ?_)
  · cases hl with
    | cached _ => exact ⟨⟨h, hc⟩, fun hr => by omega⟩
    | unconnected _ _ => exact ⟨⟨ht, hc⟩, fun hr => by omega⟩
    | missing r _ hr _ => exact ⟨⟨Served.warned hr ht, hc⟩, fun hr => by simpa using hr⟩
    | filled rows rs hs hspi hne hrs hdone =>
      refine ⟨⟨?_, ?_⟩, fun hr => by simpa [Cell.filled] using hr⟩
      · have hw := ht.trans (Served.warnedAll (L := L) .rest (c.ticked .spi) hrs).chain
        refine hw.tail (.dial (.fill _ rows _ _ (by simpa using hs) (by simpa using hc) hspi hne
          (List.length_map _) (.inl rfl) (.inl ?_)))
        simp
      · simpa [Cell.filled] using hc
  · cases hl with
    | spi _ _ => exact ⟨ht, hc⟩
    | missing r _ hr _ => exact ⟨Served.warned hr ht, hc⟩
    | partly rows rs e hs hspi hne hrs hdone =>
      refine ⟨?_, by simpa [Cell.filled] using hc⟩
      have hw := ht.trans (Served.warnedAll (L := L) .rest (c.ticked .spi) hrs).chain
      refine hw.tail (.dial (.fill _ rows _ _ (by simpa using hs) (by simpa using hc) hspi hne
        (fillRows_length _ _) ?_ (.inr (by simp))))
      cases hall : fillsAll (fun n r => !c.backend.holdoff && o.unwind n r) c.bs.brokerId
          (c.counts .elog) rows with
      | true => exact .inl ((fillRows_complete _ _).mpr hall)
      | false => exact .inr (hpart hs rows hspi hall)

/-- Every path through `local_amqp_get_bs` is a chain. -/
theorem localAmqpGetBs_chain (hhalf : o.HalfOpen → L.halfOpen) (brokerId : Int)
    (hpart : c.leavesPartly o = true → L.partly) :
    wp (localAmqpGetBs o brokerId) (fun _ c' => Chain L o (.rest, c.link) (.rest, c'))
      (fun _ c' => Chain L o (.rest, c.link) (.rest, c')) c := by
  unfold localAmqpGetBs
  rw [wp_bind, wp_localAmqpGetABs, wp_bind, wp_getBs, wp_ite]
  split
  · exact .refl
  rename_i hnone
  have hnone : c.bs.conn = none := by simpa [Cell.link] using hnone
  rw [wp_bind, wp_localAmqpSuppressed, wp_ite]
  have hcheck : Chain L o (.rest, c.link) (.rest, c.link.checked) := by
    unfold Cell.checked
    split
    · exact .refl
    · exact .single (.serve (.tick .time))
  split
  · exact hcheck
  rename_i hsup
  have failed : ∀ {c'}, LookedUp L o (.rest, c.link) c' → wp (localAmqpConnectFailed o)
      (fun _ c' => Chain L o (.rest, c.link) (.rest, c'))
      (fun _ c' => Chain L o (.rest, c.link) (.rest, c')) c' := by
    intro c' h'
    unfold localAmqpConnectFailed
    rw [wp_bind, wp_tick, wp_modifyBs]
    exact (h'.chain.tail (.serve (.tick .time))).tail (.dial (.fail (c'.counts .time) h'.conn))
  refine wp_seq (wp_mono (localAmqpLoadHosts_chain hcheck (by simpa using hnone)
    fun hs rows hspi hall => hpart ?_) (fun _ _ h' => h') (fun _ _ h' => h'.chain)) fun r c₁ h₁ => ?_
  · have hs : c.bs.hosts = none := by simpa [Cell.link] using hs
    have hspi : o.spi (c.counts .spi) = .rows rows := by
      rw [← hspi, Cell.checked_counts (by decide)]
      rfl
    have hall : fillsAll (fun n r => !c.backend.holdoff && o.unwind n r) c.bs.brokerId
        (c.counts .elog) rows = false := by
      rw [← hall, Cell.checked_counts (by decide), Cell.checked_backend, Cell.checked_bs]
      rfl
    have hsup : c.suppressed o = false := Bool.eq_false_iff.mpr hsup
    simp [Cell.leavesPartly, hnone, hs, hspi, hall, hsup]
  rw [wp_ite]
  split
  · rw [wp_bind]
    exact wp_mono (failed h₁.1) (fun _ _ h => h) (fun _ _ h => h)
  rw [wp_bind, wp_getGucs]
  have loop : ∀ {deadline : Int} {c₂ : Cell}, LookedUp L o (.rest, c.link) c₂ → wp (do
      if !(← localAmqpFailover o brokerId deadline (← getBs).nhosts) then localAmqpConnectFailed o)
      (fun _ c' => Chain L o (.rest, c.link) (.rest, c'))
      (fun _ c' => Chain L o (.rest, c.link) (.rest, c')) c₂ := by
    intro deadline c₂ h₂
    rw [wp_bind, wp_getBs]
    refine wp_seq (wp_mono (localAmqpFailover_chain hhalf brokerId deadline _ (fun h => h)
      ⟨h₂.chain, h₂.conn, rfl, rfl⟩) (fun _ _ h => h) (fun _ c' h' => h')) fun ok c₃ h₃ => ?_
    rw [wp_ite]
    cases ok with
    | true => exact h₃.chain
    | false =>
      have h₃ : Unconnected L o (.rest, c.link) c₂.bs.hosts c₂.bs.nhosts c₃ := h₃
      exact failed ⟨h₃.chain, h₃.conn⟩
  dsimp only
  rw [wp_ite]
  split
  · rw [wp_bind, wp_tick, wp_bind, wp_pure]
    exact loop ⟨h₁.1.chain.tail (.serve (.tick .nowMs)), h₁.1.conn⟩
  · rw [wp_bind, wp_pure]
    exact loop h₁.1

end Dialing

section Calls

variable {L : Lapses} {o : Outcomes} {p : Stage × Cell} {c : Cell} {brokerId : Int}

/-- A chain that is over, and has left an entry that is linked. -/
structure Worked (L : Lapses) (o : Outcomes) (p : Stage × Cell) (c : Cell) : Prop where
  chain : Chain L o p (.rest, c)
  linked : c.linked = true

theorem Worked.served {c' : Cell} (h : Worked L o p c) (hs : Served L (.rest, c) (.rest, c')) :
    Worked L o p c' := ⟨h.chain.trans hs.chain, hs.sameList.linked h.linked⟩

theorem localAmqpGetBs_worked (hhalf : o.HalfOpen → L.halfOpen) (brokerId : Int)
    (hpart : c.leavesPartly o = true → L.partly) (h : Chain L o p (.rest, c)) :
    wp (localAmqpGetBs o brokerId) (fun _ => Worked L o p) (fun _ => Worked L o p) c := by
  have worked : ∀ {c'}, Chain L o (.rest, c.link) (.rest, c') → Worked L o p c' :=
    fun hc => ⟨(h.tail (.serve .link)).trans hc, hc.linked rfl⟩
  exact wp_mono (localAmqpGetBs_chain hhalf brokerId hpart) (fun _ _ => worked) (fun _ _ => worked)

/-- One pass of a publish call; `redo` starts from an entry that has lost its connection
and has a host list. -/
theorem publishPass_worked (hhalf : o.HalfOpen → L.halfOpen) (hpart : c.leavesPartly o = true → L.partly)
    {m : Msg} {badMode : Option Int} {channel : Nat}
    {onceMore : Bool} {redo : M Bool} (h : Chain L o p (.rest, c)) (ha : Anchored p.2.bs)
    (hredo : ∀ c', Worked L o p c' → c'.bs.conn = none → c'.bs.hosts.isSome = true →
      wp redo (fun _ => Worked L o p) (Unless L o (Worked L o p)) c') :
    wp (publishPass o brokerId m badMode channel onceMore redo) (fun _ => Worked L o p)
      (Unless L o (Worked L o p)) c := by
  unfold publishPass
  refine wp_seq (wp_mono (localAmqpGetBs_worked hhalf brokerId hpart h) (fun _ _ h' => h')
    (fun _ _ h' _ => h')) fun _ c₁ h₁ => ?_
  cases hc : c₁.bs.conn with
  | none =>
    rw [wp_publishConnected_refused brokerId (by simp [hc])]
    exact h₁
  | some k =>
    have hsome : c₁.bs.conn.isSome = true := by simp [hc]
    have served : ∀ {c'}, Served L (.rest, c₁) (.rest, c') → Worked L o p c' :=
      fun hs => h₁.served hs
    refine publishConnected_served (p := (.rest, c₁)) brokerId badMode ⟨fun _ _ => served,
      fun _ _ hs hL => served (hs hL), fun c' hs hnone => hredo c' (served hs) hnone ?_⟩ .refl
    rw [hs.sameList.hosts]
    exact (h₁.chain.anchored ha).hosts hsome

/-- What a call leaves: an entry is only changed when it is linked. -/
structure Called (L : Lapses) (o : Outcomes) (c c' : Cell) : Prop where
  chain : Chain L o (.rest, c) (.rest, c')
  linked : c'.linked = true ∨ c'.bs = c.bs

theorem Worked.called {c' : Cell} (h : Worked L o (.rest, c) c') : Called L o c c' :=
  ⟨h.chain, .inl h.linked⟩

theorem pgAmqpPublishOpt_called (hhalf : o.HalfOpen → L.halfOpen) {a : PublishArgs} {channel : Nat}
    (hpart : a.bodyTooLarge c.backend.gucs = false → c.leavesPartly o = true → L.partly)
    (ha : Anchored c.bs) :
    wp (pgAmqpPublishOpt o brokerId a channel) (fun _ => Called L o c) (Unless L o (Called L o c)) c := by
  unfold pgAmqpPublishOpt
  rw [wp_bind, wp_getGucs, wp_ite]
  split
  · generalize hr : Report.bodyTooLarge _ _ = r
    have hw : Called L o c (c.warned r) :=
      ⟨.single (.serve (.warn r (by rw [← hr]; rfl))), .inr rfl⟩
    rw [wp_bind, wp_elog]
    split
    · exact fun _ => hw
    · exact hw
  · rename_i hbody
    have hnum : Chain L o (.rest, c) (.rest, c.numbered) := .single (.serve .number)
    have called : ∀ c', Worked L o (.rest, c) c' → Called L o c c' := fun _ h => h.called
    rw [wp_bind, wp_newMsg]
    refine wp_mono (publishPass_worked (c := c.numbered) hhalf
      (hpart (Bool.eq_false_iff.mpr hbody)) hnum ha fun c₂ h₂ _ hhosts => ?_)
      (fun _ => called) (fun _ c' h hL => called c' (h hL))
    refine publishPass_worked (c := c₂) hhalf (fun hp => ?_) h₂.chain ha
      fun c₃ h₃ _ _ => ?_
    · simp [Cell.leavesPartly, Option.isSome_iff_ne_none.mp hhosts] at hp
    · exact h₃

theorem pgAmqpExchangeDeclare_called (hhalf : o.HalfOpen → L.halfOpen)
    (hpart : c.leavesPartly o = true → L.partly) (a : DeclareArgs) :
    wp (pgAmqpExchangeDeclare o brokerId a) (fun _ => Called L o c) (fun _ => Called L o c) c := by
  unfold pgAmqpExchangeDeclare
  refine wp_seq (wp_mono (localAmqpGetBs_worked hhalf brokerId hpart (p := (.rest, c)) .refl)
    (fun _ _ h => h) (fun _ _ h => h.called)) fun _ c₁ h₁ => ?_
  rw [wp_bind, wp_getBs, wp_ite]
  split
  · rename_i hc
    obtain ⟨k, hk⟩ := Option.isSome_iff_exists.mp hc
    unfold amqpExchangeDeclare
    rw [bind_assoc, wp_bind, wp_tick, wp_bind, wp_rpc (c := c₁.ticked .exchangeDeclare) hk, wp_ite]
    have hd : Served L (.rest, c₁) (.rest, (c₁.ticked .exchangeDeclare).asked (.exchangeDeclare a.declaration)
        (o.exchangeDeclare (c₁.counts .exchangeDeclare)) k) :=
      (Relation.ReflTransGen.single (.tick .exchangeDeclare)).tail (.declare k _ _ hk)
    split
    · exact (h₁.served hd).called
    · rw [wp_bind, wp_localAmqpDisconnectBs_some rfl]
      exact (h₁.served (hd.tail (.drop _ rfl))).called
  · exact h₁.called

theorem localAmqpDisconnect_called :
    wp localAmqpDisconnect (fun _ => Called L o c) (fun _ => Called L o c) c := by
  have hlink : Chain L o (.rest, c) (.rest, c.link) := .single (.serve .link)
  -- without a connection the rest resets the entry and frees the hosts
  have rest : ∀ {c' : Cell}, Chain L o (.rest, c) (.rest, c') → c'.bs.conn = none →
      c'.linked = true → Called L o c c'.reset.freed :=
    fun h' hc hl => ⟨(h'.tail (.reset hc)).tail (.free hc rfl), .inl hl⟩
  unfold localAmqpDisconnect
  rw [wp_bind, wp_localAmqpGetABs, wp_bind]
  cases hk : c.link.bs.conn with
  | none =>
    rw [wp_localAmqpDisconnectBs_none true hk]
    exact rest hlink hk rfl
  | some k =>
    rw [wp_localAmqpDisconnectBs_closed hk]
    exact rest (hlink.tail (.close k hk)) rfl rfl

end Calls

section Callbacks

variable {L : Lapses} {o : Outcomes} {p : Stage × Cell} {c : Cell}

/-- Dropping the connection of an entry, if it has one. -/
theorem localAmqpDisconnectBs_served {Q : Unit → Cell → Prop} {E : Raised → Cell → Prop}
    (hQ : ∀ c', Served L (.rest, c) (.rest, c') → c'.bs.conn = none → Q () c') :
    wp (localAmqpDisconnectBs false) Q E c := by
  cases hk : c.bs.conn with
  | none =>
    rw [wp_localAmqpDisconnectBs_none false hk]
    exact hQ c .refl hk
  | some k =>
    rw [wp_localAmqpDisconnectBs_some hk]
    exact hQ _ (.single (.drop k hk)) rfl

/-- With interrupts held off a drain comes to its end. -/
theorem localAmqpDrainReturns_held {g : Stage} (hg : g = .rest ∨ g = .flush)
    (hp : p.2.backend.holdoff = true) (h : Reading L p g c) :
    wp (localAmqpDrainReturns o) (fun _ => Reading L p g) (fun _ _ => False) c := by
  have hh : c.backend.holdoff = true := h.1.sameList.holdoff.trans hp
  refine wp_mono (wp_and (localAmqpDrainReturns_served hg h) (localAmqpDrainReturns_reads o h.2))
    (fun _ _ h' => h'.1) (fun _ _ h' => ?_)
  exact reads_ne_unwound (c := c.ticked .poll) o _ hh h'.2.1

/-- The end of a transaction on a connection, from the rpc on. -/
theorem endTx_served (kind : Rpc) (hkind : kind.endsTx = true) (a : Answer)
    (report : Reply → BrokerState → Report) (hr : ∀ r bs, (report r bs).isReturned = false)
    (hh : c.backend.holdoff = true) (h : Reading L p .flush c) :
    wp (rpc kind a >>= closeTx o report) (fun _ c' => Served L p (.rest, c')) (fun _ _ => False) c := by
  obtain ⟨k, hk⟩ := Option.isSome_iff_exists.mp h.2
  have hf : Served L p (.flush, c.asked kind a k) := h.1.tail (.finish k kind a hk hkind)
  unfold closeTx
  rw [wp_bind, wp_rpc hk, wp_ite]
  split
  · rw [wp_bind, wp_getBs, wp_bind, wp_elog_held (c := c.asked kind a k) o _ hh,
      wp_localAmqpDisconnectBs_some (k := k.answered kind a) rfl]
    exact (hf.tail (.warn _ (hr ..))).tail (.drop _ rfl)
  · rw [wp_bind, wp_getGucs, wp_localAmqpSetTimeout]
    exact hf.tail .restore

theorem amqpLocalFlush_served (hh : c.backend.holdoff = true) (hc : c.bs.conn.isSome = true) :
    wp (amqpLocalFlush o) (fun _ c' => Served L (.rest, c) (.rest, c')) (fun _ _ => False) c := by
  have htimed : Reading L (.rest, c) .flush (c.timed c.backend.gucs.commitTimeoutMs) := by
    refine ⟨.single .flush, ?_⟩
    simpa [Cell.timed] using hc
  unfold amqpLocalFlush amqpTxCommit
  rw [wp_bind, wp_getGucs, wp_bind, wp_localAmqpSetTimeout]
  refine wp_seq (localAmqpDrainReturns_held (p := (.rest, c)) (.inr rfl) hh htimed) fun _ c₁ h₁ => ?_
  rw [bind_assoc, wp_bind, wp_tick]
  have hh₁ : c₁.backend.holdoff = true := h₁.1.sameList.holdoff.trans hh
  exact endTx_served .txCommit rfl _ commitFailed (fun _ _ => rfl) hh₁
    ⟨h₁.1.tail (.tick .txCommit), h₁.2⟩

theorem amqpLocalRollback_served (hh : c.backend.holdoff = true) (hc : c.bs.conn.isSome = true) :
    wp (amqpLocalRollback o) (fun _ c' => Served L (.rest, c) (.rest, c')) (fun _ _ => False) c := by
  have htimed : Reading L (.rest, c) .flush
      ((c.timed c.backend.gucs.commitTimeoutMs).ticked .txRollback) := by
    refine ⟨(Relation.ReflTransGen.single .flush).tail (.tick .txRollback), ?_⟩
    simpa [Cell.timed] using hc
  unfold amqpLocalRollback amqpTxRollback
  rw [wp_bind, wp_getGucs, wp_bind, wp_localAmqpSetTimeout, bind_assoc, wp_bind, wp_tick]
  exact endTx_served .txRollback rfl _ rollbackFailed (fun _ _ => rfl) hh htimed

/-- What the two callbacks share. -/
theorem turn_served {act : M Unit} (hh : c.backend.holdoff = true)
    (hact : ∀ c', c'.backend.holdoff = true → c'.bs.conn.isSome = true →
      wp act (fun _ c'' => Served L (.rest, c') (.rest, c'')) (fun _ _ => False) c') :
    wp (do dropErrored; clearInerror; settleWith act) (fun _ c' => Served L (.rest, c) (.rest, c'))
      (fun _ _ => False) c := by
  -- behind the first two steps
  have settled : ∀ {c₁ : Cell}, Served L (.rest, c) (.rest, c₁) →
      wp (settleWith act) (fun _ c' => Served L (.rest, c) (.rest, c')) (fun _ _ => False) c₁ := by
    intro c₁ h₁
    unfold settleWith withConn
    rw [wp_bind, wp_getBs, wp_ite]
    split
    · rw [wp_bind, wp_bind, wp_getBs, wp_ite]
      split
      · rename_i hc
        refine wp_mono (hact c₁ (h₁.sameList.holdoff.trans hh) hc) (fun _ c₂ h₂ => ?_) (fun _ _ h => h)
        exact (h₁.trans h₂).tail .settle
      · exact h₁.tail .settle
    · exact h₁
  unfold dropErrored
  rw [wp_bind, wp_bind, wp_getBs, wp_ite]
  split
  · refine localAmqpDisconnectBs_served (L := L) fun c₁ h₁ _ => ?_
    rw [wp_bind, wp_clearInerror]
    exact settled (h₁.tail (.inerror false))
  · rw [wp_pure, wp_bind, wp_clearInerror]
    exact settled (.single (.inerror false))

theorem amqpLocalCommit_served (hh : c.backend.holdoff = true) :
    wp (amqpLocalCommit o) (fun _ c' => Served L (.rest, c) (.rest, c')) (fun _ _ => False) c := by
  unfold amqpLocalCommit
  rw [wp_bind, wp_getBs, wp_ite]
  split
  · have hw : Serve L (.rest, c) (.rest, c.warned (.discarding c.bs.uncommitted c.bs.brokerId)) :=
      .warn _ rfl
    rw [wp_bind, wp_elog_held o _ hh, wp_bind]
    refine localAmqpDisconnectBs_served (L := L) fun c₁ h₁ _ => ?_
    rw [wp_modifyBs]
    exact ((h₁.head hw).tail (.inerror false)).tail .settle
  · exact turn_served hh fun c' hh' hc' => amqpLocalFlush_served hh' hc'

theorem amqpLocalAbort_served (hh : c.backend.holdoff = true) :
    wp (amqpLocalAbort o) (fun _ c' => Served L (.rest, c) (.rest, c')) (fun _ _ => False) c :=
  turn_served hh fun _ hh' hc' => amqpLocalRollback_served hh' hc'

theorem amqpLocalSubxact_served (hh : c.backend.holdoff = true) :
    wp (amqpLocalSubxact o) (fun _ c' => Served L (.rest, c) (.rest, c')) (fun _ _ => False) c := by
  unfold amqpLocalSubxact
  rw [wp_bind, wp_getBs, wp_ite]
  split
  · rw [wp_bind, wp_elog_held o _ hh, wp_modifyBs]
    exact (Relation.ReflTransGen.single (.warn _ rfl)).tail (.inerror true)
  · exact .refl

end Callbacks

end PgAmqp
