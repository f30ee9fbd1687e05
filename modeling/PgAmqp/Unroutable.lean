import PgAmqp.Outputs
import PgAmqp.Delivery
import PgAmqp.Trails

/-!
# The returns of unroutable messages

A broker returns the unroutable messages of a transaction while it works on `tx.commit`, so
`basic.return` frames arrive before the answer and stay queued behind it. The commit
callback reads the queue before it sends `tx.commit`, and not again. So it reports none of
these returns; they wait for the next read of the connection, if there is one.

`own` tells the returns of such messages from those of autonomous messages, which may
arrive with any read.
-/
namespace PgAmqp

open ProgramLogic Transition

/-- The returned message that a frame brings. -/
def Frame.message : Frame → Option BasicReturn
  | .basicReturn r => some r
  | _ => none

/-- The returned message that an event reports. -/
def Event.returned : Event → Option BasicReturn
  | .warning (.returned _ r) => some r
  | _ => none

section Returns

variable (own : BasicReturn → Bool)

def returnsIn (fs : List Frame) : List BasicReturn := (fs.filterMap Frame.message).filter own

def reportsIn (evs : List Event) : List BasicReturn := (evs.filterMap Event.returned).filter own

/-- These returns come before the answer to a `tx.commit` that is answered normally, and
with nothing else. -/
structure Outcomes.ReturnsAtCommit (o : Outcomes) : Prop where
  poll : ∀ n, returnsIn own (o.poll n).arrivals = []
  login : ∀ n, returnsIn own (o.login n).arrivals = []
  channelOpen : ∀ n, returnsIn own (o.channelOpen n).arrivals = []
  txSelect : ∀ n, returnsIn own (o.txSelect n).arrivals = []
  exchangeDeclare : ∀ n, returnsIn own (o.exchangeDeclare n).arrivals = []
  txRollback : ∀ n, returnsIn own (o.txRollback n).arrivals = []
  refused : ∀ n, (o.txCommit n).reply ≠ .normal → returnsIn own (o.txCommit n).arrivals = []

/-- The commit callback sends `tx.commit` for the entry. -/
def BrokerState.flushes (bs : BrokerState) : Bool := bs.uncommitted ≠ 0 && bs.conn.isSome && !bs.inerror

/-- What a broker returns in a step. -/
def Session.returns (b : Int) (st : Step) (s : Session) : List BasicReturn :=
  if st.action = .commit ∧ (s.entry b).flushes then returnsIn own ((st.outcomes b).txCommit 0).arrivals else []

/-- The returns of a broker that a step reports. -/
def Session.reports (b : Int) (st : Step) (s : Session) : List BasicReturn :=
  reportsIn own (logOf b (trace st s).log)

/-- At the end of each commit of the run, and at the end of the run, every return has been
reported, and once. -/
def ReportsAtCommit (steps : List Step) (s : Session) : Prop :=
  Settles next (Session.returns own) (Session.reports own) (·.action = .commit) steps s

/-- No return waits on the connection, where `waits` says so, and none has been reported. -/
structure NoneReturned (waits : Prop) (c : Cell) : Prop where
  waiting : waits → returnsIn own c.bs.pending = []
  unreported : reportsIn own c.log = []

end Returns

section NoneReturned

variable {own : BasicReturn → Bool} {waits : Prop} {o : Outcomes} {c : Cell}

@[simp] theorem returnsIn_append (fs gs : List Frame) :
    returnsIn own (fs ++ gs) = returnsIn own fs ++ returnsIn own gs := by
  simp [returnsIn]

@[simp] theorem reportsIn_append (evs evs' : List Event) :
    reportsIn own (evs ++ evs') = reportsIn own evs ++ reportsIn own evs' := by
  simp [reportsIn]

theorem returnsIn_eq_nil {fs : List Frame} : returnsIn own fs = [] ↔ ∀ f ∈ fs, returnsIn own [f] = [] := by
  induction fs with
  | nil => simp [returnsIn]
  | cons f rest ih =>
    have hsplit : returnsIn own (f :: rest) = returnsIn own [f] ++ returnsIn own rest := returnsIn_append [f] rest
    rw [hsplit, List.append_eq_nil_iff, ih, List.forall_mem_cons]

theorem reportsIn_silent {e : Event} (h : e.returned = none) : reportsIn own [e] = [] := by
  simp [reportsIn, h]

theorem noneReturned_getBs : Preserves (NoneReturned own waits) getBs := fun _ h => h

theorem noneReturned_getGucs : Preserves (NoneReturned own waits) getGucs := fun _ h => h

theorem noneReturned_tick (k : Call) : Preserves (NoneReturned own waits) (tick k) :=
  fun _ h => ⟨h.waiting, h.unreported⟩

theorem NoneReturned.recorded (h : NoneReturned own waits c) {e : Event} (he : e.returned = none) :
    NoneReturned own waits (c.recorded e) := by
  refine ⟨h.waiting, ?_⟩
  rw [Cell.recorded_log, reportsIn_append, h.unreported, reportsIn_silent he]
  rfl

theorem noneReturned_record {e : Event} (he : e.returned = none) : Preserves (NoneReturned own waits) (record e) :=
  fun _ h => h.recorded he

theorem noneReturned_elog (r : Report) (hr : (Event.warning r).returned = none) :
    Preserves (NoneReturned own waits) (elog o r) := by
  intro c h
  have hw : NoneReturned own waits (c.warned r) :=
    NoneReturned.recorded (c := c.ticked .elog) ⟨h.waiting, h.unreported⟩ hr
  rw [wp_elog]
  split <;> exact hw

/-- A change of the entry that leaves the queue, or nothing of it. -/
theorem noneReturned_modifyBs (f : BrokerState → BrokerState)
    (hf : ∀ bs, (f bs).pending = bs.pending ∨ (f bs).pending = []) :
    Preserves (NoneReturned own waits) (modifyBs f) := by
  intro c h
  refine ⟨fun hw => ?_, h.unreported⟩
  show returnsIn own (f c.bs).pending = []
  rcases hf c.bs with hp | hp
  · rw [hp]
    exact h.waiting hw
  · rw [hp]
    rfl

theorem noneReturned_keep {f : BrokerState → BrokerState} (hf : ∀ bs, (f bs).pending = bs.pending) :
    Preserves (NoneReturned own waits) (modifyBs f) := noneReturned_modifyBs f fun bs => .inl (hf bs)

theorem noneReturned_setTimeout (ms : Nat) : Preserves (NoneReturned own waits) (localAmqpSetTimeout ms) := by
  refine noneReturned_modifyBs _ fun bs => .inl ?_
  cases hk : bs.conn <;> simp [BrokerState.pending, hk, Connection.setTimeout]

theorem noneReturned_disconnectBs (graceful : Bool) :
    Preserves (NoneReturned own waits) (localAmqpDisconnectBs graceful) := by
  intro c h
  have dropped : ∀ {c' : Cell} (k : Connection), NoneReturned own waits c' → NoneReturned own waits (c'.dropped k) :=
    fun _ h' => ⟨fun _ => rfl, (h'.recorded rfl).unreported⟩
  cases hk : c.bs.conn with
  | none =>
    rw [wp_localAmqpDisconnectBs_none graceful hk]
    exact h
  | some k =>
    cases graceful with
    | false =>
      rw [wp_localAmqpDisconnectBs_some hk]
      exact dropped k h
    | true =>
      rw [wp_localAmqpDisconnectBs_closed hk]
      exact dropped k.closing (h.recorded rfl)

/-- An rpc queues what arrives before its answer. -/
theorem noneReturned_rpc (kind : Rpc) (a : Answer) (h : NoneReturned own waits c)
    (ha : waits → returnsIn own a.arrivals = []) :
    wp (rpc kind a) (fun _ => NoneReturned own waits) (fun _ => NoneReturned own waits) c := by
  cases hk : c.bs.conn with
  | none =>
    unfold rpc
    rw [wp_bind, wp_getBs, hk]
    exact h
  | some k =>
    rw [wp_rpc hk]
    refine ⟨fun hw => ?_, (h.recorded (e := .rpc kind k (kind.answer k a.reply)) rfl).unreported⟩
    have hp : (c.asked kind a k).bs.pending = c.bs.pending ++ a.arrivals := by
      show (k.answered kind a).queue = _
      have hq : c.bs.pending = k.queue := by simp [BrokerState.pending, hk]
      rw [hq]
      unfold Connection.answered
      split
      · unfold Rpc.effect
        split <;> rfl
      · rfl
    rw [hp, returnsIn_append, h.waiting hw, ha hw]
    rfl

theorem noneReturned_drain (ho : o.ReturnsAtCommit own) :
    Preserves (NoneReturned own True) (localAmqpDrainReturns o) := by
  refine KeptByDrain.preserves (G := fun f => returnsIn own [f] = []) {
    arrived := fun c h f hf => ?_
    polled := fun _ h => ⟨h.waiting, h.unreported⟩
    taken := fun c f rest hrest h => ⟨fun _ => ?_, h.unreported⟩
    returned := fun c r hr h => ⟨h.waiting, ?_⟩
    noted := fun c h => NoneReturned.recorded (c := c.ticked .elog) ⟨h.waiting, h.unreported⟩ rfl
    blocked := fun _ _ h => ⟨h.waiting, h.unreported⟩ }
  · refine returnsIn_eq_nil.mp ?_ f hf
    rw [Cell.arrived, returnsIn_append, h.waiting trivial, ho.poll]
    rfl
  · have hnone : returnsIn own rest = [] := returnsIn_eq_nil.mpr hrest
    cases hk : c.bs.conn with
    | none => simp [Cell.taken, BrokerState.pending, hk, returnsIn]
    | some k => rw [c.taken_pending f rest hk, hnone]
  · show reportsIn own (c.log ++ [_]) = []
    rw [reportsIn_append, h.unreported]
    exact hr

variable {brokerId : Int} {m : Msg} {badMode : Option Int} {channel : Nat} {onceMore : Bool} {redo : M Bool}

theorem noneReturned_fillHosts (i : Nat) (rows : List BrokerRow) :
    Preserves (NoneReturned own waits) (localAmqpFillHosts o brokerId i rows) := by
  induction rows generalizing i with
  | nil => exact .pure _ _
  | cons row rows ih =>
    have host : ∀ i f, Preserves (NoneReturned own waits) (modifyHost i f) := fun _ _ => noneReturned_keep fun _ => rfl
    have rest : ∀ {port : BrokerHost → BrokerHost}, Preserves (NoneReturned own waits) (do
        modifyHost i port
        if row.ssl.getD false && !row.sslVerify.getD true then
          elog o (.insecureTls brokerId (some (row.host.getD "localhost")))) :=
      .bind (host _ _) fun _ => .ite (fun _ => noneReturned_elog _ rfl) fun _ => .pure _ _
    refine .bind (.bind (host _ _) fun _ => .ite (fun _ => ?_) fun _ => rest) fun _ => ih (i + 1)
    exact .bind (noneReturned_elog _ rfl) fun _ => .bind (host _ _) fun _ => rest

theorem noneReturned_loadHosts : Preserves (NoneReturned own waits) (localAmqpLoadHosts o) := by
  unfold localAmqpLoadHosts
  have count : Preserves (NoneReturned own waits) (do return ((← getBs).nhosts : Int)) :=
    .bind noneReturned_getBs fun _ => .pure _ _
  refine .bind noneReturned_getBs fun bs => .ite (fun _ => .pure _ _) fun _ => .bind (noneReturned_tick _) fun n => ?_
  cases o.spi n with
  | connectError => exact .pure _ _
  | raised => exact .throw _ _
  | executeError => exact .bind (noneReturned_elog _ rfl) fun _ => count
  | rows rows =>
    cases rows with
    | nil => exact .bind (noneReturned_elog _ rfl) fun _ => count
    | cons row rows =>
      refine .bind (noneReturned_keep fun _ => rfl) fun _ => .bind (noneReturned_fillHosts _ _) fun _ =>
        .bind ?_ fun _ => count
      exact fun c h => ⟨h.waiting, h.unreported⟩

theorem noneReturned_openSocket (h : BrokerHost) (hostCopy : String) :
    Preserves (NoneReturned own waits) (localAmqpOpenSocket o h hostCopy) := by
  unfold localAmqpOpenSocket
  refine .bind noneReturned_getBs fun _ => .bind (noneReturned_tick _) fun _ => .ite (fun _ => ?_) fun _ => ?_
  · exact .bind (noneReturned_elog _ (by split <;> rfl)) fun _ => .pure _ _
  · refine .bind (noneReturned_tick _) fun _ => .bind noneReturned_getGucs fun _ =>
      .bind (noneReturned_record rfl) fun _ => .ite (fun _ => ?_) fun _ => .pure _ _
    exact .bind (noneReturned_elog _ rfl) fun _ => .pure _ _

/-- An rpc before which nothing is returned. -/
theorem noneReturned_ask (kind : Rpc) {k : Call} {a : Nat → Answer} (ha : ∀ n, returnsIn own (a n).arrivals = []) :
    Preserves (NoneReturned own waits) (do rpc kind (a (← tick k))) :=
  .bind (noneReturned_tick k) fun n _ h => noneReturned_rpc kind (a n) h fun _ => ha n

theorem noneReturned_handshake (ho : o.ReturnsAtCommit own) (hostCopy : String) :
    Preserves (NoneReturned own waits) (localAmqpHandshake o h hostCopy brokerId) := by
  unfold localAmqpHandshake
  have failed : ∀ r : Report, (Event.warning r).returned = none →
      Preserves (NoneReturned own waits) (do elog o r; return false) :=
    fun r hr => .bind (noneReturned_elog r hr) fun _ => .pure _ _
  refine .bind (noneReturned_ask (.login _) ho.login) fun _ => .ite (fun _ => failed _ rfl) fun _ => ?_
  refine .bind (noneReturned_ask (.channelOpen 1) ho.channelOpen) fun _ => .ite (fun _ => failed _ rfl) fun _ => ?_
  refine .bind (noneReturned_ask (.channelOpen 2) ho.channelOpen) fun _ => .ite (fun _ => failed _ rfl) fun _ => ?_
  exact .bind (noneReturned_ask .txSelect ho.txSelect) fun _ => .ite (fun _ => failed _ rfl) fun _ => .pure _ _

theorem noneReturned_tryHost (ho : o.ReturnsAtCommit own) (h : BrokerHost) (hostCopy : String) :
    Preserves (NoneReturned own waits) (localAmqpTryHost o h hostCopy brokerId) := by
  unfold localAmqpTryHost
  refine .bind (noneReturned_openSocket h hostCopy) fun _ => .ite (fun _ => .pure _ _) fun _ => ?_
  refine .bind (noneReturned_tick _) fun _ => .bind (noneReturned_keep fun _ => rfl) fun _ =>
    .bind noneReturned_getGucs fun _ => .bind (noneReturned_setTimeout _) fun _ =>
    .bind (noneReturned_handshake ho hostCopy) fun _ => .ite (fun _ => .pure _ _) fun _ => ?_
  exact .bind noneReturned_getGucs fun _ => .bind (noneReturned_setTimeout _) fun _ =>
    .bind (noneReturned_keep fun _ => rfl) fun _ => .pure _ _

/-- A new connection has an empty queue. -/
theorem noneReturned_connect {α : Type} {f : Option Connection → M α}
    (hf : ∀ conn, Preserves (NoneReturned own waits) (f conn)) :
    Preserves (NoneReturned own waits) (do
      let conn ← amqpNewConnection o
      setConn conn
      f conn) := by
  intro c h
  unfold amqpNewConnection
  rw [wp_bind, wp_bind, wp_tick, wp_ite]
  split
  · exact hf _ _ ⟨fun _ => rfl, h.unreported⟩
  · exact hf _ _ ⟨fun _ => rfl, h.unreported⟩

theorem noneReturned_failover (ho : o.ReturnsAtCommit own) (deadline : Int) (tries : Nat) :
    Preserves (NoneReturned own waits) (localAmqpFailover o brokerId deadline tries) := by
  induction tries with
  | zero => exact .pure _ _
  | succ tries ih =>
    unfold localAmqpFailover
    refine .bind (noneReturned_keep fun _ => rfl) fun _ => .bind noneReturned_getBs fun bs =>
      noneReturned_connect fun conn => ?_
    refine .ite (fun _ => .pure _ _) fun _ => .bind (noneReturned_tryHost ho _ _) fun _ =>
      .ite (fun _ => .pure _ _) fun _ => .bind (noneReturned_disconnectBs false) fun _ => ?_
    have onward : Preserves (NoneReturned own waits) (do
        if 0 < tries then
          elog o (.tryingNextHost bs.currentHost.hostCopy)
        localAmqpFailover o brokerId deadline tries) :=
      .ite (fun _ => .bind (noneReturned_elog _ rfl) fun _ => ih) fun _ => ih
    refine .ite (fun _ => .bind (noneReturned_tick _) fun _ => .ite (fun _ => ?_) fun _ => onward) fun _ => onward
    exact .bind noneReturned_getGucs fun _ => .bind (noneReturned_elog _ rfl) fun _ => .pure _ _

theorem noneReturned_getConnected (ho : o.ReturnsAtCommit own) :
    Preserves (NoneReturned own waits) (localAmqpGetBs o brokerId) := by
  unfold localAmqpGetBs localAmqpSuppressed
  have failed : Preserves (NoneReturned own waits) (localAmqpConnectFailed o) :=
    .bind (noneReturned_tick _) fun _ => noneReturned_keep fun _ => rfl
  refine .bind (x := localAmqpGetABs) (fun _ h => ⟨h.waiting, h.unreported⟩) fun _ => .bind noneReturned_getBs fun _ =>
    .ite (fun _ => .pure _ _) fun _ => .bind ?_ fun _ => .ite (fun _ => .pure _ _) fun _ => ?_
  · refine .bind noneReturned_getBs fun _ => .ite (fun _ => .pure _ _) fun _ => .bind (noneReturned_tick _) fun _ => ?_
    exact fun _ h => h
  have loop : ∀ deadline : Int, Preserves (NoneReturned own waits) (do
      if !(← localAmqpFailover o brokerId deadline (← getBs).nhosts) then localAmqpConnectFailed o) := fun _ =>
    .bind noneReturned_getBs fun _ => .bind (noneReturned_failover ho _ _) fun _ =>
      .ite (fun _ => failed) fun _ => .pure _ _
  refine .bind noneReturned_loadHosts fun _ => .ite (fun _ => .bind failed fun _ => .pure _ _) fun _ =>
    .bind noneReturned_getGucs fun _ => .ite (fun _ => ?_) fun _ => .bind (.pure _ _) loop
  exact .bind (noneReturned_tick _) fun _ => .bind (.pure _ _) loop

theorem noneReturned_publishConnected (ho : o.ReturnsAtCommit own) (hredo : Preserves (NoneReturned own True) redo) :
    Preserves (NoneReturned own True) (publishConnected o brokerId m badMode channel onceMore redo) := by
  have again : ∀ {giveUp : M Bool}, Preserves (NoneReturned own True) giveUp →
      Preserves (NoneReturned own True) (orRedo channel onceMore redo giveUp) := fun hg =>
    .bind noneReturned_getBs fun _ => .ite (fun _ => .bind (noneReturned_disconnectBs false) fun _ => hredo) fun _ => hg
  have mode : Preserves (NoneReturned own True) (publishMode o badMode) := by
    cases badMode with
    | none => exact .pure _ _
    | some mode => exact noneReturned_elog _ rfl
  have poll : Preserves (NoneReturned own True) (publishPoll o m channel) :=
    .ite (fun _ => .bind (noneReturned_drain ho) fun _ => .pure _ _) fun _ => .pure _ _
  have written : ∀ k rv, Preserves (NoneReturned own True) (publishWritten m channel onceMore redo k rv) := by
    intro k rv
    refine .ite (fun _ => again (.bind (noneReturned_keep fun _ => rfl) fun _ => .pure _ _)) fun _ => ?_
    exact .bind (noneReturned_record rfl) fun _ => .bind (noneReturned_keep fun _ => rfl) fun _ => .pure _ _
  have write : Preserves (NoneReturned own True) (publishWrite o m channel onceMore redo) := by
    intro c h
    unfold publishWrite
    rw [wp_bind, wp_getBs]
    cases hk : c.bs.conn with
    | none => exact h
    | some k =>
      dsimp only
      rw [wp_bind, wp_amqpBasicPublish]
      refine Preserves.bind poll (fun _ => written k _) _ ⟨fun hw => ?_, ?_⟩
      · have hq : (c.buffered o k channel m).bs.pending = c.bs.pending := by
          show (k.written channel m (c.written o)).queue = _
          have hp : c.bs.pending = k.queue := by simp [BrokerState.pending, hk]
          rw [hp]
          unfold Connection.written
          split <;> rfl
        rw [hq]
        exact h.waiting hw
      · exact (h.recorded (e := .basicPublish k channel m (c.written o)) rfl).unreported
  refine .bind noneReturned_getBs fun bs => .ite (fun _ => ?_) fun _ => .pure _ _
  refine .bind (noneReturned_drain ho) fun r => .ite (fun _ => again ?_) fun _ => ?_
  · exact .ite (fun _ => .bind (noneReturned_keep fun _ => rfl) fun _ => .pure _ _) fun _ => .pure _ _
  · refine .bind noneReturned_getBs fun _ => .ite (fun _ => ?_) fun _ => .bind mode fun _ => write
    exact .bind (noneReturned_record rfl) fun _ => .bind (noneReturned_elog _ rfl) fun _ => .pure _ _

theorem noneReturned_publish (ho : o.ReturnsAtCommit own) (a : PublishArgs) :
    Preserves (NoneReturned own True) (pgAmqpPublishOpt o brokerId a channel) := by
  have pass : ∀ {m onceMore redo}, Preserves (NoneReturned own True) redo →
      Preserves (NoneReturned own True) (publishPass o brokerId m a.badDeliveryMode channel onceMore redo) :=
    fun hredo => .bind (noneReturned_getConnected ho) fun _ => noneReturned_publishConnected ho hredo
  refine .bind noneReturned_getGucs fun _ => .ite (fun _ => ?_) fun _ => ?_
  · exact .bind (noneReturned_elog _ rfl) fun _ => .pure _ _
  · exact .bind (x := newMsg a.content) (fun _ h => ⟨h.waiting, h.unreported⟩) fun _ => pass (pass (.pure _ _))

theorem noneReturned_declare (ho : o.ReturnsAtCommit own) (a : DeclareArgs) :
    Preserves (NoneReturned own True) (pgAmqpExchangeDeclare o brokerId a) := by
  refine .bind (noneReturned_getConnected ho) fun _ => .bind noneReturned_getBs fun _ =>
    .ite (fun _ => ?_) fun _ => .pure _ _
  refine .bind (noneReturned_ask (.exchangeDeclare a.declaration) ho.exchangeDeclare) fun _ =>
    .ite (fun _ => .pure _ _) fun _ => ?_
  exact .bind (noneReturned_disconnectBs false) fun _ => .pure _ _

theorem noneReturned_disconnect : Preserves (NoneReturned own waits) localAmqpDisconnect := by
  refine .bind (x := localAmqpGetABs) (fun _ h => ⟨h.waiting, h.unreported⟩) fun _ =>
    .bind (noneReturned_disconnectBs true) fun _ => .bind (noneReturned_keep fun _ => rfl) fun _ =>
    noneReturned_keep fun bs => ?_
  split <;> rfl

theorem noneReturned_closeTx (report : Reply → BrokerState → Report)
    (hreport : ∀ r bs, (Event.warning (report r bs)).returned = none) (reply : Reply) :
    Preserves (NoneReturned own waits) (closeTx o report reply) := by
  refine .ite (fun _ => ?_) fun _ => .bind noneReturned_getGucs fun _ => noneReturned_setTimeout _
  exact .bind noneReturned_getBs fun bs => .bind (noneReturned_elog _ (hreport _ _)) fun _ =>
    noneReturned_disconnectBs false

theorem noneReturned_dropErrored : Preserves (NoneReturned own waits) dropErrored :=
  .bind noneReturned_getBs fun _ => .ite (fun _ => noneReturned_disconnectBs false) fun _ => .pure _ _

theorem noneReturned_abort (ho : o.ReturnsAtCommit own) : Preserves (NoneReturned own waits) (amqpLocalAbort o) := by
  have rollback : Preserves (NoneReturned own waits) (amqpLocalRollback o) :=
    .bind noneReturned_getGucs fun _ => .bind (noneReturned_setTimeout _) fun _ =>
      .bind (noneReturned_ask .txRollback ho.txRollback) fun _ => noneReturned_closeTx _ (fun _ _ => rfl) _
  have held : Preserves (NoneReturned own waits) (withConn (amqpLocalRollback o)) :=
    .bind noneReturned_getBs fun _ => .ite (fun _ => rollback) fun _ => .pure _ _
  refine .bind noneReturned_dropErrored fun _ => .bind (noneReturned_keep fun _ => rfl) fun _ =>
    .bind noneReturned_getBs fun _ => ?_
  exact .ite (fun _ => .bind held fun _ => noneReturned_keep fun _ => rfl) fun _ => .pure _ _

theorem noneReturned_subxact : Preserves (NoneReturned own waits) (amqpLocalSubxact o) :=
  .bind noneReturned_getBs fun _ =>
    .ite (fun _ => .bind (noneReturned_elog _ rfl) fun _ => noneReturned_keep fun _ => rfl) fun _ => .pure _ _

theorem NoneReturned.mono {q : Prop} (h : NoneReturned own waits c) (hq : q → waits) : NoneReturned own q c :=
  ⟨fun hw => h.waiting (hq hw), h.unreported⟩

/-- What comes before the answer to `tx.commit` is not read any more. -/
theorem noneReturned_flush (ho : o.ReturnsAtCommit own) (h : NoneReturned own True c)
    (hc : c.bs.conn.isSome = true) :
    wp (amqpLocalFlush o) (fun _ => NoneReturned own (returnsIn own (o.txCommit (c.counts .txCommit)).arrivals = []))
      (fun _ => NoneReturned own (returnsIn own (o.txCommit (c.counts .txCommit)).arrivals = [])) c := by
  have htimed := noneReturned_setTimeout c.backend.gucs.commitTimeoutMs c h
  rw [wp_localAmqpSetTimeout] at htimed
  have hsome : (c.timed c.backend.gucs.commitTimeoutMs).bs.conn.isSome = true := by simpa [Cell.timed] using hc
  unfold amqpLocalFlush
  rw [wp_bind, wp_getGucs, wp_bind, wp_localAmqpSetTimeout]
  have hdrain := wp_and (localAmqpDrainReturns_reads o hsome) (noneReturned_drain ho _ htimed)
  refine wp_seq (wp_mono hdrain (fun _ _ h => h) fun _ _ h => h.2.mono fun _ => trivial) fun _ c₁ h₁ => ?_
  obtain ⟨hread, h₁⟩ := h₁
  obtain ⟨_, hs, -⟩ := hread.scanned
  have hcount : c₁.counts .txCommit = c.counts .txCommit :=
    (hs.counts .txCommit (by decide)).trans (Cell.ticked_other _ (by decide))
  unfold amqpTxCommit
  rw [bind_assoc, wp_bind, wp_tick, hcount]
  have hticked : NoneReturned own (returnsIn own (o.txCommit (c.counts .txCommit)).arrivals = [])
      (c₁.ticked .txCommit) := ⟨fun _ => h₁.waiting trivial, h₁.unreported⟩
  refine wp_seq (noneReturned_rpc .txCommit _ hticked id) fun reply c₂ h₂ => ?_
  exact noneReturned_closeTx commitFailed (fun _ _ => rfl) reply c₂ h₂

/-- An entry without a connection has nothing to flush. -/
theorem noneReturned_settle_gone (act : M Unit) (hc : c.bs.conn = none) (h : NoneReturned own waits c) :
    wp (settleWith act) (fun _ => NoneReturned own waits) (fun _ => NoneReturned own waits) c := by
  unfold settleWith withConn
  rw [wp_bind, wp_getBs, wp_ite]
  split
  · rw [wp_bind, wp_bind, wp_getBs, wp_ite, if_neg (by simp [hc])]
    exact noneReturned_modifyBs (fun bs => { bs with uncommitted := 0 }) (fun _ => .inl rfl) c h
  · exact h

/-- An entry in error has no connection left when it comes to the flush. -/
theorem noneReturned_dropErrored_gone (he : c.bs.inerror = true) (h : NoneReturned own waits c) :
    wp dropErrored (fun _ c' => c'.bs.conn = none ∧ NoneReturned own waits c')
      (fun _ => NoneReturned own waits) c := by
  unfold dropErrored
  rw [wp_bind, wp_getBs, wp_ite, if_pos he]
  have hdrop := noneReturned_disconnectBs false c h
  cases hk : c.bs.conn with
  | none =>
    rw [wp_localAmqpDisconnectBs_none false hk]
    exact ⟨hk, h⟩
  | some k =>
    rw [wp_localAmqpDisconnectBs_some hk] at hdrop ⊢
    exact ⟨rfl, hdrop⟩

theorem noneReturned_commit (ho : o.ReturnsAtCommit own) (h : NoneReturned own True c) :
    wp (amqpLocalCommit o)
      (fun _ => NoneReturned own
        (c.bs.flushes = true → returnsIn own (o.txCommit (c.counts .txCommit)).arrivals = []))
      (fun _ => NoneReturned own
        (c.bs.flushes = true → returnsIn own (o.txCommit (c.counts .txCommit)).arrivals = [])) c := by
  generalize hq : (c.bs.flushes = true → returnsIn own (o.txCommit (c.counts .txCommit)).arrivals = []) = q
  have hmono : NoneReturned own q c := h.mono fun _ => trivial
  unfold amqpLocalCommit
  rw [wp_bind, wp_getBs, wp_ite]
  split
  · have discarded : Preserves (NoneReturned own q) (do
        elog o (.discarding c.bs.uncommitted c.bs.brokerId)
        localAmqpDisconnectBs false
        modifyBs fun bs => { bs with inerror := false, uncommitted := 0 }) :=
      .bind (noneReturned_elog _ rfl) fun _ => .bind (noneReturned_disconnectBs false) fun _ =>
        noneReturned_keep fun _ => rfl
    exact discarded c hmono
  cases he : c.bs.inerror with
  | true =>
    refine wp_seq (noneReturned_dropErrored_gone he hmono) fun _ c₁ h₁ => ?_
    rw [wp_bind, wp_clearInerror]
    exact noneReturned_settle_gone _ h₁.1 ⟨h₁.2.waiting, h₁.2.unreported⟩
  | false =>
    unfold dropErrored
    rw [wp_bind, wp_bind, wp_getBs, wp_ite, if_neg (by simp [he]), wp_pure, wp_bind, wp_clearInerror]
    cases hc : c.bs.conn with
    | none => exact noneReturned_settle_gone _ hc ⟨hmono.waiting, hmono.unreported⟩
    | some k =>
      unfold settleWith withConn
      rw [wp_bind, wp_getBs, wp_ite]
      split
      · rename_i hu
        have hflush : c.bs.flushes = true := by
          have hu : c.bs.uncommitted ≠ 0 := hu
          simp [BrokerState.flushes, hu, hc, he]
        rw [wp_bind, wp_bind, wp_getBs, wp_ite, if_pos (by simp [hc])]
        have hf := noneReturned_flush (c := c.modified fun bs => { bs with inerror := false }) ho
          ⟨h.waiting, h.unreported⟩ (by simp [hc])
        refine wp_mono hf (fun _ c' h' => ?_) fun _ c' h' => ?_
        · rw [wp_modifyBs]
          exact ⟨fun hw => h'.waiting ((hq ▸ hw) hflush), h'.unreported⟩
        · exact h'.mono fun hw => (hq ▸ hw) hflush
      · exact ⟨hmono.waiting, hmono.unreported⟩

end NoneReturned

section Steps

variable {own : BasicReturn → Bool} {s : Session} {st : Step}

/-- A commit reports nothing where nothing waited, and what it leaves behind are its own returns. -/
theorem commit_reports (hs : s.Shaped) (hact : st.action = .commit)
    (ho : ∀ b, (st.outcomes b).ReturnsAtCommit own) {b : Int} (hw : returnsIn own (s.entry b).pending = []) :
    s.reports own b st = [] ∧
      (s.returns own b st = [] → returnsIn own ((next st s).entry b).pending = []) := by
  let R : BrokerState → BrokerState → List Event → Prop := fun e e' evs =>
    returnsIn own e.pending = [] → reportsIn own evs = [] ∧
      ((e.flushes = true → returnsIn own ((st.outcomes e.brokerId).txCommit 0).arrivals = []) →
        returnsIn own e'.pending = [])
  have hsweep : Session.SweptSession R s (s.sweep (amqpLocalPhase2 .commit) st.outcomes).1
      (s.sweep (amqpLocalPhase2 .commit) st.outcomes).2 := by
    refine Session.sweep_swept hs (fun e k hk => ?_) fun b _ => ⟨rfl, fun _ => rfl⟩
    have hspec := amqpLocalCommit_spec (o := st.outcomes e.brokerId) (c := Session.start e true k) hk
    by_cases he : returnsIn own e.pending = []
    · refine wp_mono (wp_and hspec (noneReturned_commit (ho e.brokerId) ⟨fun _ => he, rfl⟩)) (fun _ c h => ?_)
        fun _ _ h => h.1
      exact ⟨h.1.frame, fun _ => ⟨h.2.unreported, h.2.waiting⟩⟩
    · exact wp_mono hspec (fun _ c h => ⟨h.frame, fun h' => absurd h' he⟩) fun _ _ h => h
  obtain ⟨hreports, hleft⟩ := hsweep.entry b hw
  have hnext : (next st s).entry b = (s.sweep (amqpLocalPhase2 .commit) st.outcomes).1.entry b := by
    unfold next exec
    rw [hact]
    rfl
  have htrace : (trace st s).log = (s.sweep (amqpLocalPhase2 .commit) st.outcomes).2.log := by
    unfold trace exec
    rw [hact]
    rfl
  refine ⟨?_, fun hnone => ?_⟩
  · unfold Session.reports
    rw [htrace]
    exact hreports
  · rw [hnext]
    refine hleft fun hflush => ?_
    rw [s.entry_brokerId]
    rwa [Session.returns, if_pos ⟨hact, hflush⟩] at hnone

theorem Trail.unreported {k k' : Backend} {bs bs' : BrokerState} {evs : List Event}
    (h : Trail (fun c c' => NoneReturned own True c → NoneReturned own True c') k bs evs k' bs')
    (hw : returnsIn own bs.pending = []) : returnsIn own bs'.pending = [] ∧ reportsIn own evs = [] := by
  induction h with
  | still => exact ⟨hw, rfl⟩
  | work h =>
    have h' := h ⟨fun _ => hw, rfl⟩
    exact ⟨h'.waiting trivial, h'.unreported⟩
  | trans _ _ ih ih' =>
    obtain ⟨hw₁, hr₁⟩ := ih hw
    obtain ⟨hw₂, hr₂⟩ := ih' hw₁
    exact ⟨hw₂, by rw [reportsIn_append, hr₁, hr₂]; rfl⟩

/-- A step that is no commit neither reports a return nor leaves one. -/
theorem step_reports (hs : Runs (fun _ _ => True) s) (hact : st.action ≠ .commit)
    (ho : ∀ b, (st.outcomes b).ReturnsAtCommit own) {b : Int} (hw : returnsIn own (s.entry b).pending = []) :
    s.reports own b st = [] ∧ returnsIn own ((next st s).entry b).pending = [] := by
  by_cases hset : ∃ g, st.action = .set g
  · obtain ⟨g, hg⟩ := hset
    unfold Session.reports next trace exec
    rw [hg]
    exact ⟨rfl, hw⟩
  have serves : ∀ {f : Outcomes → M Unit},
      (∀ o c, c.backend.holdoff = true → wp (f o) (fun _ => Between c) (fun _ _ => False) c) →
      (∀ b, Preserves (NoneReturned own True) (f (st.outcomes b))) →
      Serves st.outcomes f fun _ c c' => NoneReturned own True c → NoneReturned own True c' := by
    intro f hf hkeep b c hc
    by_cases h : NoneReturned own True c
    · exact wp_mono (wp_and (hf _ c hc) (hkeep b c h)) (fun _ c' h' => ⟨h'.1.sameList, fun _ => h'.2⟩)
        fun _ _ h' => h'.1
    · exact wp_mono (hf _ c hc) (fun _ c' h' => ⟨h'.sameList, fun h'' => absurd h'' h⟩) fun _ _ h' => h'
  have htrail := exec_parts (R := fun _ c c' => NoneReturned own True c → NoneReturned own True c') (Runs.shaped hs)
    (fun g hg => hset ⟨g, hg⟩) (fun h => absurd h hact)
    (serves (f := amqpLocalPhase2 .abort) (fun _ _ => amqpLocalAbort_served) fun b => noneReturned_abort (ho b))
    (serves (f := amqpLocalPhase2 .prepare) (fun _ _ _ => .refl) fun _ => .pure _ _)
    (serves (fun _ _ => amqpLocalSubxact_served) fun _ => noneReturned_subxact) fun b x hx => ?_
  · obtain ⟨hleft, hnone⟩ := (htrail b).unreported hw
    exact ⟨hnone, hleft⟩
  · have hkeep : Preserves (NoneReturned own True) x := by
      cases hx with
      | publish => exact noneReturned_publish (ho b) _
      | autonomousPublish => exact noneReturned_publish (ho b) _
      | exchangeDeclare => exact noneReturned_declare (ho b) _
      | disconnect => exact .bind noneReturned_disconnect fun _ => .pure _ _
    have hcalled := calls_called (Runs.anchored hs) hx
    by_cases h : NoneReturned own True (s.cell b)
    · exact wp_mono (wp_and hcalled (hkeep _ h)) (fun _ _ h' => h'.1.landed fun _ => h'.2) fun _ _ h' =>
        h'.1.landed fun _ => h'.2
    · exact wp_mono hcalled (fun _ _ h' => h'.landed fun h'' => absurd h'' h) fun _ _ h' =>
        h'.landed fun h'' => absurd h'' h

end Steps

/-- The returns of a run's transactions are reported by the end of their commits, each once,
just when there are none. -/
theorem returns_reported_iff {own : BasicReturn → Bool} {s : Session} (hs : s.Initial) {steps : List Step}
    (ho : ∀ st ∈ steps, ∀ b, (st.outcomes b).ReturnsAtCommit own) :
    ReportsAtCommit own steps s ↔ ∀ b, gathered next (Session.returns own b) steps s = [] := by
  let I : Session → Prop := fun s =>
    Runs (fun _ _ => True) s ∧ ∀ b, returnsIn own (s.entry b).pending = []
  have hI : I s := ⟨.init hs, fun b => by rw [entry_initial hs]; rfl⟩
  have hreported : ∀ s st, (∀ b, (st.outcomes b).ReturnsAtCommit own) → I s → ∀ b, s.reports own b st = [] := by
    intro s st ho ⟨hs, hw⟩ b
    by_cases hact : st.action = .commit
    · exact (commit_reports (Runs.shaped hs) hact ho (hw b)).1
    · exact (step_reports hs hact ho (hw b)).1
  have hkeep : ∀ s st, (∀ b, (st.outcomes b).ReturnsAtCommit own) → I s → (∀ b, s.returns own b st = []) →
      I (next st s) := by
    intro s st ho ⟨hs, hw⟩ hnone
    refine ⟨.step st hs trivial, fun b => ?_⟩
    by_cases hact : st.action = .commit
    · exact (commit_reports (Runs.shaped hs) hact ho (hw b)).2 (hnone b)
    · exact (step_reports hs hact ho (hw b)).2
  have hreturned : ∀ s st b, Session.returns own b st s ≠ [] → st.action = .commit := by
    intro s st b hne
    by_contra hact
    exact hne (if_neg fun h => hact h.1)
  exact settles_iff hreported hkeep hreturned ho hI

/-- The return of a message for which there is no queue. -/
def BasicReturn.noRoute : BasicReturn := ⟨312, "NO_ROUTE", "orders", "new"⟩

/-- The broker returns a message, with its header and body, before it answers `tx.commit`. -/
def Outcomes.returning : Outcomes :=
  { Outcomes.good with txCommit := fun _ => ⟨.normal, [.basicReturn .noRoute, .other, .other]⟩ }

/-- A mandatory message is published, and returned at the commit. -/
def returnedLate : List Step :=
  [.good (.publish { PublishArgs.to1 "a" with mandatory := some true }), ⟨.commit, fun _ => .returning⟩]

theorem returnedLate_orderly : ∀ st ∈ returnedLate, ∀ b, (st.outcomes b).ReturnsAtCommit fun _ => true := by
  intro st hst b
  simp only [returnedLate, List.mem_cons, List.not_mem_nil, or_false] at hst
  rcases hst with rfl | rfl
  · exact ⟨fun _ => rfl, fun _ => rfl, fun _ => rfl, fun _ => rfl, fun _ => rfl, fun _ => rfl, fun _ _ => rfl⟩
  · exact ⟨fun _ => rfl, fun _ => rfl, fun _ => rfl, fun _ => rfl, fun _ => rfl, fun _ => rfl, fun _ h => absurd rfl h⟩

theorem returnedLate_iff :
    gathered next (Session.returns (fun _ => true) 1) returnedLate (.loaded {} 0) = [.noRoute] ∧
    (ReportsAtCommit (fun _ => true) returnedLate (.loaded {} 0) ↔
      ∀ b, gathered next (Session.returns (fun _ => true) b) returnedLate (.loaded {} 0) = []) :=
  ⟨by decide +kernel, returns_reported_iff (Session.loaded_initial _ _) returnedLate_orderly⟩

/-- The commit ends without a warning about the message. -/
theorem return_not_reported :
    ¬ ∀ own s, Session.Initial s → ∀ steps, (∀ st ∈ steps, ∀ b, (st.outcomes b).ReturnsAtCommit own) →
      ReportsAtCommit own steps s := by
  intro h
  have hall := (h (fun _ => true) _ (Session.loaded_initial {} 0) returnedLate returnedLate_orderly).2 1
  revert hall
  decide +kernel

end PgAmqp
