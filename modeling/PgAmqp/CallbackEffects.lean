import PgAmqp.Drain

/-!
# The callbacks at the end of a transaction

With interrupts held off no warning raises, so each callback comes to its end for
every entry. At the end of a transaction an entry has nothing counted and no error
flag, and either no connection or the one it had, with an empty buffer. The record
of a commit tells what became of the acknowledged messages: they are reported as
lost, or they were in the buffer of the connection that committed.
-/
namespace PgAmqp

open ProgramLogic

/-- A warning while interrupts are held off. -/
theorem wp_elog_held (o : Outcomes) (r : Report) {c : Cell} {Q : Unit → Cell → Prop}
    {E : Raised → Cell → Prop} (h : c.backend.holdoff = true) :
    wp (elog o r) Q E c = Q () (c.warned r) := by
  rw [wp_elog, if_neg (by simp [Cell.unwinds, h])]

/-- Events that no message is written or acknowledged by. -/
def Writeless (evs : List Event) : Prop := ∀ e ∈ evs, e.writesTo = none

theorem Writeless.neutral {evs : List Event} (h : ∀ e ∈ evs, e.neutral = true) : Writeless evs :=
  fun e he => Event.writesTo_neutral (h e he)

theorem Writeless.append {evs evs' : List Event} (h : Writeless evs) (h' : Writeless evs') :
    Writeless (evs ++ evs') := fun e he => (List.mem_append.mp he).elim (h e) (h' e)

/-- A connection that is kept over the end of a transaction. -/
structure Connection.Survives (forgetful : Prop) (k k' : Connection) : Prop where
  id : k'.id = k.id
  ready : k'.ready = k.ready
  txMode : k'.txMode = k.txMode
  closeSeen : k'.closeSeen = k.closeSeen ∨ forgetful

theorem Connection.Survives.trans {forgetful : Prop} {k k' k'' : Connection}
    (h : k.Survives forgetful k') (h' : k'.Survives forgetful k'') : k.Survives forgetful k'' :=
  ⟨h'.id.trans h.id, h'.ready.trans h.ready, h'.txMode.trans h.txMode,
    h'.closeSeen.elim (fun hc => h.closeSeen.imp_left hc.trans) .inr⟩

theorem Connection.Survives.mono {p q : Prop} {k k' : Connection} (h : k.Survives p k')
    (hpq : p → q) : k.Survives q k' := ⟨h.id, h.ready, h.txMode, h.closeSeen.imp_right hpq⟩

/-- What the end of a transaction makes of an entry. -/
structure Closed (forgetful : Prop) (bs bs' : BrokerState) : Prop where
  brokerId : bs'.brokerId = bs.brokerId
  uncommitted : bs'.uncommitted = 0
  inerror : bs'.inerror = false
  conn : ∀ k', bs'.conn = some k' → ∃ k, bs.conn = some k ∧ bs.inerror = false ∧
    k.Survives forgetful k' ∧ k'.buffer = if bs.uncommitted = 0 then k.buffer else []

theorem Closed.fresh (p : Prop) (b : Int) : Closed p (.fresh b) (.fresh b) :=
  ⟨rfl, rfl, rfl, fun k hk => by simp [BrokerState.fresh] at hk⟩

theorem Closed.idle {p : Prop} {bs bs' : BrokerState} (h : Closed p bs bs') : Idle bs' :=
  fun _ => h.uncommitted

theorem Closed.mono {p q : Prop} {bs bs' : BrokerState} (h : Closed p bs bs') (hpq : p → q) :
    Closed q bs bs' := by
  refine ⟨h.brokerId, h.uncommitted, h.inerror, fun k' hk' => ?_⟩
  obtain ⟨k, hk, he, hs, hb⟩ := h.conn k' hk'
  exact ⟨k, hk, he, hs.mono hpq, hb⟩

/-- What the record of a commit tells about an entry. -/
inductive Settled (bs : BrokerState) (evs : List Event) : Prop where
  | lost : commitsIn evs = [] → lossIn bs.brokerId evs = bs.uncommitted → Settled bs evs
  | released (k k' : Connection) : bs.conn = some k → k.Keeps k' → k.txMode = true →
      bs.inerror = false → 0 < bs.uncommitted → commitsIn evs = [k'] →
      lossIn bs.brokerId evs = 0 → Settled bs evs

/-- A close frame is read by the flush of an entry, and its `tx.commit` is answered
normally all the same. -/
def Cell.forgetsFlush (c : Cell) (o : Outcomes) : Prop :=
  hasClose (c.arrived o) = true ∧ (o.txCommit (c.counts .txCommit)).reply = .normal

section Flush

variable {o : Outcomes} {c c' : Cell} {k : Connection}

theorem Held.timed (c : Cell) (ms : Nat) : Held c (c.timed ms) := by
  refine ⟨⟨rfl, rfl, Nat.le_refl _, id⟩, (Quiet.refl c).log_eq rfl, fun k hk => ?_, rfl, rfl⟩
  exact ⟨k.setTimeout c.bs.sockfd ms, by simp [Cell.timed, hk], ⟨rfl, rfl, rfl, rfl⟩, rfl⟩

theorem Cell.timed_arrived (c : Cell) (ms : Nat) : (c.timed ms).arrived o = c.arrived o := by
  unfold Cell.arrived BrokerState.pending
  cases hk : c.bs.conn <;> simp [Cell.timed, hk, Connection.setTimeout]

/-- The broker answers these two normally in tx mode only. -/
theorem answer_txMode {kind : Rpc} (hkind : kind = .txCommit ∨ kind = .txRollback) {r : Reply}
    (h : kind.answer k r = .normal) : k.txMode = true ∧ r = .normal := by
  cases htx : k.txMode with
  | true => rcases hkind with rfl | rfl <;> exact ⟨rfl, by simpa [Rpc.answer, htx] using h⟩
  | false =>
    have hne : kind.answer k r ≠ .normal := by
      by_cases hr : r = .normal <;> rcases hkind with rfl | rfl <;> simp [Rpc.answer, htx, hr]
    exact absurd h hne

/-- What a normal answer of the two leaves on the connection. -/
theorem answered_txMode {kind : Rpc} (hkind : kind = .txCommit ∨ kind = .txRollback) {a : Answer}
    (h : kind.answer k a.reply = .normal) :
    k.answered kind a = { k with queue := k.queue ++ a.arrivals, buffer := [] } := by
  unfold Connection.answered
  rw [if_pos h]
  rcases hkind with rfl | rfl <;> rfl

/-- How `tx.commit` or `tx.rollback` ends: an empty buffer, or a warning and no connection. -/
inductive TxEnded (kind : Rpc) (report : Reply → Report) (a : Answer) (k : Connection)
    (log : List Event) (c' : Cell) : Prop where
  | done (k' : Connection) : a.reply = .normal → k.txMode = true →
      c'.log = log ++ [.rpc kind k .normal] → c'.bs.conn = some k' → k.Survives False k' →
      k'.buffer = [] → TxEnded kind report a k log c'
  | refused (r : Reply) (q : Connection) : r ≠ .normal →
      c'.log = log ++ [.rpc kind k r, .warning (report r), .destroyed q] → c'.bs.conn = none →
      TxEnded kind report a k log c'

theorem closeTx_spec {kind : Rpc} (hkind : kind = .txCommit ∨ kind = .txRollback) {a : Answer}
    (report : Reply → BrokerState → Report) (hh : c.backend.holdoff = true) :
    wp (closeTx o report (kind.answer k a.reply))
      (fun _ c' => SameEntry c c' ∧ c'.bs.inerror = c.bs.inerror ∧
        TxEnded kind (report · (c.asked kind a k).bs) a k c.log c')
      (fun _ _ => False) (c.asked kind a k) := by
  unfold closeTx
  rw [wp_ite]
  split
  · rename_i hne
    rw [wp_bind, wp_getBs, wp_bind, wp_elog_held (c := c.asked kind a k) o _ hh,
      wp_localAmqpDisconnectBs_some (k := k.answered kind a) rfl]
    refine ⟨⟨rfl, rfl, Nat.le_refl _, id⟩, rfl, .refused _ (k.answered kind a) hne ?_ rfl⟩
    simp [Cell.dropped, Cell.warned, Cell.asked]
  · rename_i hok
    have hok := Decidable.not_not.mp hok
    obtain ⟨htx, hnormal⟩ := answer_txMode hkind hok
    rw [wp_bind, wp_getGucs, wp_localAmqpSetTimeout]
    refine ⟨⟨rfl, rfl, Nat.le_refl _, id⟩, rfl, .done _ hnormal htx ?_ rfl ?_ ?_⟩
    · rw [← hok]
      rfl
    · rw [answered_txMode hkind hok]
      exact ⟨rfl, rfl, rfl, .inl rfl⟩
    · rw [answered_txMode hkind hok]
      rfl

/-- How the flush of an entry ends. -/
inductive Flushed (forgetful : Prop) (c : Cell) (k : Connection) (c' : Cell) : Prop where
  | committed (k₁ k' : Connection) (evs : List Event) : c'.log = c.log ++ evs → Writeless evs →
      commitsIn evs = [k₁] → lossIn c.bs.brokerId evs = 0 → k.Keeps k₁ → k.txMode = true →
      c'.bs.conn = some k' → k.Survives forgetful k' → k'.buffer = [] → Flushed forgetful c k c'
  | failed (evs : List Event) : c'.log = c.log ++ evs → Writeless evs → commitsIn evs = [] →
      lossIn c.bs.brokerId evs = c.bs.uncommitted → c'.bs.conn = none → Flushed forgetful c k c'

theorem amqpLocalFlush_spec (hh : c.backend.holdoff = true) (hk : c.bs.conn = some k) :
    wp (amqpLocalFlush o)
      (fun _ c' => SameEntry c c' ∧ c'.bs.inerror = c.bs.inerror ∧
        Flushed (c.forgetsFlush o) c k c')
      (fun _ _ => False) c := by
  have ht := Held.timed c c.backend.gucs.commitTimeoutMs
  have hsome : (c.timed c.backend.gucs.commitTimeoutMs).bs.conn.isSome = true := by
    simp [Cell.timed, hk]
  unfold amqpLocalFlush
  rw [wp_bind, wp_getGucs, wp_bind, wp_localAmqpSetTimeout]
  refine wp_seq (wp_mono (localAmqpDrainReturns_reads o hsome) (fun _ _ h => h) (fun _ _ h => ?_))
    fun r c₁ h => ?_
  · exact reads_ne_unwound (c := (c.timed _).ticked .poll) o _ hh h.1
  obtain ⟨closed, hs, hclose⟩ := h.scanned
  rw [Cell.timed_arrived] at hclose
  have hframe : SameEntry c c₁ := ht.frame.trans ((Held.polled _).frame.trans hs.frame)
  obtain ⟨evs, hlog, hn⟩ : Quiet c c₁ := ht.quiet.trans ((Held.polled _).quiet.trans hs.quiet)
  obtain ⟨k₀, hk₀, hkeep₀, hseen₀⟩ := ht.conn k hk
  obtain ⟨k₁, hk₁, hkeep₁, hseen₁⟩ := hs.conn k₀ hk₀
  have hkeep : k.Keeps k₁ := hkeep₀.trans hkeep₁
  have hcount : c₁.counts .txCommit = c.counts .txCommit :=
    (hs.counts .txCommit (by decide)).trans (Cell.ticked_other _ (by decide))
  have hunc : c₁.bs.uncommitted = c.bs.uncommitted := hs.uncommitted
  unfold amqpTxCommit
  rw [bind_assoc, wp_bind, wp_tick, wp_bind, wp_rpc (c := c₁.ticked .txCommit) hk₁]
  refine wp_mono (closeTx_spec (c := c₁.ticked .txCommit) (.inl rfl) commitFailed
    (hframe.holdoff.trans hh)) (fun _ c' h' => ?_) (fun _ _ h' => h')
  obtain ⟨hframe', herr, hend⟩ := h'
  have hframe' : SameEntry c₁ c' :=
    ⟨hframe'.brokerId, hframe'.holdoff, hframe'.nextCall, hframe'.linked⟩
  refine ⟨hframe.trans hframe', herr.trans hs.inerror, ?_⟩
  cases hend with
  | done k' hreply htx hl hk' hsurv hbuf =>
    refine .committed k₁ k' (evs ++ [.rpc .txCommit k₁ .normal]) ?_ ?_ ?_ ?_ hkeep
      (hkeep.txMode ▸ htx) hk' ⟨?_, ?_, ?_, ?_⟩ hbuf
    · rw [hl, Cell.ticked_log, hlog, List.append_assoc]
    · exact (Writeless.neutral hn).append (by simp [Writeless, Event.writesTo])
    · rw [commitsIn_append, commitsIn_neutral hn]
      rfl
    · rw [lossIn_append, lossIn_neutral _ hn]
      rfl
    · exact hsurv.id.trans hkeep.id
    · exact hsurv.ready.trans hkeep.ready
    · exact hsurv.txMode.trans hkeep.txMode
    · rw [hsurv.closeSeen.resolve_right id, hseen₁, hseen₀]
      cases closed with
      | false => exact .inl (Bool.or_false _)
      | true => exact .inr ⟨hclose rfl, hcount ▸ hreply⟩
  | refused r q hne hl hnone =>
    refine .failed (evs ++ [.rpc .txCommit k₁ r, .warning (commitFailed r
      ((c₁.ticked .txCommit).asked .txCommit (o.txCommit (c₁.counts .txCommit)) k₁).bs),
      .destroyed q]) ?_ ?_ ?_ ?_ hnone
    · rw [hl, Cell.ticked_log, hlog, List.append_assoc]
    · exact (Writeless.neutral hn).append (by simp [Writeless, Event.writesTo])
    · rw [commitsIn_append, commitsIn_neutral hn]
      cases r <;> first | rfl | exact absurd rfl hne
    · rw [lossIn_append, lossIn_neutral _ hn, Nat.zero_add]
      simpa [lossIn, commitFailed, Report.lossOn, Cell.asked, hframe.brokerId] using hunc

/-- The flush was not reached, had nothing to do, or came to its end as `R` says. -/
inductive Turn (R : Connection → Cell → Prop) (c c' : Cell) : Prop where
  | gone (evs : List Event) : (c.bs.inerror = true ∨ c.bs.conn = none) → c'.log = c.log ++ evs →
      (∀ e ∈ evs, e.neutral = true) → c'.bs.conn = none → Turn R c c'
  | idle : c.bs.inerror = false → c.bs.uncommitted = 0 → c'.bs.conn = c.bs.conn →
      c'.log = c.log → Turn R c c'
  | acted (k : Connection) (c₁ : Cell) : c.bs.inerror = false → c.bs.conn = some k →
      0 < c.bs.uncommitted → R k c₁ → c'.bs.conn = c₁.bs.conn → c'.log = c₁.log → Turn R c c'

/-- The entry is left with nothing counted and no error flag. -/
structure Turned (R : Connection → Cell → Prop) (c c' : Cell) : Prop where
  frame : SameEntry c c'
  uncommitted : c'.bs.uncommitted = 0
  inerror : c'.bs.inerror = false
  turn : Turn R c c'

theorem wp_clearInerror {Q : Unit → Cell → Prop} {E : Raised → Cell → Prop} :
    wp clearInerror Q E c = Q () (c.modified fun bs => { bs with inerror := false }) := rfl

/-- What the two callbacks share: an entry in error is given up, an idle one is left
alone, and otherwise the transaction is ended on the connection. -/
theorem turn_spec {act : M Unit} {R : Connection → Cell → Prop}
    (hact : ∀ k, c.bs.inerror = false → c.bs.conn = some k →
      wp act (fun _ c₁ => (SameEntry c c₁ ∧ c₁.bs.inerror = false) ∧ R k c₁) (fun _ _ => False) c) :
    wp (do dropErrored; clearInerror; settleWith act) (fun _ => Turned R c) (fun _ _ => False) c := by
  have settled : ∀ {c₁ : Cell}, SameEntry c c₁ → c₁.bs.inerror = false → c₁.bs.conn = none →
      (∀ c', c'.bs.conn = none → c'.log = c₁.log → Turn R c c') →
      wp (settleWith act) (fun _ => Turned R c) (fun _ _ => False) c₁ := by
    intro c₁ hf he hnone hturn
    unfold settleWith withConn
    rw [wp_bind, wp_getBs, wp_ite]
    split
    · rw [wp_bind, wp_bind, wp_getBs, wp_ite, if_neg (by simp [hnone])]
      exact ⟨⟨hf.brokerId, hf.holdoff, hf.nextCall, hf.linked⟩, rfl, he, hturn _ hnone rfl⟩
    · rename_i hz
      exact ⟨hf, Decidable.not_not.mp hz, he, hturn _ hnone rfl⟩
  unfold dropErrored
  rw [wp_bind, wp_bind, wp_getBs, wp_ite]
  cases he : c.bs.inerror with
  | true =>
    rw [if_pos rfl]
    cases hk : c.bs.conn with
    | none =>
      rw [wp_localAmqpDisconnectBs_none false hk, wp_bind, wp_clearInerror]
      exact settled ⟨rfl, rfl, Nat.le_refl _, id⟩ rfl hk fun c' hc hl =>
        .gone [] (.inl he) (by simpa using hl) (by simp) hc
    | some k =>
      rw [wp_localAmqpDisconnectBs_some hk, wp_bind, wp_clearInerror]
      exact settled ⟨rfl, rfl, Nat.le_refl _, id⟩ rfl rfl fun c' hc hl =>
        .gone [.destroyed k] (.inl he) hl (by simp [Event.neutral]) hc
  | false =>
    have hc : c.modified (fun bs => { bs with inerror := false }) = c := by
      unfold Cell.modified
      rw [← he]
    rw [if_neg (by simp), wp_pure, wp_bind, wp_clearInerror, hc]
    cases hk : c.bs.conn with
    | none =>
      exact settled (.refl c) he hk fun c' hc hl =>
        .gone [] (.inr hk) (by simpa using hl) (by simp) hc
    | some k =>
      unfold settleWith withConn
      rw [wp_bind, wp_getBs, wp_ite]
      split
      · rename_i hu
        rw [wp_bind, wp_bind, wp_getBs, wp_ite, if_pos (by simp [hk])]
        refine wp_mono (hact k he hk) (fun _ c₁ h => ?_) (fun _ _ h => h)
        rw [wp_modifyBs]
        obtain ⟨⟨hf, he₁⟩, hR⟩ := h
        exact ⟨⟨hf.brokerId, hf.holdoff, hf.nextCall, hf.linked⟩, rfl, he₁,
          .acted k c₁ he hk (Nat.pos_of_ne_zero hu) hR rfl rfl⟩
      · rename_i hz
        exact ⟨.refl c, Decidable.not_not.mp hz, he,
          .idle he (Decidable.not_not.mp hz) rfl rfl⟩

/-- How a callback ends a transaction for one entry. -/
structure Ends (forgetful : Prop) (P : List Event → Prop) (c c' : Cell) : Prop where
  frame : SameEntry c c'
  closed : Closed forgetful c.bs c'.bs
  log : ∃ evs, c'.log = c.log ++ evs ∧ Writeless evs ∧ P evs

theorem Connection.Survives.refl {forgetful : Prop} (k : Connection) : k.Survives forgetful k :=
  ⟨rfl, rfl, rfl, .inl rfl⟩

theorem amqpLocalAbort_spec (hh : c.backend.holdoff = true) :
    wp (amqpLocalAbort o) (fun _ => Ends False (fun evs => commitsIn evs = []) c)
      (fun _ _ => False) c := by
  have hact : ∀ k, c.bs.inerror = false → c.bs.conn = some k →
      wp (amqpLocalRollback o) (fun _ c₁ => (SameEntry c c₁ ∧ c₁.bs.inerror = false) ∧
        ∃ k₁ report, k₁.buffer = k.buffer ∧ k.Survives False k₁ ∧
          TxEnded .txRollback report (o.txRollback (c.counts .txRollback)) k₁ c.log c₁)
        (fun _ _ => False) c := by
    intro k he hk
    have hk' : ((c.timed c.backend.gucs.commitTimeoutMs).ticked .txRollback).bs.conn =
        some (k.setTimeout c.bs.sockfd c.backend.gucs.commitTimeoutMs) := by
      simp [Cell.timed, hk]
    unfold amqpLocalRollback amqpTxRollback
    rw [wp_bind, wp_getGucs, wp_bind, wp_localAmqpSetTimeout, bind_assoc, wp_bind, wp_tick, wp_bind,
      wp_rpc hk']
    refine wp_mono (closeTx_spec (.inr rfl) rollbackFailed hh) (fun _ c₁ h => ?_) (fun _ _ h => h)
    obtain ⟨hf, he₁, hend⟩ := h
    exact ⟨⟨⟨hf.brokerId, hf.holdoff, hf.nextCall, hf.linked⟩, he₁.trans he⟩,
      k.setTimeout c.bs.sockfd c.backend.gucs.commitTimeoutMs, _, rfl, ⟨rfl, rfl, rfl, .inl rfl⟩,
      hend⟩
  unfold amqpLocalAbort
  refine wp_mono (turn_spec hact) (fun _ c' h => ?_) (fun _ _ h => h)
  refine ⟨h.frame, ⟨h.frame.brokerId, h.uncommitted, h.inerror, ?_⟩, ?_⟩
  · intro k' hk'
    cases h.turn with
    | gone _ _ _ _ hnone => exact absurd (hnone.symm.trans hk') (by simp)
    | idle he hz hconn _ =>
      exact ⟨k', hconn.symm.trans hk', he, .refl k', (if_pos hz).symm⟩
    | acted k c₁ he hk hu hR hconn _ =>
      obtain ⟨k₁, report, _, hsurv, hend⟩ := hR
      have hne : c.bs.uncommitted ≠ 0 := by omega
      cases hend with
      | done k₂ _ _ _ hk₂ hsurv₂ hbuf =>
        obtain rfl : k' = k₂ := Option.some.inj (hk'.symm.trans (hconn.trans hk₂))
        exact ⟨k, hk, he, hsurv.trans hsurv₂, by rw [hbuf, if_neg hne]⟩
      | refused _ _ _ _ hnone => exact absurd (hk'.symm.trans (hconn.trans hnone)) (by simp)
  · cases h.turn with
    | gone evs _ hl hn _ => exact ⟨evs, hl, .neutral hn, commitsIn_neutral hn⟩
    | idle _ _ _ hl => exact ⟨[], by simpa using hl, by simp [Writeless], rfl⟩
    | acted k c₁ _ _ _ hR _ hl =>
      obtain ⟨k₁, report, _, _, hend⟩ := hR
      cases hend with
      | done _ _ _ hlog _ _ _ => exact ⟨_, hl.trans hlog, by simp [Writeless, Event.writesTo], rfl⟩
      | refused _ _ _ hlog _ => exact ⟨_, hl.trans hlog, by simp [Writeless, Event.writesTo], rfl⟩

theorem amqpLocalCommit_spec (hh : c.backend.holdoff = true) :
    wp (amqpLocalCommit o)
      (fun _ => Ends (0 < c.bs.uncommitted ∧ c.bs.inerror = false ∧ c.forgetsFlush o)
        (Settled c.bs) c)
      (fun _ _ => False) c := by
  unfold amqpLocalCommit
  rw [wp_bind, wp_getBs, wp_ite]
  split
  · rename_i hlost
    rw [wp_bind, wp_elog_held o _ hh, wp_bind]
    have hloss : lossIn c.bs.brokerId [.warning (.discarding c.bs.uncommitted c.bs.brokerId)] =
        c.bs.uncommitted := by simp [lossIn, Report.lossOn]
    cases hk : c.bs.conn with
    | none =>
      rw [wp_localAmqpDisconnectBs_none (c := c.warned _) false hk, wp_modifyBs]
      refine ⟨⟨rfl, rfl, Nat.le_refl _, id⟩, ⟨rfl, rfl, rfl, ?_⟩, _, rfl, ?_, .lost rfl hloss⟩
      · intro k' hk'
        exact absurd (hk.symm.trans hk') (by simp)
      · simp [Writeless, Event.writesTo]
    | some k =>
      rw [wp_localAmqpDisconnectBs_some (c := c.warned _) hk, wp_modifyBs]
      refine ⟨⟨rfl, rfl, Nat.le_refl _, id⟩, ⟨rfl, rfl, rfl, ?_⟩,
        [.warning (.discarding c.bs.uncommitted c.bs.brokerId), .destroyed k], ?_, ?_, .lost rfl ?_⟩
      · intro k' hk'
        exact absurd hk' (by simp [Cell.dropped])
      · simp [Cell.dropped, Cell.warned]
      · simp [Writeless, Event.writesTo]
      · simpa [lossIn] using hloss
  · rename_i hkeep
    refine wp_mono (turn_spec (R := fun k c₁ => Flushed (c.forgetsFlush o) c k c₁) fun k he hk => ?_)
      (fun _ c' h => ?_) (fun _ _ h => h)
    · refine wp_mono (amqpLocalFlush_spec hh hk) (fun _ c₁ h => ?_) (fun _ _ h => h)
      exact ⟨⟨h.1, h.2.1.trans he⟩, h.2.2⟩
    · refine ⟨h.frame, ⟨h.frame.brokerId, h.uncommitted, h.inerror, ?_⟩, ?_⟩
      · intro k' hk'
        cases h.turn with
        | gone _ _ _ _ hnone => exact absurd (hnone.symm.trans hk') (by simp)
        | idle he hz hconn _ => exact ⟨k', hconn.symm.trans hk', he, .refl k', (if_pos hz).symm⟩
        | acted k c₁ he hk hu hR hconn _ =>
          have hne : c.bs.uncommitted ≠ 0 := by omega
          cases hR with
          | committed _ k₂ _ _ _ _ _ _ _ hk₂ hsurv hbuf =>
            obtain rfl : k' = k₂ := Option.some.inj (hk'.symm.trans (hconn.trans hk₂))
            exact ⟨k, hk, he, hsurv.mono fun hf => ⟨hu, he, hf⟩, by rw [hbuf, if_neg hne]⟩
          | failed _ _ _ _ _ hnone => exact absurd (hk'.symm.trans (hconn.trans hnone)) (by simp)
      · cases h.turn with
        | gone evs hgone hl hn _ =>
          refine ⟨evs, hl, .neutral hn, .lost (commitsIn_neutral hn) ?_⟩
          rw [lossIn_neutral _ hn]
          refine (Nat.eq_zero_of_not_pos fun hu => hkeep ⟨hu, hgone.imp_right fun h => ?_⟩).symm
          rw [h]
          rfl
        | idle _ hz _ hl =>
          exact ⟨[], by simpa using hl, by simp [Writeless], .lost rfl hz.symm⟩
        | acted k c₁ he hk hu hR _ hl =>
          cases hR with
          | committed k₁ _ evs hlog hw hcommit hloss hkeep' htx _ _ _ =>
            exact ⟨evs, hl.trans hlog, hw, .released k k₁ hk hkeep' htx he hu hcommit hloss⟩
          | failed evs hlog hw hcommit hloss _ => exact ⟨evs, hl.trans hlog, hw, .lost hcommit hloss⟩

/-- What the abort of a subtransaction makes of an entry. -/
structure Flagged (bs bs' : BrokerState) : Prop where
  brokerId : bs'.brokerId = bs.brokerId
  conn : bs'.conn = bs.conn
  uncommitted : bs'.uncommitted = bs.uncommitted
  inerror : bs'.inerror = (bs.inerror || decide (0 < bs.uncommitted))

theorem amqpLocalSubxact_spec (hh : c.backend.holdoff = true) :
    wp (amqpLocalSubxact o) (fun _ c' => SameEntry c c' ∧ Flagged c.bs c'.bs ∧ Quiet c c')
      (fun _ _ => False) c := by
  unfold amqpLocalSubxact
  rw [wp_bind, wp_getBs, wp_ite]
  split
  · rename_i h
    rw [wp_bind, wp_elog_held o _ hh, wp_modifyBs]
    refine ⟨⟨rfl, rfl, Nat.le_refl _, id⟩, ⟨rfl, rfl, rfl, ?_⟩, ?_⟩
    · simp [h.1]
    · exact ((Still.warned c (.subxactRolledBack c.bs.uncommitted c.bs.brokerId) rfl).quiet).log_eq rfl
  · rename_i h
    refine ⟨.refl c, ⟨rfl, rfl, rfl, ?_⟩, .refl c⟩
    cases he : c.bs.inerror with
    | true => rfl
    | false => simpa [he] using h

/-- `PRE_PREPARE` raises exactly where messages are counted, and changes nothing. -/
theorem amqpLocalPrePrepare_eq (c : Cell) : amqpLocalPrePrepare c =
    if 0 < c.bs.uncommitted then .error (.error (.cannotPrepare c.bs.uncommitted c.bs.brokerId)) c
    else .ok () c := by
  unfold amqpLocalPrePrepare
  by_cases hu : 0 < c.bs.uncommitted
  · simp [getBs, bind, EStateM.bind, hu, elogError]
  · simp [getBs, bind, EStateM.bind, hu]
    rfl

end Flush

end PgAmqp
