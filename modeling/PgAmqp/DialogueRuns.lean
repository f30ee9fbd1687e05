import PgAmqp.Dialogue

/-!
# Every dialogue is in order

The calls and the callbacks carry the dialogue of an entry from rest to rest, so it is in
order in every run in which no cancel is taken at the warning of a failed host attempt.
The exit of the backend ends it.
-/
namespace PgAmqp

open ProgramLogic Transition

section Publish

variable {t : Talk} {c c' : Cell} {o : Outcomes} {m : Msg} {channel : Nat} {onceMore : Bool} {redo giveUp : M Bool}

/-- A publish on this channel may use the connection of the entry. -/
structure Admitted (t : Talk) (channel : Nat) (c : Cell) : Prop where
  resting : Resting t c
  conn : c.bs.conn.isSome = true
  inerror : channel = 1 ∨ c.bs.inerror = false

theorem Admitted.silent (h : Admitted t channel c) (hs : Silent t c c') : Admitted t channel c' where
  resting := h.resting.silent hs
  conn := by
    have hconn := congrArg Option.isSome hs.conn
    rw [Option.isSome_map, Option.isSome_map] at hconn
    exact hconn.trans h.conn
  inerror := h.inerror.imp_right hs.inerror.trans

theorem Resting.flagged (h : Resting t c) : Resting t (c.modified fun bs => { bs with inerror := true }) := by
  unfold Resting at h ⊢
  rw [Cell.modified_talk]
  cases ht : c.talk t with
  | suspect id =>
    rw [ht] at h
    exact ⟨h.1, rfl⟩
  | _ => rwa [ht] at h

theorem setInerror_talks : Preserves (Resting t) setInerror := fun _ h => h.flagged

/-- A connection at rest that holds no transaction in error is ready. -/
theorem Resting.ready (h : Resting t c) {k : Connection} (hk : c.bs.conn = some k) (he : c.bs.inerror = false) :
    c.talk t = .ready k.id c.bs.uncommitted := by
  unfold Resting Talk.Rests at h
  cases ht : c.talk t <;> simp_all

theorem orRedo_talks (hredo : Preserves (Resting t) redo) (hc : Ending t c)
    (hgive : wp giveUp (fun _ => Resting t) (fun _ => Resting t) c) :
    wp (orRedo channel onceMore redo giveUp) (fun _ => Resting t) (fun _ => Resting t) c := by
  unfold orRedo
  rw [wp_bind, wp_getBs, wp_ite]
  split
  · exact wp_seq (wp_mono (localAmqpDisconnectBs_talks hc) (fun _ _ h => h) fun _ _ h => h.elim)
      fun _ c' h => hredo c' h.1.resting
  · exact hgive

theorem localAmqpDrainReturns_talks (hc : Admitted t channel c) :
    wp (localAmqpDrainReturns o) (fun _ => Admitted t channel) (fun _ => Resting t) c :=
  wp_mono (localAmqpDrainReturns_silent (d := c) c (.refl t c)) (fun _ _ h => hc.silent h)
    fun _ _ h => hc.resting.silent h

/-- What a write that ended in `w` leaves. -/
inductive Sent (t : Talk) (channel : Nat) (w : Write) (c : Cell) : Prop where
  | autonomous : channel = 1 → Admitted t 1 c → Sent t channel w c
  | written (k : Connection) : channel = 2 → w = .ok → c.bs.conn = some k →
      c.talk t = .ready k.id (c.bs.uncommitted + 1) → Sent t channel w c
  | failed (k : Connection) : channel = 2 → w ≠ .ok → c.bs.conn = some k → c.talk t = .suspect k.id →
      Sent t channel w c

theorem Sent.ending {w : Write} (h : Sent t channel w c) (hw : w ≠ .ok) : Ending t c := by
  cases h with
  | autonomous _ ha => exact ha.resting.ending ha.conn
  | written _ _ hok => exact absurd hok hw
  | failed k _ _ hk ht => exact ⟨k, hk, by rw [ht]; simp [Talk.destroy]⟩

theorem publishWritten_talks (hredo : Preserves (Resting t) redo) (k : Connection) {w : Write}
    (hc : Sent t channel w c) :
    wp (publishWritten m channel onceMore redo k w) (fun _ => Resting t) (fun _ => Resting t) c := by
  unfold publishWritten
  rw [wp_ite]
  split
  · rename_i hw
    refine orRedo_talks hredo (hc.ending hw) ?_
    rw [wp_bind, wp_setInerror]
    cases hc with
    | autonomous _ ha => exact ha.resting.flagged
    | written _ _ hok => exact absurd hok hw
    | failed k _ _ hk ht =>
      show ((c.modified _).talk t).Rests _
      rw [Cell.modified_talk, ht]
      exact ⟨by simp [hk], rfl⟩
  · rename_i hw
    rw [wp_bind, wp_record, wp_bind, wp_modifyBs, wp_pure]
    cases hc with
    | autonomous h1 ha =>
      refine ha.resting.silent ⟨by simp [Talk.next], rfl, ?_, rfl⟩
      simp [h1]
    | written k h2 _ hk ht =>
      show (((c.recorded _).modified _).talk t).Rests _
      rw [Cell.modified_talk, Cell.recorded_talk, ht]
      exact ⟨by simp [hk], by simp [h2]⟩
    | failed _ _ hne => exact absurd hne hw

theorem Cell.buffered_talk (t : Talk) (c : Cell) (o : Outcomes) (k : Connection) (channel : Nat) (m : Msg) :
    (c.buffered o k channel m).talk t = (c.talk t).write k channel (c.written o) := by
  simp [Cell.buffered, Cell.sent, Talk.next]

/-- The write itself, on the connection that the drain found usable. -/
theorem Admitted.sent (hc : Admitted t channel c) (hch : channel = 1 ∨ channel = 2) {k : Connection}
    (hk : c.bs.conn = some k) (m : Msg) : Sent t channel (c.written o) (c.buffered o k channel m) := by
  have hid : (k.written channel m (c.written o)).id = k.id := k.written_id ..
  have htalk := c.buffered_talk t o k channel m
  rcases hch with rfl | rfl
  · refine .autonomous rfl (hc.silent ⟨?_, ?_, rfl, rfl⟩)
    · have hrest := hc.resting
      unfold Resting Talk.Rests at hrest
      rw [htalk]
      cases ht : c.talk t <;> simp_all [Talk.write]
    · rw [hk, Option.map_some, ← hid]
      rfl
  · have hready := hc.resting.ready hk (hc.inerror.resolve_left (by decide))
    rw [hready] at htalk
    by_cases hw : c.written o = .ok
    · exact .written _ rfl hw rfl (by rw [htalk, hid, hw]; simp [Talk.write]; rfl)
    · exact .failed _ rfl hw rfl (by rw [htalk, hid]; simp [Talk.write, hw])

theorem publishPoll_talks {w : Write} (hc : Sent t channel w c) :
    wp (publishPoll o m channel) (fun _ => Sent t channel w) (fun _ => Resting t) c := by
  unfold publishPoll
  rw [wp_ite]
  split
  · rename_i hm
    cases hc with
    | autonomous h1 ha =>
      rw [wp_bind]
      exact wp_mono (localAmqpDrainReturns_talks ha) (fun _ _ h => .autonomous h1 h) fun _ _ h => h
    | written _ h2 => exact absurd (h2.symm.trans hm.1) (by decide)
    | failed _ h2 => exact absurd (h2.symm.trans hm.1) (by decide)
  · exact hc

theorem publishWrite_talks (hch : channel = 1 ∨ channel = 2) (hredo : Preserves (Resting t) redo)
    (hc : Admitted t channel c) :
    wp (publishWrite o m channel onceMore redo) (fun _ => Resting t) (fun _ => Resting t) c := by
  obtain ⟨k, hk⟩ := Option.isSome_iff_exists.mp hc.conn
  unfold publishWrite
  rw [wp_bind, wp_getBs, hk]
  dsimp only
  rw [wp_bind, wp_amqpBasicPublish]
  exact wp_seq (publishPoll_talks (hc.sent hch hk m)) fun _ _ h => publishWritten_talks hredo k h

theorem publishConnected_talks (hch : channel = 1 ∨ channel = 2) (hredo : Preserves (Resting t) redo)
    (brokerId : Int) (badMode : Option Int) :
    Preserves (Resting t) (publishConnected o brokerId m badMode channel onceMore redo) := by
  intro c hc
  unfold publishConnected
  rw [wp_bind, wp_getBs, wp_ite]
  split
  · rename_i hu
    have ha : Admitted t channel c := ⟨hc, hu.1, hu.2.imp_right (by simp)⟩
    refine wp_seq (localAmqpDrainReturns_talks ha) fun r c₁ h₁ => ?_
    rw [wp_ite]
    split
    · refine orRedo_talks hredo (h₁.resting.ending h₁.conn) ?_
      rw [wp_ite]
      split
      · exact wp_seq (setInerror_talks c₁ h₁.resting) fun _ _ h => h
      · exact h₁.resting
    · unfold publishDrained
      rw [wp_bind, wp_getBs, wp_ite]
      split
      · have hrefused : Silent t c₁ (c₁.recorded (.refused c₁.bs.conn)) :=
          ⟨by simp [Talk.after, Talk.next], rfl, rfl, rfl⟩
        rw [wp_bind, wp_record]
        exact wp_seq (wp_mono (elog_silent (d := c₁) _ _ hrefused) (fun _ _ h => h₁.resting.silent h)
          fun _ _ h => h₁.resting.silent h) fun _ _ h => h
      · have hmode : wp (publishMode o badMode) (fun _ => Admitted t channel) (fun _ => Resting t) c₁ := by
          cases badMode with
          | none => exact h₁
          | some mode =>
            exact wp_mono (elog_silent (d := c₁) _ c₁ (.refl t c₁)) (fun _ _ h => h₁.silent h)
              fun _ _ h => h₁.resting.silent h
        exact wp_seq hmode fun _ _ h => publishWrite_talks hch hredo h
  · exact hc

theorem pgAmqpPublishOpt_talks (ho : ¬ o.HalfOpen) (hch : channel = 1 ∨ channel = 2) (brokerId : Int)
    (a : PublishArgs) : Preserves (Resting t) (pgAmqpPublishOpt o brokerId a channel) := by
  have pass : ∀ {m onceMore redo}, Preserves (Resting t) redo →
      Preserves (Resting t) (publishPass o brokerId m a.badDeliveryMode channel onceMore redo) := fun hredo =>
    .bind (fun _ h => localAmqpGetBs_talks ho brokerId h) fun _ => publishConnected_talks hch hredo brokerId _
  intro c hc
  unfold pgAmqpPublishOpt
  rw [wp_bind, wp_getGucs, wp_ite]
  split
  · exact wp_seq (wp_mono (elog_silent (d := c) _ c (.refl t c)) (fun _ _ h => hc.silent h)
      fun _ _ h => hc.silent h) fun _ _ h => h
  · rw [wp_bind, wp_newMsg]
    exact pass (pass (.pure _ _)) c.numbered hc

theorem pgAmqpExchangeDeclare_talks (ho : ¬ o.HalfOpen) (brokerId : Int) (a : DeclareArgs) :
    Preserves (Resting t) (pgAmqpExchangeDeclare o brokerId a) := by
  intro c hc
  unfold pgAmqpExchangeDeclare
  refine wp_seq (localAmqpGetBs_talks ho brokerId hc) fun _ c₁ h₁ => ?_
  rw [wp_bind, wp_getBs, wp_ite]
  split
  · rename_i hsome
    obtain ⟨k, hk⟩ := Option.isSome_iff_exists.mp hsome
    have hk' : (c₁.ticked .exchangeDeclare).bs.conn = some k := hk
    unfold amqpExchangeDeclare
    rw [bind_assoc, wp_bind, wp_tick, wp_bind, wp_rpc hk', wp_ite]
    split
    · rename_i hn
      refine h₁.silent ⟨?_, ?_, rfl, rfl⟩
      · unfold Resting Talk.Rests at h₁
        rw [Cell.asked_talk, hn]
        cases ht : c₁.talk t <;> simp_all [Talk.ask]
      · rw [hk, Option.map_some, ← k.answered_id (.exchangeDeclare a.declaration)]
        rfl
    · rename_i hn
      refine wp_seq (wp_mono (localAmqpDisconnectBs_talks ⟨_, rfl, ?_⟩) (fun _ _ h => h.1.resting) fun _ _ h => h.elim)
        fun _ _ h => h
      unfold Resting Talk.Rests at h₁
      rw [Cell.asked_talk]
      cases ht : c₁.talk t <;> simp_all [Talk.ask, Talk.destroy]
  · exact h₁

end Publish

section Callbacks

variable {t : Talk} {c : Cell} {o : Outcomes}

/-- The connection is closed and given up, without any cancel. -/
theorem localAmqpDisconnectBs_hangsUp (graceful : Bool) (hc : Resting t c) :
    wp (localAmqpDisconnectBs graceful) (fun _ c' => HungUp t c') (fun _ _ => False) c := by
  cases hk : c.bs.conn with
  | none =>
    rw [wp_localAmqpDisconnectBs_none graceful hk]
    unfold Resting Talk.Rests at hc
    cases ht : c.talk t <;> simp_all
    exact ⟨ht, hk, hc⟩
  | some k =>
    cases graceful with
    | false => exact wp_mono (localAmqpDisconnectBs_talks (hc.ending (by simp [hk]))) (fun _ _ h => h.1) fun _ _ h => h
    | true =>
      have hclosed : ((c.recorded (.rpc .connectionClose k.closing .none)).recorded
          (.destroyed k.closing)).talk t = .idle := by
        have hid : k.closing.id = k.id := rfl
        unfold Resting Talk.Rests at hc
        rw [Cell.recorded_talk, Cell.recorded_talk]
        cases ht : c.talk t <;> simp_all [Talk.next, Talk.ask, Talk.destroy]
      rw [wp_localAmqpDisconnectBs_closed hk]
      exact ⟨hclosed, rfl, rfl⟩

theorem localAmqpDisconnect_talks : Preserves (Resting t) (do localAmqpDisconnect; return true) := by
  intro c hc
  have hlink : Resting t c.link := hc
  unfold localAmqpDisconnect
  rw [wp_bind, wp_bind, wp_localAmqpGetABs]
  refine wp_seq (wp_mono (localAmqpDisconnectBs_hangsUp true hlink) (fun _ _ h => h) fun _ _ h => h.elim)
    fun _ c₁ h₁ => ?_
  have hfreed : c₁.reset.freed.bs.conn = none := (c₁.reset.freed_conn).trans h₁.conn
  have huncommitted : c₁.reset.freed.bs.uncommitted = 0 := by
    simp only [Cell.freed, Cell.modified_bs]
    split <;> exact h₁.uncommitted
  have hup : HungUp t c₁.reset.freed := ⟨h₁.talk, hfreed, huncommitted⟩
  exact hup.resting

theorem HungUp.cleared (h : HungUp t c) : HungUp t (c.modified fun bs => { bs with inerror := false }) :=
  ⟨h.talk, h.conn, h.uncommitted⟩

theorem HungUp.settled (h : HungUp t c) : HungUp t (c.modified fun bs => { bs with uncommitted := 0 }) :=
  ⟨h.talk, h.conn, rfl⟩

/-- What the reply to the end of a transaction means: tx mode goes on, or the connection is
given up. -/
theorem closeTx_talks {report : Reply → BrokerState → Report} {reply : Reply} (hh : c.backend.holdoff = true)
    {k : Connection} (hk : c.bs.conn = some k)
    (ht : c.talk t = if reply = .normal then .ready k.id 0 else .ended k.id) :
    wp (closeTx o report reply) (fun _ c' => Resting t (c'.modified fun bs => { bs with uncommitted := 0 }))
      (fun _ _ => False) c := by
  unfold closeTx
  rw [wp_ite]
  split
  · rename_i hne
    rw [if_neg hne] at ht
    rw [wp_bind, wp_getBs, wp_bind, wp_elog_held o _ hh]
    have hend : Ending t (c.warned (report reply c.bs)) := ⟨k, hk, by simp [ht, Talk.destroy]⟩
    exact wp_mono (localAmqpDisconnectBs_talks hend) (fun _ _ h => h.1.settled.resting) fun _ _ h => h
  · rename_i hn
    rw [if_pos (Decidable.not_not.mp hn)] at ht
    rw [wp_bind, wp_getGucs, wp_localAmqpSetTimeout]
    show (c.talk t).Rests _
    rw [ht]
    exact ⟨by simp [Cell.timed, hk, Connection.setTimeout], rfl⟩

/-- The rpc that ends the transaction of an entry with messages to end. -/
theorem endTx_talks {kind : Rpc} (hkind : kind = .txCommit ∨ kind = .txRollback) {a : Answer}
    {report : Reply → BrokerState → Report} (hh : c.backend.holdoff = true) (hc : Admitted t 2 c)
    (hu : c.bs.uncommitted ≠ 0) :
    wp (rpc kind a >>= closeTx o report)
      (fun _ c' => Resting t (c'.modified fun bs => { bs with uncommitted := 0 })) (fun _ _ => False) c := by
  obtain ⟨k, hk⟩ := Option.isSome_iff_exists.mp hc.conn
  have hready := hc.resting.ready hk (hc.inerror.resolve_left (by decide))
  rw [wp_bind, wp_rpc hk]
  refine closeTx_talks (c := c.asked kind a k) hh (k := k.answered kind a) rfl ?_
  rw [Cell.asked_talk, hready, k.answered_id]
  rcases hkind with rfl | rfl <;> simp [Talk.ask, hu]

theorem amqpLocalFlush_talks (hh : c.backend.holdoff = true) (hc : Admitted t 2 c) (hu : c.bs.uncommitted ≠ 0) :
    wp (amqpLocalFlush o) (fun _ c' => Resting t (c'.modified fun bs => { bs with uncommitted := 0 }))
      (fun _ _ => False) c := by
  have ht : Admitted t 2 (c.timed c.backend.gucs.commitTimeoutMs) := hc.silent (.timed t c _)
  unfold amqpLocalFlush amqpTxCommit
  rw [wp_bind, wp_getGucs, wp_bind, wp_localAmqpSetTimeout]
  refine wp_seq (wp_mono (wp_and
    (localAmqpDrainReturns_silent (d := c.timed c.backend.gucs.commitTimeoutMs) _ (.refl t _))
    (localAmqpDrainReturns_held (L := .none) (p := (.flush, c.timed c.backend.gucs.commitTimeoutMs)) (.inr rfl) hh
      ⟨.refl, ht.conn⟩)) (fun _ _ h => h) fun _ _ h => h.2) fun _ c₁ h₁ => ?_
  rw [bind_assoc, wp_bind, wp_tick]
  have hh₁ : c₁.backend.holdoff = true := h₁.2.1.sameList.holdoff.trans hh
  have ha : Admitted t 2 (c₁.ticked .txCommit) := ht.silent (h₁.1.trans ⟨rfl, rfl, rfl, rfl⟩)
  exact endTx_talks (c := c₁.ticked .txCommit) (.inl rfl) hh₁ ha (by rw [Cell.ticked_bs, h₁.1.uncommitted]; exact hu)

theorem amqpLocalRollback_talks (hh : c.backend.holdoff = true) (hc : Admitted t 2 c) (hu : c.bs.uncommitted ≠ 0) :
    wp (amqpLocalRollback o) (fun _ c' => Resting t (c'.modified fun bs => { bs with uncommitted := 0 }))
      (fun _ _ => False) c := by
  unfold amqpLocalRollback amqpTxRollback
  rw [wp_bind, wp_getGucs, wp_bind, wp_localAmqpSetTimeout, bind_assoc, wp_bind, wp_tick]
  exact endTx_talks (c := (c.timed _).ticked .txRollback) (.inr rfl) hh
    (hc.silent ((Silent.timed t c _).trans ⟨rfl, rfl, rfl, rfl⟩)) hu

/-- What the two callbacks share. -/
theorem turn_talks {act : M Unit} (hact : Admitted t 2 c → c.bs.uncommitted ≠ 0 →
      wp act (fun _ c' => Resting t (c'.modified fun bs => { bs with uncommitted := 0 })) (fun _ _ => False) c)
    (hc : Resting t c) :
    wp (do dropErrored; clearInerror; settleWith act) (fun _ => Resting t) (fun _ _ => False) c := by
  unfold dropErrored
  rw [wp_bind, wp_bind, wp_getBs, wp_ite]
  cases he : c.bs.inerror with
  | true =>
    rw [if_pos rfl]
    refine wp_mono (localAmqpDisconnectBs_hangsUp false hc) (fun _ c₁ h₁ => ?_) fun _ _ h => h
    unfold settleWith
    rw [wp_bind, wp_clearInerror, wp_bind, wp_getBs, wp_ite, if_neg (by simp [h₁.uncommitted])]
    exact h₁.cleared.resting
  | false =>
    have hsame : c.modified (fun bs => { bs with inerror := false }) = c := by
      unfold Cell.modified
      rw [← he]
    unfold settleWith withConn
    rw [if_neg (by simp), wp_pure, wp_bind, wp_clearInerror, hsame, wp_bind, wp_getBs, wp_ite]
    split
    · rename_i hu
      rw [wp_bind, wp_bind, wp_getBs, wp_ite]
      split
      · rename_i hsome
        exact hact ⟨hc, hsome, .inr he⟩ hu
      · rename_i hnone
        unfold Resting Talk.Rests at hc
        cases ht : c.talk t <;> simp_all
    · exact hc

theorem amqpLocalAbort_talks (hh : c.backend.holdoff = true) (hc : Resting t c) :
    wp (amqpLocalAbort o) (fun _ => Resting t) (fun _ _ => False) c :=
  turn_talks (amqpLocalRollback_talks hh) hc

theorem amqpLocalCommit_talks (hh : c.backend.holdoff = true) (hc : Resting t c) :
    wp (amqpLocalCommit o) (fun _ => Resting t) (fun _ _ => False) c := by
  unfold amqpLocalCommit
  rw [wp_bind, wp_getBs, wp_ite]
  split
  · have hw := hc.silent (.warned t c (.discarding c.bs.uncommitted c.bs.brokerId))
    rw [wp_bind, wp_elog_held o _ hh, wp_bind]
    refine wp_mono (localAmqpDisconnectBs_hangsUp false hw) (fun _ c₁ h₁ => ?_) fun _ _ h => h
    rw [wp_modifyBs]
    have hup : HungUp t (c₁.modified fun bs => { bs with inerror := false, uncommitted := 0 }) :=
      ⟨h₁.talk, h₁.conn, rfl⟩
    exact hup.resting
  · exact turn_talks (amqpLocalFlush_talks hh) hc

theorem amqpLocalSubxact_talks (hh : c.backend.holdoff = true) (hc : Resting t c) :
    wp (amqpLocalSubxact o) (fun _ => Resting t) (fun _ _ => False) c := by
  unfold amqpLocalSubxact
  rw [wp_bind, wp_getBs, wp_ite]
  split
  · rw [wp_bind, wp_elog_held o _ hh, wp_modifyBs]
    exact (hc.silent (.warned t c _)).flagged
  · exact hc

end Callbacks

section Runs

variable {s : Session} {st : Step} {c : Cell} {t : Talk} {b : Int}

/-- From rest to rest, wherever the dialogue began. -/
def Converses (c c' : Cell) : Prop := ∀ t, Resting t c → Resting t c'

theorem converses {α : Type} {x : M α} (hx : ∀ t, Preserves (Resting t) x) (c : Cell) :
    wp x (fun _ => Converses c) (fun _ => Converses c) c := by
  unfold wp
  cases hrun : x c with
  | ok v c' =>
    intro t ht
    have h := hx t c ht
    unfold wp at h
    rwa [hrun] at h
  | error e c' =>
    intro t ht
    have h := hx t c ht
    unfold wp at h
    rwa [hrun] at h

/-- A callback carries the dialogue of every entry from rest to rest. -/
theorem serves_converses {f : Outcomes → M Unit} (o : Int → Outcomes)
    (hsame : ∀ o c, c.backend.holdoff = true → wp (f o) (fun _ => SameList c) (fun _ _ => False) c)
    (hf : ∀ o t c, c.backend.holdoff = true → Resting t c → wp (f o) (fun _ => Resting t) (fun _ _ => False) c) :
    Serves o f fun _ => Converses := by
  intro b c hh
  have hs := hsame (o b) c hh
  unfold wp at hs ⊢
  cases hrun : f (o b) c with
  | error e c' =>
    rw [hrun] at hs
    exact hs
  | ok u c' =>
    rw [hrun] at hs
    refine ⟨hs, fun t ht => ?_⟩
    have h := hf (o b) t c hh ht
    unfold wp at h
    rwa [hrun] at h

theorem callbacks_converse (o : Int → Outcomes) : CallbacksDo o fun _ => Converses := by
  have same : ∀ {f : Outcomes → M Unit}, (∀ o c, c.backend.holdoff = true →
      wp (f o) (fun _ => Between c) (fun _ _ => False) c) →
      ∀ o c, c.backend.holdoff = true → wp (f o) (fun _ => SameList c) (fun _ _ => False) c :=
    fun hf o c hh => wp_mono (hf o c hh) (fun _ _ h => h.sameList) fun _ _ h => h
  constructor
  · exact serves_converses (f := amqpLocalPhase2 .commit) o (same fun _ _ => amqpLocalCommit_served)
      fun _ _ _ => amqpLocalCommit_talks
  · exact serves_converses (f := amqpLocalPhase2 .abort) o (same fun _ _ => amqpLocalAbort_served)
      fun _ _ _ => amqpLocalAbort_talks
  · exact serves_converses (f := amqpLocalPhase2 .prepare) o (fun _ c _ => .refl c) fun _ _ _ _ h => h
  · exact serves_converses o (same fun _ _ => amqpLocalSubxact_served) fun _ _ _ => amqpLocalSubxact_talks

theorem Step.Calls.converses {x : M Bool} (hx : st.Calls b x) (ho : ¬ (st.outcomes b).HalfOpen) (c : Cell) :
    wp x (fun _ => Converses c) (fun _ => Converses c) c := by
  cases hx with
  | publish _ _ => exact PgAmqp.converses (fun t => pgAmqpPublishOpt_talks ho (.inr rfl) b _) c
  | autonomousPublish _ _ => exact PgAmqp.converses (fun t => pgAmqpPublishOpt_talks ho (.inl rfl) b _) c
  | exchangeDeclare _ _ => exact PgAmqp.converses (fun t => pgAmqpExchangeDeclare_talks ho b _) c
  | disconnect _ => exact PgAmqp.converses (fun t => localAmqpDisconnect_talks) c

theorem Trail.talks {k k' : Backend} {bs bs' : BrokerState} {evs : List Event} (h : Trail Converses k bs evs k' bs')
    (ht : t.Rests bs) : (t.after evs).Rests bs' := by
  induction h generalizing t with
  | still _ _ => exact ht
  | work h => exact h t ht
  | trans _ _ ih ih' =>
    rw [Talk.after_append]
    exact ih' (ih ht)

/-- Every step carries the dialogue of every entry from rest to rest. -/
theorem next_talks (hs : Runs Uncancelled s) (ho : Uncancelled s st) (ht : t.Rests (s.entry b)) :
    (t.after (logOf b (trace st s).log)).Rests ((next st s).entry b) := by
  by_cases hset : ∃ g, st.action = .set g
  · obtain ⟨g, hg⟩ := hset
    unfold next trace exec
    rw [hg]
    exact ht
  · have htrails : Trails (fun _ => Converses) s (next st s) (trace st s).log := by
      refine exec_works (Runs.shaped hs) (fun g hg => hset ⟨g, hg⟩) (callbacks_converse _) fun b x hx => ?_
      have hconv := hx.converses (fun hhalf => ho b ⟨hx.target, hhalf⟩) (s.cell b)
      exact wp_mono (wp_and (calls_called (Runs.anchored hs) hx) hconv)
        (fun _ _ h => h.1.landed h.2) fun _ _ h => h.1.landed h.2
    exact (htrails b).talks ht

theorem run_talks (hs : Runs Uncancelled s) (steps : List Step) (ha : Admits next Uncancelled steps s)
    (ht : t.Rests (s.entry b)) :
    (t.after (logOf b (gathered next (fun st s => (trace st s).log) steps s))).Rests ((run next steps s).entry b) := by
  induction steps generalizing s t with
  | nil => exact ht
  | cons st rest ih =>
    rw [gathered, logOf_append, Talk.after_append]
    exact ih (.step st hs ha.1) ha.2 (next_talks hs ha.1 ht)

/-- The exit ends every dialogue. -/
theorem exit_talks (hs : s.Shaped) (o : Int → Outcomes) (ht : t.Rests (s.entry b)) :
    t.after (logOf b (s.exit o).2) = .idle := by
  have htrails : Trails (fun _ => Converses) s (s.exit o).1 (s.exit o).2 := by
    refine sweep_trails (f := fun _ => amqpAtexit) (serves_converses o (fun _ c _ => ?_) fun _ t c _ hc => ?_) hs.ids
    · unfold amqpAtexit
      cases hk : c.bs.conn with
      | none =>
        rw [wp_localAmqpDisconnectBs_none true hk]
        exact .refl c
      | some k =>
        rw [wp_localAmqpDisconnectBs_closed hk]
        exact ⟨rfl, rfl, rfl, rfl, rfl, rfl, rfl, rfl, rfl, rfl, id⟩
    · exact wp_mono (localAmqpDisconnectBs_hangsUp true hc) (fun _ _ h => h.resting) fun _ _ h => h
  have hconn : ((s.exit o).1.entry b).conn = none := by
    unfold Session.entry
    cases hlook : lookup (s.exit o).1.head b with
    | none => rfl
    | some e => exact ((exit_vacant hs).1 e (List.mem_of_find?_eq_some hlook)).conn
  have hrest := (htrails b).talks ht
  unfold Talk.Rests at hrest
  rw [hconn] at hrest
  split at hrest
  · assumption
  · simp at hrest
  · simp at hrest
  · exact hrest.elim

/-- In every run in which no cancel is taken at the warning of a failed host attempt, what
the extension says to the library for an entry is in order from the load on, stands
as the entry has it after every step, and is over when the backend has exited. -/
theorem dialogues_in_order (gucs : Gucs) (myProcPid : Nat) (steps : List Step)
    (h : Admits next Uncancelled steps (.loaded gucs myProcPid)) (o : Int → Outcomes) (b : Int) :
    let s := run next steps (.loaded gucs myProcPid)
    let log := logOf b (gathered next (fun st s => (trace st s).log) steps (.loaded gucs myProcPid))
    (Talk.idle.after log).Rests (s.entry b) ∧ Talk.idle.after (log ++ logOf b (s.exit o).2) = .idle ∧
      ∀ l, l <+: log ++ logOf b (s.exit o).2 → Talk.idle.after l ≠ .astray := by
  intro s log
  have hinit := Session.loaded_initial gucs myProcPid
  have hruns : Runs Uncancelled (.loaded gucs myProcPid) := .init hinit
  have hfresh : Talk.idle.Rests ((Session.loaded gucs myProcPid).entry b) := by
    rw [entry_initial hinit]
    exact ⟨rfl, rfl⟩
  have hrest : (Talk.idle.after log).Rests (s.entry b) := run_talks hruns steps h hfresh
  have hexit : Talk.idle.after (log ++ logOf b (s.exit o).2) = .idle := by
    rw [Talk.after_append]
    exact exit_talks (Runs.shaped (hruns.run steps h)) o hrest
  exact ⟨hrest, hexit, fun l hl => Talk.after_prefix hl (by rw [hexit]; decide)⟩

/-- A message is published and committed, and the next publish is the first of the next
transaction on the same connection. -/
theorem committed_talks :
    let steps := [Step.good (.publish (.to1 "a")), .good .commit, .good (.publish (.to1 "b"))]
    let s := run next steps (.loaded {} 0)
    let log := logOf 1 (gathered next (fun st s => (trace st s).log) steps (.loaded {} 0))
    Talk.idle.after log = .ready 0 1 ∧ (Talk.idle.after log).Rests (s.entry 1) ∧
      Talk.idle.after (log ++ logOf 1 (s.exit fun _ => .good).2) = .idle ∧
      ∀ l, l <+: log ++ logOf 1 (s.exit fun _ => .good).2 → Talk.idle.after l ≠ .astray :=
  ⟨by decide +kernel,
    dialogues_in_order {} 0 [.good (.publish (.to1 "a")), .good .commit, .good (.publish (.to1 "b"))]
      ⟨uncancelled_good _ _, uncancelled_good _ _, uncancelled_good _ _, trivial⟩ (fun _ => .good) 1⟩

end Runs

end PgAmqp
