import PgAmqp.PublishPaths

/-!
# Channel 1 and the shared connection

`amqp.exchange_declare` and `amqp.autonomous_publish` use channel 1 of the
connection whose channel 2 holds the messages of the transaction. Both either
leave that connection alone or give it up, and which of the two is told by the
answers of the library.
-/
namespace PgAmqp

open ProgramLogic

section Declare

variable {F : Faults} {o : Outcomes} {c : Cell} {k : Connection}

/-- The reply to the declaration, if there is a connection to ask on. -/
def Cell.declared (c : Cell) (o : Outcomes) : Reply :=
  (o.exchangeDeclare (c.counts .exchangeDeclare)).reply

/-- The cell after the rpc was answered. -/
theorem amqpExchangeDeclare_held (d : Declaration) (hk : c.bs.conn = some k) :
    wp (amqpExchangeDeclare o d) (fun r c' => r = c.declared o ∧ Held c c') (fun _ _ => False) c := by
  have hk' : (c.ticked .exchangeDeclare).bs.conn = some k := hk
  unfold amqpExchangeDeclare
  rw [wp_bind, wp_tick, wp_rpc hk']
  refine ⟨rfl, ⟨rfl, rfl, Nat.le_refl _, id⟩, (Quiet.refl _).snoc rfl rfl, fun q hq => ?_, rfl, rfl⟩
  obtain rfl : k = q := Option.some.inj (hk.symm.trans hq)
  refine ⟨_, rfl, ?_⟩
  unfold Connection.answered
  split <;> exact ⟨⟨rfl, rfl, rfl, rfl⟩, rfl⟩

/-- The declaration on a connection: it is kept, or given up when the reply is not normal. -/
theorem pgAmqpExchangeDeclare_live {brokerId : Int} {a : DeclareArgs} (hk : c.bs.conn = some k)
    {Q : Bool → Cell → Prop} {E : Raised → Cell → Prop}
    (hkeep : c.declared o = .normal → ∀ c', Held c.link c' → Q true c')
    (hdrop : c.declared o ≠ .normal → ∀ c' c'', Held c.link c' → Dropped c' c'' → Q false c'') :
    wp (pgAmqpExchangeDeclare o brokerId a) Q E c := by
  have hlink : c.link.bs.conn = some k := hk
  unfold pgAmqpExchangeDeclare
  rw [wp_bind, localAmqpGetBs_live o brokerId hk, wp_bind, wp_getBs, wp_ite,
    if_pos (by rw [hlink]; rfl)]
  refine wp_seq (wp_mono (amqpExchangeDeclare_held a.declaration hlink) (fun _ _ h => h)
    (fun _ _ h => h.elim)) fun r c' h => ?_
  obtain ⟨rfl, h⟩ := h
  rw [wp_ite]
  split
  · rename_i hr
    exact hkeep hr c' h
  · rename_i hr
    obtain ⟨k', hk', -⟩ := h.conn k hlink
    exact wp_seq (wp_mono (localAmqpDisconnectBs_dropped false hk') (fun _ _ h => h)
      (fun _ _ h => h.elim)) fun _ c'' h'' => hdrop hr c' c'' h h''

/-- The same on a connection that the call has just made. -/
theorem pgAmqpExchangeDeclare_spec (brokerId : Int) (a : DeclareArgs) (hidle : Idle c.bs)
    (hhalf : o.HalfOpen → F.halfOpen)
    (hlossy : c.declared o ≠ .normal → c.bs.uncommitted = 0 ∨ F.lossy) :
    wp (pgAmqpExchangeDeclare o brokerId a) (fun _ => Unacked F c) (fun _ => Unacked F c) c := by
  cases hk : c.bs.conn with
  | some k =>
    refine pgAmqpExchangeDeclare_live hk (fun _ c' h => ?_) (fun hr c' c'' h hd => ?_)
    · exact ⟨.of_link (h.path hk), h.quiet.ackedIn⟩
    · exact ⟨.of_link (h.altered.dropped hd hk (hlossy hr)), (h.quiet.trans hd.quiet).ackedIn⟩
  | none =>
    have hz := hidle hk
    unfold pgAmqpExchangeDeclare
    refine wp_seq (wp_mono (localAmqpGetBs_connected o brokerId hk hz) (fun _ _ h => h)
      (fun e c' h => ?_)) fun _ c' h => ?_
    · rcases h with h | ⟨h, ho⟩
      · exact ⟨.of_link h.path, h.quiet.ackedIn⟩
      · exact ⟨.of_link (h.path hk fun _ _ => .inr (hhalf ho)), h.quiet.ackedIn⟩
    · rw [wp_bind, wp_getBs, wp_ite]
      rcases h with h | h
      · have hnone : c'.bs.conn = none := h.conn.trans hk
        rw [if_neg (by simp [hnone])]
        exact ⟨.of_link h.path, h.quiet.ackedIn⟩
      · have hp : Path F c.link c' := h.path hk fun _ hk => .inl hk
        have hu : c'.bs.uncommitted = 0 := h.uncommitted.trans hz
        obtain ⟨k, hk', -⟩ := h.conn
        rw [if_pos (by simp [hk'])]
        refine wp_seq (wp_mono (amqpExchangeDeclare_held a.declaration hk') (fun _ _ h => h)
          (fun _ _ h => h.elim)) fun r c'' h'' => ?_
        have hq := h.quiet.trans h''.2.quiet
        rw [wp_ite]
        split
        · exact ⟨.of_link (hp.trans (h''.2.path hk')), hq.ackedIn⟩
        · obtain ⟨k'', hk'', -⟩ := h''.2.conn k hk'
          refine wp_seq (wp_mono (localAmqpDisconnectBs_dropped false hk'') (fun _ _ h => h)
            (fun _ _ h => h.elim)) fun _ c₃ h₃ => ?_
          exact ⟨.of_link (hp.trans (h''.2.altered.dropped h₃ hk' (.inl hu))),
            (hq.trans h₃.quiet).ackedIn⟩

/-- The body of `amqp.disconnect`. -/
theorem localAmqpDisconnect_spec (hlossy : c.bs.uncommitted = 0 ∨ F.lossy) :
    wp localAmqpDisconnect (fun _ => Unacked F c) (fun _ => Unacked F c) c := by
  unfold localAmqpDisconnect
  rw [wp_bind, wp_localAmqpGetABs]
  -- without a connection the rest clears the flag and forgets the hosts
  have rest : ∀ {c₁ : Cell}, c₁.bs.conn = none → Path F c.link c₁ → ackedIn c₁.log = ackedIn c.log →
      wp (do
        modifyBs fun bs => { bs with
          inerror := false, idx := 0, consecutiveFailures := 0, lastFailedConnect := 0 }
        localAmqpFreeHosts) (fun _ => Unacked F c) (fun _ => Unacked F c) c₁ := by
    intro c₁ hc hp ha
    rw [wp_bind, wp_modifyBs]
    have hreset := hp.tail (c := c₁.modified fun bs => { bs with
      inerror := false, idx := 0, consecutiveFailures := 0, lastFailedConnect := 0 })
      ⟨⟨rfl, rfl, Nat.le_refl _, id⟩, [], (List.append_nil _).symm, .reset hc hc rfl rfl⟩
    have done : ∀ c', Still (c₁.modified fun bs => { bs with
        inerror := false, idx := 0, consecutiveFailures := 0, lastFailedConnect := 0 }) c' →
        Unacked F c c' := fun c' h => ⟨.of_link (hreset.trans h.path), h.quiet.ackedIn.trans ha⟩
    exact wp_mono ((Still.aside _).hostsFreed _ (.refl _)) (fun _ => done) (fun _ => done)
  cases hk : c.bs.conn with
  | none =>
    rw [wp_bind, wp_localAmqpDisconnectBs_none true (c := c.link) hk]
    exact rest hk .refl rfl
  | some k =>
    refine wp_seq (wp_mono (localAmqpDisconnectBs_dropped (c := c.link) true hk) (fun _ _ h => h)
      (fun _ _ h => h.elim)) fun _ c₁ h => ?_
    exact rest h.conn (h.path hk hlossy) h.quiet.ackedIn

end Declare

/-- The buffered messages are where they were: on the same connection, with the same
count and the same error flag. -/
structure Undisturbed (bs bs' : BrokerState) : Prop where
  conn : ∃ k k', bs.conn = some k ∧ bs'.conn = some k' ∧ k.Keeps k'
  uncommitted : bs'.uncommitted = bs.uncommitted
  inerror : bs'.inerror = bs.inerror

theorem Undisturbed.refl {bs : BrokerState} {k : Connection} (hk : bs.conn = some k) :
    Undisturbed bs bs := ⟨⟨k, k, hk, hk, .refl k⟩, rfl, rfl⟩

theorem Undisturbed.trans {bs bs' bs'' : BrokerState} (h : Undisturbed bs bs')
    (h' : Undisturbed bs' bs'') : Undisturbed bs bs'' := by
  obtain ⟨k, k', hk, hk', hkeep⟩ := h.conn
  obtain ⟨q, k'', hq, hk'', hkeep'⟩ := h'.conn
  obtain rfl : k' = q := Option.some.inj (hk'.symm.trans hq)
  exact ⟨⟨k, k'', hk, hk'', hkeep.trans hkeep'⟩, h'.uncommitted.trans h.uncommitted,
    h'.inerror.trans h.inerror⟩

theorem Undisturbed.of_eq {bs bs' : BrokerState} {k : Connection} (hk : bs.conn = some k)
    (hc : bs'.conn = bs.conn) (hu : bs'.uncommitted = bs.uncommitted)
    (he : bs'.inerror = bs.inerror) : Undisturbed bs bs' :=
  ⟨⟨k, k, hk, hc.trans hk, .refl k⟩, hu, he⟩

/-- A move that neither drops, nor flags, nor acknowledges leaves the messages alone. -/
theorem Effect.undisturbed {F : Faults} (hl : ¬ F.lossy) (hf : ¬ F.flagged) {log evs : List Event}
    {bs bs' : BrokerState} (h : Effect F log bs bs' evs) {k : Connection} (hk : bs.conn = some k)
    (hu : 0 < bs.uncommitted) (ha : ackedIn evs = []) : Undisturbed bs bs' := by
  cases h with
  | silent _ _ hconn hunc herr => exact .of_eq hk hconn hunc herr
  | read q q' hq hq' hkeep _ hunc herr => exact ⟨⟨q, q', hq, hq', hkeep⟩, hunc, herr⟩
  | flag _ _ _ _ _ _ _ hflag => exact absurd hflag hf
  | drop _ _ _ _ _ hz => exact absurd (hz.resolve_right hl) (by omega)
  | connect _ _ _ hnone => exact absurd (hnone.symm.trans hk) (by simp)
  | send _ _ _ _ _ _ _ hconn hunc herr => exact .of_eq hk hconn hunc herr
  | accept _ _ _ hconn hunc herr => exact .of_eq hk hconn hunc herr
  | ack => simp [ackedIn] at ha
  | reset hnone => exact absurd (hnone.symm.trans hk) (by simp)

theorem Path.acked_le {F : Faults} {c c' : Cell} (h : Path F c c') :
    (ackedIn c.log).length ≤ (ackedIn c'.log).length := by
  induction h with
  | refl => exact Nat.le_refl _
  | tail _ hm ih =>
    obtain ⟨evs, hl, -⟩ := hm.effect
    rw [hl, ackedIn_append, List.length_append]
    omega

theorem Path.undisturbed {F : Faults} (hl : ¬ F.lossy) (hf : ¬ F.flagged) {c c' : Cell}
    {k : Connection} (hk : c.bs.conn = some k) (hu : 0 < c.bs.uncommitted) (h : Path F c c')
    (ha : (ackedIn c'.log).length ≤ (ackedIn c.log).length) : Undisturbed c.bs c'.bs := by
  induction h with
  | refl => exact .refl hk
  | tail hp hm ih =>
    obtain ⟨evs, hlog, he⟩ := hm.effect
    have hle := Path.acked_le hp
    rw [hlog, ackedIn_append, List.length_append] at ha
    have hb := ih (by omega)
    obtain ⟨-, k', -, hk', -⟩ := hb.conn
    refine hb.trans (he.undisturbed hl hf hk' (hb.uncommitted ▸ hu) ?_)
    exact List.length_eq_zero_iff.mp (by omega)

/-- The calls that keep the connection, told from what they are given and answered. -/
def Cell.declareKeeps (c : Cell) (o : Outcomes) : Bool := c.declared o = .normal

def Cell.publishKeeps (c : Cell) (o : Outcomes) (a : PublishArgs) : Bool :=
  a.bodyTooLarge c.backend.gucs ||
    c.serves o ⟨c.backend.nextCall, a.content⟩ a.badDeliveryMode 1

section Disturbance

variable {o : Outcomes} {c : Cell} {k : Connection}

theorem pgAmqpExchangeDeclare_undisturbed (brokerId : Int) (a : DeclareArgs)
    (hk : c.bs.conn = some k) (hu : 0 < c.bs.uncommitted) :
    Undisturbed c.bs (final (pgAmqpExchangeDeclare o brokerId a) c).bs ↔
      c.declareKeeps o = true := by
  have hspec : wp (pgAmqpExchangeDeclare o brokerId a)
      (fun _ c' => if c.declareKeeps o = true then Undisturbed c.bs c'.bs else c'.bs.uncommitted = 0)
      (fun _ c' => if c.declareKeeps o = true then Undisturbed c.bs c'.bs else c'.bs.uncommitted = 0)
      c := by
    refine pgAmqpExchangeDeclare_live hk (fun hr c' h => ?_) (fun hr c' c'' _ hd => ?_)
    · rw [if_pos (by simp [Cell.declareKeeps, hr])]
      obtain ⟨k', hk', hkeep, -⟩ := h.conn k hk
      exact ⟨⟨k, k', hk, hk', hkeep⟩, h.uncommitted, h.inerror⟩
    · rw [if_neg (by simp [Cell.declareKeeps, hr])]
      exact hd.uncommitted
  have hfin := wp_final hspec
  constructor
  · intro h
    refine Decidable.not_not.mp fun hn => ?_
    rw [if_neg hn] at hfin
    have := h.uncommitted
    omega
  · intro h
    rwa [if_pos h] at hfin

theorem pgAmqpPublishOpt_keeps (brokerId : Int) {a : PublishArgs} (hk : c.bs.conn = some k)
    (hu : 0 < c.bs.uncommitted) (h : c.publishKeeps o a = true) :
    wp (pgAmqpPublishOpt o brokerId a 1) (fun _ c' => Undisturbed c.bs c'.bs)
      (fun _ c' => Undisturbed c.bs c'.bs) c := by
  have hF : a.bodyTooLarge c.backend.gucs = false → c.PublishFaults o ⟨c.backend.nextCall, a.content⟩
      a.badDeliveryMode 1 ⟨False, True, True, True, False⟩ := by
    intro hb
    rw [Cell.publishKeeps, hb, Bool.false_or] at h
    refine ⟨fun _ hs => ?_, fun _ _ => trivial, fun _ _ _ _ => trivial, fun _ => trivial, fun hn => ?_⟩
    · exact absurd (h.symm.trans hs) (by decide)
    · rcases hn rfl with hnone | hs
      · exact absurd (hnone.symm.trans hk) (by simp)
      · exact absurd (h.symm.trans hs) (by decide)
  refine wp_mono (pgAmqpPublishOpt_spec o brokerId a (.inl rfl) (fun hn => ?_) hF)
    (fun r c' h' => ?_) (fun _ c' h' => ?_)
  · exact absurd (hn.symm.trans hk) (by simp)
  · exact h'.left.path.undisturbed id id hk hu (by simp [h'.acked])
  · exact h'.left.path.undisturbed id id hk hu (by simp [h'.acked])

theorem pgAmqpPublishOpt_abandons (brokerId : Int) {a : PublishArgs} (hk : c.bs.conn = some k)
    (h : c.publishKeeps o a = false) :
    wp (pgAmqpPublishOpt o brokerId a 1) (fun _ c' => c'.bs.uncommitted = 0)
      (fun _ c' => c'.bs.uncommitted = 0) c := by
  rw [Cell.publishKeeps, Bool.or_eq_false_iff] at h
  obtain ⟨hb, hs⟩ := h
  have hs : c.numbered.serves o ⟨c.backend.nextCall, a.content⟩ a.badDeliveryMode 1 = false := hs
  let F : Faults := ⟨True, True, True, True, True⟩
  have hzero : ∀ c' c'' : Cell, c'.bs.uncommitted = 0 → Leads F c' c'' → c''.bs.uncommitted = 0 := by
    intro c' c'' hz hl
    have := hl.path.uncommitted_le
    rw [hl.acked] at this
    omega
  unfold pgAmqpPublishOpt
  rw [wp_bind, wp_getGucs, wp_ite, if_neg (by simp [hb]), wp_bind, wp_newMsg]
  refine publish_live (F := F) (c := c.numbered) hk (.inl rfl)
    ⟨fun _ _ => .inr trivial, fun _ _ => trivial, fun _ _ _ _ => trivial, fun _ => trivial,
      fun _ => trivial⟩ (fun _ _ hor => ?_) (fun _ _ hs' => ?_) (fun _ _ polls writes c' _ ha => ?_)
  · exact absurd (hor.resolve_right fun hn => hn (.inl rfl)) (by simp [hs])
  · exact absurd hs' (by simp [hs])
  · refine wp_mono (lastPass_spec (F := F) brokerId ha.conn ha.uncommitted (.inl rfl)
      (fun _ => trivial) trivial (fun _ _ => trivial))
      (fun r c'' h'' => hzero c' c'' ha.uncommitted ⟨h''.path, ?_⟩)
      (fun _ c'' h'' => hzero c' c'' ha.uncommitted h'')
    simp [h''.acked]

theorem pgAmqpPublishOpt_undisturbed (brokerId : Int) (a : PublishArgs)
    (hk : c.bs.conn = some k) (hu : 0 < c.bs.uncommitted) :
    Undisturbed c.bs (final (pgAmqpPublishOpt o brokerId a 1) c).bs ↔ c.publishKeeps o a = true := by
  constructor
  · intro h
    cases hp : c.publishKeeps o a with
    | true => rfl
    | false =>
      have hz := wp_final (pgAmqpPublishOpt_abandons brokerId hk hp)
      have := h.uncommitted
      omega
  · intro h
    exact wp_final (pgAmqpPublishOpt_keeps brokerId hk hu h)

end Disturbance

end PgAmqp
