import PgAmqp.Budgets
import PgAmqp.Passes
import PgAmqp.Sends
import PgAmqp.Trails

/-!
# A transaction in error

A failed read or write on channel 2 flags the entry in error, and so does a subtransaction
that rolls back with messages counted. From then on to the end of the transaction nothing
is delivered to its broker: no publish is acknowledged, no message is written to channel
2, not even on a connection that an autonomous publish has made meanwhile, and no
`tx.commit` is sent.
-/
namespace PgAmqp

open ProgramLogic Transition

/-- Not a message or an acknowledgement on channel 2, and not a `tx.commit`. -/
def Event.mute : Event → Bool
  | .basicPublish _ channel _ _ => channel ≠ 2
  | .acknowledged _ channel _ => channel ≠ 2
  | .rpc .txCommit _ _ => false
  | _ => true

theorem Event.neutral_mute {e : Event} (h : e.neutral = true) : e.mute = true := by
  cases e with
  | rpc kind k r => cases kind <;> simp_all [Event.neutral, Event.mute]
  | _ => simp_all [Event.neutral, Event.mute]

def Hushed (log : List Event) : Prop := ∀ e ∈ log, e.mute = true

theorem Hushed.append {log evs : List Event} (h : Hushed log) (h' : Hushed evs) : Hushed (log ++ evs) :=
  fun e he => (List.mem_append.mp he).elim (h e) (h' e)

theorem Hushed.snoc {log : List Event} (h : Hushed log) {e : Event} (he : e.mute = true) : Hushed (log ++ [e]) :=
  h.append (by simpa [Hushed] using he)

theorem Hushed.quiet {c c' : Cell} (h : Hushed c.log) (hq : Quiet c c') : Hushed c'.log := by
  obtain ⟨evs, he, hn⟩ := hq
  rw [he]
  exact h.append fun e hm => Event.neutral_mute (hn e hm)

/-- The entry is flagged in error, and nothing was delivered. -/
structure Poisoned (c : Cell) : Prop where
  inerror : c.bs.inerror = true
  idle : Idle c.bs
  hushed : Hushed c.log

section Publish

variable {c c' : Cell} {o : Outcomes} {m : Msg} {channel : Nat} {onceMore : Bool} {redo giveUp : M Bool}

theorem Poisoned.warned (h : Poisoned c) (r : Report) : Poisoned (c.warned r) :=
  ⟨h.inerror, h.idle, h.hushed.snoc rfl⟩

theorem Poisoned.dropped (h : Poisoned c) (hd : Dropped c c') : Poisoned c' :=
  ⟨hd.inerror.trans h.inerror, fun _ => hd.uncommitted, h.hushed.quiet hd.quiet⟩

theorem elog_poisoned (r : Report) : Preserves Poisoned (elog o r) := by
  intro c h
  rw [wp_elog]
  split
  · exact h.warned r
  · exact h.warned r

theorem localAmqpDrainReturns_poisoned (o : Outcomes) : Preserves Poisoned (localAmqpDrainReturns o) :=
  KeptByDrain.preserves (G := fun _ => True) {
    arrived := fun _ _ _ _ => trivial
    polled := fun _ h => ⟨h.inerror, h.idle, h.hushed⟩
    taken := fun _ _ _ _ h => ⟨h.inerror, fun hn => h.idle (Option.map_eq_none_iff.mp hn), h.hushed⟩
    returned := fun _ _ _ h => h.warned _
    noted := fun _ h => h.warned _
    blocked := fun _ _ h => ⟨h.inerror, h.idle, h.hushed⟩ }

theorem localAmqpDisconnectBs_poisoned : Preserves Poisoned (localAmqpDisconnectBs false) := by
  intro c h
  cases hk : c.bs.conn with
  | none =>
    rw [wp_localAmqpDisconnectBs_none false hk]
    exact h
  | some k => exact wp_mono (localAmqpDisconnectBs_dropped false hk) (fun _ _ hd => h.dropped hd) fun _ _ hd => hd.elim

theorem orRedo_poisoned (hredo : Preserves Poisoned redo) (hgive : Preserves Poisoned giveUp) :
    Preserves Poisoned (orRedo channel onceMore redo giveUp) := by
  intro c h
  unfold orRedo
  rw [wp_bind, wp_getBs, wp_ite]
  split
  · exact wp_seq (localAmqpDisconnectBs_poisoned c h) fun _ c' h' => hredo c' h'
  · exact hgive c h

theorem setInerror_poisoned : Preserves Poisoned setInerror := fun _ h => ⟨rfl, h.idle, h.hushed⟩

/-- The write goes to channel 1, so it delivers nothing of the transaction. -/
theorem Poisoned.buffered (h : Poisoned c) (hch : channel ≠ 2) (k : Connection) :
    Poisoned (c.buffered o k channel m) := by
  refine ⟨h.inerror, fun hn => ?_, h.hushed.snoc (by simp [Event.mute, hch])⟩
  simp [Cell.buffered] at hn

theorem publishWritten_poisoned (hch : channel ≠ 2) (hredo : Preserves Poisoned redo) (k : Connection) (w : Write) :
    Preserves Poisoned (publishWritten m channel onceMore redo k w) := by
  refine .ite (fun _ => orRedo_poisoned hredo (.bind setInerror_poisoned fun _ => .pure _ _)) fun _ c h => ?_
  have hack : (Event.acknowledged k channel m).mute = true := by simp [Event.mute, hch]
  rw [wp_bind, wp_record, wp_bind, wp_modifyBs, wp_pure]
  refine ⟨h.inerror, fun hn => ?_, h.hushed.snoc hack⟩
  have hu : c.bs.uncommitted = 0 := h.idle hn
  simp [hch, hu]

theorem publishWrite_poisoned (hch : channel ≠ 2) (hredo : Preserves Poisoned redo) :
    Preserves Poisoned (publishWrite o m channel onceMore redo) := by
  intro c h
  unfold publishWrite
  rw [wp_bind, wp_getBs]
  cases c.bs.conn with
  | none => exact h
  | some k =>
    have poll : Preserves Poisoned (publishPoll o m channel) :=
      .ite (fun _ => .bind (localAmqpDrainReturns_poisoned o) fun _ => .pure _ _) fun _ => .pure _ _
    dsimp only
    rw [wp_bind, wp_amqpBasicPublish]
    exact wp_seq (poll _ (h.buffered hch k)) fun _ _ h' => publishWritten_poisoned hch hredo k _ _ h'

theorem publishDrained_poisoned (hch : channel ≠ 2) (hredo : Preserves Poisoned redo) (brokerId : Int)
    (badMode : Option Int) : Preserves Poisoned (publishDrained o brokerId m badMode channel onceMore redo) := by
  have mode : Preserves Poisoned (publishMode o badMode) := by
    cases badMode with
    | none => exact .pure _ _
    | some mode => exact elog_poisoned _
  intro c h
  unfold publishDrained
  rw [wp_bind, wp_getBs, wp_ite]
  split
  · have hrefused : Poisoned (c.recorded (.refused c.bs.conn)) := ⟨h.inerror, h.idle, h.hushed.snoc rfl⟩
    rw [wp_bind, wp_record]
    exact wp_seq (elog_poisoned _ _ hrefused) fun _ _ h' => h'
  · exact wp_seq (mode c h) fun _ c' h' => publishWrite_poisoned hch hredo c' h'

/-- How a call returns on a poisoned entry. -/
structure Denied (channel : Nat) (r : Bool) (c : Cell) : Prop where
  poisoned : Poisoned c
  refused : channel = 2 → r = false

def Denies (channel : Nat) (x : M Bool) : Prop :=
  ∀ c, Poisoned c → wp x (Denied channel) (fun _ => Poisoned) c

theorem Denies.preserves {x : M Bool} (h : Denies channel x) : Preserves Poisoned x :=
  fun c hc => wp_mono (h c hc) (fun _ _ hd => hd.poisoned) fun _ _ hp => hp

theorem publishConnected_denies (hredo : Preserves Poisoned redo) (brokerId : Int) (badMode : Option Int) :
    Denies channel (publishConnected o brokerId m badMode channel onceMore redo) := by
  intro c h
  by_cases hch : channel = 2
  · rw [wp_publishConnected_refused brokerId (by simp [hch, h.inerror])]
    exact ⟨h, fun _ => rfl⟩
  · have denied : ∀ r c', Poisoned c' → Denied channel r c' := fun _ _ h' => ⟨h', fun h2 => absurd h2 hch⟩
    unfold publishConnected
    rw [wp_bind, wp_getBs, wp_ite]
    split
    · refine wp_seq (localAmqpDrainReturns_poisoned o c h) fun r c' h' => ?_
      refine wp_mono (?_ : wp _ (fun _ => Poisoned) (fun _ => Poisoned) c') denied fun _ _ h' => h'
      rw [wp_ite]
      split
      · exact orRedo_poisoned hredo (.pure _ _) c' h'
      · exact publishDrained_poisoned hch hredo brokerId badMode c' h'
    · exact denied false c h

/-- Connecting leaves the flag as it is. -/
theorem localAmqpGetBs_poisoned (brokerId : Int) : Preserves Poisoned (localAmqpGetBs o brokerId) := by
  intro c h
  have hlink : Poisoned c.link := ⟨h.inerror, h.idle, h.hushed⟩
  cases hk : c.bs.conn with
  | some k =>
    rw [localAmqpGetBs_live o brokerId hk]
    exact hlink
  | none =>
    have hz : c.bs.uncommitted = 0 := h.idle hk
    have still : ∀ {c'}, Still c.link c' → Poisoned c' := fun hs =>
      ⟨hs.inerror.trans h.inerror, fun _ => hs.uncommitted.trans hz, hlink.hushed.quiet hs.quiet⟩
    have setting : ∀ {p c'}, Setting p c.link c' → Poisoned c' := fun hs =>
      ⟨hs.inerror.trans h.inerror, fun _ => hs.uncommitted.trans hz, hlink.hushed.quiet hs.quiet⟩
    exact wp_mono (localAmqpGetBs_connected o brokerId hk hz) (fun _ _ h' => h'.elim still setting)
      fun _ _ h' => h'.elim still fun hu => setting hu.1

theorem pgAmqpPublishOpt_denies (brokerId : Int) (a : PublishArgs) (channel : Nat) :
    Denies channel (pgAmqpPublishOpt o brokerId a channel) := by
  have pass : ∀ {m onceMore redo}, Preserves Poisoned redo →
      Denies channel (publishPass o brokerId m a.badDeliveryMode channel onceMore redo) := fun hredo c h =>
    wp_seq (localAmqpGetBs_poisoned brokerId c h) fun _ => publishConnected_denies hredo brokerId _
  intro c h
  unfold pgAmqpPublishOpt
  rw [wp_bind, wp_getGucs, wp_ite]
  split
  · exact wp_seq (elog_poisoned _ c h) fun _ _ h' => ⟨h', fun _ => rfl⟩
  · rw [wp_bind, wp_newMsg]
    exact pass (pass (.pure _ _)).preserves c.numbered ⟨h.inerror, h.idle, h.hushed⟩

theorem pgAmqpExchangeDeclare_poisoned (brokerId : Int) (a : DeclareArgs) :
    Preserves Poisoned (pgAmqpExchangeDeclare o brokerId a) := by
  intro c h
  unfold pgAmqpExchangeDeclare
  refine wp_seq (localAmqpGetBs_poisoned brokerId c h) fun _ c₁ h₁ => ?_
  rw [wp_bind, wp_getBs, wp_ite]
  split
  · rename_i hsome
    obtain ⟨k, hk⟩ := Option.isSome_iff_exists.mp hsome
    have hk' : (c₁.ticked .exchangeDeclare).bs.conn = some k := hk
    unfold amqpExchangeDeclare
    rw [bind_assoc, wp_bind, wp_tick, wp_bind, wp_rpc hk']
    generalize o.exchangeDeclare _ = answer
    have hasked : Poisoned ((c₁.ticked .exchangeDeclare).asked (.exchangeDeclare a.declaration) answer k) :=
      ⟨h₁.inerror, fun hn => by simp [Cell.asked] at hn, h₁.hushed.snoc rfl⟩
    rw [wp_ite]
    split
    · exact hasked
    · exact wp_seq (localAmqpDisconnectBs_poisoned _ hasked) fun _ _ h' => h'
  · exact h₁

end Publish

section Callbacks

variable {c c' : Cell} {o : Outcomes}

/-- The end of the transaction has nothing to deliver. -/
structure Barren (bs : BrokerState) : Prop where
  nothing : bs.inerror = true ∨ bs.uncommitted = 0
  idle : Idle bs

/-- An entry that has nothing to deliver is left so, and nothing was delivered. -/
def Stifles (c c' : Cell) : Prop := Barren c.bs → Hushed c.log → Barren c'.bs ∧ Hushed c'.log

/-- Nothing is counted any more, and nothing was delivered. -/
structure Wasted (c : Cell) : Prop where
  uncommitted : c.bs.uncommitted = 0
  hushed : Hushed c.log

theorem Wasted.barren (h : Wasted c) : Barren c.bs ∧ Hushed c.log :=
  ⟨⟨.inr h.uncommitted, fun _ => h.uncommitted⟩, h.hushed⟩

theorem Poisoned.barren (h : Poisoned c) : Barren c.bs ∧ Hushed c.log := ⟨⟨.inl h.inerror, h.idle⟩, h.hushed⟩

theorem localAmqpDisconnectBs_wasted (graceful : Bool) (hb : Barren c.bs) (hl : Hushed c.log) :
    wp (localAmqpDisconnectBs graceful) (fun _ => Wasted) (fun _ _ => False) c := by
  cases hk : c.bs.conn with
  | none =>
    rw [wp_localAmqpDisconnectBs_none graceful hk]
    exact ⟨hb.idle hk, hl⟩
  | some k =>
    exact wp_mono (localAmqpDisconnectBs_dropped graceful hk) (fun _ _ hd => ⟨hd.uncommitted, hl.quiet hd.quiet⟩)
      fun _ _ hd => hd

theorem settleWith_wasted (act : M Unit) (h : Wasted c) :
    wp (do clearInerror; settleWith act) (fun _ => Wasted) (fun _ _ => False) c := by
  unfold settleWith
  rw [wp_bind, wp_clearInerror, wp_bind, wp_getBs, wp_ite, if_neg (by simp [h.uncommitted])]
  exact ⟨h.uncommitted, h.hushed⟩

/-- An entry in error is given up, and any other one has nothing to end. -/
theorem turn_wasted (act : M Unit) (hb : Barren c.bs) (hl : Hushed c.log) :
    wp (do dropErrored; clearInerror; settleWith act) (fun _ => Wasted) (fun _ _ => False) c := by
  unfold dropErrored
  rw [wp_bind, wp_bind, wp_getBs, wp_ite]
  split
  · exact wp_mono (localAmqpDisconnectBs_wasted false hb hl) (fun _ _ h => settleWith_wasted act h) fun _ _ h => h
  · rename_i he
    exact settleWith_wasted act ⟨hb.nothing.resolve_left he, hl⟩

theorem amqpLocalCommit_wasted (hh : c.backend.holdoff = true) (hb : Barren c.bs) (hl : Hushed c.log) :
    wp (amqpLocalCommit o) (fun _ => Wasted) (fun _ _ => False) c := by
  unfold amqpLocalCommit
  rw [wp_bind, wp_getBs, wp_ite]
  split
  · rw [wp_bind, wp_elog_held o _ hh, wp_bind]
    refine wp_mono (localAmqpDisconnectBs_wasted false hb (hl.snoc rfl)) (fun _ _ h => ?_) fun _ _ h => h
    rw [wp_modifyBs]
    exact ⟨rfl, h.hushed⟩
  · exact turn_wasted _ hb hl

/-- Where there is nothing to flag, the abort of a subtransaction does nothing. -/
theorem amqpLocalSubxact_barren (hb : c.bs.inerror = true ∨ c.bs.uncommitted = 0) :
    wp (amqpLocalSubxact o) (fun _ c' => c' = c) (fun _ _ => False) c := by
  unfold amqpLocalSubxact
  rw [wp_bind, wp_getBs, wp_ite, if_neg, wp_pure]
  rintro ⟨hu, he⟩
  have := hb.resolve_left he
  omega

theorem localAmqpDisconnect_wasted (hb : Barren c.bs) (hl : Hushed c.log) :
    wp (do localAmqpDisconnect; return true) (fun _ => Wasted) (fun _ _ => False) c := by
  unfold localAmqpDisconnect
  rw [wp_bind, wp_bind, wp_localAmqpGetABs]
  refine wp_seq (localAmqpDisconnectBs_wasted true (c := c.link) hb hl) fun _ c₁ h₁ => ?_
  have huncommitted : c₁.reset.freed.bs.uncommitted = 0 := by
    simp only [Cell.freed, Cell.modified_bs]
    split <;> exact h₁.uncommitted
  exact ⟨huncommitted, h₁.hushed⟩

/-- A callback leaves every entry that has nothing to deliver so. -/
theorem serves_stifles {f : Outcomes → M Unit} (o : Int → Outcomes)
    (hsame : ∀ o c, c.backend.holdoff = true → wp (f o) (fun _ => Between c) (fun _ _ => False) c)
    (hf : ∀ o c, c.backend.holdoff = true → Barren c.bs → Hushed c.log →
      wp (f o) (fun _ c' => Barren c'.bs ∧ Hushed c'.log) (fun _ _ => False) c) (b : Int) :
    Serves o f fun b' c c' => b' = b → Stifles c c' := by
  intro b' c hh
  have hs := hsame (o b') c hh
  by_cases hb : Barren c.bs ∧ Hushed c.log
  · exact wp_mono (wp_and hs (hf (o b') c hh hb.1 hb.2)) (fun _ _ h => ⟨h.1.sameList, fun _ _ _ => h.2⟩)
      fun _ _ h => h.1
  · exact wp_mono hs (fun _ _ h => ⟨h.sameList, fun _ h₁ h₂ => absurd ⟨h₁, h₂⟩ hb⟩) fun _ _ h => h

theorem callbacks_stifle (o : Int → Outcomes) (b : Int) : CallbacksDo o fun b' c c' => b' = b → Stifles c c' := by
  constructor
  · exact serves_stifles (f := amqpLocalPhase2 .commit) o (fun _ _ => amqpLocalCommit_served)
      (fun _ _ hh hb hl => wp_mono (amqpLocalCommit_wasted hh hb hl) (fun _ _ h => h.barren) fun _ _ h => h) b
  · exact serves_stifles (f := amqpLocalPhase2 .abort) o (fun _ _ => amqpLocalAbort_served)
      (fun _ _ _ hb hl => wp_mono (turn_wasted _ hb hl) (fun _ _ h => h.barren) fun _ _ h => h) b
  · exact serves_stifles (f := amqpLocalPhase2 .prepare) o (fun _ _ _ => .refl) (fun _ _ _ hb hl => ⟨hb, hl⟩) b
  · exact serves_stifles o (fun _ _ => amqpLocalSubxact_served)
      (fun _ _ _ hb hl => wp_mono (amqpLocalSubxact_barren hb.nothing) (fun _ _ h => h ▸ ⟨hb, hl⟩) fun _ _ h => h) b

end Callbacks

section Runs

variable {s : Session} {st : Step} {b : Int}

theorem Session.cell_poisoned (hs : s.Shaped) (he : (s.entry b).inerror = true) : Poisoned (s.cell b) :=
  ⟨he, hs.idle b, by simp [Hushed, Session.cell, Session.start]⟩

theorem Step.Calls.poisoned {x : M Bool} (hx : st.Calls b x) (hd : st.action ≠ .disconnect (some b)) :
    Preserves Poisoned x := by
  cases hx with
  | publish _ _ => exact (pgAmqpPublishOpt_denies b _ 2).preserves
  | autonomousPublish _ _ => exact (pgAmqpPublishOpt_denies b _ 1).preserves
  | exchangeDeclare _ _ => exact pgAmqpExchangeDeclare_poisoned b _
  | disconnect h => exact absurd h hd

theorem Step.Calls.barren {x : M Bool} (hx : st.Calls b x) {c : Cell} (hc : Poisoned c) :
    wp x (fun _ c' => Barren c'.bs ∧ Hushed c'.log) (fun _ c' => Barren c'.bs ∧ Hushed c'.log) c := by
  by_cases hd : st.action = .disconnect (some b)
  · cases hx with
    | disconnect _ =>
      exact wp_mono (localAmqpDisconnect_wasted hc.barren.1 hc.hushed) (fun _ _ h => h.barren) fun _ _ h => h.elim
    | publish h _ => rw [h] at hd; cases hd
    | autonomousPublish h _ => rw [h] at hd; cases hd
    | exchangeDeclare h _ => rw [h] at hd; cases hd
  · exact wp_mono (hx.poisoned hd c hc) (fun _ _ h => h.barren) fun _ _ h => h.barren

/-- The events of a trail that begins with nothing to deliver. -/
theorem Trail.hushed {R : Cell → Cell → Prop} (hR : ∀ c c', R c c' → Stifles c c') {k k' : Backend}
    {bs bs' : BrokerState} {evs : List Event} (h : Trail R k bs evs k' bs') (hb : Barren bs) :
    Barren bs' ∧ Hushed evs := by
  induction h with
  | still _ _ => exact ⟨hb, by simp [Hushed]⟩
  | work hw => exact hR _ _ hw hb (by simp [Hushed, Session.start])
  | trans _ _ ih ih' => exact ⟨(ih' (ih hb).1).1, (ih hb).2.append (ih' (ih hb).1).2⟩

/-- No step delivers anything of a transaction in error, also not the one that ends it. -/
theorem next_hushed (hs : Runs (fun _ _ => True) s) (he : (s.entry b).inerror = true) :
    Hushed (logOf b (trace st s).log) := by
  by_cases hset : ∃ g, st.action = .set g
  · obtain ⟨g, hg⟩ := hset
    unfold trace exec
    rw [hg]
    simp [Hushed, logOf]
  · have hp := Session.cell_poisoned (Runs.shaped hs) he
    have htrails : Trails (fun b' c c' => b' = b → Stifles c c') s (next st s) (trace st s).log := by
      refine exec_works (Runs.shaped hs) (fun g hg => hset ⟨g, hg⟩) (callbacks_stifle _ b) fun b' x hx => ?_
      have hcalled := calls_called (Runs.anchored hs) hx
      by_cases hb : b' = b
      · subst hb
        exact wp_mono (wp_and hcalled (hx.barren hp)) (fun _ _ h => h.1.landed fun _ _ _ => h.2)
          fun _ _ h => h.1.landed fun _ _ _ => h.2
      · exact wp_mono hcalled (fun _ _ h => h.landed fun h => absurd h hb) fun _ _ h => h.landed fun h => absurd h hb
    exact ((htrails b).hushed (fun _ _ h => h rfl) hp.barren.1).2

/-- The step takes the error flag of this broker down: it ends the transaction, by itself or by
an error, or disconnects the broker. -/
def Clears (b : Int) (s : Session) (st : Step) : Prop :=
  st.action ∈ [.commit, .abort, .disconnect (some b)] ∨
    (trace st s).raised ≠ none ∧ (s.depth = 0 ∨ st.action = .prepare)

instance (b : Int) (s : Session) (st : Step) : Decidable (Clears b s st) := inferInstanceAs (Decidable (_ ∨ _))

/-- What the work on any entry makes of the flag of this broker. -/
def StaysFlagged (b b' : Int) (c c' : Cell) : Prop := b' = b → c.bs.inerror = true → c'.bs.inerror = true

theorem subxact_staysFlagged (o : Int → Outcomes) (b : Int) : Serves o amqpLocalSubxact (StaysFlagged b) := by
  intro b' c hh
  have hserved : wp (amqpLocalSubxact (o b')) (fun _ => Between c) (fun _ _ => False) c := amqpLocalSubxact_served hh
  by_cases he : c.bs.inerror = true
  · refine wp_mono (wp_and hserved (amqpLocalSubxact_barren (.inl he))) (fun _ c' h => ⟨h.1.sameList, fun _ _ => ?_⟩)
      fun _ _ h => h.1
    rw [h.2]
    exact he
  · exact wp_mono hserved (fun _ _ h => ⟨h.sameList, fun _ h => absurd h he⟩) fun _ _ h => h

/-- A call behind which at most a subtransaction is aborted. -/
theorem call_staysFlagged (hs : Runs (fun _ _ => True) s) (he : (s.entry b).inerror = true) {b' : Int}
    {x : Outcomes → M Bool} (hx : st.Calls b' (x (st.outcomes b'))) (hd : st.action ≠ .disconnect (some b))
    (hraised : (s.call st.outcomes b' x).2.raised = none ∨ 0 < s.depth) :
    Trails (StaysFlagged b) s (s.call st.outcomes b' x).1 (s.call st.outcomes b' x).2.log := by
  have hids := (Runs.shaped hs).ids
  have hlanded : wp (x (st.outcomes b')) (fun _ => Landed (StaysFlagged b b') (s.cell b'))
      (fun _ => Landed (StaysFlagged b b') (s.cell b')) (s.cell b') := by
    have hcalled := calls_called (Runs.anchored hs) hx
    by_cases hb : b' = b
    · subst hb
      have hp := hx.poisoned hd _ (Session.cell_poisoned (Runs.shaped hs) he)
      exact wp_mono (wp_and hcalled hp) (fun _ _ h => h.1.landed fun _ _ => h.2.inerror)
        fun _ _ h => h.1.landed fun _ _ => h.2.inerror
    · exact wp_mono hcalled (fun _ _ h => h.landed fun h => absurd h hb) fun _ _ h => h.landed fun h => absurd h hb
  unfold wp at hlanded
  cases hrun : x (st.outcomes b') (s.cell b') with
  | ok v c =>
    simp only [hrun] at hlanded
    rw [Session.call_ok hrun]
    exact stored_trails hlanded
  | error e c =>
    simp only [hrun] at hlanded
    rw [Session.call_error hrun] at hraised ⊢
    have hdepth : 0 < (s.store c).depth := hraised.resolve_left (by simp)
    have hids : ((s.store c).head.map BrokerState.brokerId).Nodup := by
      show ((if c.linked then putBs c.bs s.head else s.head).map BrokerState.brokerId).Nodup
      split
      · exact putBs_nodup hids
      · exact hids
    have hsweep : Trails (StaysFlagged b) (s.store c) ((s.store c).abortCurrent st.outcomes).1
        ((s.store c).abortCurrent st.outcomes).2 := by
      unfold Session.abortCurrent
      rw [if_pos hdepth]
      exact (sweep_trails (subxact_staysFlagged _ b) hids).congr rfl rfl
    exact (stored_trails hlanded).trans hsweep

theorem Trail.flagged {k k' : Backend} {bs bs' : BrokerState} {evs : List Event}
    (h : Trail (StaysFlagged b b) k bs evs k' bs') (he : bs.inerror = true) : bs'.inerror = true := by
  induction h with
  | still _ _ => exact he
  | work hw => exact hw rfl he
  | trans _ _ ih ih' => exact ih' (ih he)

/-- The flag stays up over every step that does not take it down. -/
theorem next_flagged (hs : Runs (fun _ _ => True) s) (he : (s.entry b).inerror = true) (hc : ¬ Clears b s st) :
    ((next st s).entry b).inerror = true := by
  obtain ⟨hact, hraised⟩ := not_or.mp hc
  cases htarget : st.action.target with
  | some b' =>
    obtain ⟨x, hx, hcall⟩ := exec_calls s htarget
    have hopen : (s.call st.outcomes b' x).2.raised = none ∨ 0 < s.depth := by
      by_cases h : (trace st s).raised = none
      · exact .inl (hcall.raised.symm.trans h)
      · exact .inr (Nat.pos_of_ne_zero fun hz => hraised ⟨h, .inl hz⟩)
    have hentry : (next st s).entry b = (s.call st.outcomes b' x).1.entry b := hcall.entry
    rw [hentry]
    exact (call_staysFlagged hs he hx (fun h => hact (by simp [h])) hopen b).flagged he
  | none =>
    unfold next exec
    unfold trace exec at hraised
    cases h : st.action with
    | abortSub =>
      dsimp only
      split
      · exact ((sweep_trails (subxact_staysFlagged st.outcomes b) (Runs.shaped hs).ids) b).flagged he
      · exact he
    | commitSub =>
      dsimp only
      split <;> exact he
    | prepare =>
      rw [h] at hraised
      dsimp only at hraised ⊢
      rcases Session.prepare_cases (o := st.outcomes) (Runs.shaped hs) with ⟨b', -, hr⟩ | ⟨-, hr⟩
      · exact absurd ⟨by simp [hr], .inr rfl⟩ hraised
      · rw [hr]
        exact ((Session.prepare_swept (Runs.shaped hs) st.outcomes).entry b).1 ▸ he
    | publish a =>
      rw [h] at htarget
      have hb : a.brokerId = none := htarget
      dsimp only
      unfold Session.publish
      rw [hb]
      exact he
    | autonomousPublish a =>
      rw [h] at htarget
      have hb : a.brokerId = none := htarget
      dsimp only
      unfold Session.autonomousPublish
      rw [hb]
      exact he
    | exchangeDeclare a =>
      rw [h] at htarget
      have hb : a.brokerId = none := htarget
      dsimp only
      unfold Session.exchangeDeclare
      rw [hb]
      exact he
    | disconnect b? =>
      rw [h] at htarget
      obtain rfl : b? = none := htarget
      exact he
    | set g => exact he
    | startSub => exact he
    | commit => exact absurd (by simp [h]) hact
    | abort => exact absurd (by simp [h]) hact

theorem localAmqpDisconnect_unflags {c : Cell} :
    wp (do localAmqpDisconnect; return true) (fun _ c' => c'.bs.inerror = false) (fun _ _ => False) c := by
  have freed : ∀ c' : Cell, c'.reset.freed.bs.inerror = false := fun c' => by
    simp only [Cell.freed, Cell.modified_bs]
    split <;> rfl
  unfold localAmqpDisconnect
  rw [wp_bind, wp_bind, wp_localAmqpGetABs]
  cases hk : c.link.bs.conn with
  | none =>
    rw [wp_bind, wp_localAmqpDisconnectBs_none true hk]
    exact freed _
  | some k =>
    exact wp_seq (wp_mono (localAmqpDisconnectBs_dropped true hk) (fun _ _ h => h) fun _ _ h => h) fun _ _ _ => freed _

/-- Where a step takes the flag down, it is down afterwards. -/
theorem next_cleared (hs : Runs (fun _ _ => True) s) (hc : Clears b s st) : ((next st s).entry b).inerror = false := by
  have shaped := Runs.shaped hs
  have aborted : ∀ {s₁ : Session}, s₁.Shaped → ((s₁.abort st.outcomes).1.entry b).inerror = false := fun h =>
    ((Session.abort_swept h st.outcomes).entry b).1.inerror
  rcases hc with hact | ⟨hr, hd | hp⟩
  · rcases List.mem_cons.mp hact with h | h
    · unfold next exec
      rw [h]
      exact ((Session.commit_swept shaped st.outcomes).entry b).1.inerror
    rcases List.mem_cons.mp h with h | h
    · unfold next exec
      rw [h]
      exact aborted shaped
    · have h : st.action = .disconnect (some b) := List.mem_singleton.mp h
      have hcalled := calls_called (Runs.anchored hs) (.disconnect h)
      obtain ⟨v, c, hrun, hf⟩ := wp_ok (localAmqpDisconnect_unflags (c := s.cell b))
      have hentry := call_entry (x := fun _ => do localAmqpDisconnect; return true) hcalled hrun
      unfold next exec
      rw [h]
      exact (congrArg BrokerState.inerror hentry).trans hf
  · obtain ⟨s₁, log, -, hs₁, hnext⟩ := (Session.exec_steps st shaped).aborts hr hd
    have hnext : next st s = (s₁.abort st.outcomes).1 := hnext
    rw [hnext]
    exact aborted hs₁
  · unfold trace exec at hr
    unfold next exec
    rw [hp] at hr ⊢
    dsimp only at hr ⊢
    rcases Session.prepare_cases (o := st.outcomes) shaped with ⟨b', -, h⟩ | ⟨-, h⟩
    · rw [h]
      exact aborted shaped
    · rw [h] at hr
      exact absurd rfl hr

/-- A publish is refused, or raises. -/
theorem publish_denied (hs : Runs (fun _ _ => True) s) (he : (s.entry b).inerror = true) {a : PublishArgs}
    (ha : st.action = .publish a) (hb : a.brokerId = some b) : (trace st s).result ≠ some true := by
  have hdenied := pgAmqpPublishOpt_denies (o := st.outcomes b) b a 2 _ (Session.cell_poisoned (Runs.shaped hs) he)
  have htrace : trace st s = (s.call st.outcomes b fun o => pgAmqpPublishOpt o b a 2).2 := by
    unfold trace exec
    rw [ha]
    dsimp only
    unfold Session.publish
    rw [hb]
    exact note_log ..
  rw [htrace]
  unfold wp at hdenied
  cases hrun : pgAmqpPublishOpt (st.outcomes b) b a 2 (s.cell b) with
  | ok v c =>
    rw [hrun] at hdenied
    rw [Session.call_ok (x := fun o => pgAmqpPublishOpt o b a 2) hrun, hdenied.refused rfl]
    simp
  | error e c =>
    rw [Session.call_error (x := fun o => pgAmqpPublishOpt o b a 2) hrun]
    simp

/-- In every run, wherever cancels cut its calls off, an entry that is in error stays so until
a step takes the flag down, and then it is down. Up to there and in this step too nothing is
delivered on channel 2, and no publish on the broker returns true. -/
theorem poisoned_until_cleared (hs : Runs (fun _ _ => True) s) (he : (s.entry b).inerror = true) {s' : Session}
    (h : Reach (· = s) next (fun s st => ¬ Clears b s st) s') (st : Step) :
    (s'.entry b).inerror = true ∧ (((next st s').entry b).inerror = false ↔ Clears b s' st) ∧
      Hushed (logOf b (trace st s').log) ∧
      ∀ a, st.action = .publish a → a.brokerId = some b → (trace st s').result ≠ some true := by
  have hs' : ∀ {s'}, Reach (· = s) next (fun s st => ¬ Clears b s st) s' → Runs (fun _ _ => True) s' := fun h =>
    hs.trans (h.mono fun _ _ _ => trivial)
  have he' : (s'.entry b).inerror = true := by
    refine h.invariant (I := fun s => (s.entry b).inerror = true) (fun _ h => h ▸ he) fun s₁ st hr hI hc => ?_
    exact next_flagged (hs' hr) hI hc
  refine ⟨he', ⟨fun hf => ?_, next_cleared (hs' h)⟩, next_hushed (hs' h) he', fun a ha hb => ?_⟩
  · by_contra hc
    have := next_flagged (hs' h) he' hc
    simp [hf] at this
  · exact publish_denied (hs' h) he' ha hb

/-- A message is acknowledged in a subtransaction, which rolls back. -/
def savepointUndone : Session :=
  run next [.good .startSub, .good (.publish (.to1 "a")), .good .abortSub] (.loaded {} 0)

/-- A message goes out on channel 1, and the commit then delivers nothing. -/
theorem savepointUndone_poisoned :
    let publish := Step.good (.autonomousPublish (.to1 "b"))
    let s' := next publish savepointUndone
    (trace publish savepointUndone).result = some true ∧ (s'.entry 1).inerror = true ∧
      (((next (.good .commit) s').entry 1).inerror = false ↔ Clears 1 s' (.good .commit)) ∧
      Hushed (logOf 1 (trace (.good .commit) s').log) ∧
      ∀ a, (Step.good .commit).action = .publish a → a.brokerId = some 1 →
        (trace (.good .commit) s').result ≠ some true := by
  intro publish s'
  have hruns : Runs (fun _ _ => True) savepointUndone :=
    .run (.init (Session.loaded_initial {} 0)) _ (.always _ _)
  have hstays : ¬ Clears 1 savepointUndone publish := by decide +kernel
  have hreach : Reach (· = savepointUndone) next (fun s st => ¬ Clears 1 s st) s' :=
    .step publish (.init rfl) hstays
  exact ⟨by decide +kernel, poisoned_until_cleared hruns (by decide +kernel) hreach (.good .commit)⟩

end Runs

end PgAmqp
