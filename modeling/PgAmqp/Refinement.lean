import PgAmqp.Delivery
import PgAmqp.Mailbox
import PgAmqp.Outputs
import PgAmqp.Trails

/-!
# The backend refines a mailbox with transactions

What `amqp.publish` is for is a mailbox for each broker: a call that returns true posts its
message, and the end of the transaction settles all that is held. An entry mirrors such a
mailbox: its count is the number of messages held, its error flag says that the mailbox is
spoiled, and the broker's buffer of channel 2 holds the messages. Every step of every run is
matched by operations of the mailbox, whatever the library answers and wherever cancels cut
a call off. The messages that are forgotten are those of a connection that a call gave up.
-/
namespace PgAmqp

open ProgramLogic Transition Mailbox

/-- The mailbox that an entry stands for. -/
structure Represents (box : Box Msg) (bs : BrokerState) : Prop where
  spoiled : box.spoiled = bs.inerror
  counted : Counted box.held bs

theorem Represents.fresh (b : Int) : Represents .empty (.fresh b) :=
  ⟨rfl, counted_stable.fresh b⟩

/-- What work inside a transaction does to the mailbox. -/
structure Works (lossy : Prop) (evs : List Event) (box box' : Box Msg) (ops : List (Op Msg)) : Prop where
  run : box.run ops = some box'
  posts : posts ops = ackedIn evs
  undelivered : .settle .delivered ∉ ops
  unreported : .settle .reported ∉ ops
  kept : ¬ lossy → .settle .forgotten ∉ ops

theorem Works.refl {lossy : Prop} {evs : List Event} (h : ackedIn evs = []) (box : Box Msg) :
    Works lossy evs box box [] :=
  ⟨rfl, h.symm, List.not_mem_nil, List.not_mem_nil, fun _ => List.not_mem_nil⟩

theorem Works.trans {lossy : Prop} {evs evs' : List Event} {box box' box'' : Box Msg} {ops ops' : List (Op Msg)}
    (h : Works lossy evs box box' ops) (h' : Works lossy evs' box' box'' ops') :
    Works lossy (evs ++ evs') box box'' (ops ++ ops') where
  run := Box.run_trans h.run h'.run
  posts := by rw [posts_append, ackedIn_append, h.posts, h'.posts]
  undelivered := List.not_mem_append h.undelivered h'.undelivered
  unreported := List.not_mem_append h.unreported h'.unreported
  kept := fun hl => List.not_mem_append (h.kept hl) (h'.kept hl)

/-- Some operations take the mailbox along. -/
def Simulates (lossy : Prop) (evs : List Event) (bs bs' : BrokerState) : Prop :=
  ∀ box, Represents box bs → ∃ ops box', Works lossy evs box box' ops ∧ Represents box' bs'

/-- The same faults, but nothing is lost. -/
def Faults.sparing (F : Faults) : Faults := { F with lossy := False }

section Work

variable {F : Faults} {log evs evs' : List Event} {bs bs' bs'' : BrokerState} {lossy : Prop}

theorem Effect.simulates (h : Effect F log bs bs' evs) : Simulates F.lossy evs bs bs' := by
  intro box hm
  -- an effect that gives no message up keeps the count
  have counted : Effect F.sparing log bs bs' evs → Counted (box.held ++ ackedIn evs) bs' := fun he =>
    he.counted id hm.counted
  have still : Effect F.sparing log bs bs' evs → ackedIn evs = [] → bs'.inerror = bs.inerror →
      ∃ ops box', Works F.lossy evs box box' ops ∧ Represents box' bs' := by
    intro he ha hi
    have hc := counted he
    rw [ha, List.append_nil] at hc
    exact ⟨[], box, .refl ha box, hm.spoiled.trans hi.symm, hc⟩
  cases h with
  | silent _ hn hconn hunc herr => exact still (.silent _ hn hconn hunc herr) (ackedIn_neutral hn) herr
  | read k k' hk hk' hkeep hclose hunc herr => exact still (.read k k' hk hk' hkeep hclose hunc herr) rfl herr
  | connect k _ hn hk hk' hb hr hunc herr =>
    exact still (.connect k _ hn hk hk' hb hr hunc herr) (ackedIn_neutral hn) herr
  | send k ch m w hk hch hst hconn hunc herr => exact still (.send k ch m w hk hch hst hconn hunc herr) rfl herr
  | accept k m hw hconn hunc herr => exact still (.accept k m hw hconn hunc herr) rfl herr
  | flag k k' hk hk' hr hunc herr hf =>
    have hc := counted (.flag k k' hk hk' hr hunc herr hf)
    rw [ackedIn_nil, List.append_nil] at hc
    exact ⟨[.spoil], { box with spoiled := true }, ⟨rfl, rfl, by simp, by simp, by simp⟩, herr.symm, hc⟩
  | ack k m hw hk hk' he hunc herr =>
    have hopen : box.spoiled = false := hm.spoiled.trans he
    have hc := counted (.ack k m hw hk hk' he hunc herr)
    refine ⟨[.post m], { box with held := box.held ++ [m] }, ⟨?_, rfl, by simp, by simp, by simp⟩, ?_, hc⟩
    · rw [Box.run_singleton, Box.step_post]
      exact ⟨hopen, rfl⟩
    · exact hopen.trans herr.symm
  | reset hk hk' hunc herr =>
    have hc := counted (.reset hk hk' hunc herr)
    have hnil : box.held = [] := List.length_eq_zero_iff.mp (hm.counted.count.symm.trans (hm.counted.idle hk))
    rw [ackedIn_nil, List.append_nil, hnil] at hc
    exact ⟨[.settle .rolledBack], box.close .rolledBack, ⟨by simp [Box.step], rfl, by simp, by simp, by simp⟩,
      herr.symm, hc⟩
  | drop k evs hn hk hk' hl hunc herr =>
    by_cases hz : bs.uncommitted = 0
    · exact still (.drop k evs hn hk hk' (.inl hz) hunc herr) (ackedIn_neutral hn) herr
    · have hlossy : F.lossy := hl.resolve_left hz
      refine ⟨[.settle .forgotten], box.close .forgotten, ⟨by simp [Box.step], ?_, by simp, by simp,
        fun h => absurd hlossy h⟩, ?_, fun _ => hunc, hunc, by simp [hk']⟩
      · exact (ackedIn_neutral hn).symm
      · simpa [Box.close] using hm.spoiled.trans herr.symm

theorem Simulates.refl (h : ackedIn evs = []) : Simulates lossy evs bs bs :=
  fun box hm => ⟨[], box, .refl h box, hm⟩

theorem Simulates.trans (h : Simulates lossy evs bs bs') (h' : Simulates lossy evs' bs' bs'') :
    Simulates lossy (evs ++ evs') bs bs'' := by
  intro box hm
  obtain ⟨ops, box₁, hw, hm₁⟩ := h box hm
  obtain ⟨ops', box₂, hw', hm₂⟩ := h' box₁ hm₁
  exact ⟨ops ++ ops', box₂, hw.trans hw', hm₂⟩

theorem Path.simulates {c c' : Cell} (h : Path F c c') :
    ∃ evs, c'.log = c.log ++ evs ∧ Simulates F.lossy evs c.bs c'.bs := by
  induction h with
  | refl => exact ⟨[], (List.append_nil _).symm, .refl rfl⟩
  | tail _ hm ih =>
    obtain ⟨evs, hl, hf⟩ := ih
    obtain ⟨evs', hl', he⟩ := hm.effect
    exact ⟨evs ++ evs', by rw [hl', hl, List.append_assoc], hf.trans he.simulates⟩

end Work

theorem ackedIn_writeless {evs : List Event} (h : Writeless evs) : ackedIn evs = [] := by
  simp only [ackedIn, List.filterMap_eq_nil_iff]
  intro e he
  have hn := h e he
  cases e <;> simp_all [Event.writesTo]

section Ends

variable {box : Box Msg} {bs bs' : BrokerState} {evs : List Event} {forgetful : Prop}

/-- However a transaction ends, the mailbox is left empty and takes messages again. -/
theorem Closed.represents (h : Closed forgetful bs bs') (hm : Represents box bs) {fate : Fate}
    (hf : fate ≠ .forgotten) : Represents (box.close fate) bs' := by
  have hc : Counted [] bs' :=
    @Stable.close _ _ counted_stable ⟨False, forgetful, True, True, True⟩ _ _ _ [] id hm.counted h
  refine ⟨?_, hc⟩
  rw [h.inerror]
  simp [Box.close, hf]

theorem Closed.simulates {lossy : Prop} (h : Closed forgetful bs bs') (hw : Writeless evs) :
    Simulates lossy evs bs bs' := fun box hm =>
  ⟨[.settle .rolledBack], box.close .rolledBack, ⟨by simp [Box.step], (ackedIn_writeless hw).symm, by simp, by simp,
    by simp⟩, h.represents hm (by decide)⟩

/-- The abort of a subtransaction spoils the mailbox if it holds a message. -/
theorem Flagged.simulates {lossy : Prop} (h : Flagged bs bs') (hn : ∀ e ∈ evs, e.neutral = true) :
    Simulates lossy evs bs bs' := by
  intro box hm
  have hc : Counted box.held bs' := @Stable.flag _ _ counted_stable _ _ _ [] [] hm.counted .slnil h
  cases hu : decide (0 < bs.uncommitted) with
  | true =>
    refine ⟨[.spoil], { box with spoiled := true }, ⟨rfl, (ackedIn_neutral hn).symm, by simp, by simp, by simp⟩, ?_, hc⟩
    simp [h.inerror, hu]
  | false =>
    refine ⟨[], box, .refl (ackedIn_neutral hn) box, ?_, hc⟩
    simp [h.inerror, hu, hm.spoiled]

end Ends

theorem Phase.simulates {F : Int → Faults} {committing : Prop} {s s' : Session} {log : List (Int × Event)}
    (h : Phase F committing s s' log) (hc : ¬ committing) (b : Int) :
    Simulates (F b).lossy (logOf b log) (s.entry b) (s'.entry b) := by
  cases h with
  | still he _ _ hl =>
    rw [he, hl]
    exact .refl rfl
  | call b' c hleft he _ _ hl =>
    rw [he, hl]
    by_cases hb : b = b'
    · subst hb
      obtain ⟨evs, hlog, hsim⟩ := hleft.path.simulates
      obtain rfl : c.log = evs := hlog
      rw [if_pos rfl, logOf_same]
      exact hsim
    · rw [if_neg hb, logOf_other (Ne.symm hb)]
      exact .refl rfl
  | commit hcommit => exact absurd hcommit hc
  | abort hclosed hw _ _ => exact (hclosed b).simulates (hw b)
  | undo hf hn _ _ => exact (hf b).simulates (hn b)
  | prepare he _ _ hl =>
    rw [he, hl]
    exact .refl rfl

theorem Effect.lossless {F : Faults} {log evs : List Event} {bs bs' : BrokerState} (h : Effect F log bs bs' evs)
    (b : Int) : lossIn b evs = 0 := by
  cases h with
  | silent _ hn => exact lossIn_neutral b hn
  | drop _ _ hn => exact lossIn_neutral b hn
  | connect _ _ hn => exact lossIn_neutral b hn
  | _ => rfl

/-- The record of a cell reports as many losses as another one. -/
def SameLoss (c c' : Cell) : Prop := ∀ b, lossIn b c'.log = lossIn b c.log

theorem Quiet.sameLoss {c c' : Cell} (h : Quiet c c') : SameLoss c c' := by
  intro b
  obtain ⟨evs, hl, hn⟩ := h
  rw [hl, lossIn_append, lossIn_neutral b hn, Nat.add_zero]

theorem Path.sameLoss {F : Faults} {c c' : Cell} (h : Path F c c') : SameLoss c c' := by
  intro b
  induction h with
  | refl => rfl
  | tail _ hm ih =>
    obtain ⟨evs, hl, he⟩ := hm.effect
    rw [hl, lossIn_append, he.lossless, Nat.add_zero, ih]

section Lossless

variable {o : Outcomes} {c : Cell} {s : Session} {st : Step}

theorem amqpLocalRollback_quiet (hh : c.backend.holdoff = true) {k : Connection} (hk : c.bs.conn = some k) :
    wp (amqpLocalRollback o) (fun _ c₁ => (SameEntry c c₁ ∧ c₁.bs.inerror = c.bs.inerror) ∧ Quiet c c₁)
      (fun _ _ => False) c := by
  have hk' : ((c.timed c.backend.gucs.commitTimeoutMs).ticked .txRollback).bs.conn =
      some (k.setTimeout c.bs.sockfd c.backend.gucs.commitTimeoutMs) := by
    simp [Cell.timed, hk]
  unfold amqpLocalRollback amqpTxRollback
  rw [wp_bind, wp_getGucs, wp_bind, wp_localAmqpSetTimeout, bind_assoc, wp_bind, wp_tick, wp_bind, wp_rpc hk']
  refine wp_mono (closeTx_spec (.inr rfl) rollbackFailed hh) (fun _ c₁ h => ?_) fun _ _ h => h
  obtain ⟨hf, he, hend⟩ := h
  refine ⟨⟨⟨hf.brokerId, hf.holdoff, hf.nextCall, hf.linked⟩, he⟩, ?_⟩
  cases hend with
  | done _ _ _ hl => exact ⟨_, hl, by simp [Event.neutral]⟩
  | refused _ _ _ hl => exact ⟨_, hl, by simp [Event.neutral, rollbackFailed, Report.isLoss]⟩

theorem amqpLocalAbort_quiet (hh : c.backend.holdoff = true) :
    wp (amqpLocalAbort o) (fun _ => Quiet c) (fun _ _ => False) c := by
  refine wp_mono (turn_spec (R := fun _ c₁ => Quiet c c₁) fun k he hk => ?_) (fun _ c' h => ?_) fun _ _ h => h
  · exact wp_mono (amqpLocalRollback_quiet hh hk) (fun _ _ h => ⟨⟨h.1.1, h.1.2.trans he⟩, h.2⟩) fun _ _ h => h
  · cases h.turn with
    | gone evs _ hl hn _ => exact ⟨evs, hl, hn⟩
    | idle _ _ _ hl => exact (Quiet.refl c).log_eq hl
    | acted _ _ _ _ _ hq _ hl => exact hq.log_eq hl

/-- All that a call may do to an entry. -/
def Faults.all : Faults := ⟨True, True, True, True, True⟩

theorem Step.Calls.sameLoss {b : Int} {x : M Bool} (hx : st.Calls b x) (hidle : Idle c.bs) :
    wp x (fun _ => SameLoss c) (fun _ => SameLoss c) c := by
  have publishes : ∀ (a : PublishArgs) {channel : Nat}, channel = 1 ∨ channel = 2 →
      wp (pgAmqpPublishOpt (st.outcomes b) b a channel) (fun _ => SameLoss c) (fun _ => SameLoss c) c := by
    intro a channel hch
    refine wp_mono (pgAmqpPublishOpt_spec (F := .all) (st.outcomes b) b a hch hidle fun _ => ?_)
      (fun _ _ h => h.left.path.sameLoss) fun _ _ h => h.left.path.sameLoss
    exact ⟨fun _ _ => .inr trivial, fun _ _ => trivial, fun _ _ _ _ => trivial, fun _ => trivial, fun _ => trivial⟩
  cases hx with
  | publish _ _ => exact publishes _ (.inr rfl)
  | autonomousPublish _ _ => exact publishes _ (.inl rfl)
  | exchangeDeclare _ _ =>
    exact wp_mono (pgAmqpExchangeDeclare_spec (F := .all) b _ hidle (fun _ => trivial) fun _ => .inr trivial)
      (fun _ _ h => h.left.path.sameLoss) fun _ _ h => h.left.path.sameLoss
  | disconnect _ =>
    exact wp_seq (wp_mono (localAmqpDisconnect_spec (F := .all) (.inr trivial))
      (fun _ _ h => h.left.path.sameLoss) fun _ _ h => h.left.path.sameLoss) fun _ _ h => h

theorem Trail.lossless {k k' : Backend} {bs bs' : BrokerState} {evs : List Event} (h : Trail SameLoss k bs evs k' bs')
    (b : Int) : lossIn b evs = 0 := by
  induction h with
  | still _ _ => rfl
  | work hw => exact hw b
  | trans _ _ ih ih' => rw [lossIn_append, ih, ih']

/-- No other step reports a loss. -/
theorem next_lossless (hs : Runs (fun _ _ => True) s) (hc : st.action ≠ .commit) (b : Int) :
    lossIn b (logOf b (trace st s).log) = 0 := by
  have quiets : ∀ {f : Outcomes → M Unit}, (∀ o c, c.backend.holdoff = true →
      wp (f o) (fun _ => Between c) (fun _ _ => False) c) → (∀ o c, c.backend.holdoff = true →
      wp (f o) (fun _ => Quiet c) (fun _ _ => False) c) → Serves st.outcomes f fun _ => SameLoss :=
    fun hf hq b c hh => wp_mono (wp_and (hf _ c hh) (hq _ c hh)) (fun _ _ h => ⟨h.1.sameList, h.2.sameLoss⟩)
      fun _ _ h => h.1
  by_cases hset : ∃ g, st.action = .set g
  · obtain ⟨g, hg⟩ := hset
    unfold trace exec
    rw [hg]
    rfl
  · have htrails : Trails (fun _ => SameLoss) s (next st s) (trace st s).log := by
      refine exec_parts (Runs.shaped hs) (fun g hg => hset ⟨g, hg⟩) (fun h => absurd h hc) ?_ ?_ ?_ fun b x hx => ?_
      · exact quiets (f := amqpLocalPhase2 .abort) (fun _ _ => amqpLocalAbort_served) fun _ _ => amqpLocalAbort_quiet
      · exact quiets (f := amqpLocalPhase2 .prepare) (fun _ _ _ => .refl) fun _ c _ => .refl c
      · exact quiets (fun _ _ => amqpLocalSubxact_served) fun _ _ hh =>
          wp_mono (amqpLocalSubxact_spec hh) (fun _ _ h => h.2.2) fun _ _ h => h
      · exact wp_mono (wp_and (calls_called (Runs.anchored hs) hx) (hx.sameLoss ((Runs.shaped hs).idle b)))
          (fun _ _ h => h.1.landed h.2) fun _ _ h => h.1.landed h.2
    exact (htrails b).lossless b

end Lossless

/-- What the step of a transaction's end does to a mailbox; other steps deliver and report
nothing. -/
def Action.Settles (ops : List (Op Msg)) : Action → Prop
  | .commit => ops = [.settle .delivered] ∨ ops = [.settle .reported]
  | .abort => ops = [.settle .rolledBack]
  | _ => .settle .delivered ∉ ops ∧ .settle .reported ∉ ops

/-- The operations are matched by what a record of the broker says. -/
structure Matches (b : Int) (evs : List Event) (box box' : Box Msg) (ops : List (Op Msg)) : Prop where
  run : box.run ops = some box'
  posts : posts ops = ackedIn evs
  delivered : box'.settledAs .delivered = box.settledAs .delivered ++ released evs
  reported : (box'.settledAs .reported).length = (box.settledAs .reported).length + lossIn b evs

theorem released_append (log log' : List Event) : released (log ++ log') = released log ++ released log' := by
  simp [released]

theorem Matches.trans {b : Int} {evs evs' : List Event} {box box' box'' : Box Msg} {ops ops' : List (Op Msg)}
    (h : Matches b evs box box' ops) (h' : Matches b evs' box' box'' ops') :
    Matches b (evs ++ evs') box box'' (ops ++ ops') where
  run := Box.run_trans h.run h'.run
  posts := by rw [posts_append, ackedIn_append, h.posts, h'.posts]
  delivered := by rw [h'.delivered, h.delivered, released_append, List.append_assoc]
  reported := by rw [h'.reported, h.reported, lossIn_append, Nat.add_assoc]

section Steps

variable {s : Session} {st : Step} {b : Int} {box : Box Msg}

/-- Work that commits nothing and reports no loss. -/
theorem Works.matches {lossy : Prop} {evs : List Event} {box' : Box Msg} {ops : List (Op Msg)}
    (h : Works lossy evs box box' ops) (hc : commitsIn evs = []) (hl : lossIn b evs = 0) :
    Matches b evs box box' ops where
  run := h.run
  posts := h.posts
  delivered := by rw [Box.run_settledAs h.run h.undelivered, released, hc, List.flatMap_nil, List.append_nil]
  reported := by rw [Box.run_settledAs h.run h.unreported, hl, Nat.add_zero]

/-- The commit callback delivers all that is held, or reports as many messages as are held. -/
theorem commit_matches (hs : s.Shaped) (o : Int → Outcomes) (hm : Represents box (s.entry b)) :
    ∃ ops box', Action.Settles ops .commit ∧ .settle .forgotten ∉ ops ∧
      Matches b (logOf b (s.commit o).2.log) box box' ops ∧ Represents box' ((s.commit o).1.entry b) := by
  have hclosed := Session.commit_closed hs o b
  have hset := Session.commit_settled hs o b
  have hacked : ackedIn (logOf b (s.commit o).2.log) = [] :=
    ackedIn_writeless ((Session.commit_swept hs o).entry b).2.1
  cases hset with
  | lost hnone hloss =>
    refine ⟨[.settle .reported], box.close .reported, .inr rfl, by simp, ⟨by simp [Box.step], hacked.symm, ?_, ?_⟩,
      hclosed.represents hm (by decide)⟩
    · simp [released, hnone]
    · rw [s.entry_brokerId] at hloss
      simp [hloss, hm.counted.count]
  | released k k' hk hkeep htx he hu hcommit hloss =>
    have hopen : box.spoiled = false := hm.spoiled.trans he
    have hbuffer : k.buffer = box.held := hm.counted.buffer he k hk htx
    refine ⟨[.settle .delivered], box.close .delivered, .inl rfl, by simp,
      ⟨by simp [Box.step, hopen], hacked.symm, ?_, ?_⟩, hclosed.represents hm (by decide)⟩
    · simp [released, hcommit, hkeep.buffer, hbuffer]
    · rw [s.entry_brokerId] at hloss
      simp [hloss]

theorem abort_matches (hs : s.Shaped) (o : Int → Outcomes) (hm : Represents box (s.entry b))
    (hl : lossIn b (logOf b (s.abort o).2) = 0) :
    ∃ box', Matches b (logOf b (s.abort o).2) box box' [.settle .rolledBack] ∧
      Represents box' ((s.abort o).1.entry b) := by
  obtain ⟨hclosed, hw, hnone⟩ := (Session.abort_swept hs o).entry b
  have hwork : Works False (logOf b (s.abort o).2) box (box.close .rolledBack) [.settle .rolledBack] :=
    ⟨by simp [Box.step], (ackedIn_writeless hw).symm, by simp, by simp, by simp⟩
  exact ⟨_, hwork.matches hnone hl, hclosed.represents hm (by decide)⟩

/-- Every step is matched by operations of the mailbox. -/
theorem next_matches (hs : Runs (fun _ _ => True) s) (st : Step) (hm : Represents box (s.entry b)) :
    ∃ ops box', st.action.Settles ops ∧ (Spares s st → .settle .forgotten ∉ ops) ∧
      Matches b (logOf b (trace st s).log) box box' ops ∧ Represents box' ((next st s).entry b) := by
  have shaped := Runs.shaped hs
  by_cases hcommit : st.action = .commit
  · obtain ⟨ops, box', hends, hkept, hmatch⟩ := commit_matches shaped st.outcomes hm
    unfold next trace exec
    rw [hcommit]
    exact ⟨ops, box', hends, fun _ => hkept, hmatch⟩
  have hloss := next_lossless hs hcommit b
  by_cases habort : st.action = .abort
  · unfold trace exec at hloss
    rw [habort] at hloss
    obtain ⟨box', hmatch⟩ := abort_matches shaped st.outcomes hm hloss
    unfold next trace exec
    rw [habort]
    exact ⟨_, box', rfl, by simp, hmatch⟩
  have hphases := Session.exec_phases st shaped
  have hnone : commitsIn (logOf b (trace st s).log) = [] := by
    cases hphases with
    | one h => exact (h.commits b).resolve_right fun h => hcommit h.1
    | two _ _ _ h h' hl =>
      rw [hl, logOf_append, commitsIn_append, (h.commits b).resolve_right fun h => hcommit h.1,
        (h'.commits b).resolve_right fun h => hcommit h.1]
      rfl
  have hsim : Simulates (s.faults st b).lossy (logOf b (trace st s).log) (s.entry b) ((next st s).entry b) := by
    cases hphases with
    | one h => exact h.simulates hcommit b
    | two _ _ _ h h' hl =>
      rw [hl, logOf_append]
      exact (h.simulates hcommit b).trans (h'.simulates hcommit b)
  obtain ⟨ops, box', hwork, hm'⟩ := hsim box hm
  refine ⟨ops, box', ?_, fun hsp => hwork.kept (hsp.faults b), hwork.matches hnone hloss, hm'⟩
  unfold Action.Settles
  split
  · contradiction
  · contradiction
  · exact ⟨hwork.undelivered, hwork.unreported⟩

end Steps

theorem Matches.refl (b : Int) (box : Box Msg) : Matches b [] box box [] :=
  ⟨rfl, rfl, (List.append_nil _).symm, rfl⟩

/-- The operations of the steps, of which those of the first `n` steps match these. -/
theorem run_matches {s : Session} {b : Int} {box : Box Msg} (hs : Runs (fun _ _ => True) s) (steps : List Step)
    (hm : Represents box (s.entry b)) :
    ∃ opss, List.Forall₂ (fun st ops => st.action.Settles ops) steps opss ∧
      (Admits next Spares steps s → .settle .forgotten ∉ opss.flatten) ∧
      ∀ n, ∃ box', Matches b (logOf b (gathered next (fun st s => (trace st s).log) (steps.take n) s)) box box'
          (opss.take n).flatten ∧
        Represents box' ((run next (steps.take n) s).entry b) := by
  induction steps generalizing s box with
  | nil =>
    refine ⟨[], .nil, fun _ => List.not_mem_nil, fun n => ⟨box, ?_⟩⟩
    rw [List.take_nil, List.take_nil]
    exact ⟨.refl b box, hm⟩
  | cons st rest ih =>
    obtain ⟨ops, box₁, hset, hkept, hmatch, hm₁⟩ := next_matches hs st hm
    obtain ⟨opss, hsets, hkepts, hprefix⟩ := ih (.step st hs trivial) hm₁
    refine ⟨ops :: opss, .cons hset hsets, fun ha => ?_, fun n => ?_⟩
    · rw [List.flatten_cons]
      exact List.not_mem_append (hkept ha.1) (hkepts ha.2)
    · cases n with
      | zero => exact ⟨box, .refl b box, hm⟩
      | succ n =>
        obtain ⟨box₂, hmatches, hm₂⟩ := hprefix n
        refine ⟨box₂, ?_, hm₂⟩
        rw [List.take_succ_cons, List.take_succ_cons, gathered, logOf_append, List.flatten_cons]
        exact hmatch.trans hmatches

/-- In every run from the load on, wherever cancels cut its calls off, each entry behaves as a
mailbox. After each of its steps the acknowledged messages so far are those that the mailbox has
taken, `tx.commit` has released those it delivered, the warnings report as many as it gave up
at a commit, and it holds as many messages as the entry counts and is spoiled just when the
entry is in error. A run that spares its connections forgets no message. -/
theorem backend_refines_mailbox (gucs : Gucs) (myProcPid : Nat) (steps : List Step) (b : Int) :
    let s := Session.loaded gucs myProcPid
    ∃ opss, List.Forall₂ (fun st ops => st.action.Settles ops) steps opss ∧
      (Admits next Spares steps s → .settle .forgotten ∉ opss.flatten) ∧
      ∀ n,
        let evs := logOf b (gathered next (fun st s => (trace st s).log) (steps.take n) s)
        let bs := (run next (steps.take n) s).entry b
        ∃ box, Box.empty.run (opss.take n).flatten = some box ∧ box.taken = ackedIn evs ∧
          box.settledAs .delivered = released evs ∧ (released evs).Sublist (ackedIn evs) ∧
          (box.settledAs .reported).length = lossIn b evs ∧
          box.held.length = bs.uncommitted ∧ box.spoiled = bs.inerror := by
  intro s
  have hinit := Session.loaded_initial gucs myProcPid
  have hfresh : Represents .empty (s.entry b) := by
    rw [entry_initial hinit]
    exact .fresh b
  obtain ⟨opss, hsets, hkept, hprefix⟩ := run_matches (.init hinit) steps hfresh
  refine ⟨opss, hsets, hkept, fun n => ?_⟩
  obtain ⟨box, hmatch, hm⟩ := hprefix n
  have hdelivered : box.settledAs .delivered = released _ := hmatch.delivered
  have htaken := (Box.run_empty_taken hmatch.run).trans hmatch.posts
  refine ⟨box, hmatch.run, htaken, hdelivered, ?_, hmatch.reported.trans (Nat.zero_add _), hm.counted.count.symm,
    hm.spoiled⟩
  rw [← hdelivered, ← htaken]
  exact box.settledAs_sublist .delivered

end PgAmqp
