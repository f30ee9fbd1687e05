import PgAmqp.Attempts
import PgAmqp.Drain

/-!
# Publishing, as moves

A pass of `pg_amqp_publish_opt` either serves the call on the connection it
found, or gives that connection up and goes back to `redo`. Which of the two it
does is told by `Cell.serves` from the frames, the cancels and the status of the
write. Everything a call leaves behind is a path of moves.
-/
namespace PgAmqp

open ProgramLogic

/-- The status of the next write. -/
def Cell.written (c : Cell) (o : Outcomes) : Write := o.basicPublish (c.counts .basicPublish)

/-- The first read of a pass finds the connection usable. -/
def Cell.usable (c : Cell) (o : Outcomes) : Bool :=
  !hasClose (c.arrived o) && (o.poll (c.counts .poll)).alive

/-- The pass ends without giving the connection up: a warning raises, the broker is
blocking publishers, or the write goes through. -/
def Cell.serves (c : Cell) (o : Outcomes) (m : Msg) (badMode : Option Int) (channel : Nat) : Bool :=
  let unwind := fun n r => !c.backend.holdoff && o.unwind n r
  match c.reads o (c.arrived o) with
  | .unwound => true
  | .closed => false
  | .through n blocked =>
    (o.poll (c.counts .poll)).alive && (blocked ||
      badMode.any (fun mode => unwind n (.ignoredDeliveryMode mode)) || c.written o = .ok ||
      (channel = 1 && m.content.mandatory &&
        readFrames unwind c.bs.brokerId (n + badMode.toList.length) false
          (o.poll (c.counts .poll + 1)).arrivals = .unwound))

/-- The first read of a pass, where these frames wait on the connection, finds it usable. -/
def Outcomes.usable (o : Outcomes) (pending : List Frame) (polls : Nat) : Bool :=
  !hasClose (pending ++ (o.poll polls).arrivals) && (o.poll polls).alive

/-- Such a pass comes to its write. -/
def Outcomes.writable (o : Outcomes) (pending : List Frame) (blocked : Bool) (polls : Nat) : Bool :=
  o.usable pending polls && !blockedBy blocked (pending ++ (o.poll polls).arrivals)

def Cell.writable (c : Cell) (o : Outcomes) : Bool :=
  o.writable c.bs.pending c.bs.blocked (c.counts .poll)

/-- The cell after a write on its connection. -/
def Cell.sent (c : Cell) (o : Outcomes) (k : Connection) (channel : Nat) (m : Msg) : Cell :=
  (c.ticked .basicPublish).recorded (.basicPublish k channel m (c.written o))

/-- The cell after the write, with the message in the buffer if it got there. -/
def Cell.buffered (c : Cell) (o : Outcomes) (k : Connection) (channel : Nat) (m : Msg) : Cell :=
  (c.sent o k channel m).modified fun bs =>
    { bs with conn := some (k.written channel m (c.written o)) }

@[simp] theorem wp_amqpBasicPublish (o : Outcomes) (k : Connection) (channel : Nat) (m : Msg)
    {c : Cell} {Q : Write → Cell → Prop} {E : Raised → Cell → Prop} :
    wp (amqpBasicPublish o k channel m) Q E c = Q (c.written o) (c.buffered o k channel m) := rfl

@[simp] theorem wp_setInerror {c : Cell} {Q : Unit → Cell → Prop} {E : Raised → Cell → Prop} :
    wp setInerror Q E c = Q () (c.modified fun bs => { bs with inerror := true }) := rfl

theorem wp_orRedo {channel : Nat} {onceMore : Bool} {redo giveUp : M Bool} {c : Cell}
    {k : Connection} {Q : Bool → Cell → Prop} {E : Raised → Cell → Prop} (hk : c.bs.conn = some k)
    (hredo : (onceMore = true ∧ (channel = 1 ∨ c.bs.uncommitted = 0)) →
      ∀ c', Dropped c c' → wp redo Q E c')
    (hgive : ¬ (onceMore = true ∧ (channel = 1 ∨ c.bs.uncommitted = 0)) → wp giveUp Q E c) :
    wp (orRedo channel onceMore redo giveUp) Q E c := by
  unfold orRedo
  rw [wp_bind, wp_getBs, wp_ite]
  split
  · rename_i h
    exact wp_seq (wp_mono (localAmqpDisconnectBs_dropped false hk) (fun _ _ h => h)
      (fun _ _ h => h.elim)) fun _ c' h' => hredo h c' h'
  · rename_i h
    exact hgive h

section Write

variable {F : Faults} {o : Outcomes} {m : Msg} {channel : Nat} {c : Cell} {k : Connection}

theorem Cell.sent_path (hk : c.bs.conn = some k) (hch : channel = 1 ∨ c.bs.inerror = false)
    (hstale : c.bs.inerror = true → k.closeSeen = true → F.stale) :
    Path F c (c.sent o k channel m) :=
  .single ⟨⟨rfl, rfl, Nat.le_refl _, id⟩, _, rfl, .send k channel m _ hk hch hstale rfl rfl rfl⟩

theorem Cell.buffered_altered (hk : c.bs.conn = some k) :
    Altered (c.sent o k channel m) (c.buffered o k channel m) := by
  refine ⟨⟨rfl, rfl, Nat.le_refl _, id⟩, (Quiet.refl _).log_eq rfl, fun q hq => ?_, rfl, rfl⟩
  obtain rfl : k = q := Option.some.inj (hk.symm.trans hq)
  exact ⟨_, rfl, written_ready ..⟩

theorem Cell.sent_acked : ackedIn (c.sent o k channel m).log = ackedIn c.log := by
  simp [Cell.sent, ackedIn]

theorem Cell.written_pending (hk : c.bs.conn = some k) :
    (c.buffered o k channel m).bs.pending = c.bs.pending := by
  simp only [BrokerState.pending, Cell.buffered, Cell.modified_bs, hk, Option.map_some,
    Option.getD_some]
  unfold Connection.written
  split <;> rfl

/-- What a pass returns with. -/
structure Returned (F : Faults) (m : Msg) (channel : Nat) (c : Cell) (r : Bool) (c' : Cell) :
    Prop where
  path : Path F c c'
  acked : ackedIn c'.log = ackedIn c.log ++ if r = true ∧ channel = 2 then [m] else []

/-- A path on which nothing was acknowledged on channel 2. -/
structure Leads (F : Faults) (c c' : Cell) : Prop where
  path : Path F c c'
  acked : ackedIn c'.log = ackedIn c.log

theorem Returned.after {c' c'' : Cell} {r : Bool} (h : Leads F c c')
    (h' : Returned F m channel c' r c'') : Returned F m channel c r c'' :=
  ⟨h.path.trans h'.path, by rw [h'.acked, h.acked]⟩

theorem Leads.trans {c' c'' : Cell} (h : Leads F c c') (h' : Leads F c' c'') : Leads F c c'' :=
  ⟨h.path.trans h'.path, h'.acked.trans h.acked⟩

theorem Leads.returned {c' : Cell} (h : Leads F c c') : Returned F m channel c false c' :=
  ⟨h.path, by simp [h.acked]⟩

theorem Still.leads {c' : Cell} (h : Still c c') : Leads F c c' := ⟨h.path, h.quiet.ackedIn⟩

/-- The connection was given up after `polls` reads and `writes` writes. -/
structure Abandoned (F : Faults) (polls writes : Nat) (c c' : Cell) : Prop where
  frame : SameEntry c c'
  path : c.bs.uncommitted = 0 ∨ F.lossy → Path F c c'
  acked : ackedIn c'.log = ackedIn c.log
  conn : c'.bs.conn = none
  uncommitted : c'.bs.uncommitted = 0
  inerror : c'.bs.inerror = c.bs.inerror
  polls : c'.counts .poll = c.counts .poll + polls
  writes : c'.counts .basicPublish = c.counts .basicPublish + writes
  uses : c'.uses = c.uses

/-- What was done to a written connection before its status was looked at. -/
structure Polled (F : Faults) (o : Outcomes) (k : Connection) (channel : Nat) (m : Msg)
    (polls : Nat) (c c' : Cell) : Prop where
  altered : Altered (c.sent o k channel m) c'
  kept : channel = 2 → c' = c.buffered o k channel m
  path : channel = 1 → c.written o = .ok → Path F (c.sent o k channel m) c'
  polls : c'.counts .poll = c.counts .poll + polls
  writes : c'.counts .basicPublish = c.counts .basicPublish + 1
  uses : c'.uses = c.uses

variable {onceMore : Bool} {redo : M Bool} {Q : Bool → Cell → Prop} {E : Raised → Cell → Prop}

/-- The acknowledgement, one move on either channel. -/
theorem Polled.acknowledged {polls : Nat} {c' : Cell} (h : Polled F o k channel m polls c c')
    (hk : c.bs.conn = some k) (hch : channel = 1 ∨ channel = 2 ∧ c.bs.inerror = false)
    (hstale : c.bs.inerror = true → k.closeSeen = true → F.stale) (hw : c.written o = .ok) :
    Returned F m channel c true ((c'.recorded (.acknowledged k channel m)).modified fun bs =>
      { bs with uncommitted := if channel = 2 then bs.uncommitted + 1 else bs.uncommitted }) := by
  have hsent : Path F c (c.sent o k channel m) := c.sent_path hk (hch.imp_right And.right) hstale
  have hmem : Event.basicPublish k channel m .ok ∈ (c.sent o k channel m).log := by
    simp [Cell.sent, hw]
  rcases hch with rfl | ⟨rfl, herr⟩
  · have hp := h.path rfl hw
    obtain ⟨evs, hl, hn⟩ := h.altered.quiet
    refine ⟨(hsent.trans hp).tail ⟨⟨rfl, rfl, Nat.le_refl _, id⟩, _, rfl, ?_⟩, ?_⟩
    · refine .accept k m ?_ rfl rfl rfl
      rw [hl]
      exact List.mem_append_left _ hmem
    · have hq : ackedIn c'.log = ackedIn c.log := h.altered.quiet.ackedIn.trans c.sent_acked
      rw [Cell.modified_log, Cell.recorded_log, ackedIn_append, hq]
      rfl
  · obtain rfl := h.kept rfl
    refine ⟨hsent.tail ⟨⟨rfl, rfl, Nat.le_refl _, id⟩, _, rfl, ?_⟩, ?_⟩
    · exact .ack k m hmem hk (by rw [← hw]; rfl) herr rfl herr
    · rw [Cell.modified_log, Cell.recorded_log, ackedIn_append]
      exact congrArg (· ++ [m]) c.sent_acked

theorem publishWritten_spec {polls : Nat} {c' : Cell} (h : Polled F o k channel m polls c c')
    (hk : c.bs.conn = some k) (hch : channel = 1 ∨ channel = 2 ∧ c.bs.inerror = false)
    (hstale : c.bs.inerror = true → k.closeSeen = true → F.stale)
    (hflag : ¬ (onceMore = true ∧ (channel = 1 ∨ c.bs.uncommitted = 0)) → F.flagged)
    (hend : ∀ r c', (c.written o = .ok ∨ ¬ (onceMore = true ∧ (channel = 1 ∨ c.bs.uncommitted = 0))) →
      Returned F m channel c r c' → Q r c')
    (hredo : (onceMore = true ∧ (channel = 1 ∨ c.bs.uncommitted = 0)) → c.written o ≠ .ok →
      ∀ c', Abandoned F polls 1 c c' → wp redo Q E c') :
    wp (publishWritten m channel onceMore redo k (c.written o)) Q E c' := by
  have hsent : Path F c (c.sent o k channel m) := c.sent_path hk (hch.imp_right And.right) hstale
  have hacked : ackedIn c'.log = ackedIn c.log := h.altered.quiet.ackedIn.trans c.sent_acked
  obtain ⟨k', hk', -⟩ := h.altered.conn k hk
  unfold publishWritten
  rw [wp_ite]
  split
  · rename_i hw
    have hu : c'.bs.uncommitted = c.bs.uncommitted := h.altered.uncommitted
    refine wp_orRedo hk' (fun hagain c'' hd => ?_) (fun hgive => ?_)
    · refine hredo (hu ▸ hagain) hw c'' ⟨?_, fun hl => hsent.trans (h.altered.dropped hd hk hl), ?_,
        hd.conn, hd.uncommitted, hd.inerror.trans h.altered.inerror, ?_, ?_, hd.uses.trans h.uses⟩
      · exact hsent.frame.trans (h.altered.frame.trans hd.frame)
      · exact hd.quiet.ackedIn.trans hacked
      · rw [hd.counts, h.polls]
      · rw [hd.counts, h.writes]
    · rw [wp_bind, wp_setInerror]
      refine hend false _ (.inr (hu ▸ hgive)) (Leads.returned ⟨?_, hacked⟩)
      exact hsent.trans (h.altered.flagged hk (hflag (hu ▸ hgive)))
  · rename_i hw
    have hw := Decidable.not_not.mp hw
    rw [wp_bind, wp_record, wp_bind, wp_modifyBs]
    exact hend true _ (.inl hw) (h.acknowledged hk hch hstale hw)

theorem Cell.buffered_arrived (hk : c.bs.conn = some k) :
    (c.buffered o k channel m).arrived o = c.arrived o := by
  unfold Cell.arrived
  rw [Cell.written_pending hk]
  exact congrArg (fun n => c.bs.pending ++ (o.poll n).arrivals)
    (c.ticked_other (j := .poll) (k := .basicPublish) (by decide))

theorem Cell.buffered_reads (fs : List Frame) :
    (c.buffered o k channel m).reads o fs = c.reads o fs :=
  c.ticked_reads o fs (k := .basicPublish) (by decide)

/-- The read of `publishPoll` raised. -/
def Cell.pollUnwinds (c : Cell) (o : Outcomes) (m : Msg) (channel : Nat) : Prop :=
  (channel = 1 ∧ m.content.mandatory = true) ∧ c.reads o (c.arrived o) = .unwound

theorem publishPoll_polled (hk : c.bs.conn = some k)
    (hch : channel = 1 ∨ channel = 2 ∧ c.bs.inerror = false)
    (hforget : channel = 1 → m.content.mandatory = true → c.written o = .ok →
      hasClose (c.arrived o) = true → F.forgetful) :
    wp (publishPoll o m channel)
      (fun _ c' => Polled F o k channel m (if channel = 1 ∧ m.content.mandatory = true then 1 else 0)
        c c' ∧ ¬ c.pollUnwinds o m channel)
      (fun _ c' => c.pollUnwinds o m channel ∧ Altered (c.sent o k channel m) c' ∧
        (channel = 1 → Path F (c.sent o k channel m) c'))
      (c.buffered o k channel m) := by
  have hb : Altered (c.sent o k channel m) (c.buffered o k channel m) := c.buffered_altered hk
  have hp : channel = 1 → Path F (c.sent o k channel m) (c.buffered o k channel m) := by
    rintro rfl
    refine .silent hb.frame hb.quiet ?_ rfl rfl
    rw [Cell.buffered, Cell.modified_bs, written_one]
    exact hk.symm
  have hcount : (c.buffered o k channel m).counts .poll = c.counts .poll :=
    c.ticked_other (j := .poll) (k := .basicPublish) (by decide)
  have hone : (c.buffered o k channel m).counts .basicPublish = c.counts .basicPublish + 1 :=
    c.ticked_same .basicPublish
  unfold publishPoll
  rw [wp_ite]
  split
  · rename_i hm
    have hsome : (c.buffered o k channel m).bs.conn.isSome = true := rfl
    have ht := hb.trans (Held.polled _).altered
    rw [wp_bind]
    refine wp_mono (localAmqpDrainReturns_reads o hsome) (fun r c' h => ?_) (fun _ c' h => ?_)
    · obtain ⟨closed, hs, hclose⟩ := h.scanned
      have hne := h.ne_unwound
      rw [Cell.ticked_reads _ _ _ (by decide), Cell.buffered_reads, Cell.buffered_arrived hk] at hne
      refine ⟨⟨ht.trans hs.altered, ?_, fun h1 hw => ?_, ?_, ?_, hs.uses⟩, fun h => hne h.2⟩
      · intro h2
        exact absurd (h2.symm.trans hm.1) (by decide)
      · rw [Cell.buffered_arrived hk] at hclose
        exact ((hp h1).trans ((Held.polled _).path rfl)).trans (hs.path rfl fun h => hforget h1 hm.2 hw (hclose h))
      · rw [hs.counts _ (by decide), Cell.ticked_same, hcount]
      · rw [hs.counts _ (by decide), Cell.ticked_other _ (by decide), hone]
    · have hend := h.1
      rw [Cell.ticked_reads _ _ _ (by decide), Cell.buffered_reads, Cell.buffered_arrived hk] at hend
      refine ⟨⟨hm, hend⟩, ht.trans h.2.altered, fun h1 => ?_⟩
      exact ((hp h1).trans ((Held.polled _).path rfl)).trans (h.2.path rfl (by simp))
  · rename_i hm
    exact ⟨⟨hb, fun _ => rfl, fun h1 _ => hp h1, hcount, hone, rfl⟩, fun h => hm h.1⟩

/-- The write of a pass, from the check of `blocked` on. -/
theorem publishWrite_spec (hk : c.bs.conn = some k)
    (hch : channel = 1 ∨ channel = 2 ∧ c.bs.inerror = false)
    (hstale : c.bs.inerror = true → k.closeSeen = true → F.stale)
    (hforget : channel = 1 → m.content.mandatory = true → c.written o = .ok →
      hasClose (c.arrived o) = true → F.forgetful)
    (hflag : ¬ (onceMore = true ∧ (channel = 1 ∨ c.bs.uncommitted = 0)) → F.flagged)
    (hend : ∀ r c', (c.written o = .ok ∨ ¬ (onceMore = true ∧ (channel = 1 ∨ c.bs.uncommitted = 0))) →
      Returned F m channel c r c' → Q r c')
    (hraise : ∀ e c', c.pollUnwinds o m channel → Leads F c c' → E e c')
    (hredo : (onceMore = true ∧ (channel = 1 ∨ c.bs.uncommitted = 0)) → c.written o ≠ .ok →
      ¬ c.pollUnwinds o m channel →
      ∀ c', Abandoned F (if channel = 1 ∧ m.content.mandatory = true then 1 else 0) 1 c c' →
        wp redo Q E c') :
    wp (publishWrite o m channel onceMore redo) Q E c := by
  have hsent : Path F c (c.sent o k channel m) := c.sent_path hk (hch.imp_right And.right) hstale
  unfold publishWrite
  rw [wp_bind, wp_getBs, hk]
  dsimp only
  rw [wp_bind, wp_amqpBasicPublish, wp_bind]
  refine wp_mono (publishPoll_polled hk hch hforget) (fun _ c' h => ?_) (fun e c' h => ?_)
  · exact publishWritten_spec h.1 hk hch hstale hflag hend fun ha hw c' => hredo ha hw h.2 c'
  · refine hraise e c' h.1 ⟨hsent.trans (h.2.2 h.1.1.1), ?_⟩
    exact h.2.1.quiet.ackedIn.trans c.sent_acked

/-- A cell in which a pass has read all frames and given `warned` warnings since. -/
structure Opened (o : Outcomes) (warned : Nat) (c c' : Cell) : Prop extends Held c c' where
  alive : (o.poll (c.counts .poll)).alive = true
  ended : ∃ n, c.reads o (c.arrived o) = .through n c'.bs.blocked ∧ c'.counts .elog = n + warned
  pending : c'.bs.pending = []
  polls : c'.counts .poll = c.counts .poll + 1
  writes : c'.counts .basicPublish = c.counts .basicPublish
  uses : c'.uses = c.uses

theorem Usable.opened {alive : Bool} {c' : Cell} (halive : alive = (o.poll (c.counts .poll)).alive)
    (h : Usable o alive (c.ticked .poll) (c.arrived o) c') : Opened o 0 c c' where
  toHeld := (Held.polled c).trans h.scanned.held
  alive := halive.symm.trans h.alive
  ended := ⟨_, (c.ticked_reads o _ (by decide)).symm.trans h.ended, rfl⟩
  pending := h.pending
  polls := (h.scanned.counts .poll (by decide)).trans (c.ticked_same .poll)
  writes := (h.scanned.counts .basicPublish (by decide)).trans (c.ticked_other (by decide))
  uses := h.scanned.uses

theorem Opened.warned {n : Nat} {c' : Cell} (h : Opened o n c c') (r : Report)
    (hr : r.isLoss = false) : Opened o (n + 1) c (c'.warned r) where
  toHeld := h.toHeld.trans (Still.warned c' r hr).held
  alive := h.alive
  ended := by
    obtain ⟨w, hend, hw⟩ := h.ended
    exact ⟨w, hend, by rw [c'.warned_counts, hw, Nat.add_assoc]⟩
  pending := h.pending
  polls := (c'.ticked_other (j := .poll) (k := .elog) (by decide)).trans h.polls
  writes := (c'.ticked_other (j := .basicPublish) (k := .elog) (by decide)).trans h.writes
  uses := h.uses

theorem Held.leads {c' : Cell} (h : Held c c') (hk : c.bs.conn = some k) : Leads F c c' :=
  ⟨h.path hk, h.quiet.ackedIn⟩

theorem Opened.usable {n : Nat} {c' : Cell} (h : Opened o n c c') : c.usable o = true := by
  obtain ⟨w, hend, -⟩ := h.ended
  unfold Cell.usable
  rw [readFrames_through hend, h.alive]
  rfl

theorem Opened.writable {n : Nat} {c' : Cell} (h : Opened o n c c') (hb : c'.bs.blocked = false) :
    c.writable o = true := by
  obtain ⟨w, hend, -⟩ := h.ended
  have hflag : c'.bs.blocked = blockedBy c.bs.blocked (c.arrived o) := readFrames_blocked hend
  refine Bool.and_eq_true_iff.mpr ⟨h.usable, ?_⟩
  exact (Bool.not_eq_true' _).mpr (hflag.symm.trans hb)

theorem Opened.written {n : Nat} {c' : Cell} (h : Opened o n c c') : c'.written o = c.written o := by
  unfold Cell.written
  rw [h.writes]

theorem Opened.arrived {n : Nat} {c' : Cell} (h : Opened o n c c') :
    c'.arrived o = (o.poll (c.counts .poll + 1)).arrivals := by
  unfold Cell.arrived
  rw [h.pending, h.polls]
  rfl

/-- Whether the pass serves the call once it has come this far. -/
theorem Opened.serves (m : Msg) (badMode : Option Int) (channel : Nat) {n : Nat} {c' : Cell}
    (h : Opened o n c c') :
    ∃ w, c'.counts .elog = w + n ∧ c.serves o m badMode channel = (c'.bs.blocked ||
      badMode.any (fun mode => !c.backend.holdoff && o.unwind w (.ignoredDeliveryMode mode)) ||
      c.written o = .ok || (channel = 1 && m.content.mandatory &&
        readFrames (fun n r => !c.backend.holdoff && o.unwind n r) c.bs.brokerId
          (w + badMode.toList.length) false (o.poll (c.counts .poll + 1)).arrivals = .unwound)) := by
  obtain ⟨w, hend, hw⟩ := h.ended
  refine ⟨w, hw, ?_⟩
  unfold Cell.serves
  simp only [hend, h.alive, Bool.true_and]

/-- The reads and writes a pass has made when it goes back to `redo`. -/
inductive Cell.Retries (c : Cell) (o : Outcomes) (m : Msg) (channel : Nat) : Nat → Nat → Prop where
  | unusable : c.usable o = false → c.Retries o m channel 1 0
  | refused : c.usable o = true → c.written o ≠ .ok →
      c.Retries o m channel (1 + if channel = 1 ∧ m.content.mandatory = true then 1 else 0) 1

variable {badMode : Option Int}

/-- What the ways out of a pass have to meet: a close behind a write that went through, a
call that is given up, the end, a cancel, and the way back to `redo`. -/
structure Cell.PassExits (c : Cell) (o : Outcomes) (m : Msg) (badMode : Option Int) (channel : Nat)
    (onceMore : Bool) (redo : M Bool) (F : Faults) (Q : Bool → Cell → Prop)
    (E : Raised → Cell → Prop) : Prop where
  late : channel = 1 → m.content.mandatory = true → c.writable o = true → c.written o = .ok →
    hasClose (o.poll (c.counts .poll + 1)).arrivals = true → F.forgetful
  flagged : ¬ (onceMore = true ∧ (channel = 1 ∨ c.bs.uncommitted = 0)) → F.flagged
  ended : ∀ r c', (c.serves o m badMode channel = true ∨
    ¬ (onceMore = true ∧ (channel = 1 ∨ c.bs.uncommitted = 0))) →
    Returned F m channel c r c' → Q r c'
  raised : ∀ e c', c.serves o m badMode channel = true → Leads F c c' → E e c'
  again : (onceMore = true ∧ (channel = 1 ∨ c.bs.uncommitted = 0)) →
    c.serves o m badMode channel = false → ∀ polls writes c', c.Retries o m channel polls writes →
    Abandoned F polls writes c c' → wp redo Q E c'

/-- The specification of a pass from the check of `blocked` on. -/
theorem publishOpened_spec {c' : Cell} (brokerId : Int) (h : Opened o 0 c c')
    (hk : c.bs.conn = some k) (hch : channel = 1 ∨ channel = 2 ∧ c.bs.inerror = false)
    (hstale : c.bs.inerror = true → k.closeSeen = true → F.stale)
    (hx : c.PassExits o m badMode channel onceMore redo F Q E) :
    wp (publishDrained o brokerId m badMode channel onceMore redo) Q E c' := by
  obtain ⟨w, hw, hserves⟩ := h.serves m badMode channel
  rw [Nat.add_zero] at hw
  have hold : c'.backend.holdoff = c.backend.holdoff := h.frame.holdoff
  -- the write, from the cell in which the delivery mode has been dealt with
  have write : ∀ {c₃ : Cell}, Opened o badMode.toList.length c c₃ → c'.bs.blocked = false →
      c₃.bs.blocked = false → c₃.counts .elog = w + badMode.toList.length →
      (badMode.any (fun mode => !c.backend.holdoff && o.unwind w (.ignoredDeliveryMode mode))) = false →
      wp (publishWrite o m channel onceMore redo) Q E c₃ := by
    intro c₃ h₃ hb hb₃ hw₃ hmode
    obtain ⟨k', hk', -, hs⟩ := h₃.conn k hk
    have hpoll : c₃.pollUnwinds o m channel ↔ (channel = 1 && m.content.mandatory &&
        readFrames (fun n r => !c.backend.holdoff && o.unwind n r) c.bs.brokerId
          (w + badMode.toList.length) false (o.poll (c.counts .poll + 1)).arrivals = .unwound) := by
      unfold Cell.pollUnwinds Cell.reads
      rw [h₃.arrived, hb₃, hw₃, h₃.frame.holdoff, h₃.frame.brokerId]
      simp
    rw [hb, hmode, Bool.false_or, Bool.false_or] at hserves
    have hl := h₃.toHeld.leads (F := F) hk
    refine publishWrite_spec hk' (hch.imp_right (And.imp_right h₃.inerror.trans))
      (fun he hc => hstale (h₃.inerror ▸ he) (hs ▸ hc)) ?_ (h₃.uncommitted ▸ hx.flagged) ?_ ?_ ?_
    · intro h1 hm hok hclose
      rw [h₃.arrived] at hclose
      exact hx.late h1 hm (h₃.writable hb₃) (h₃.written ▸ hok) hclose
    · intro r c₄ hor hr
      rw [h₃.written, h₃.uncommitted] at hor
      refine hx.ended r c₄ (hor.imp_left fun hok => ?_) (hr.after hl)
      rw [hserves, decide_eq_true hok]
      rfl
    · intro e c₄ hp h₄
      refine hx.raised e c₄ ?_ (hl.trans h₄)
      rw [hserves, hpoll.mp hp, Bool.or_true]
    · intro ha hne hp c₄ h₄
      rw [h₃.uncommitted] at ha
      rw [h₃.written] at hne
      refine hx.again ha ?_ _ _ c₄ (.refused h₃.usable hne) ?_
      · rw [hserves, decide_eq_false hne, Bool.false_or, ← Bool.not_eq_true, ← hpoll]
        exact hp
      · exact ⟨h₃.frame.trans h₄.frame, fun hl' => hl.path.trans (h₄.path (h₃.uncommitted ▸ hl')),
          h₄.acked.trans hl.acked, h₄.conn, h₄.uncommitted, h₄.inerror.trans h₃.inerror,
          by rw [h₄.polls, h₃.polls, Nat.add_assoc], by rw [h₄.writes, h₃.writes], h₄.uses.trans h₃.uses⟩
  unfold publishDrained
  rw [wp_bind, wp_getBs, wp_ite]
  split
  · rename_i hb
    have hs : c.serves o m badMode channel = true := by
      rw [hserves, hb]
      rfl
    have hrefused : Still c' ((c'.recorded (.refused c'.bs.conn)).warned (.publisherBlocked brokerId)) :=
      (Still.recorded c' rfl).trans (.warned _ _ rfl)
    have hl := (h.toHeld.trans hrefused.held).leads (F := F) hk
    rw [wp_bind, wp_record, wp_bind, wp_elog]
    split
    · exact hx.raised _ _ hs hl
    · exact hx.ended false _ (.inl hs) hl.returned
  · rename_i hb
    have hb := Bool.eq_false_iff.mpr hb
    rw [wp_bind]
    unfold publishMode
    cases badMode with
    | none => exact write h hb hb hw rfl
    | some mode =>
      have h₃ := h.warned (.ignoredDeliveryMode mode) rfl
      dsimp only
      rw [wp_elog]
      split
      · rename_i hu
        refine hx.raised _ _ ?_ (h₃.toHeld.leads hk)
        rw [Cell.unwinds, hold, hw] at hu
        rw [hserves, Option.any_some, hu, Bool.or_true]
        rfl
      · rename_i hu
        rw [Cell.unwinds, hold, hw] at hu
        exact write h₃ hb hb ((c'.warned_counts _).trans (congrArg (· + 1) hw))
          (Bool.eq_false_iff.mpr hu)

/-- A read that did not find the connection usable: the pass does not serve the call. -/
theorem ReadPost.unusable (m : Msg) (badMode : Option Int) (channel : Nat) {alive : Bool} {r : Int} {c' : Cell}
    (halive : alive = (o.poll (c.counts .poll)).alive)
    (h : ReadPost o alive (c.ticked .poll) (c.arrived o) r c') (hr : r ≠ 0) :
    c.usable o = false ∧ c.serves o m badMode channel = false := by
  have hf := h.failed hr
  rw [c.ticked_reads o _ (by decide)] at hf
  unfold Cell.usable Cell.serves
  rcases hf with hend | ⟨ha, n, b, hend⟩
  · simp [hend, readFrames_closed hend]
  · simp [hend, ← halive, ha]

/-- The specification of a pass on the connection it finds. -/
theorem publishConnected_spec (brokerId : Int) (hk : c.bs.conn = some k)
    (hch : channel = 1 ∨ channel = 2 ∧ c.bs.inerror = false)
    (hstale : c.usable o = true → c.bs.inerror = true → k.closeSeen = true → F.stale)
    (hearly : channel = 1 → onceMore = false → hasClose (c.arrived o) = true → F.forgetful)
    (hx : c.PassExits o m badMode channel onceMore redo F Q E) :
    wp (publishConnected o brokerId m badMode channel onceMore redo) Q E c := by
  have hsome : c.bs.conn.isSome = true := by rw [hk]; rfl
  have hcond : c.bs.conn.isSome = true ∧ (channel = 1 ∨ ¬ c.bs.inerror = true) :=
    ⟨hsome, hch.imp_right fun h => by simp [h.2]⟩
  have hpolled := (Held.polled c).altered
  unfold publishConnected
  rw [wp_bind, wp_getBs, wp_ite, if_pos hcond, wp_bind]
  refine wp_mono (localAmqpDrainReturns_reads o hsome) (fun r c₁ h => ?_) (fun e c₁ h => ?_)
  · rw [wp_ite]
    split
    · rename_i hr
      obtain ⟨husable, hserves⟩ := h.unusable m badMode channel rfl hr
      obtain ⟨closed, hs, hclose⟩ := h.scanned
      obtain ⟨k₁, hk₁, -⟩ := hs.conn k hk
      have hu : c₁.bs.uncommitted = c.bs.uncommitted := hs.uncommitted
      have hacked : ackedIn c₁.log = ackedIn c.log := hs.quiet.ackedIn
      refine wp_orRedo hk₁ (fun hagain c₂ hd => ?_) (fun hgive => ?_)
      · refine hx.again (hu ▸ hagain) hserves 1 0 c₂ (.unusable husable) ⟨?_, fun hl => ?_,
          hd.quiet.ackedIn.trans hacked, hd.conn, hd.uncommitted, hd.inerror.trans hs.inerror, ?_, ?_,
          hd.uses.trans hs.uses⟩
        · exact hpolled.frame.trans (hs.frame.trans hd.frame)
        · exact (hpolled.trans hs.altered).dropped hd hk hl
        · rw [hd.counts, hs.counts _ (by decide), Cell.ticked_same]
        · rw [hd.counts, hs.counts _ (by decide), Cell.ticked_other _ (by decide), Nat.add_zero]
      · have hgive : ¬ (onceMore = true ∧ (channel = 1 ∨ c.bs.uncommitted = 0)) := hu ▸ hgive
        rw [wp_ite]
        split
        · rw [wp_bind, wp_setInerror]
          exact hx.ended false _ (.inr hgive) (Leads.returned
            ⟨(hpolled.trans hs.altered).flagged hk (hx.flagged hgive), hacked⟩)
        · rename_i hne
          have h1 : channel = 1 := hch.resolve_right fun h => hne h.1
          have honce : onceMore = false :=
            Bool.eq_false_iff.mpr fun h => hgive ⟨h, .inl h1⟩
          refine hx.ended false _ (.inr hgive) (Leads.returned ⟨?_, hacked⟩)
          exact ((Held.polled c).path hk).trans (hs.path hk fun h => hearly h1 honce (hclose h))
    · rename_i hr
      obtain rfl : r = 0 := Decidable.not_not.mp hr
      have hopen : Opened o 0 c c₁ := h.usable.opened rfl
      exact publishOpened_spec brokerId hopen hk hch (hstale hopen.usable) hx
  · have hs : c.serves o m badMode channel = true := by
      have hu := h.1
      rw [c.ticked_reads o _ (by decide)] at hu
      unfold Cell.serves
      simp [hu]
    exact hx.raised e c₁ hs ⟨((Held.polled c).path hk).trans (h.2.path hk (by simp)), h.2.quiet.ackedIn⟩

/-- Where there is no connection, or channel 2 is in error, the call is refused. -/
theorem wp_publishConnected_refused (brokerId : Int)
    (h : ¬ (c.bs.conn.isSome = true ∧ (channel = 1 ∨ ¬ c.bs.inerror = true))) :
    wp (publishConnected o brokerId m badMode channel onceMore redo) Q E c = Q false c := by
  unfold publishConnected
  rw [wp_bind, wp_getBs, wp_ite, if_neg h, wp_pure]

/-- A pass that has to connect is refused, or goes on with the connection it has made. -/
theorem publishPass_connecting (brokerId : Int) (hc : c.bs.conn = none) (hz : c.bs.uncommitted = 0)
    (hch : channel = 1 ∨ channel = 2) (hhalf : o.HalfOpen → F.halfOpen)
    (hmade : ∀ c', Setting (fun k => k.ready = true) c.link c' → o.Greets c.uses c' → Leads F c.link c' →
      (channel = 1 ∨ channel = 2 ∧ c'.bs.inerror = false) →
      wp (publishConnected o brokerId m badMode channel onceMore redo) (Returned F m channel c.link)
        (fun _ => Leads F c.link) c') :
    wp (publishPass o brokerId m badMode channel onceMore redo) (Returned F m channel c.link)
      (fun _ => Leads F c.link) c := by
  unfold publishPass
  refine wp_seq (wp_mono (wp_and (localAmqpGetBs_connected o brokerId hc hz) (localAmqpGetBs_greets brokerId hc))
    (fun _ _ h => h) (fun e c' h => ?_)) fun _ c' h => ?_
  · rcases h.1 with h | ⟨h, ho⟩
    · exact h.leads
    · exact ⟨h.path hc fun _ _ => .inr (hhalf ho), h.quiet.ackedIn⟩
  · obtain ⟨h | h, hgreets⟩ := h
    · have hnone : c'.bs.conn = none := h.conn.trans hc
      rw [wp_publishConnected_refused brokerId (by simp [hnone])]
      exact h.leads.returned
    · have hl : Leads F c.link c' := ⟨h.path hc fun _ hk => .inl hk, h.quiet.ackedIn⟩
      obtain ⟨k, hk, -⟩ := h.conn
      have hgreets := hgreets.resolve_left (by simp [hk])
      by_cases hok : channel = 1 ∨ channel = 2 ∧ c'.bs.inerror = false
      · exact hmade c' h hgreets hl hok
      · rw [wp_publishConnected_refused brokerId]
        · exact hl.returned
        · rintro ⟨-, h1 | he⟩
          · exact hok (.inl h1)
          · rcases hch with h1 | h2
            · exact hok (.inl h1)
            · exact hok (.inr ⟨h2, Bool.eq_false_iff.mpr he⟩)

/-- The read behind a write that went through takes a close, and its result is dropped. -/
def Outcomes.forgetsLate (o : Outcomes) (mandatory : Bool) (polls writes : Nat) : Prop :=
  mandatory = true ∧ o.basicPublish writes = .ok ∧ hasClose (o.poll (polls + 1)).arrivals = true

/-- A second pass, which connects from `u` on, keeps a connection whose close it read:
one that came with the handshake or was found by the first read, or one behind its write. -/
def Outcomes.forgetsAgain (o : Outcomes) (mandatory : Bool) (u : Uses) (polls writes : Nat) : Prop :=
  ∃ v, o.Makes u v ∧ (hasClose (o.greeting v ++ (o.poll polls).arrivals) = true ∨
    o.writable (o.greeting v) false polls = true ∧ o.forgetsLate mandatory polls writes)

/-- A call on channel 1 keeps a connection whose close it read. Its first pass is on a
connection on which `pending` waits; the second one connects from `u` on. -/
def Outcomes.forgets (o : Outcomes) (mandatory : Bool) (pending : List Frame) (blocked : Bool) (u : Uses)
    (polls writes : Nat) : Prop :=
  o.writable pending blocked polls = true ∧ o.forgetsLate mandatory polls writes ∨
  o.usable pending polls = false ∧ o.forgetsAgain mandatory u (polls + 1) writes ∨
  o.writable pending blocked polls = true ∧ o.basicPublish writes ≠ .ok ∧
    o.forgetsAgain mandatory u (polls + (1 + if mandatory = true then 1 else 0)) (writes + 1)

/-- The first pass is on the connection of the entry, or on the one that it makes. -/
def Cell.forgets (c : Cell) (o : Outcomes) (mandatory : Bool) : Prop :=
  match c.bs.conn with
  | some k => o.forgets mandatory k.queue c.bs.blocked c.uses (c.counts .poll) (c.counts .basicPublish)
  | none => ∃ v, o.Makes c.uses v ∧
      o.forgets mandatory (o.greeting v) false (o.spent v) (c.counts .poll) (c.counts .basicPublish)

theorem Cell.forgets_live {mandatory : Bool} (hk : c.bs.conn = some k)
    (h : o.forgets mandatory c.bs.pending c.bs.blocked c.uses (c.counts .poll) (c.counts .basicPublish)) :
    c.forgets o mandatory := by
  simpa [Cell.forgets, hk, BrokerState.pending] using h

/-- The pass of `redo`, which starts without a connection. -/
theorem lastPass_spec (brokerId : Int) (hc : c.bs.conn = none) (hz : c.bs.uncommitted = 0)
    (hch : channel = 1 ∨ channel = 2) (hhalf : o.HalfOpen → F.halfOpen) (hflag : F.flagged)
    (hforget : channel = 1 → o.forgetsAgain m.content.mandatory c.uses (c.counts .poll)
      (c.counts .basicPublish) → F.forgetful) :
    wp (publishPass o brokerId m badMode channel false redo) (Returned F m channel c)
      (fun _ => Leads F c) c := by
  have hlink : Leads F c c.link := (Still.link c).leads
  refine wp_mono (publishPass_connecting brokerId hc hz hch hhalf fun c' h hgreets hl hok => ?_)
    (fun _ _ h => h.after hlink) (fun _ _ h => hlink.trans h)
  obtain ⟨k, hk, hblank, -⟩ := h.conn
  obtain ⟨v, hv, -, hblocked, hqueue⟩ := hgreets
  have hpoll : c'.counts .poll = c.counts .poll := h.counts.1
  have hwrite : c'.counts .basicPublish = c.counts .basicPublish := h.counts.2
  refine publishConnected_spec brokerId hk hok ?_ ?_ {
    late := ?_
    flagged := fun _ => hflag
    ended := fun r c'' _ hr => hr.after hl
    raised := fun _ _ _ h' => hl.trans h'
    again := fun ha => absurd ha.1 (by decide) }
  · intro _ _ hs
    exact absurd hs (by simp [hblank.closeSeen])
  · intro h1 _ hclose
    rw [Cell.arrived, hqueue, hpoll] at hclose
    exact hforget h1 ⟨v, hv, .inl hclose⟩
  · intro h1 hm hw hok hclose
    rw [Cell.writable, hqueue, hblocked, hpoll] at hw
    rw [hpoll] at hclose
    exact hforget h1 ⟨v, hv, .inr ⟨hw, hm, hwrite ▸ hok, hclose⟩⟩

/-- A usable connection that the pass does not serve the call on was written to. -/
theorem Cell.writable_of_dead (hs : c.serves o m badMode channel = false) (hu : c.usable o = true) :
    c.writable o = true := by
  have halive := (Bool.and_eq_true_iff.mp hu).2
  have hread : ∃ n, c.reads o (c.arrived o) = .through n false := by
    unfold Cell.serves at hs
    cases hend : c.reads o (c.arrived o) with
    | unwound => simp [hend] at hs
    | closed =>
      rw [Cell.usable, readFrames_closed hend] at hu
      cases hu
    | through n b =>
      simp only [hend, halive, Bool.true_and, Bool.or_eq_false_iff] at hs
      exact ⟨n, by rw [hs.1.1.1]⟩
  obtain ⟨n, hend⟩ := hread
  exact Bool.and_eq_true_iff.mpr ⟨hu, (Bool.not_eq_true' _).mpr (readFrames_blocked hend).symm⟩

/-- What a retried pass has left to the second one. -/
theorem Cell.Retries.forgets {polls writes : Nat} (h : c.Retries o m channel polls writes)
    (hs : c.serves o m badMode channel = false) (h1 : channel = 1)
    (hf : o.forgetsAgain m.content.mandatory c.uses (c.counts .poll + polls)
      (c.counts .basicPublish + writes)) :
    o.forgets m.content.mandatory c.bs.pending c.bs.blocked c.uses (c.counts .poll)
      (c.counts .basicPublish) := by
  cases h with
  | unusable hu => exact .inr (.inl ⟨hu, hf⟩)
  | refused hu hw =>
    refine .inr (.inr ⟨c.writable_of_dead hs hu, hw, ?_⟩)
    simpa [h1] using hf

/-- Which faults a publish call on an entry may have. -/
structure Cell.PublishFaults (c : Cell) (o : Outcomes) (m : Msg) (badMode : Option Int)
    (channel : Nat) (F : Faults) : Prop where
  lossy : channel = 1 → c.serves o m badMode 1 = false → c.bs.uncommitted = 0 ∨ F.lossy
  forgetful : channel = 1 → c.forgets o m.content.mandatory → F.forgetful
  stale : channel = 1 → c.usable o = true → c.bs.inerror = true →
    (∃ k, c.bs.conn = some k ∧ k.closeSeen = true) → F.stale
  halfOpen : o.HalfOpen → F.halfOpen
  flagged : (channel = 1 → c.bs.conn = none ∨ c.serves o m badMode 1 = false) → F.flagged

/-- Both passes, on the connection that the call finds. -/
theorem publish_live {brokerId : Int} (hk : c.bs.conn = some k)
    (hch : channel = 1 ∨ channel = 2 ∧ c.bs.inerror = false)
    (hF : c.PublishFaults o m badMode channel F)
    (hend : ∀ r c', (c.serves o m badMode channel = true ∨ ¬ (channel = 1 ∨ c.bs.uncommitted = 0)) →
      Returned F m channel c.link r c' → Q r c')
    (hraise : ∀ e c', c.serves o m badMode channel = true → Leads F c.link c' → E e c')
    (hredo : (channel = 1 ∨ c.bs.uncommitted = 0) → c.serves o m badMode channel = false →
      ∀ polls writes c', c.link.Retries o m channel polls writes →
      Abandoned F polls writes c.link c' → wp redo Q E c') :
    wp (publishPass o brokerId m badMode channel true redo) Q E c := by
  unfold publishPass
  rw [wp_bind, localAmqpGetBs_live o brokerId hk]
  refine publishConnected_spec (c := c.link) (F := F) brokerId hk hch ?_ (fun _ h => absurd h (by decide)) {
    late := ?_
    flagged := ?_
    ended := fun r c' h => hend r c' (h.imp_right fun hn hc => hn ⟨rfl, hc⟩)
    raised := hraise
    again := fun ha => hredo ha.2 }
  · intro hu he hc
    rcases hch with h1 | h2
    · exact hF.stale h1 hu he ⟨k, hk, hc⟩
    · exact absurd (he.symm.trans h2.2) (by decide)
  · intro h1 hm hw hok hclose
    exact hF.forgetful h1 (c.forgets_live hk (.inl ⟨hw, hm, hok, hclose⟩))
  · intro hn
    exact hF.flagged fun h1 => absurd ⟨rfl, .inl h1⟩ hn

/-- The second pass after the first has given its connection up. -/
theorem publish_again {brokerId : Int} {polls writes : Nat} {c' : Cell}
    (hk : c.bs.conn = some k) (hch : channel = 1 ∨ channel = 2) (hF : c.PublishFaults o m badMode channel F)
    (hr : c.Retries o m channel polls writes) (h : Abandoned F polls writes c c')
    (hl : c.bs.uncommitted = 0 ∨ F.lossy) (hs : c.serves o m badMode channel = false) :
    wp (publishPass o brokerId m badMode channel false redo) (Returned F m channel c)
      (fun _ => Leads F c) c' := by
  have hlead : Leads F c c' := ⟨h.path hl, h.acked⟩
  refine wp_mono (lastPass_spec brokerId h.conn h.uncommitted hch hF.halfOpen
      (hF.flagged fun h1 => .inr (h1 ▸ hs)) fun h1 hf => ?_)
    (fun r c'' h'' => h''.after hlead) (fun _ c'' h'' => hlead.trans h'')
  rw [h.polls, h.writes, h.uses] at hf
  exact hF.forgetful h1 (c.forgets_live hk (hr.forgets hs h1 hf))

/-- Both passes, where the first has to connect. -/
theorem publish_fresh {brokerId : Int} (hc : c.bs.conn = none) (hz : c.bs.uncommitted = 0)
    (hch : channel = 1 ∨ channel = 2) (hF : c.PublishFaults o m badMode channel F) :
    wp (publishPass o brokerId m badMode channel true
      (publishPass o brokerId m badMode channel false redo)) (Returned F m channel c.link)
      (fun _ => Leads F c.link) c := by
  generalize hredo : publishPass o brokerId m badMode channel false redo = again
  refine publishPass_connecting brokerId hc hz hch hF.halfOpen fun c' h hgreets hl hok => ?_
  obtain ⟨k, hk, hblank, -⟩ := h.conn
  obtain ⟨v, hv, huses, hblocked, hqueue⟩ := hgreets
  have hpoll : c'.counts .poll = c.counts .poll := h.counts.1
  have hwrite : c'.counts .basicPublish = c.counts .basicPublish := h.counts.2
  -- the first pass is on the connection it has made
  have forgetful : channel = 1 → o.forgets m.content.mandatory c'.bs.pending c'.bs.blocked c'.uses
      (c'.counts .poll) (c'.counts .basicPublish) → F.forgetful := by
    intro h1 hf
    rw [hqueue, hblocked, huses, hpoll, hwrite] at hf
    refine hF.forgetful h1 ?_
    unfold Cell.forgets
    rw [hc]
    exact ⟨v, hv, hf⟩
  refine publishConnected_spec brokerId hk hok ?_ (fun _ h => absurd h (by decide)) {
    late := fun h1 hm hw hok hclose => forgetful h1 (.inl ⟨hw, hm, hok, hclose⟩)
    flagged := fun _ => hF.flagged fun _ => .inl hc
    ended := fun r c'' _ hr => hr.after hl
    raised := fun _ _ _ h' => hl.trans h'
    again := fun _ hs polls writes c'' hr ha => ?_ }
  · intro _ _ hs
    exact absurd hs (by simp [hblank.closeSeen])
  · have hu : c'.bs.uncommitted = 0 := h.uncommitted.trans hz
    have hlead : Leads F c.link c'' := hl.trans ⟨ha.path (.inl hu), ha.acked⟩
    rw [← hredo]
    refine wp_mono (lastPass_spec brokerId ha.conn ha.uncommitted hch hF.halfOpen
      (hF.flagged fun _ => .inl hc) fun h1 hf => ?_)
      (fun r c₃ h₃ => h₃.after hlead) (fun _ c₃ h₃ => hlead.trans h₃)
    rw [ha.polls, ha.writes, ha.uses] at hf
    exact forgetful h1 (hr.forgets hs h1 hf)

end Write

/-- The cell after the call got its number. -/
def Cell.numbered (c : Cell) : Cell :=
  { c with backend := { c.backend with nextCall := c.backend.nextCall + 1 } }

@[simp] theorem wp_newMsg (content : Content) {c : Cell} {Q : Msg → Cell → Prop}
    {E : Raised → Cell → Prop} :
    wp (newMsg content) Q E c = Q ⟨c.backend.nextCall, content⟩ c.numbered := rfl

/-- How a call leaves an entry: in `HEAD_BS`, or not touched. -/
structure Left (F : Faults) (c c' : Cell) : Prop where
  path : Path F c c'
  linked : c'.linked = true ∨ c'.bs = c.bs

theorem Left.of_link {F : Faults} {c c' : Cell} (h : Path F c.link c') : Left F c c' :=
  ⟨(Still.link c).path.trans h, .inl (h.frame.linked rfl)⟩

/-- What a publish call returns with. -/
structure Published (F : Faults) (m : Msg) (channel : Nat) (c : Cell) (r : Bool) (c' : Cell) :
    Prop where
  left : Left F c c'
  acked : ackedIn c'.log = ackedIn c.log ++ if r = true ∧ channel = 2 then [m] else []
  numbered : r = true → c.backend.nextCall < c'.backend.nextCall

/-- What a call leaves behind in which nothing was acknowledged on channel 2. -/
structure Unacked (F : Faults) (c c' : Cell) : Prop where
  left : Left F c c'
  acked : ackedIn c'.log = ackedIn c.log

/-- Both passes on an entry in any state. -/
theorem publishPasses_spec {F : Faults} {o : Outcomes} {brokerId : Int} {m : Msg}
    {badMode : Option Int} {channel : Nat} {redo : M Bool} {c : Cell}
    (hch : channel = 1 ∨ channel = 2) (hidle : Idle c.bs)
    (hF : c.PublishFaults o m badMode channel F) :
    wp (publishPass o brokerId m badMode channel true
      (publishPass o brokerId m badMode channel false redo)) (Returned F m channel c.link)
      (fun _ => Leads F c.link) c := by
  cases hk : c.bs.conn with
  | none => exact publish_fresh hk (hidle hk) hch hF
  | some k =>
    by_cases hok : channel = 1 ∨ channel = 2 ∧ c.bs.inerror = false
    · refine publish_live hk hok hF (fun _ _ _ h => h) (fun _ _ _ h => h)
        (fun ha hs polls writes c' hr hab => ?_)
      have hF' : c.link.PublishFaults o m badMode channel F :=
        ⟨hF.lossy, hF.forgetful, hF.stale, hF.halfOpen, hF.flagged⟩
      refine publish_again (c := c.link) hk hch hF' hr hab ?_ hs
      by_cases h1 : channel = 1
      · exact hF.lossy h1 (h1 ▸ hs)
      · exact .inl (ha.resolve_left h1)
    · have hno : ¬ (c.link.bs.conn.isSome = true ∧ (channel = 1 ∨ ¬ c.link.bs.inerror = true)) := by
        rintro ⟨-, h1 | he⟩
        · exact hok (.inl h1)
        · exact hok (hch.imp_right fun h2 => ⟨h2, Bool.eq_false_iff.mpr he⟩)
      generalize publishPass o brokerId m badMode channel false redo = again
      unfold publishPass
      rw [wp_bind, localAmqpGetBs_live o brokerId hk, wp_publishConnected_refused brokerId hno]
      exact (Still.refl _).leads.returned

theorem pgAmqpPublishOpt_spec {F : Faults} (o : Outcomes) (brokerId : Int) (a : PublishArgs)
    {channel : Nat} (hch : channel = 1 ∨ channel = 2) {c : Cell} (hidle : Idle c.bs)
    (hF : a.bodyTooLarge c.backend.gucs = false →
      c.PublishFaults o ⟨c.backend.nextCall, a.content⟩ a.badDeliveryMode channel F) :
    wp (pgAmqpPublishOpt o brokerId a channel)
      (Published F ⟨c.backend.nextCall, a.content⟩ channel c) (fun _ => Unacked F c) c := by
  unfold pgAmqpPublishOpt
  rw [wp_bind, wp_getGucs, wp_ite]
  split
  · have hs := Still.warned c (.bodyTooLarge (a.message.getD "").utf8ByteSize
      c.backend.gucs.maxBodyBytes) rfl
    generalize Report.bodyTooLarge _ _ = r at hs ⊢
    have hl : Left F c (c.warned r) := ⟨hs.path, .inr rfl⟩
    rw [wp_bind, wp_elog]
    split
    · exact ⟨hl, hs.quiet.ackedIn⟩
    · exact ⟨hl, by simp [hs.quiet.ackedIn], by simp⟩
  · rename_i hb
    have hF := hF (Bool.eq_false_iff.mpr hb)
    have hF : c.numbered.PublishFaults o ⟨c.backend.nextCall, a.content⟩ a.badDeliveryMode channel F :=
      ⟨hF.lossy, hF.forgetful, hF.stale, hF.halfOpen, hF.flagged⟩
    have hnum : Still c.link c.numbered.link :=
      ⟨⟨rfl, rfl, Nat.le_succ _, id⟩, (Quiet.refl _).log_eq rfl, ⟨rfl, rfl⟩, rfl, rfl, rfl⟩
    rw [wp_bind, wp_newMsg]
    refine wp_mono (publishPasses_spec (c := c.numbered) hch hidle hF) (fun r c' h => ?_)
      (fun _ c' h => ?_)
    · exact ⟨Left.of_link (hnum.path.trans h.path), h.acked, fun _ => h.path.frame.nextCall⟩
    · exact ⟨Left.of_link (hnum.path.trans h.path), h.acked⟩

end PgAmqp
