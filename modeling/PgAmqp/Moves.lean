import Mathlib.Algebra.GroupWithZero.Nat
import PgAmqp.Session

/-!
# What a call may do to a broker entry

Every call of the extension on one entry is a sequence of moves on four things:
the connection with the broker's buffer, the count of acknowledged messages, the
error flag, and the record of writes and acknowledgements. The moves say which
of these change together. An invariant of the entry is checked move by move, and
holds after every call because each call is a path of moves.

Some moves are only taken by particular calls. `Faults` names them, so that the
runs which avoid one are the runs whose steps do not have that fault.
-/
namespace PgAmqp

/-- The ways in which a step may damage what an entry stands for. -/
structure Faults where
  /-- A connection is given up while it holds acknowledged messages. -/
  lossy : Prop
  /-- A close frame is read, and the connection is kept with the error flag down. -/
  forgetful : Prop
  /-- A message is written with the error flag up, after a close frame was read. -/
  stale : Prop
  /-- A cancel unwinds from a failed host attempt. -/
  halfOpen : Prop
  /-- The error flag is raised. -/
  flagged : Prop

/-- Events other than writes, acknowledgements, `tx.commit` and reports of a loss. -/
def Event.neutral : Event → Bool
  | .basicPublish .. => false
  | .acknowledged .. => false
  | .rpc .txCommit _ _ => false
  | .warning r => !r.isLoss
  | _ => true

/-- The messages acknowledged on channel 2 in a record. -/
def ackedIn (log : List Event) : List Msg :=
  log.filterMap fun e => match e with
    | .acknowledged _ 2 m => some m
    | _ => none

@[simp] theorem ackedIn_nil : ackedIn [] = [] := rfl

@[simp] theorem ackedIn_append (l l' : List Event) : ackedIn (l ++ l') = ackedIn l ++ ackedIn l' := by
  simp [ackedIn]

theorem ackedIn_neutral {evs : List Event} (h : ∀ e ∈ evs, e.neutral = true) : ackedIn evs = [] := by
  simp only [ackedIn, List.filterMap_eq_nil_iff]
  intro e he
  have hn := h e he
  cases e <;> simp_all [Event.neutral]

/-- The number of messages of broker `b` that the warnings of a record report as lost. -/
def lossIn (b : Int) (log : List Event) : Nat :=
  (log.map fun e => match e with
    | .warning r => r.lossOn b
    | _ => 0).sum

@[simp] theorem lossIn_nil (b : Int) : lossIn b [] = 0 := rfl

@[simp] theorem lossIn_append (b : Int) (l l' : List Event) :
    lossIn b (l ++ l') = lossIn b l + lossIn b l' := by
  simp [lossIn]

theorem lossIn_neutral (b : Int) {evs : List Event} (h : ∀ e ∈ evs, e.neutral = true) :
    lossIn b evs = 0 := by
  induction evs with
  | nil => rfl
  | cons e rest ih =>
    have hn := h e (List.mem_cons_self ..)
    have hr : lossIn b rest = 0 := ih fun e' he' => h e' (List.mem_cons_of_mem _ he')
    have happ := lossIn_append b [e] rest
    rw [List.singleton_append, hr] at happ
    rw [happ]
    cases e <;> simp_all [Event.neutral, lossIn, Report.lossOn_eq_zero]

/-- The connections on which a `tx.commit` of a record was answered normally, as they
were then. -/
def commitsIn (log : List Event) : List Connection :=
  log.filterMap fun e => match e with
    | .rpc .txCommit k .normal => some k
    | _ => none

@[simp] theorem commitsIn_nil : commitsIn [] = [] := rfl

@[simp] theorem commitsIn_append (l l' : List Event) :
    commitsIn (l ++ l') = commitsIn l ++ commitsIn l' := by
  simp [commitsIn]

theorem commitsIn_neutral {evs : List Event} (h : ∀ e ∈ evs, e.neutral = true) :
    commitsIn evs = [] := by
  simp only [commitsIn, List.filterMap_eq_nil_iff]
  intro e he
  have hn := h e he
  split <;> simp_all [Event.neutral]

namespace Connection

/-- The same connection as far as setup and the channel-2 buffer go. -/
structure Keeps (k k' : Connection) : Prop where
  id : k'.id = k.id
  ready : k'.ready = k.ready
  txMode : k'.txMode = k.txMode
  buffer : k'.buffer = k.buffer

theorem Keeps.refl (k : Connection) : Keeps k k := ⟨rfl, rfl, rfl, rfl⟩

theorem Keeps.trans {k k' k'' : Connection} (h : Keeps k k') (h' : Keeps k' k'') : Keeps k k'' :=
  ⟨h'.id.trans h.id, h'.ready.trans h.ready, h'.txMode.trans h.txMode, h'.buffer.trans h.buffer⟩

/-- Just made, or set up without any use of channel 2 since. -/
structure Blank (k : Connection) : Prop where
  buffer : k.buffer = []
  closeSeen : k.closeSeen = false

theorem Blank.new (id : Nat) : Blank (.new id) := ⟨rfl, rfl⟩

end Connection

/-- The changes to an entry that belong together, with the events they record. -/
inductive Effect (F : Faults) (log : List Event) (bs bs' : BrokerState) : List Event → Prop where
  | silent (evs : List Event) : (∀ e ∈ evs, e.neutral = true) → bs'.conn = bs.conn →
      bs'.uncommitted = bs.uncommitted → bs'.inerror = bs.inerror → Effect F log bs bs' evs
  | read (k k' : Connection) : bs.conn = some k → bs'.conn = some k' → k.Keeps k' →
      (k'.closeSeen = k.closeSeen ∨ F.forgetful) →
      bs'.uncommitted = bs.uncommitted → bs'.inerror = bs.inerror → Effect F log bs bs' []
  | flag (k k' : Connection) : bs.conn = some k → bs'.conn = some k' → k'.ready = k.ready →
      bs'.uncommitted = bs.uncommitted → bs'.inerror = true → F.flagged → Effect F log bs bs' []
  | drop (k : Connection) (evs : List Event) : (∀ e ∈ evs, e.neutral = true) → bs.conn = some k →
      bs'.conn = none → (bs.uncommitted = 0 ∨ F.lossy) →
      bs'.uncommitted = 0 → bs'.inerror = bs.inerror → Effect F log bs bs' evs
  | connect (k : Connection) (evs : List Event) : (∀ e ∈ evs, e.neutral = true) → bs.conn = none →
      bs'.conn = some k → k.Blank → (k.ready = true ∨ F.halfOpen) →
      bs'.uncommitted = bs.uncommitted → bs'.inerror = bs.inerror → Effect F log bs bs' evs
  | send (k : Connection) (channel : Nat) (m : Msg) (w : Write) : bs.conn = some k →
      (channel = 1 ∨ bs.inerror = false) →
      (bs.inerror = true → k.closeSeen = true → F.stale) → bs'.conn = bs.conn →
      bs'.uncommitted = bs.uncommitted → bs'.inerror = bs.inerror →
      Effect F log bs bs' [.basicPublish k channel m w]
  | accept (k : Connection) (m : Msg) : .basicPublish k 1 m .ok ∈ log → bs'.conn = bs.conn →
      bs'.uncommitted = bs.uncommitted → bs'.inerror = bs.inerror →
      Effect F log bs bs' [.acknowledged k 1 m]
  | ack (k : Connection) (m : Msg) : .basicPublish k 2 m .ok ∈ log → bs.conn = some k →
      bs'.conn = some (k.written 2 m .ok) → bs.inerror = false →
      bs'.uncommitted = bs.uncommitted + 1 → bs'.inerror = false →
      Effect F log bs bs' [.acknowledged k 2 m]
  | reset : bs.conn = none → bs'.conn = none → bs'.uncommitted = bs.uncommitted →
      bs'.inerror = false → Effect F log bs bs' []

/-- What no part of a call changes: whose entry it is and how errors unwind. Publish
calls are numbered upwards. -/
structure SameEntry (c c' : Cell) : Prop where
  brokerId : c'.bs.brokerId = c.bs.brokerId
  holdoff : c'.backend.holdoff = c.backend.holdoff
  nextCall : c.backend.nextCall ≤ c'.backend.nextCall
  linked : c.linked = true → c'.linked = true

theorem SameEntry.refl (c : Cell) : SameEntry c c := ⟨rfl, rfl, Nat.le_refl _, id⟩

theorem SameEntry.trans {c c' c'' : Cell} (h : SameEntry c c') (h' : SameEntry c' c'') : SameEntry c c'' :=
  ⟨h'.brokerId.trans h.brokerId, h'.holdoff.trans h.holdoff, Nat.le_trans h.nextCall h'.nextCall,
    h'.linked ∘ h.linked⟩

/-- One move of the cell of an entry. -/
structure Move (F : Faults) (c c' : Cell) : Prop where
  frame : SameEntry c c'
  effect : ∃ evs, c'.log = c.log ++ evs ∧ Effect F c.log c.bs c'.bs evs

/-- The moves of a call, one after the other. -/
abbrev Path (F : Faults) : Cell → Cell → Prop := Relation.ReflTransGen (Move F)

theorem Path.frame {F : Faults} {c c' : Cell} (h : Path F c c') : SameEntry c c' := by
  induction h with
  | refl => exact .refl _
  | tail _ hm ih => exact ih.trans hm.frame

/-- A property of cells that every move keeps is kept by every path. -/
theorem Path.keeps {F : Faults} {P : Cell → Prop} (hP : ∀ c c', Move F c c' → P c → P c')
    {c c' : Cell} (h : Path F c c') (hc : P c) : P c' := by
  induction h with
  | refl => exact hc
  | tail _ hm ih => exact hP _ _ hm ih

/-- Without a connection nothing is counted. -/
def Idle (bs : BrokerState) : Prop := bs.conn = none → bs.uncommitted = 0

theorem Effect.idle {F : Faults} {log evs : List Event} {bs bs' : BrokerState}
    (h : Effect F log bs bs' evs) (hi : Idle bs) : Idle bs' := by
  cases h <;> simp_all [Idle]

/-- Only acknowledgements on channel 2 add to the count. -/
theorem Effect.uncommitted_le {F : Faults} {log evs : List Event} {bs bs' : BrokerState}
    (h : Effect F log bs bs' evs) : bs'.uncommitted ≤ bs.uncommitted + (ackedIn evs).length := by
  cases h with
  | ack _ _ _ _ _ _ hunc => simp [ackedIn, hunc]
  | drop _ _ _ _ _ _ hunc => omega
  | silent _ _ _ hunc => omega
  | read _ _ _ _ _ _ hunc => omega
  | flag _ _ _ _ _ hunc _ _ => omega
  | connect _ _ _ _ _ _ _ hunc => omega
  | send _ _ _ _ _ _ _ _ hunc => omega
  | accept _ _ _ _ hunc => omega
  | reset _ _ hunc => omega

theorem Path.uncommitted_le {F : Faults} {c c' : Cell} (h : Path F c c') :
    c'.bs.uncommitted + (ackedIn c.log).length ≤ c.bs.uncommitted + (ackedIn c'.log).length := by
  induction h with
  | refl => exact Nat.le_refl _
  | tail _ hm ih =>
    obtain ⟨evs, hl, he⟩ := hm.effect
    have := he.uncommitted_le
    rw [hl, ackedIn_append, List.length_append]
    omega

/-- The count is the number of acknowledged messages, and unless the error flag is
up a connection in tx mode has exactly those messages in its buffer. -/
structure Counted (acked : List Msg) (bs : BrokerState) : Prop where
  idle : Idle bs
  count : bs.uncommitted = acked.length
  buffer : bs.inerror = false → ∀ k, bs.conn = some k → k.txMode = true → k.buffer = acked

theorem written_buffer (k : Connection) (m : Msg) :
    (k.written 2 m .ok).buffer = if k.txMode = true then k.buffer ++ [m] else k.buffer := by
  unfold Connection.written
  split <;> split <;> simp_all

@[simp] theorem written_txMode (k : Connection) (ch : Nat) (m : Msg) (w : Write) :
    (k.written ch m w).txMode = k.txMode := by
  unfold Connection.written; split <;> rfl

@[simp] theorem written_ready (k : Connection) (ch : Nat) (m : Msg) (w : Write) :
    (k.written ch m w).ready = k.ready := by
  unfold Connection.written; split <;> rfl

@[simp] theorem written_closeSeen (k : Connection) (ch : Nat) (m : Msg) (w : Write) :
    (k.written ch m w).closeSeen = k.closeSeen := by
  unfold Connection.written; split <;> rfl

@[simp] theorem written_id (k : Connection) (ch : Nat) (m : Msg) (w : Write) :
    (k.written ch m w).id = k.id := by
  unfold Connection.written; split <;> rfl

@[simp] theorem written_one (k : Connection) (m : Msg) (w : Write) : k.written 1 m w = k := by
  simp [Connection.written]

theorem Effect.counted {F : Faults} (hF : ¬ F.lossy) {log evs : List Event} {bs bs' : BrokerState}
    {acked : List Msg} (h : Effect F log bs bs' evs) (hc : Counted acked bs) :
    Counted (acked ++ ackedIn evs) bs' := by
  have hi := h.idle hc.idle
  cases h with
  | silent _ hn hconn hunc herr =>
    rw [ackedIn_neutral hn, List.append_nil]
    exact ⟨hi, hunc.trans hc.count, by rw [herr, hconn]; exact hc.buffer⟩
  | read k k' hk hk' hkeep _ hunc herr =>
    rw [ackedIn_nil, List.append_nil]
    refine ⟨hi, hunc.trans hc.count, ?_⟩
    intro he q hq htx
    obtain rfl : k' = q := Option.some.inj (hk'.symm.trans hq)
    rw [hkeep.buffer]
    exact hc.buffer (herr ▸ he) k hk (hkeep.txMode ▸ htx)
  | flag k k' hk hk' _ hunc herr _ =>
    rw [ackedIn_nil, List.append_nil]
    exact ⟨hi, hunc.trans hc.count, by rw [herr]; simp⟩
  | drop k evs hn hk hk' hl hunc herr =>
    have hz : bs.uncommitted = 0 := hl.resolve_right hF
    have ha : acked = [] := List.length_eq_zero_iff.mp (hc.count.symm.trans hz)
    rw [ackedIn_neutral hn, ha]
    exact ⟨hi, by simpa using hunc, by simp [hk']⟩
  | connect k evs hn hk hk' hb _ hunc herr =>
    have ha : acked = [] := List.length_eq_zero_iff.mp (hc.count.symm.trans (hc.idle hk))
    rw [ackedIn_neutral hn, ha]
    refine ⟨hi, ?_, ?_⟩
    · rw [hunc, hc.idle hk]; rfl
    · intro _ q hq _
      obtain rfl : k = q := Option.some.inj (hk'.symm.trans hq)
      simpa using hb.buffer
  | send k ch m w hk _ _ hconn hunc herr =>
    refine ⟨hi, by simpa [ackedIn] using hunc.trans hc.count, ?_⟩
    rw [herr, hconn]
    simpa [ackedIn] using hc.buffer
  | accept k m _ hconn hunc herr =>
    refine ⟨hi, by simpa [ackedIn] using hunc.trans hc.count, ?_⟩
    rw [herr, hconn]
    simpa [ackedIn] using hc.buffer
  | ack k m _ hk hk' he hunc _ =>
    refine ⟨hi, by simp [ackedIn, hunc, hc.count], ?_⟩
    intro _ q hq htx
    obtain rfl : k.written 2 m .ok = q := Option.some.inj (hk'.symm.trans hq)
    rw [written_txMode] at htx
    rw [written_buffer, if_pos htx, hc.buffer he k hk htx]
    rfl
  | reset hk hk' hunc herr =>
    rw [ackedIn_nil, List.append_nil]
    exact ⟨hi, hunc.trans hc.count, by simp [hk']⟩

/-- Unless the error flag is up, the buffer holds only live acknowledged messages in
call order, and none at all when nothing is counted. -/
structure Buffered (live : List Msg) (bs : BrokerState) : Prop where
  sublist : bs.inerror = false → ∀ k, bs.conn = some k → k.buffer.Sublist live
  empty : bs.inerror = false → bs.uncommitted = 0 → ∀ k, bs.conn = some k → k.buffer = []

theorem Effect.buffered {F : Faults} {log evs : List Event} {bs bs' : BrokerState}
    {live : List Msg} (h : Effect F log bs bs' evs) (hb : Buffered live bs) :
    Buffered (live ++ ackedIn evs) bs' := by
  cases h with
  | silent _ hn hconn hunc herr =>
    rw [ackedIn_neutral hn, List.append_nil]
    exact ⟨by rw [herr, hconn]; exact hb.sublist, by rw [herr, hunc, hconn]; exact hb.empty⟩
  | read k k' hk hk' hkeep _ hunc herr =>
    rw [ackedIn_nil, List.append_nil]
    constructor
    · intro he q hq
      obtain rfl : k' = q := Option.some.inj (hk'.symm.trans hq)
      rw [hkeep.buffer]
      exact hb.sublist (herr ▸ he) k hk
    · intro he hz q hq
      obtain rfl : k' = q := Option.some.inj (hk'.symm.trans hq)
      rw [hkeep.buffer]
      exact hb.empty (herr ▸ he) (hunc ▸ hz) k hk
  | flag k k' hk hk' _ hunc herr _ => exact ⟨by simp [herr], by simp [herr]⟩
  | drop k evs hn hk hk' _ hunc herr => exact ⟨by simp [hk'], by simp [hk']⟩
  | connect k evs hn hk hk' hbl _ hunc herr =>
    constructor
    · intro _ q hq
      obtain rfl : k = q := Option.some.inj (hk'.symm.trans hq)
      rw [hbl.buffer]
      exact List.nil_sublist _
    · intro _ _ q hq
      obtain rfl : k = q := Option.some.inj (hk'.symm.trans hq)
      exact hbl.buffer
  | send k ch m w hk _ _ hconn hunc herr =>
    have ha : ackedIn [Event.basicPublish k ch m w] = [] := rfl
    rw [ha, List.append_nil]
    exact ⟨by rw [herr, hconn]; exact hb.sublist, by rw [herr, hunc, hconn]; exact hb.empty⟩
  | accept k m _ hconn hunc herr =>
    have ha : ackedIn [Event.acknowledged k 1 m] = [] := rfl
    rw [ha, List.append_nil]
    exact ⟨by rw [herr, hconn]; exact hb.sublist, by rw [herr, hunc, hconn]; exact hb.empty⟩
  | ack k m _ hk hk' he hunc _ =>
    constructor
    · intro _ q hq
      obtain rfl : k.written 2 m .ok = q := Option.some.inj (hk'.symm.trans hq)
      have hs := hb.sublist he k hk
      rw [written_buffer]
      split
      · exact List.Sublist.append hs (List.Sublist.refl _)
      · exact hs.trans (List.sublist_append_left _ _)
    · intro _ hz
      omega
  | reset hk hk' hunc herr => exact ⟨by simp [hk'], by simp [hk']⟩

/-- The connection on which an event writes or acknowledges. -/
def Event.writesTo : Event → Option Connection
  | .basicPublish k _ _ _ => some k
  | .acknowledged k _ _ => some k
  | _ => none

theorem Event.writesTo_neutral {e : Event} (h : e.neutral = true) : e.writesTo = none := by
  cases e <;> simp_all [Event.neutral, Event.writesTo]

/-- Every write and acknowledgement of a record is on a connection with `P`. -/
def WritesOn (P : Connection → Prop) (log : List Event) : Prop :=
  ∀ e ∈ log, ∀ k, e.writesTo = some k → P k

theorem WritesOn.append_neutral {P : Connection → Prop} {log evs : List Event} (h : WritesOn P log)
    (hn : ∀ e ∈ evs, e.neutral = true) : WritesOn P (log ++ evs) := by
  intro e he k hk
  rcases List.mem_append.mp he with he | he
  · exact h e he k hk
  · simp [Event.writesTo_neutral (hn e he)] at hk

theorem WritesOn.append_one {P : Connection → Prop} {log : List Event} {e : Event}
    (h : WritesOn P log) (he : ∀ k, e.writesTo = some k → P k) : WritesOn P (log ++ [e]) := by
  intro e' he' k hk
  rcases List.mem_append.mp he' with he' | he'
  · exact h e' he' k hk
  · rw [List.mem_singleton.mp he'] at hk
    exact he k hk

/-- The connections on which the messages of a record were acknowledged, as they were
when the message was written. -/
def acknowledgedOn (log : List Event) : List Connection :=
  log.filterMap fun e => match e with
    | .acknowledged k _ _ => some k
    | _ => none

theorem WritesOn.acknowledgedOn {P : Connection → Prop} {log : List Event} (h : WritesOn P log) :
    ∀ k ∈ acknowledgedOn log, P k := by
  intro k hk
  obtain ⟨e, he, hek⟩ := List.mem_filterMap.mp hk
  refine h e he k ?_
  cases e <;> simp_all [Event.writesTo]

/-- A connection from which a close frame was read has the error flag up. -/
def Remembered (bs : BrokerState) : Prop :=
  ∀ k, bs.conn = some k → k.closeSeen = true → bs.inerror = true

theorem Effect.remembered {F : Faults} (hf : ¬ F.forgetful) {log evs : List Event}
    {bs bs' : BrokerState} (h : Effect F log bs bs' evs) (hr : Remembered bs) : Remembered bs' := by
  cases h with
  | silent _ _ hconn _ herr => rw [Remembered, hconn, herr]; exact hr
  | read k k' hk hk' _ hclose _ herr =>
    intro q hq hs
    obtain rfl : k' = q := Option.some.inj (hk'.symm.trans hq)
    rw [herr]
    exact hr k hk ((hclose.resolve_right hf) ▸ hs)
  | flag _ _ _ _ _ _ herr _ => exact fun _ _ _ => herr
  | drop _ _ _ _ hk' => simp [Remembered, hk']
  | connect k _ _ _ hk' hb =>
    intro q hq hs
    obtain rfl : k = q := Option.some.inj (hk'.symm.trans hq)
    simp [hb.closeSeen] at hs
  | send _ _ _ _ _ _ _ hconn _ herr => rw [Remembered, hconn, herr]; exact hr
  | accept _ _ _ hconn _ herr => rw [Remembered, hconn, herr]; exact hr
  | ack k m _ hk hk' he =>
    intro q hq hs
    obtain rfl : k.written 2 m .ok = q := Option.some.inj (hk'.symm.trans hq)
    have := hr k hk (by simpa using hs)
    simp [he] at this
  | reset _ hk' => simp [Remembered, hk']

theorem Effect.writesOn_open {F : Faults} (hs : ¬ F.stale) {log evs : List Event}
    {bs bs' : BrokerState} (h : Effect F log bs bs' evs) (hr : Remembered bs)
    (hw : WritesOn (fun k => k.closeSeen = false) log) :
    WritesOn (fun k => k.closeSeen = false) (log ++ evs) := by
  cases h with
  | silent _ hn => exact hw.append_neutral hn
  | read => simpa using hw
  | flag => simpa using hw
  | drop _ _ hn => exact hw.append_neutral hn
  | connect _ _ hn => exact hw.append_neutral hn
  | send k ch m w hk hch hst =>
    refine hw.append_one fun q hq => ?_
    obtain rfl : k = q := Option.some.inj hq
    cases hc : k.closeSeen with
    | false => rfl
    | true => exact absurd (hst (hr k hk hc) hc) hs
  | accept k m hm =>
    refine hw.append_one fun q hq => ?_
    obtain rfl : k = q := Option.some.inj hq
    exact hw _ hm k rfl
  | ack k m hm =>
    refine hw.append_one fun q hq => ?_
    obtain rfl : k = q := Option.some.inj hq
    exact hw _ hm k rfl
  | reset => simpa using hw

/-- A connection that is kept is fully set up. -/
def SetUp (bs : BrokerState) : Prop := ∀ k, bs.conn = some k → k.ready = true

theorem Effect.setUp {F : Faults} (hF : ¬ F.halfOpen) {log evs : List Event}
    {bs bs' : BrokerState} (h : Effect F log bs bs' evs) (hs : SetUp bs) : SetUp bs' := by
  cases h with
  | silent _ _ hconn => rw [SetUp, hconn]; exact hs
  | read k k' hk hk' hkeep =>
    intro q hq
    obtain rfl : k' = q := Option.some.inj (hk'.symm.trans hq)
    exact hkeep.ready.trans (hs k hk)
  | flag k k' hk hk' hready =>
    intro q hq
    obtain rfl : k' = q := Option.some.inj (hk'.symm.trans hq)
    exact hready.trans (hs k hk)
  | drop _ _ _ _ hk' => simp [SetUp, hk']
  | connect k _ _ _ hk' _ hready =>
    intro q hq
    obtain rfl : k = q := Option.some.inj (hk'.symm.trans hq)
    exact hready.resolve_right hF
  | send _ _ _ _ _ _ _ hconn => rw [SetUp, hconn]; exact hs
  | accept _ _ _ hconn => rw [SetUp, hconn]; exact hs
  | ack k m _ hk hk' =>
    intro q hq
    obtain rfl : k.written 2 m .ok = q := Option.some.inj (hk'.symm.trans hq)
    exact (written_ready ..).trans (hs k hk)
  | reset _ hk' => simp [SetUp, hk']

theorem Effect.writesOn_ready {F : Faults} {log evs : List Event} {bs bs' : BrokerState}
    (h : Effect F log bs bs' evs) (hs : SetUp bs) (hw : WritesOn (fun k => k.ready = true) log) :
    WritesOn (fun k => k.ready = true) (log ++ evs) := by
  cases h with
  | silent _ hn => exact hw.append_neutral hn
  | read => simpa using hw
  | flag => simpa using hw
  | drop _ _ hn => exact hw.append_neutral hn
  | connect _ _ hn => exact hw.append_neutral hn
  | send k ch m w hk =>
    refine hw.append_one fun q hq => ?_
    obtain rfl : k = q := Option.some.inj hq
    exact hs k hk
  | accept k m hm =>
    refine hw.append_one fun q hq => ?_
    obtain rfl : k = q := Option.some.inj hq
    exact hw _ hm k rfl
  | ack k m hm =>
    refine hw.append_one fun q hq => ?_
    obtain rfl : k = q := Option.some.inj hq
    exact hw _ hm k rfl
  | reset => simpa using hw

end PgAmqp
