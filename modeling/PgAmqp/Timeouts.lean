import PgAmqp.LastWord

/-!
# The timeout of each phase

The timeout of a connection is a mode: the handshake, the steady state and the end of a
transaction each set it. It is set from the settings of the moment, and not again when a
later `SET` changes them, so a cached connection publishes and declares under the timeout
of the day it was made or last committed on.
-/
namespace PgAmqp

open ProgramLogic Transition

namespace Connection

/-- The rpc timeout and both socket timeouts of a connection. -/
def Under (k : Connection) (ms : Nat) : Prop := k.rpcTimeout = some ms ∧ k.socketTimeout = some ms

instance (k : Connection) (ms : Nat) : Decidable (k.Under ms) :=
  inferInstanceAs (Decidable (k.rpcTimeout = some ms ∧ k.socketTimeout = some ms))

/-- The timeout that belongs to a stage; the socket of a new connection is not open. -/
def Mode (g : Gucs) : Stage → Connection → Prop
  | .rest, k => k.Under g.operationTimeoutMs
  | .dial, _ => True
  | .shake, k => k.Under g.handshakeTimeoutMs
  | .flush, k => k.Under g.commitTimeoutMs

theorem Under.congr {k k' : Connection} {ms : Nat} (h : k.Under ms) (hr : k'.rpcTimeout = k.rpcTimeout)
    (hs : k'.socketTimeout = k.socketTimeout) : k'.Under ms := ⟨hr.trans h.1, hs.trans h.2⟩

theorem Mode.congr {g : Gucs} {st : Stage} {k k' : Connection} (h : k.Mode g st)
    (hr : k'.rpcTimeout = k.rpcTimeout) (hs : k'.socketTimeout = k.socketTimeout) : k'.Mode g st := by
  cases st with
  | dial => trivial
  | rest => exact Under.congr h hr hs
  | shake => exact Under.congr h hr hs
  | flush => exact Under.congr h hr hs

theorem setTimeout_under (k : Connection) {fd : Int} (hfd : 0 ≤ fd) (ms : Nat) : (k.setTimeout fd ms).Under ms :=
  ⟨rfl, if_pos hfd⟩

end Connection

/-- The connection of a message or a declaration. -/
def Event.operation : Event → Option Connection
  | .basicPublish k _ _ _ => some k
  | .rpc (.exchangeDeclare _) k _ => some k
  | _ => none

/-- A call of the library runs under the setting of its phase. -/
def Event.Timed (g : Gucs) : Event → Prop
  | .socketOpen _ ms _ => ms = g.connectTimeoutMs
  | .rpc (.login _) k _ => k.Under g.handshakeTimeoutMs
  | .rpc (.channelOpen _) k _ => k.Under g.handshakeTimeoutMs
  | .rpc .txSelect k _ => k.Under g.handshakeTimeoutMs
  | .rpc .txCommit k _ => k.Under g.commitTimeoutMs
  | .rpc .txRollback k _ => k.Under g.commitTimeoutMs
  | .rpc (.exchangeDeclare _) k _ => k.Under g.operationTimeoutMs
  | .basicPublish k _ _ _ => k.Under g.operationTimeoutMs
  | _ => True

/-- The mode of a connection in the middle of a call; one that was there before the call may
still have an outdated timeout while nothing is done with it. -/
structure Moded (g : Gucs) (old : Nat → Prop) (p : Stage × Cell) : Prop where
  gucs : p.2.backend.gucs = g
  mode : ∀ k, p.2.bs.conn = some k → k.Mode g p.1 ∨ p.1 = .rest ∧ old k.id
  sockfd : p.1 ≠ .dial → p.2.bs.conn.isSome = true → 0 ≤ p.2.bs.sockfd

/-- Every event is timed, but for operations on an old connection. -/
def TimedBut (g : Gucs) (old : Nat → Prop) (e : Event) : Prop :=
  e.Timed g ∨ ∃ k, e.operation = some k ∧ old k.id

section Moded

variable {L : Lapses} {o : Outcomes} {p q : Stage × Cell} {g : Gucs} {old : Nat → Prop}

/-- A change that leaves the timeouts and the stage as they are. -/
theorem Moded.keep (h : Moded g old p) (hg : q.2.backend.gucs = p.2.backend.gucs) (hst : q.1 = p.1)
    (hfd : q.2.bs.sockfd = p.2.bs.sockfd)
    (hc : ∀ k', q.2.bs.conn = some k' → ∃ k, p.2.bs.conn = some k ∧ k'.id = k.id ∧
      k'.rpcTimeout = k.rpcTimeout ∧ k'.socketTimeout = k.socketTimeout) : Moded g old q := by
  refine ⟨hg.trans h.gucs, fun k' hk' => ?_, fun hq hs => ?_⟩
  · obtain ⟨k, hk, hid, hr, hs⟩ := hc k' hk'
    rw [hst, hid]
    exact (h.mode k hk).imp_left fun hm => hm.congr hr hs
  · obtain ⟨k', hk'⟩ := Option.isSome_iff_exists.mp hs
    obtain ⟨k, hk, -⟩ := hc k' hk'
    rw [hfd]
    exact h.sockfd (hst ▸ hq) (by simp [hk])

/-- A change that does not touch the connection. -/
theorem Moded.same (h : Moded g old p) (hg : q.2.backend.gucs = p.2.backend.gucs) (hst : q.1 = p.1)
    (hfd : q.2.bs.sockfd = p.2.bs.sockfd) (hc : q.2.bs.conn = p.2.bs.conn) : Moded g old q :=
  h.keep hg hst hfd fun k hk => ⟨k, hc ▸ hk, rfl, rfl, rfl⟩

/-- Setting the timeout of a stage. -/
theorem Moded.timed {c : Cell} {st : Stage} (hg : c.backend.gucs = g)
    (hfd : c.bs.conn.isSome = true → 0 ≤ c.bs.sockfd) {ms : Nat}
    (hms : ∀ k : Connection, k.Under ms → k.Mode g st) : Moded g old (st, c.timed ms) := by
  refine ⟨hg, fun k hk => .inl ?_, fun _ hs => hfd (by simpa [Cell.timed] using hs)⟩
  obtain ⟨k₀, hk₀, rfl⟩ := Option.map_eq_some_iff.mp (show c.bs.conn.map (·.setTimeout c.bs.sockfd ms) = some k from hk)
  exact hms _ (k₀.setTimeout_under (hfd (by simp [hk₀])) ms)

theorem Connection.answered_timeouts (k : Connection) (kind : Rpc) (a : Answer) :
    (k.answered kind a).rpcTimeout = k.rpcTimeout ∧ (k.answered kind a).socketTimeout = k.socketTimeout := by
  unfold Connection.answered Rpc.effect
  split
  · split <;> exact ⟨rfl, rfl⟩
  · exact ⟨rfl, rfl⟩

theorem Connection.written_timeouts (k : Connection) (channel : Nat) (m : Msg) (w : Write) :
    (k.written channel m w).rpcTimeout = k.rpcTimeout ∧ (k.written channel m w).socketTimeout = k.socketTimeout := by
  unfold Connection.written
  split <;> exact ⟨rfl, rfl⟩

theorem Moded.asked {c : Cell} {st : Stage} {k : Connection} (h : Moded g old (st, c)) (hk : c.bs.conn = some k)
    (kind : Rpc) (a : Answer) : Moded g old (st, c.asked kind a k) := by
  refine h.keep rfl rfl rfl fun k' hk' => ⟨k, hk, ?_⟩
  obtain rfl : k.answered kind a = k' := Option.some.inj hk'
  exact ⟨(k.answered_keeps kind a).1, (k.answered_timeouts kind a).1, (k.answered_timeouts kind a).2⟩

theorem Moded.taken {c : Cell} {st : Stage} (h : Moded g old (st, c)) (f : Frame) (rest : List Frame) :
    Moded g old (st, c.taken f rest) := by
  refine h.keep rfl rfl rfl fun k' hk' => ?_
  obtain ⟨k, hk, rfl⟩ := Option.map_eq_some_iff.mp (show c.bs.conn.map _ = some k' from hk')
  exact ⟨k, hk, rfl, rfl, rfl⟩

theorem Serve.moded (h : Serve L p q) (hp : Moded g old p) : Moded g old q := by
  cases h with
  | hear f rest hc hg =>
    refine (hp.taken f rest).same ?_ rfl ?_ ?_
    · rw [Cell.heard_backend]; rfl
    · rw [Cell.heard_bs]
    · rw [Cell.heard_bs]
  | mishear rest hc _ hu => exact (hp.taken .connectionBlocked rest).same rfl rfl rfl rfl
  | declare k d a hk => exact hp.asked hk _ _
  | finish k kind a hk _ => exact hp.asked hk _ _
  | write k channel m w hk _ =>
    refine hp.keep rfl rfl rfl fun k' hk' => ⟨k, hk, ?_⟩
    obtain rfl : k.written channel m w = k' := Option.some.inj hk'
    exact ⟨written_id .., (k.written_timeouts ..).1, (k.written_timeouts ..).2⟩
  | drop k hk => exact ⟨hp.gucs, fun k hk => by simp [Cell.dropped] at hk, fun _ hs => by simp [Cell.dropped] at hs⟩
  | @flush c => exact .timed hp.gucs (hp.sockfd (by simp)) fun k hk => by rw [← hp.gucs]; exact hk
  | @restore c => exact .timed hp.gucs (hp.sockfd (by simp)) fun k hk => by rw [← hp.gucs]; exact hk
  | _ => exact hp.same rfl rfl rfl rfl

theorem Change.moded (hL : ¬ L.halfOpen) (hfd : ∀ n, 0 ≤ o.sockfd n) (h : Change L o p q) (hp : Moded g old p) :
    Moded g old q := by
  cases h with
  | serve h => exact h.moded hp
  | dial h =>
    cases h with
    | new _ _ => exact ⟨hp.gucs, fun _ _ => .inl trivial, fun hd => absurd rfl hd⟩
    | @shake c n =>
      exact .timed (c := c.modified fun bs => { bs with sockfd := o.sockfd n }) hp.gucs (fun _ => hfd n)
        fun k hk => by rw [← hp.gucs]; exact hk
    | ask k kind a hk _ => exact hp.asked hk _ _
    | @connect c =>
      have ht : Moded g old (.rest, c.timed c.backend.gucs.operationTimeoutMs) :=
        .timed hp.gucs (hp.sockfd (by simp)) fun k hk => by rw [← hp.gucs]; exact hk
      exact ht.same rfl rfl rfl rfl
    | unwind hh => exact absurd hh hL
    | _ => exact hp.same rfl rfl rfl rfl
  | close k hk =>
    exact ⟨hp.gucs, fun k hk => by simp [Cell.closed, Cell.dropped] at hk,
      fun _ hs => by simp [Cell.closed, Cell.dropped] at hs⟩
  | @free c hc _ =>
    refine ⟨hp.gucs, fun k hk => ?_, fun _ hs => ?_⟩
    · simp [hc] at hk
    · simp [hc] at hs
  | _ => exact hp.same rfl rfl rfl rfl

/-- The mode, with a record in which all but the operations on an old connection is timed. -/
def Timely (g : Gucs) (old : Nat → Prop) (p : Stage × Cell) : Prop :=
  Moded g old p ∧ ∀ e ∈ p.2.log, TimedBut g old e

theorem timedBut_append {e : Event} {log : List Event} (h : ∀ e ∈ log, TimedBut g old e)
    (he : TimedBut g old e) : ∀ e' ∈ log ++ [e], TimedBut g old e' := by
  intro e' hm
  rcases List.mem_append.mp hm with hm | hm
  · exact h e' hm
  · exact List.mem_singleton.mp hm ▸ he

/-- An operation at rest is timed, or it is on an old connection. -/
theorem Moded.operation {c : Cell} {k : Connection} (h : Moded g old (.rest, c)) (hk : c.bs.conn = some k)
    {e : Event} (he : e.operation = some k) (ht : k.Under g.operationTimeoutMs → e.Timed g) : TimedBut g old e :=
  (h.mode k hk).imp ht fun h => ⟨k, he, h.2⟩

theorem Serve.timely (h : Serve L p q) (hp : Timely g old p) : Timely g old q := by
  refine ⟨h.moded hp.1, ?_⟩
  cases h with
  | hear f rest _ _ =>
    rw [Cell.heard_log]
    intro e he
    refine (List.mem_append.mp he).elim (hp.2 e) fun he => .inl ?_
    obtain ⟨r, rfl⟩ := Cell.noted_warning _ f he
    trivial
  | declare k d a hk => exact timedBut_append hp.2 (hp.1.operation hk rfl id)
  | write k channel m w hk _ => exact timedBut_append hp.2 (hp.1.operation hk rfl id)
  | finish k kind a hk hkind =>
    refine timedBut_append hp.2 (.inl ?_)
    have hm : k.Under g.commitTimeoutMs := (hp.1.mode k hk).resolve_right (by simp)
    cases kind <;> first | exact hm | cases hkind
  | warn => exact timedBut_append hp.2 (.inl trivial)
  | refuse => exact timedBut_append hp.2 (.inl trivial)
  | mishear => exact timedBut_append hp.2 (.inl trivial)
  | accept => exact timedBut_append hp.2 (.inl trivial)
  | drop => exact timedBut_append hp.2 (.inl trivial)
  | _ => exact hp.2

theorem Change.timely (hL : ¬ L.halfOpen) (hfd : ∀ n, 0 ≤ o.sockfd n) (h : Change L o p q) (hp : Timely g old p) :
    Timely g old q := by
  refine ⟨h.moded hL hfd hp.1, ?_⟩
  cases h with
  | serve h => exact (h.timely hp).2
  | dial h =>
    cases h with
    | @«open» c ok => exact timedBut_append hp.2 (.inl (congrArg Gucs.connectTimeoutMs hp.1.gucs))
    | ask k kind a hk hkind =>
      refine timedBut_append hp.2 (.inl ?_)
      have hm : k.Under g.handshakeTimeoutMs := (hp.1.mode k hk).resolve_right (by simp)
      cases kind <;> first | exact hm | cases hkind
    | _ => exact hp.2
  | close => exact timedBut_append (timedBut_append hp.2 (.inl trivial)) (.inl trivial)
  | _ => exact hp.2

theorem Chain.timely (hL : ¬ L.halfOpen) (hfd : ∀ n, 0 ≤ o.sockfd n) (h : Chain L o p q) (hp : Timely g old p) :
    Timely g old q :=
  h.keeps (I := Timely g old) (fun _ _ => Change.timely hL hfd) hp

end Moded

/-- `amqp_get_sockfd` returns the descriptor of every open socket. -/
def Outcomes.Described (o : Outcomes) : Prop := ∀ n, 0 ≤ o.sockfd n

theorem described_lasting : Lasting (fun L o => ¬ L.halfOpen ∧ o.Described)
    fun _ bs => bs.conn.isSome = true → 0 ≤ bs.sockfd where
  fresh := fun _ _ h => by simp [BrokerState.fresh] at h
  grow := fun _ _ h => h
  chain := by
    intro L o k bs linked c hL h hc
    have hm : Moded k.gucs (fun _ => True) (.rest, c) :=
      hc.keeps (I := Moded k.gucs fun _ => True) (fun _ _ => Change.moded hL.1 hL.2)
        ⟨rfl, fun _ _ => .inr ⟨rfl, trivial⟩, fun _ => h⟩
    exact hm.sockfd (by simp)

/-- A record without an operation. -/
def Inactive (c : Cell) : Prop := ∀ e ∈ c.log, e.operation = none

section Inactive

variable {o : Outcomes}

theorem inactive_record {e : Event} (he : e.operation = none) : Preserves Inactive (record e) := by
  intro c h e' hm
  rcases List.mem_append.mp hm with hm | hm
  · exact h e' hm
  · exact List.mem_singleton.mp hm ▸ he

theorem inactive_elog (r : Report) : Preserves Inactive (elog o r) := by
  intro c h
  have hw : Inactive (c.warned r) := inactive_record (e := .warning r) rfl (c.ticked .elog) h
  rw [wp_elog]
  split <;> exact hw

theorem inactive_modifyBs (f : BrokerState → BrokerState) : Preserves Inactive (modifyBs f) := fun _ h => h

theorem inactive_getBs : Preserves Inactive getBs := fun _ h => h

theorem inactive_getGucs : Preserves Inactive getGucs := fun _ h => h

theorem inactive_tick (k : Call) : Preserves Inactive (tick k) := fun _ h => h

theorem inactive_disconnectBs (graceful : Bool) : Preserves Inactive (localAmqpDisconnectBs graceful) := by
  refine .bind inactive_getBs fun bs => ?_
  cases bs.conn with
  | none => exact .pure _ _
  | some k =>
    refine .ite (fun _ => .bind (inactive_modifyBs _) fun _ => .bind (inactive_record rfl) fun _ => ?_) fun _ => ?_
    all_goals exact .bind (inactive_record rfl) fun _ => inactive_modifyBs _

theorem inactive_drain : Preserves Inactive (localAmqpDrainReturns o) :=
  KeptByDrain.preserves (G := fun _ => True) {
    arrived := fun _ _ _ _ => trivial
    polled := fun _ h => h
    taken := fun _ _ _ _ h => h
    returned := fun c r _ => inactive_record (e := .warning (.returned c.bs.brokerId r)) rfl (c.ticked .elog)
    noted := fun c => inactive_record (e := .warning (.blocked c.bs.brokerId)) rfl (c.ticked .elog)
    blocked := fun _ _ h => h }

/-- The rpcs that end a transaction, with what their replies mean. -/
theorem inactive_closeTx {kind : Rpc} (hkind : kind.endsTx = true) (a : Answer)
    (report : Reply → BrokerState → Report) : Preserves Inactive (rpc kind a >>= closeTx o report) := by
  have hop : ∀ k reply, (Event.rpc kind k reply).operation = none := by
    intro k reply
    cases kind <;> first | rfl | cases hkind
  refine .bind (.bind inactive_getBs fun bs => ?_) fun reply => ?_
  · cases bs.conn with
    | none => exact .pure _ _
    | some k => exact .bind (inactive_record (hop _ _)) fun _ => .bind (inactive_modifyBs _) fun _ => .pure _ _
  · refine .ite (fun _ => ?_) fun _ => .bind inactive_getGucs fun _ => inactive_modifyBs _
    exact .bind inactive_getBs fun _ => .bind (inactive_elog _) fun _ => inactive_disconnectBs false

theorem inactive_settle {act : M Unit} (hact : Preserves Inactive act) :
    Preserves Inactive (do dropErrored; clearInerror; settleWith act) := by
  have drop : Preserves Inactive dropErrored :=
    .bind inactive_getBs fun _ => .ite (fun _ => inactive_disconnectBs false) fun _ => .pure _ _
  have held : Preserves Inactive (withConn act) :=
    .bind inactive_getBs fun _ => .ite (fun _ => hact) fun _ => .pure _ _
  refine .bind drop fun _ => .bind (inactive_modifyBs _) fun _ => .bind inactive_getBs fun _ => ?_
  exact .ite (fun _ => .bind held fun _ => inactive_modifyBs _) fun _ => .pure _ _

theorem inactive_flush : Preserves Inactive (amqpLocalFlush o) := by
  unfold amqpLocalFlush amqpTxCommit
  refine .bind inactive_getGucs fun _ => .bind (inactive_modifyBs _) fun _ => .bind inactive_drain fun _ => ?_
  rw [bind_assoc]
  exact .bind (inactive_tick _) fun _ => inactive_closeTx rfl _ _

theorem inactive_rollback : Preserves Inactive (amqpLocalRollback o) := by
  unfold amqpLocalRollback amqpTxRollback
  refine .bind inactive_getGucs fun _ => .bind (inactive_modifyBs _) fun _ => ?_
  rw [bind_assoc]
  exact .bind (inactive_tick _) fun _ => inactive_closeTx rfl _ _

theorem inactive_commit : Preserves Inactive (amqpLocalCommit o) := by
  refine .bind inactive_getBs fun _ => .ite (fun _ => ?_) fun _ => inactive_settle inactive_flush
  exact .bind (inactive_elog _) fun _ => .bind (inactive_disconnectBs false) fun _ => inactive_modifyBs _

theorem inactive_subxact : Preserves Inactive (amqpLocalSubxact o) :=
  .bind inactive_getBs fun _ =>
    .ite (fun _ => .bind (inactive_elog _) fun _ => inactive_modifyBs _) fun _ => .pure _ _

theorem inactive_disconnect : Preserves Inactive localAmqpDisconnect :=
  .bind (x := localAmqpGetABs) (fun _ h => h) fun _ => .bind (inactive_disconnectBs true) fun _ =>
    .bind (inactive_modifyBs _) fun _ => inactive_modifyBs _

end Inactive

/-- The first read of a pass finds the connection usable, and the broker takes messages. -/
def Cell.opens (c : Cell) (o : Outcomes) : Bool :=
  (o.poll (c.counts .poll)).alive && match c.reads o (c.arrived o) with
    | .through _ blocked => !blocked
    | _ => false

section Shut

variable {o : Outcomes} {c : Cell} {b : Int} {m : Msg} {badMode : Option Int} {channel : Nat} {onceMore : Bool}
  {redo : M Bool} {L : Lapses} {Q : Bool → Cell → Prop} {E : Raised → Cell → Prop}

/-- Where the connection is not usable, the pass writes nothing on it. -/
theorem publishConnected_shut (hL : L.unheard) (hc : c.bs.conn.isSome = true) (h : Inactive c)
    (hshut : c.opens o = false)
    (hdone : ∀ r c', Served L (.rest, c) (.rest, c') → Inactive c' → Q r c')
    (hraise : ∀ e c', Served L (.rest, c) (.rest, c') → Inactive c' → E e c')
    (hredo : ∀ c', Served L (.rest, c) (.rest, c') → Inactive c' → c'.bs.conn = none → wp redo Q E c') :
    wp (publishConnected o b m badMode channel onceMore redo) Q E c := by
  have hread := wp_and (localAmqpDrainReturns_served (o := o) (L := L) (.inl rfl) ⟨.refl, hc⟩)
    (wp_and (inactive_drain c h) (localAmqpDrainReturns_reads o hc))
  unfold publishConnected
  rw [wp_bind, wp_getBs, wp_ite]
  split
  swap
  · exact hdone false c .refl h
  refine wp_seq (wp_mono hread (fun _ _ h' => h') fun e c' h' => hraise e c' (h'.1 fun _ => hL).1 h'.2.1)
    fun r c' ⟨⟨hs, hc'⟩, hin, hpost⟩ => ?_
  obtain ⟨k, hk⟩ := Option.isSome_iff_exists.mp hc'
  rw [wp_ite]
  split
  · unfold orRedo
    rw [wp_bind, wp_getBs, wp_ite]
    split
    · rw [wp_bind, wp_localAmqpDisconnectBs_some hk]
      exact hredo _ (hs.tail (.drop k hk)) (inactive_record (e := .destroyed k) rfl c' hin) rfl
    · rw [wp_ite]
      split
      · rw [wp_bind, wp_setInerror]
        exact hdone false _ (hs.tail (.inerror true)) hin
      · exact hdone false _ hs hin
  · rename_i hr
    obtain rfl : r = 0 := Decidable.not_not.mp hr
    have hopen : Opened o 0 c c' := hpost.usable.opened rfl
    obtain ⟨n, hends, -⟩ := hopen.ended
    -- all frames were read on a live connection, so the broker blocks publishers
    have hblocked : c'.bs.blocked = true := by
      unfold Cell.opens at hshut
      rw [hopen.alive, hends] at hshut
      simpa using hshut
    have hin' : Inactive (c'.recorded (.refused c'.bs.conn)) := inactive_record rfl c' hin
    have hw : Inactive ((c'.recorded (.refused c'.bs.conn)).warned (.publisherBlocked b)) :=
      inactive_record (e := .warning (.publisherBlocked b)) rfl ((c'.recorded (.refused c'.bs.conn)).ticked .elog) hin'
    have hserved := (hs.tail (.refuse hc' hblocked)).tail (.warn (.publisherBlocked b) rfl)
    unfold publishDrained
    rw [wp_bind, wp_getBs, wp_ite, if_pos hblocked, wp_bind, wp_record, wp_bind, wp_elog]
    split
    · exact hraise _ _ hserved hw
    · exact hdone false _ hserved hw

end Shut

section Calls

variable {o : Outcomes} {c : Cell} {b : Int} {g : Gucs} {old : Nat → Prop}

theorem Timely.timed {p : Stage × Cell} (h : Timely g old p) (hin : Inactive p.2) : ∀ e ∈ p.2.log, e.Timed g := by
  intro e he
  refine (h.2 e he).resolve_right ?_
  rintro ⟨k, hk, -⟩
  rw [hin e he] at hk
  cases hk

theorem Timely.certain {p : Stage × Cell} (h : Timely g (fun _ => False) p) : ∀ e ∈ p.2.log, e.Timed g :=
  fun e he => (h.2 e he).resolve_right fun ⟨_, _, hf⟩ => hf

/-- How a call or a callback starts on an entry. -/
structure Opening (g : Gucs) (c : Cell) : Prop where
  gucs : c.backend.gucs = g
  sockfd : c.bs.conn.isSome = true → 0 ≤ c.bs.sockfd
  log : c.log = []

theorem Opening.timely (h : Opening g c) (hc : ∀ k, c.bs.conn = some k → k.Under g.operationTimeoutMs ∨ old k.id) :
    Timely g old (.rest, c) :=
  ⟨⟨h.gucs, fun k hk => (hc k hk).imp_right fun ho => ⟨rfl, ho⟩, fun _ => h.sockfd⟩, by simp [h.log]⟩

/-- Nothing is known of the connection. -/
theorem Opening.loose (h : Opening g c) : Timely g (fun _ => True) (.rest, c) := h.timely fun _ _ => .inr trivial

theorem Opening.inactive (h : Opening g c) : Inactive c := by simp [Inactive, h.log]

/-- The lapses of a call whose warnings do not raise. -/
def Lapses.calm : Lapses := ⟨False, True, True⟩

/-- A publish call is timed, or it writes on an outdated connection. -/
theorem pgAmqpPublishOpt_timed (ho : o.Calm) (hfd : o.Described) (ha : Anchored c.bs) (h : Opening g c)
    (a : PublishArgs) (channel : Nat)
    (hok : ∀ k, c.bs.conn = some k → ¬ k.Under g.operationTimeoutMs → a.bodyTooLarge g = false →
      (channel = 1 ∨ c.bs.inerror = false) → c.opens o = false) :
    wp (pgAmqpPublishOpt o b a channel) (fun _ c' => ∀ e ∈ c'.log, e.Timed g)
      (fun _ c' => ∀ e ∈ c'.log, e.Timed g) c := by
  have hhalf : o.HalfOpen → Lapses.calm.halfOpen := fun ⟨n, r, _, hu⟩ => by simp [ho n r] at hu
  have timely : ∀ {old c₁ c₂}, Timely g old (.rest, c₁) → Chain .calm o (.rest, c₁) (.rest, c₂) →
      Timely g old (.rest, c₂) := fun h₁ hchain => hchain.timely id hfd h₁
  by_cases hunder : ∀ k, c.bs.conn = some k → k.Under g.operationTimeoutMs
  · have hstart : Timely g (fun _ => False) (.rest, c) := h.timely fun k hk => .inl (hunder k hk)
    refine wp_mono (pgAmqpPublishOpt_called (L := .calm) hhalf (fun _ _ => trivial) ha)
      (fun _ _ h' => (timely hstart h'.chain).certain)
      fun _ _ h' => (timely hstart (h' fun _ => trivial).chain).certain
  push Not at hunder
  obtain ⟨k, hk, hunder⟩ := hunder
  have hstart : Timely g (fun _ => True) (.rest, c) := h.loose
  unfold pgAmqpPublishOpt
  rw [wp_bind, wp_getGucs, wp_ite, h.gucs]
  split
  · have hw : ∀ r : Report, ∀ e ∈ (c.warned r).log, e.Timed g := by
      intro r e he
      rw [Cell.warned, Cell.recorded_log, Cell.ticked_log, h.log] at he
      obtain rfl : e = .warning r := by simpa using he
      trivial
    rw [wp_bind, wp_elog]
    split <;> exact hw _
  · rename_i hbody
    rw [wp_bind, wp_newMsg]
    generalize (⟨c.backend.nextCall, a.content⟩ : Msg) = m
    unfold publishPass
    rw [wp_bind, localAmqpGetBs_live (c := c.numbered) o b hk]
    have hlink : Chain .calm o (.rest, c) (.rest, c.numbered.link) :=
      (Relation.ReflTransGen.single (.serve .number)).tail (.serve .link)
    have served : ∀ {c'}, Served .calm (.rest, c.numbered.link) (.rest, c') → Inactive c' →
        ∀ e ∈ c'.log, e.Timed g :=
      fun hs hin => (timely hstart (hlink.trans hs.chain)).timed hin
    by_cases hch : channel = 1 ∨ c.bs.inerror = false
    · refine publishConnected_shut (L := .calm) trivial (by simp [Cell.link, Cell.numbered, hk]) h.inactive
        (hok k hk hunder (Bool.eq_false_iff.mpr hbody) hch) (fun _ _ => served) (fun _ _ => served)
        fun c₃ hs hin hnone => ?_
      -- the second pass starts without a connection
      have hagain : Timely g (fun _ => False) (.rest, c₃) := by
        have hm := (timely hstart (hlink.trans hs.chain)).1
        exact ⟨⟨hm.gucs, fun k hk => by simp [hnone] at hk, hm.sockfd⟩, fun e he => .inl (served hs hin e he)⟩
      have ha₃ : Anchored c₃.bs := Chain.anchored (hlink.trans hs.chain) ha
      exact wp_mono (publishPass_worked (L := .calm) (p := (.rest, c₃)) hhalf (fun _ => trivial) .refl ha₃
          fun _ h' _ _ => h')
        (fun _ _ h' => (timely hagain h'.chain).certain)
        fun _ _ h' => (timely hagain (h' fun _ => trivial).chain).certain
    · rw [wp_publishConnected_refused]
      · exact served .refl h.inactive
      · rintro ⟨-, h'⟩
        exact hch (h'.imp_right Bool.eq_false_iff.mpr)

end Calls

/-- How a call or a callback ends that ran under the settings. -/
structure InTime (g : Gucs) (c : Cell) : Prop where
  gucs : c.backend.gucs = g
  sockfd : c.bs.conn.isSome = true → 0 ≤ c.bs.sockfd
  log : ∀ e ∈ c.log, e.Timed g

def TimedWork (g : Gucs) (c c' : Cell) : Prop := Opening g c → InTime g c'

theorem Trail.timed {g : Gucs} {k k' : Backend} {bs bs' : BrokerState} {evs : List Event}
    (h : Trail (TimedWork g) k bs evs k' bs') (hg : k.gucs = g) (hfd : bs.conn.isSome = true → 0 ≤ bs.sockfd) :
    k'.gucs = g ∧ (bs'.conn.isSome = true → 0 ≤ bs'.sockfd) ∧ ∀ e ∈ evs, e.Timed g := by
  induction h with
  | still bs hgrow => exact ⟨hgrow.gucs.trans hg, hfd, by simp⟩
  | work h =>
    obtain ⟨hg', hfd', hlog⟩ := h ⟨hg, hfd, rfl⟩
    exact ⟨hg', hfd', hlog⟩
  | trans _ _ ih ih' =>
    obtain ⟨hg', hfd', hlog⟩ := ih hg hfd
    obtain ⟨hg'', hfd'', hlog'⟩ := ih' hg' hfd'
    exact ⟨hg'', hfd'', fun e he => (List.mem_append.mp he).elim (hlog e) (hlog' e)⟩

theorem serves_timed {f : Outcomes → M Unit} {o : Int → Outcomes} {g : Gucs} (hfd : ∀ b, (o b).Described)
    (hf : ∀ o c, c.backend.holdoff = true → wp (f o) (fun _ => Between c) (fun _ _ => False) c)
    (hin : ∀ o, Preserves Inactive (f o)) : Serves o f fun _ => TimedWork g := by
  intro b c hc
  have inactive : wp (f (o b)) (fun _ c' => Inactive c → Inactive c') (fun _ c' => Inactive c → Inactive c') c := by
    by_cases h : Inactive c
    · exact wp_mono (hin (o b) c h) (fun _ _ h' _ => h') fun _ _ h' _ => h'
    · exact wp_mono (hf (o b) c hc) (fun _ _ _ h' => absurd h' h) fun _ _ h' => h'.elim
  refine wp_mono (wp_and (hf (o b) c hc) inactive) (fun _ c' h => ⟨h.1.sameList, fun hstart => ?_⟩) fun _ _ h => h.1
  have ht : Timely g (fun _ => True) (.rest, c') :=
    (Served.lapsing (L := .none) h.1).chain.timely (o := o b) id (hfd b) hstart.loose
  exact ⟨ht.1.gucs, ht.1.sockfd (by simp), ht.timed (h.2 hstart.inactive)⟩

theorem callbacks_timed {o : Int → Outcomes} (hfd : ∀ b, (o b).Described) (g : Gucs) :
    CallbacksDo o fun _ => TimedWork g where
  commit := serves_timed (f := amqpLocalPhase2 .commit) hfd (fun _ _ => amqpLocalCommit_served)
    fun _ => inactive_commit
  abort := serves_timed (f := amqpLocalPhase2 .abort) hfd (fun _ _ => amqpLocalAbort_served)
    fun _ => inactive_settle inactive_rollback
  prepare := serves_timed (f := amqpLocalPhase2 .prepare) hfd (fun _ _ _ => .refl) fun _ => .pure _ _
  subxact := serves_timed hfd (fun _ _ => amqpLocalSubxact_served) fun _ => inactive_subxact

namespace Session

/-- The step publishes or declares on a connection whose timeout is not the operation timeout
that is set now. -/
def outdates (s : Session) (st : Step) (b : Int) : Prop :=
  st.action.target = some b ∧
    (∃ k, (s.entry b).conn = some k ∧ ¬ k.Under s.backend.gucs.operationTimeoutMs) ∧
    match st.action with
    | .publish a => a.bodyTooLarge s.backend.gucs = false ∧ (s.entry b).inerror = false ∧
        (s.cell b).opens (st.outcomes b) = true
    | .autonomousPublish a => a.bodyTooLarge s.backend.gucs = false ∧ (s.cell b).opens (st.outcomes b) = true
    | .exchangeDeclare _ => True
    | _ => False

end Session

/-- No warning raises, and every open socket has a descriptor. -/
def Unhurried (s : Session) (st : Step) : Prop := Calm s st ∧ ∀ b, (st.outcomes b).Described

section Steps

variable {s : Session} {st : Step}

theorem calls_timed (hst : Unhurried s st) (ha : ∀ b, Anchored (s.entry b))
    (hfd : ∀ b, (s.entry b).conn.isSome = true → 0 ≤ (s.entry b).sockfd) (hout : ∀ b, ¬ s.outdates st b)
    {b : Int} {x : M Bool} (hx : st.Calls b x) :
    wp x (fun _ => Landed (TimedWork s.backend.gucs) (s.cell b))
      (fun _ => Landed (TimedWork s.backend.gucs) (s.cell b)) (s.cell b) := by
  have hopening : Opening s.backend.gucs (s.cell b) := ⟨rfl, hfd b, rfl⟩
  have hhalf : ¬ (s.lapses st b).halfOpen := fun ⟨_, n, r, _, hu⟩ => by simp [hst.1 b n r] at hu
  have hout := hout b
  have timely : ∀ {old c'}, Timely s.backend.gucs old (.rest, s.cell b) →
      Called (s.lapses st b) (st.outcomes b) (s.cell b) c' → Timely s.backend.gucs old (.rest, c') :=
    fun h hc => hc.chain.timely hhalf (hst.2 b) h
  have landed : ∀ {c'}, Called (s.lapses st b) (st.outcomes b) (s.cell b) c' →
      (∀ e ∈ c'.log, e.Timed s.backend.gucs) → Landed (TimedWork s.backend.gucs) (s.cell b) c' := by
    intro c' hc hlog
    have ht := timely hopening.loose hc
    exact hc.landed fun _ => ⟨ht.1.gucs, ht.1.sockfd (by simp), hlog⟩
  have both : wp x (fun _ c' => ∀ e ∈ c'.log, e.Timed s.backend.gucs)
      (fun _ c' => ∀ e ∈ c'.log, e.Timed s.backend.gucs) (s.cell b) →
      wp x (fun _ => Landed (TimedWork s.backend.gucs) (s.cell b))
        (fun _ => Landed (TimedWork s.backend.gucs) (s.cell b)) (s.cell b) :=
    fun h => wp_mono (wp_and (calls_called ha hx) h) (fun _ _ h' => landed h'.1 h'.2) fun _ _ h' => landed h'.1 h'.2
  have target := hx.target
  have called := calls_called ha hx
  refine both ?_
  cases hx with
  | publish hact hb =>
    refine pgAmqpPublishOpt_timed (hst.1 b) (hst.2 b) (ha b) hopening _ 2 fun k hk hk' hbody hch => ?_
    refine Bool.eq_false_iff.mpr fun hopen => hout ⟨target, ⟨k, hk, hk'⟩, ?_⟩
    rw [hact]
    exact ⟨hbody, hch.resolve_left (by decide), hopen⟩
  | autonomousPublish hact hb =>
    refine pgAmqpPublishOpt_timed (hst.1 b) (hst.2 b) (ha b) hopening _ 1 fun k hk hk' hbody hch => ?_
    refine Bool.eq_false_iff.mpr fun hopen => hout ⟨target, ⟨k, hk, hk'⟩, ?_⟩
    rw [hact]
    exact ⟨hbody, hopen⟩
  | exchangeDeclare hact hb =>
    have hunder : ∀ k, (s.cell b).bs.conn = some k → k.Under s.backend.gucs.operationTimeoutMs := by
      intro k hk
      by_contra hk'
      refine hout ⟨target, ⟨k, hk, hk'⟩, ?_⟩
      rw [hact]
      trivial
    exact wp_mono called (fun _ _ h => (timely (hopening.timely fun k hk => .inl (hunder k hk)) h).certain)
      fun _ _ h => (timely (hopening.timely fun k hk => .inl (hunder k hk)) h).certain
  | disconnect hact =>
    have hin : Preserves Inactive (do localAmqpDisconnect; return true) :=
      .bind inactive_disconnect fun _ => .pure _ _
    have timed : ∀ {c'}, Called (s.lapses st b) (st.outcomes b) (s.cell b) c' → Inactive c' →
        ∀ e ∈ c'.log, e.Timed s.backend.gucs :=
      fun h hi => (timely hopening.loose h).timed hi
    exact wp_mono (wp_and called (hin _ hopening.inactive)) (fun _ _ h => timed h.1 h.2) fun _ _ h => timed h.1 h.2

/-- A step that publishes or declares on no outdated connection runs under the settings of
the moment throughout. -/
theorem timed_of_not_outdates (hs : Runs Unhurried s) (hst : Unhurried s st) (hout : ∀ b, ¬ s.outdates st b) (b : Int) :
    ∀ e ∈ logOf b (trace st s).log, e.Timed s.backend.gucs := by
  by_cases hset : ∃ g, st.action = .set g
  · obtain ⟨g, hg⟩ := hset
    unfold trace exec
    rw [hg]
    simp [logOf]
  have hfd : ∀ b, (s.entry b).conn.isSome = true → 0 ≤ (s.entry b).sockfd := fun b =>
    described_lasting.holds (b := b) (fun _ _ h => ⟨Calm.uncancelled h.1 b, h.2 b⟩) hs
  have htrail := exec_works (R := fun _ => TimedWork s.backend.gucs) (Runs.shaped hs) (fun g hg => hset ⟨g, hg⟩)
    (callbacks_timed hst.2 _) (fun _ _ hx => calls_timed hst (Runs.anchored hs) hfd hout hx) b
  exact (htrail.timed rfl (hfd b)).2.2

end Steps

/-- A call of the record is not timed. -/
def Outdated (g : Gucs) (log : List Event) : Prop := ∃ e ∈ log, ¬ e.Timed g

theorem Outdated.append {g : Gucs} {log : List Event} (h : Outdated g log) (rest : List Event) :
    Outdated g (log ++ rest) := by
  obtain ⟨e, he, ht⟩ := h
  exact ⟨e, List.mem_append_left _ he, ht⟩

theorem Outdated.last {g : Gucs} {e : Event} (h : ¬ e.Timed g) (log : List Event) : Outdated g (log ++ [e]) :=
  ⟨e, by simp, h⟩

section Outdated

variable {L : Lapses} {o : Outcomes} {c : Cell} {g : Gucs} {b : Int} {channel : Nat}

theorem Serve.outdated {p q : Stage × Cell} (h : Serve L p q) (hp : Outdated g p.2.log) : Outdated g q.2.log := by
  cases h with
  | hear =>
    rw [Cell.heard_log]
    exact hp.append _
  | mishear => exact hp.append _
  | warn => exact hp.append _
  | refuse => exact hp.append _
  | declare => exact hp.append _
  | write => exact hp.append _
  | accept => exact hp.append _
  | drop => exact hp.append _
  | finish => exact hp.append _
  | _ => exact hp

/-- What was recorded stays recorded. -/
theorem Change.outdated {p q : Stage × Cell} (h : Change L o p q) (hp : Outdated g p.2.log) :
    Outdated g q.2.log := by
  cases h with
  | serve h => exact h.outdated hp
  | dial h =>
    cases h with
    | «open» => exact hp.append _
    | ask => exact hp.append _
    | _ => exact hp
  | close => exact (hp.append _).append _
  | _ => exact hp

theorem Chain.outdated {p q : Stage × Cell} (h : Chain L o p q) (hp : Outdated g p.2.log) : Outdated g q.2.log :=
  h.keeps (I := fun p => Outdated g p.2.log) (fun _ _ => Change.outdated) hp

/-- A connection that is held with a timeout other than this. -/
def OffTime (ms : Nat) (c : Cell) : Prop := ∃ k, c.bs.conn = some k ∧ ¬ k.Under ms

theorem offTime_drain {ms : Nat} : Preserves (OffTime ms) (localAmqpDrainReturns o) :=
  KeptByDrain.preserves (G := fun _ => True) {
    arrived := fun _ _ _ _ => trivial
    polled := fun _ h => h
    taken := fun c f rest _ ⟨k, hk, h⟩ =>
      ⟨{ k with queue := rest, consumed := k.consumed ++ [f] }, by simp [Cell.taken, hk], h⟩
    returned := fun _ _ _ h => h
    noted := fun _ h => h
    blocked := fun _ _ h => h }

/-- The write on such a connection, and what comes behind it in the call. -/
theorem publishWrite_outdated (ho : o.Calm) (ha : Anchored c.bs) {m : Msg} {badMode : Option Int}
    (h : OffTime g.operationTimeoutMs c) :
    wp (publishWrite o m channel true (publishPass o b m badMode channel false (pure false)))
      (fun _ c' => Outdated g c'.log) (fun _ c' => Outdated g c'.log) c := by
  obtain ⟨k, hk, hoff⟩ := h
  have hhalf : o.HalfOpen → Lapses.calm.halfOpen := fun ⟨n, r, _, hu⟩ => by simp [ho n r] at hu
  unfold publishWrite
  rw [wp_bind, wp_getBs, hk]
  dsimp only
  rw [wp_bind, wp_amqpBasicPublish]
  have hwrote : Outdated g (c.buffered o k channel m).log := .last (e := .basicPublish k channel m _) hoff _
  have hsome : (c.buffered o k channel m).bs.conn.isSome = true := rfl
  have ha' : Anchored (c.buffered o k channel m).bs := by
    refine ⟨fun _ => ha.hosts (by simp [hk]), ha.nhosts⟩
  generalize c.buffered o k channel m = c₁ at hwrote hsome ha'
  have kept : ∀ {c'}, Chain .calm o (.rest, c₁) (.rest, c') → Outdated g c'.log := fun hc => hc.outdated hwrote
  refine wp_seq (wp_mono (publishPoll_served (L := .calm) (p := (.rest, c₁)) ⟨.refl, hsome⟩) (fun _ _ h => h)
    fun _ _ h => kept (h fun _ => trivial).1.chain) fun _ c₂ h₂ => ?_
  refine publishWritten_served (L := .calm) (o := o) (p := (.rest, c₁)) ⟨fun _ _ h => kept h.chain,
    fun _ _ h => kept (h fun _ => trivial).chain, fun c₃ h₃ _ => ?_⟩ h₂ k _
  exact wp_mono (publishPass_worked (L := .calm) (p := (.rest, c₁)) hhalf (fun _ => trivial) h₃.chain ha'
    fun _ h' _ _ => h') (fun _ _ h' => kept h'.chain) fun _ _ h' => kept (h' fun _ => trivial).chain

/-- A publish call that finds its connection usable writes on it. -/
theorem pgAmqpPublishOpt_outdated (ho : o.Calm) (ha : Anchored c.bs) (h : OffTime g.operationTimeoutMs c)
    (a : PublishArgs) (hbody : a.bodyTooLarge c.backend.gucs = false)
    (hch : channel = 1 ∨ c.bs.inerror = false) (hopen : c.opens o = true) :
    wp (pgAmqpPublishOpt o b a channel) (fun _ c' => Outdated g c'.log) (fun _ c' => Outdated g c'.log) c := by
  obtain ⟨k, hk, hoff⟩ := h
  unfold pgAmqpPublishOpt
  rw [wp_bind, wp_getGucs, wp_ite, if_neg (by simp [hbody]), wp_bind, wp_newMsg]
  generalize (⟨c.backend.nextCall, a.content⟩ : Msg) = m
  rw [publishPass, wp_bind, localAmqpGetBs_live (c := c.numbered) o b hk]
  have h₁ : OffTime g.operationTimeoutMs c.numbered.link := ⟨k, hk, hoff⟩
  have ha₁ : Anchored c.numbered.link.bs := ha
  have hopen₁ : c.numbered.link.opens o = true := hopen
  have hch₁ : channel = 1 ∨ ¬ c.numbered.link.bs.inerror = true := hch.imp_right Bool.eq_false_iff.mp
  generalize c.numbered.link = c₁ at h₁ ha₁ hopen₁ hch₁
  have hsome : c₁.bs.conn.isSome = true := by
    obtain ⟨k₁, hk₁, -⟩ := h₁
    simp [hk₁]
  obtain ⟨halive, hread⟩ := Bool.and_eq_true_iff.mp hopen₁
  unfold publishConnected
  rw [wp_bind, wp_getBs, wp_ite, if_pos ⟨hsome, hch₁⟩]
  refine wp_seq (wp_mono (wp_and (localAmqpDrainReturns_reads o hsome) (wp_and (offTime_drain c₁ h₁)
    (localAmqpDrainReturns_served (o := o) (L := .calm) (.inl rfl) ⟨.refl, hsome⟩))) (fun _ _ h => h)
    fun _ c₂ h₂ => ?_) fun r c₂ ⟨hpost, hoff₂, hserved⟩ => ?_
  · have hend := h₂.1.1
    rw [c₁.ticked_reads o _ (by decide)] at hend
    simp [hend] at hread
  · have ha₂ : Anchored c₂.bs := Chain.anchored (o := o) hserved.1.chain ha₁
    have hpost' := hpost
    unfold ReadPost at hpost'
    rw [c₁.ticked_reads o _ (by decide), halive] at hpost'
    cases hend : c₁.reads o (c₁.arrived o) with
    | unwound => simp [hend] at hread
    | closed => simp [hend] at hread
    | through n blocked =>
      simp only [hend, if_true] at hpost' hread
      obtain ⟨hr, -, -, hblocked, -⟩ := hpost'
      have hblocked : c₂.bs.blocked = false := by simpa [hblocked] using hread
      rw [wp_ite, if_neg (by simp [hr])]
      unfold publishDrained publishMode
      rw [wp_bind, wp_getBs, wp_ite, if_neg (by simp [hblocked]), wp_bind]
      cases a.badDeliveryMode with
      | none => exact publishWrite_outdated ho ha₂ hoff₂
      | some mode =>
        dsimp only
        rw [wp_elog_calm ho]
        exact publishWrite_outdated (c := c₂.warned (.ignoredDeliveryMode mode)) ho ha₂ hoff₂

theorem pgAmqpExchangeDeclare_outdated (h : OffTime g.operationTimeoutMs c) (a : DeclareArgs) :
    wp (pgAmqpExchangeDeclare o b a) (fun _ c' => Outdated g c'.log) (fun _ c' => Outdated g c'.log) c := by
  obtain ⟨k, hk, hoff⟩ := h
  unfold pgAmqpExchangeDeclare amqpExchangeDeclare
  rw [wp_bind, localAmqpGetBs_live o b hk, wp_bind, wp_getBs, wp_ite, if_pos (by simp [hk]), bind_assoc, wp_bind,
    wp_tick, wp_bind, wp_rpc (c := c.link.ticked .exchangeDeclare) hk, wp_ite]
  have hasked : ∀ d x, Outdated g ((c.link.ticked .exchangeDeclare).asked (.exchangeDeclare d) x k).log :=
    fun d x => .last (e := .rpc (.exchangeDeclare d) k _) hoff _
  split
  · exact hasked _ _
  · rw [wp_bind, wp_localAmqpDisconnectBs_some rfl]
    exact (hasked _ _).append _

/-- What a call records, its step records. -/
theorem Step.Calls.outdated {s : Session} {st : Step} {x : M Bool} (hx : st.Calls b x)
    (h : wp x (fun _ c' => Outdated g c'.log) (fun _ c' => Outdated g c'.log) (s.cell b)) :
    Outdated g (logOf b (trace st s).log) := by
  have called : ∀ {y : Outcomes → M Bool}, y (st.outcomes b) = x →
      Outdated g (logOf b (s.call st.outcomes b y).2.log) := by
    rintro y rfl
    unfold wp at h
    cases hrun : y (st.outcomes b) (s.cell b) with
    | ok v c =>
      rw [Session.call_ok hrun, logOf_same]
      simpa only [hrun] using h
    | error e c =>
      rw [Session.call_error hrun, logOf_append, logOf_same]
      exact Outdated.append (by simpa only [hrun] using h) _
  unfold trace exec
  cases hx with
  | @publish a hact hb =>
    rw [hact]
    dsimp only
    unfold Session.publish
    rw [hb]
    dsimp only
    unfold Session.note
    split <;> exact called (y := fun o => pgAmqpPublishOpt o b a 2) rfl
  | @autonomousPublish a hact hb =>
    rw [hact]
    dsimp only
    unfold Session.autonomousPublish
    rw [hb]
    exact called (y := fun o => pgAmqpPublishOpt o b a 1) rfl
  | @exchangeDeclare a hact hb =>
    rw [hact]
    dsimp only
    unfold Session.exchangeDeclare
    rw [hb]
    exact called (y := fun o => pgAmqpExchangeDeclare o b a) rfl
  | disconnect hact =>
    rw [hact]
    exact called (y := fun _ => do localAmqpDisconnect; return true) rfl

theorem outdates_recorded {s : Session} {st : Step} (hs : Runs Unhurried s) (hst : Unhurried s st)
    (h : s.outdates st b) : Outdated s.backend.gucs (logOf b (trace st s).log) := by
  obtain ⟨htarget, hoff, hcase⟩ := h
  have hoff : OffTime s.backend.gucs.operationTimeoutMs (s.cell b) := hoff
  have ha : Anchored (s.cell b).bs := Runs.anchored hs b
  cases hact : st.action with
  | publish a =>
    rw [hact] at hcase htarget
    obtain ⟨hbody, herr, hopen⟩ := hcase
    exact Step.Calls.outdated (.publish hact htarget)
      (pgAmqpPublishOpt_outdated (hst.1 b) ha hoff a hbody (.inr herr) hopen)
  | autonomousPublish a =>
    rw [hact] at hcase htarget
    obtain ⟨hbody, hopen⟩ := hcase
    exact Step.Calls.outdated (.autonomousPublish hact htarget)
      (pgAmqpPublishOpt_outdated (hst.1 b) ha hoff a hbody (.inl rfl) hopen)
  | exchangeDeclare a =>
    rw [hact] at htarget
    exact Step.Calls.outdated (.exchangeDeclare hact htarget) (pgAmqpExchangeDeclare_outdated hoff a)
  | _ =>
    rw [hact] at hcase
    exact hcase.elim

end Outdated

/-- In every run every call of a step runs under the setting of its phase, exactly when the
step publishes and declares on no connection whose timeout is another than the one set now. -/
theorem phases_run_in_time {s : Session} (hs : Runs Unhurried s) {st : Step} (hst : Unhurried s st) :
    (∀ b, ∀ e ∈ logOf b (trace st s).log, e.Timed s.backend.gucs) ↔ ∀ b, ¬ s.outdates st b := by
  refine ⟨fun h b hout => ?_, fun h b => timed_of_not_outdates hs hst h b⟩
  obtain ⟨e, he, hnot⟩ := outdates_recorded hs hst hout
  exact hnot (h b e he)

theorem unhurried_good (s : Session) (action : Action) : Unhurried s (.good action) :=
  ⟨calm_good s action, fun _ _ => Int.le.intro 7 rfl⟩

instance (g : Gucs) : DecidablePred (Event.Timed g)
  | .socketOpen _ ms _ => inferInstanceAs (Decidable (ms = _))
  | .rpc (.login _) k _ => inferInstanceAs (Decidable (k.Under _))
  | .rpc (.channelOpen _) k _ => inferInstanceAs (Decidable (k.Under _))
  | .rpc .txSelect k _ => inferInstanceAs (Decidable (k.Under _))
  | .rpc .txCommit k _ => inferInstanceAs (Decidable (k.Under _))
  | .rpc .txRollback k _ => inferInstanceAs (Decidable (k.Under _))
  | .rpc (.exchangeDeclare _) k _ => inferInstanceAs (Decidable (k.Under _))
  | .rpc .connectionClose _ _ => isTrue trivial
  | .basicPublish k _ _ _ => inferInstanceAs (Decidable (k.Under _))
  | .warning _ => isTrue trivial
  | .acknowledged .. => isTrue trivial
  | .refused _ => isTrue trivial
  | .destroyed _ => isTrue trivial

theorem oneAcknowledged_unhurried : Runs Unhurried oneAcknowledged := by
  unfold oneAcknowledged
  exact .run (.init (Session.loaded_initial {} 0)) _ ⟨unhurried_good _ _, trivial⟩

theorem oneAcknowledged_in_time :
    (∀ b, ∀ e ∈ logOf b (trace (.good (.publish (.to1 "b"))) oneAcknowledged).log,
      e.Timed oneAcknowledged.backend.gucs) ↔
    ∀ b, ¬ oneAcknowledged.outdates (.good (.publish (.to1 "b"))) b :=
  phases_run_in_time oneAcknowledged_unhurried (unhurried_good _ _)

/-- A backend that has published and lowers its operation timeout. -/
def hastened : Session :=
  run next [.good (.publish (.to1 "a")), .good (.set { operationTimeoutMs := 500 })] (.loaded {} 0)

theorem hastened_untimely :
    ¬ ∀ e ∈ logOf 1 (trace (.good (.publish (.to1 "b"))) hastened).log, e.Timed hastened.backend.gucs := by
  decide +kernel

/-- The next message is written under the timeout of the day the connection was made. -/
theorem set_is_not_applied :
    ¬ ∀ s, Runs Unhurried s → ∀ st, Unhurried s st → ∀ b, ∀ e ∈ logOf b (trace st s).log, e.Timed s.backend.gucs := by
  intro h
  have hreached : Runs Unhurried hastened := by
    unfold hastened
    exact .run (.init (Session.loaded_initial {} 0)) _ ⟨unhurried_good _ _, unhurried_good _ _, trivial⟩
  exact hastened_untimely (h hastened hreached (.good (.publish (.to1 "b"))) (unhurried_good _ _) 1)

end PgAmqp
