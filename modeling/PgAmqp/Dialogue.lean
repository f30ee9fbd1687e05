import PgAmqp.Lifetimes
import PgAmqp.Writes

/-!
# The dialogue with the library

On behalf of one entry the extension calls the library in an order: the socket, the login,
the two channels, `tx.select`, and only then messages, declarations and the ends of
transactions. `Talk` is an automaton over the record that follows this order; whatever is
out of order leads it astray, and nothing leads it back. An rpc that was not answered
normally is the last one on its connection, a transaction is only ended where messages are
waiting for it, and a failed write on channel 2 is the last one there.
-/
namespace PgAmqp

open ProgramLogic Transition

/-- How far the dialogue is. From the login on it goes over the connection of that number. -/
inductive Talk where
  | idle : Talk
  /-- The socket was opened, or the attempt failed. -/
  | opened : Talk
  | unopened : Talk
  | loggedIn (id : Nat) : Talk
  | channel1 (id : Nat) : Talk
  | channel2 (id : Nat) : Talk
  /-- In tx mode, with so many messages written on channel 2 since the last transaction. -/
  | ready (id pending : Nat) : Talk
  /-- A write on channel 2 has failed. -/
  | suspect (id : Nat) : Talk
  /-- An rpc was refused, or the connection is being closed. -/
  | ended (id : Nat) : Talk
  /-- A call was out of order. -/
  | astray : Talk
  deriving DecidableEq, Repr

namespace Talk

/-- An rpc on the connection of the dialogue leads on to `t` when it is answered normally. -/
def answer (id : Nat) (t : Talk) (k : Connection) (reply : Reply) : Talk :=
  if k.id ≠ id then .astray else if reply = .normal then t else .ended id

/-- An rpc at any point of the dialogue. -/
def ask (kind : Rpc) (k : Connection) (reply : Reply) : Talk → Talk
  | opened =>
    match kind with
    | .login _ => answer k.id (.loggedIn k.id) k reply
    | _ => .astray
  | loggedIn id => if kind = .channelOpen 1 then answer id (.channel1 id) k reply else .astray
  | channel1 id => if kind = .channelOpen 2 then answer id (.channel2 id) k reply else .astray
  | channel2 id => if kind = .txSelect then answer id (.ready id 0) k reply else .astray
  | ready id pending =>
    match kind with
    | .exchangeDeclare _ => answer id (.ready id pending) k reply
    | .txCommit => if pending = 0 then .astray else answer id (.ready id 0) k reply
    | .txRollback => if pending = 0 then .astray else answer id (.ready id 0) k reply
    | .connectionClose => answer id (.ended id) k reply
    | _ => .astray
  | suspect id =>
    match kind with
    | .exchangeDeclare _ => answer id (.suspect id) k reply
    | .connectionClose => answer id (.ended id) k reply
    | _ => .astray
  | _ => .astray

/-- A write at any point of the dialogue. -/
def write (k : Connection) (channel : Nat) (w : Write) : Talk → Talk
  | ready id pending =>
    if k.id ≠ id then .astray
    else if channel = 1 then .ready id pending
    else if channel = 2 then (if w = .ok then .ready id (pending + 1) else .suspect id)
    else .astray
  | suspect id => if k.id = id ∧ channel = 1 then .suspect id else .astray
  | _ => .astray

/-- The connection is given up: one whose socket could not be opened is still new. -/
def destroy (k : Connection) : Talk → Talk
  | idle => if k.loggedIn = true then .astray else .idle
  | unopened => if k.loggedIn = true then .astray else .idle
  | ready id _ => if k.id = id then .idle else .astray
  | suspect id => if k.id = id then .idle else .astray
  | ended id => if k.id = id then .idle else .astray
  | _ => .astray

/-- What an event does to the dialogue; what is said to the client does nothing. -/
def next (t : Talk) : Event → Talk
  | .warning _ => t
  | .acknowledged _ _ _ => t
  | .refused _ => t
  | .socketOpen _ _ ok => if t = .idle then (if ok = true then .opened else .unopened) else .astray
  | .rpc kind k reply => t.ask kind k reply
  | .basicPublish k channel _ w => t.write k channel w
  | .destroyed k => t.destroy k

/-- The dialogue after these events. -/
def after (t : Talk) (log : List Event) : Talk := log.foldl next t

@[simp] theorem after_nil (t : Talk) : t.after [] = t := rfl

theorem after_append (t : Talk) (log log' : List Event) : t.after (log ++ log') = (t.after log).after log' :=
  List.foldl_append

@[simp] theorem after_snoc (t : Talk) (log : List Event) (e : Event) : t.after (log ++ [e]) = (t.after log).next e := by
  rw [after_append]
  rfl

@[simp] theorem astray_next (e : Event) : Talk.astray.next e = .astray := by
  cases e <;> rfl

/-- Nothing leads a dialogue back. -/
theorem astray_after (log : List Event) : Talk.astray.after log = .astray := by
  induction log with
  | nil => rfl
  | cons e rest ih =>
    have hnext : Talk.astray.after (e :: rest) = (Talk.astray.next e).after rest := rfl
    rw [hnext, astray_next, ih]

/-- A dialogue that is in order in the end was in order all the time. -/
theorem after_prefix {t : Talk} {log log' : List Event} (h : log <+: log') (hne : t.after log' ≠ .astray) :
    t.after log ≠ .astray := by
  obtain ⟨rest, rfl⟩ := h
  intro hlog
  rw [after_append, hlog, astray_after] at hne
  exact hne rfl

/-- How the dialogue stands between two calls. -/
def Rests (t : Talk) (bs : BrokerState) : Prop :=
  match t with
  | idle => bs.conn = none ∧ bs.uncommitted = 0
  | ready id pending => bs.conn.map Connection.id = some id ∧ bs.uncommitted = pending
  | suspect id => bs.conn.map Connection.id = some id ∧ bs.inerror = true
  | _ => False

@[simp] theorem answer_same (id : Nat) (t : Talk) {k : Connection} (hk : k.id = id) (reply : Reply) :
    answer id t k reply = if reply = .normal then t else .ended id := by
  simp [answer, hk]

end Talk

section Cells

variable (t : Talk) (c : Cell)

/-- The dialogue of a call that began at `t`. -/
def Cell.talk : Talk := t.after c.log

@[simp] theorem Cell.ticked_talk (k : Call) : (c.ticked k).talk t = c.talk t := rfl

@[simp] theorem Cell.modified_talk (f : BrokerState → BrokerState) : (c.modified f).talk t = c.talk t := rfl

@[simp] theorem Cell.recorded_talk (e : Event) : (c.recorded e).talk t = (c.talk t).next e := by simp [Cell.talk]

@[simp] theorem Cell.warned_talk (r : Report) : (c.warned r).talk t = c.talk t := by
  simp [Cell.warned, Talk.next]

@[simp] theorem Cell.timed_talk (ms : Nat) : (c.timed ms).talk t = c.talk t := rfl

@[simp] theorem Cell.taken_talk (f : Frame) (rest : List Frame) : (c.taken f rest).talk t = c.talk t := rfl

@[simp] theorem Cell.asked_talk (kind : Rpc) (a : Answer) (k : Connection) :
    (c.asked kind a k).talk t = (c.talk t).ask kind k (kind.answer k a.reply) := by
  simp [Cell.asked, Talk.next]

@[simp] theorem Cell.dropped_talk (k : Connection) : (c.dropped k).talk t = (c.talk t).destroy k := by
  simp [Cell.dropped, Talk.next]

end Cells

/-- Nothing happened that the dialogue depends on. -/
structure Silent (t : Talk) (c c' : Cell) : Prop where
  talk : c'.talk t = c.talk t
  conn : c'.bs.conn.map Connection.id = c.bs.conn.map Connection.id
  uncommitted : c'.bs.uncommitted = c.bs.uncommitted
  inerror : c'.bs.inerror = c.bs.inerror

section Silent

variable {t : Talk} {c c' c'' d : Cell} {o : Outcomes}

theorem Silent.refl (t : Talk) (c : Cell) : Silent t c c := ⟨rfl, rfl, rfl, rfl⟩

theorem Silent.trans (h : Silent t c c') (h' : Silent t c' c'') : Silent t c c'' where
  talk := h'.talk.trans h.talk
  conn := h'.conn.trans h.conn
  uncommitted := h'.uncommitted.trans h.uncommitted
  inerror := h'.inerror.trans h.inerror

theorem Silent.warned (t : Talk) (c : Cell) (r : Report) : Silent t c (c.warned r) := ⟨by simp, rfl, rfl, rfl⟩

theorem Silent.timed (t : Talk) (c : Cell) (ms : Nat) : Silent t c (c.timed ms) := by
  refine ⟨rfl, ?_, rfl, rfl⟩
  show (c.bs.conn.map _).map Connection.id = _
  rw [Option.map_map]
  rfl

theorem tick_silent (k : Call) : Preserves (Silent t d) (tick k) := fun _ h => h.trans ⟨rfl, rfl, rfl, rfl⟩

theorem elog_silent (r : Report) : Preserves (Silent t d) (elog o r) := by
  intro c h
  rw [wp_elog]
  split <;> exact h.trans (.warned t c r)

theorem modifyBs_silent {f : BrokerState → BrokerState} (hc : ∀ bs, (f bs).conn = bs.conn)
    (hu : ∀ bs, (f bs).uncommitted = bs.uncommitted) (he : ∀ bs, (f bs).inerror = bs.inerror) :
    Preserves (Silent t d) (modifyBs f) :=
  fun c h => h.trans ⟨rfl, congrArg (Option.map Connection.id) (hc c.bs), hu c.bs, he c.bs⟩

theorem modifyHost_silent (i : Nat) (f : BrokerHost → BrokerHost) : Preserves (Silent t d) (modifyHost i f) :=
  modifyBs_silent (fun _ => rfl) (fun _ => rfl) fun _ => rfl

theorem localAmqpFillHosts_silent (brokerId : Int) (i : Nat) (rows : List BrokerRow) :
    Preserves (Silent t d) (localAmqpFillHosts o brokerId i rows) := by
  induction rows generalizing i with
  | nil => exact .pure _ _
  | cons row rows ih =>
    have tail : ∀ f, Preserves (Silent t d) (do
        modifyHost i f
        if row.ssl.getD false && !row.sslVerify.getD true then
          elog o (.insecureTls brokerId (some (row.host.getD "localhost")))) := fun f =>
      .bind (modifyHost_silent i f) fun _ => .ite (fun _ => elog_silent _) fun _ => .pure _ _
    refine .bind (.bind (modifyHost_silent i _) fun _ => .ite (fun _ => ?_) fun _ => tail _) fun _ => ih (i + 1)
    exact .bind (elog_silent _) fun _ => .bind (modifyHost_silent i _) fun _ => tail _

theorem localAmqpLoadHosts_silent : Preserves (Silent t d) (localAmqpLoadHosts o) := by
  have count : Preserves (Silent t d) (do return ((← getBs).nhosts : Int)) :=
    .bind (getBs_preserves _) fun _ => .pure _ _
  unfold localAmqpLoadHosts
  refine .bind (getBs_preserves _) fun bs => .ite (fun _ => .pure _ _) fun _ => .bind (tick_silent _) fun n => ?_
  cases o.spi n with
  | connectError => exact .pure _ _
  | raised => exact .throw _ _
  | executeError => exact .bind (elog_silent _) fun _ => count
  | rows rows =>
    cases rows with
    | nil => exact .bind (elog_silent _) fun _ => count
    | cons row rows =>
      refine .bind (modifyBs_silent (fun _ => rfl) (fun _ => rfl) fun _ => rfl) fun _ =>
        .bind (localAmqpFillHosts_silent _ _ _) fun _ => .bind ?_ fun _ => count
      exact fun c h => h.trans ⟨rfl, rfl, rfl, rfl⟩

theorem localAmqpConnectFailed_silent : Preserves (Silent t d) (localAmqpConnectFailed o) :=
  .bind (tick_silent _) fun _ => modifyBs_silent (fun _ => rfl) (fun _ => rfl) fun _ => rfl

theorem localAmqpDrainReturns_silent : Preserves (Silent t d) (localAmqpDrainReturns o) :=
  KeptByDrain.preserves (G := fun _ => True) {
    arrived := fun _ _ _ _ => trivial
    polled := fun _ h => h.trans ⟨rfl, rfl, rfl, rfl⟩
    taken := fun c f rest _ h => by
      refine h.trans ⟨rfl, ?_, rfl, rfl⟩
      show (c.bs.conn.map _).map Connection.id = _
      rw [Option.map_map]
      rfl
    returned := fun c r _ h => h.trans (.warned t c _)
    noted := fun c h => h.trans (.warned t c _)
    blocked := fun _ _ h => h.trans ⟨rfl, rfl, rfl, rfl⟩ }

end Silent

/-- There is no connection to talk over. -/
structure HungUp (t : Talk) (c : Cell) : Prop where
  talk : c.talk t = .idle
  conn : c.bs.conn = none
  uncommitted : c.bs.uncommitted = 0

/-- The new connection is not logged in, and the dialogue is at `x`. -/
structure Ringing (t x : Talk) (c : Cell) : Prop where
  talk : c.talk t = x
  conn : ∃ k, c.bs.conn = some k ∧ k.loggedIn = false
  uncommitted : c.bs.uncommitted = 0

/-- The dialogue is at `f` over the connection of the entry. -/
structure Speaking (t : Talk) (f : Nat → Talk) (c : Cell) : Prop where
  conn : ∃ k, c.bs.conn = some k ∧ c.talk t = f k.id
  uncommitted : c.bs.uncommitted = 0

/-- The connection may be given up. -/
def Ending (t : Talk) (c : Cell) : Prop := ∃ k, c.bs.conn = some k ∧ (c.talk t).destroy k = .idle

/-- The dialogue is as it stands between two calls. -/
def Resting (t : Talk) (c : Cell) : Prop := (c.talk t).Rests c.bs

section Connecting

variable {t x : Talk} {f g : Nat → Talk} {c c' : Cell} {o : Outcomes}

theorem HungUp.silent (h : HungUp t c) (hs : Silent t c c') : HungUp t c' where
  talk := hs.talk.trans h.talk
  conn := by
    have hconn := hs.conn
    rw [h.conn, Option.map_none, Option.map_eq_none_iff] at hconn
    exact hconn
  uncommitted := hs.uncommitted.trans h.uncommitted

theorem HungUp.resting (h : HungUp t c) : Resting t c := by
  unfold Resting
  rw [h.talk]
  exact ⟨h.conn, h.uncommitted⟩

theorem Resting.silent (h : Resting t c) (hs : Silent t c c') : Resting t c' := by
  unfold Resting at h ⊢
  rw [hs.talk]
  cases ht : c.talk t with
  | idle =>
    rw [ht] at h
    exact ⟨Option.map_eq_none_iff.mp (by rw [hs.conn, h.1, Option.map_none]), hs.uncommitted.trans h.2⟩
  | ready id pending =>
    rw [ht] at h
    exact ⟨hs.conn.trans h.1, hs.uncommitted.trans h.2⟩
  | suspect id =>
    rw [ht] at h
    exact ⟨hs.conn.trans h.1, hs.inerror.trans h.2⟩
  | _ => rwa [ht] at h

theorem Speaking.ended_ending (h : Speaking t .ended c) : Ending t c := by
  obtain ⟨k, hk, ht⟩ := h.conn
  exact ⟨k, hk, by rw [ht]; simp [Talk.destroy]⟩

/-- A connection that a call found at rest may be given up. -/
theorem Resting.ending (h : Resting t c) (hc : c.bs.conn.isSome = true) : Ending t c := by
  obtain ⟨k, hk⟩ := Option.isSome_iff_exists.mp hc
  refine ⟨k, hk, ?_⟩
  unfold Resting Talk.Rests at h
  cases ht : c.talk t <;> simp_all [Talk.destroy]

/-- At the warning of a failed host attempt no cancel is taken. -/
theorem wp_elog_settled (ho : ¬ o.HalfOpen) {r : Report} (hr : r.isHostFailure = true) {Q : Unit → Cell → Prop}
    {E : Raised → Cell → Prop} (h : Q () (c.warned r)) : wp (elog o r) Q E c := by
  have hnot : ¬ c.unwinds o r = true := by
    intro hu
    simp only [Cell.unwinds, Bool.and_eq_true] at hu
    exact ho ⟨_, r, hr, hu.2⟩
  rw [wp_elog, if_neg hnot]
  exact h

theorem localAmqpOpenSocket_talks (ho : ¬ o.HalfOpen) (h : BrokerHost) (hostCopy : String)
    (hc : Ringing t .idle c) :
    wp (localAmqpOpenSocket o h hostCopy) (fun r c' => if r = true then Ringing t .opened c' else Ending t c')
      (fun _ _ => False) c := by
  obtain ⟨k, hk, hnew⟩ := hc.conn
  unfold localAmqpOpenSocket
  rw [wp_bind, wp_getBs, wp_bind, wp_tick, wp_ite]
  split
  · rw [wp_bind]
    refine wp_elog_settled ho (by split <;> rfl) ⟨k, hk, ?_⟩
    simp [hc.talk, Talk.destroy, hnew]
  · rw [wp_bind, wp_tick, wp_bind, wp_getGucs, wp_bind, wp_record, wp_ite]
    cases o.socketOpen ((c.ticked .socketNew).counts .socketOpen) with
    | false =>
      rw [if_pos (by simp), wp_bind]
      refine wp_elog_settled ho rfl ⟨k, hk, ?_⟩
      simp [hc.talk, Talk.next, Talk.destroy, hnew]
    | true =>
      rw [if_neg (by simp), wp_pure, if_pos rfl]
      exact ⟨by simp [hc.talk, Talk.next], ⟨k, hk, hnew⟩, hc.uncommitted⟩

/-- What an rpc does to a dialogue at `f`. -/
theorem ask_talks (kind : Rpc) (k : Call) (a : Nat → Answer)
    (hfg : ∀ k reply, (f k.id).ask kind k reply = if reply = .normal then g k.id else .ended k.id)
    (hc : Speaking t f c) {E : Raised → Cell → Prop} :
    wp (do rpc kind (a (← tick k)))
      (fun r c' => if r = .normal then Speaking t g c' else Speaking t .ended c') E c := by
  obtain ⟨k', hk, ht⟩ := hc.conn
  have hk : (c.ticked k).bs.conn = some k' := hk
  have hid : (k'.answered kind (a (c.counts k))).id = k'.id := k'.answered_id ..
  have htalk : ((c.ticked k).asked kind (a (c.counts k)) k').talk t =
      if kind.answer k' (a (c.counts k)).reply = .normal then g k'.id else .ended k'.id := by
    rw [Cell.asked_talk, Cell.ticked_talk, ht, hfg]
  rw [wp_bind, wp_tick, wp_rpc hk]
  split
  · rename_i hn
    rw [if_pos hn] at htalk
    exact ⟨⟨_, rfl, by rw [htalk, hid]⟩, hc.uncommitted⟩
  · rename_i hn
    rw [if_neg hn] at htalk
    exact ⟨⟨_, rfl, by rw [htalk, hid]⟩, hc.uncommitted⟩

/-- A stage of the handshake: the rpc, and what its reply means. -/
theorem stage_talks (ho : ¬ o.HalfOpen) {ask : M Reply} {r : Report} {rest : M Bool} {Q : Bool → Cell → Prop}
    {E : Raised → Cell → Prop} (hr : r.isHostFailure = true)
    (hask : wp ask (fun r c' => if r = .normal then Speaking t g c' else Speaking t .ended c') E c)
    (hover : ∀ c', Speaking t .ended c' → Q false c') (hrest : ∀ c', Speaking t g c' → wp rest Q E c') :
    wp (do
      if (← ask) ≠ .normal then
        elog o r
        return false
      rest) Q E c := by
  refine wp_seq hask fun reply c' h => ?_
  rw [wp_ite]
  split
  · rename_i hne
    rw [if_neg hne] at h
    obtain ⟨k', hk', htalk⟩ := h.conn
    rw [wp_bind]
    exact wp_elog_settled ho hr (hover _ ⟨⟨k', hk', by simpa using htalk⟩, h.uncommitted⟩)
  · rename_i hne
    rw [if_pos (Decidable.not_not.mp hne)] at h
    exact hrest c' h

theorem localAmqpHandshake_talks (ho : ¬ o.HalfOpen) (host : BrokerHost) (hostCopy : String) (brokerId : Int)
    (hc : Speaking t (fun _ => .opened) c) :
    wp (localAmqpHandshake o host hostCopy brokerId)
      (fun r c' => if r = true then Speaking t (.ready · 0) c' else Ending t c') (fun _ _ => False) c := by
  have refused : ∀ c', Speaking t .ended c' → if false = true then Speaking t (.ready · 0) c' else Ending t c' := by
    intro c' h
    rw [if_neg (by simp)]
    exact h.ended_ending
  unfold localAmqpHandshake
  refine stage_talks ho rfl (ask_talks (g := .loggedIn) (.login _) _ _ (by simp [Talk.ask]) hc) refused fun c₁ h₁ => ?_
  refine stage_talks ho rfl (ask_talks (g := .channel1) _ _ _ (by simp [Talk.ask]) h₁) refused fun c₂ h₂ => ?_
  refine stage_talks ho rfl (ask_talks (g := .channel2) _ _ _ (by simp [Talk.ask]) h₂) refused fun c₃ h₃ => ?_
  exact stage_talks ho rfl (ask_talks (g := (.ready · 0)) _ _ _ (by simp [Talk.ask]) h₃) refused fun c₄ h₄ => h₄

theorem Speaking.timed (h : Speaking t f c) (ms : Nat) : Speaking t f (c.timed ms) := by
  obtain ⟨k, hk, ht⟩ := h.conn
  refine ⟨⟨k.setTimeout c.bs.sockfd ms, ?_, ht⟩, h.uncommitted⟩
  simp [Cell.timed, hk]

theorem localAmqpTryHost_talks (ho : ¬ o.HalfOpen) (h : BrokerHost) (hostCopy : String) (brokerId : Int)
    (hc : Ringing t .idle c) :
    wp (localAmqpTryHost o h hostCopy brokerId)
      (fun r c' => if r = true then Speaking t (.ready · 0) c' else Ending t c') (fun _ _ => False) c := by
  unfold localAmqpTryHost
  refine wp_seq (localAmqpOpenSocket_talks ho h hostCopy hc) fun r c₁ h₁ => ?_
  rw [wp_ite]
  cases r with
  | false => exact h₁
  | true =>
    rw [if_pos rfl] at h₁
    obtain ⟨k, hk, -⟩ := h₁.conn
    have hopen : Speaking t (fun _ => .opened)
        ((c₁.ticked .sockfd).modified fun bs => { bs with sockfd := o.sockfd (c₁.counts .sockfd) }) :=
      ⟨⟨k, hk, h₁.talk⟩, h₁.uncommitted⟩
    rw [if_neg (by simp), wp_bind, wp_tick, wp_bind, wp_modifyBs, wp_bind, wp_getGucs, wp_bind,
      wp_localAmqpSetTimeout]
    refine wp_seq (localAmqpHandshake_talks ho h hostCopy brokerId (hopen.timed _)) fun r c₂ h₂ => ?_
    rw [wp_ite]
    cases r with
    | false => exact h₂
    | true =>
      rw [if_pos rfl] at h₂
      rw [if_neg (by simp), wp_bind, wp_getGucs, wp_bind, wp_localAmqpSetTimeout, wp_bind, wp_modifyBs, wp_pure,
        if_pos rfl]
      have hready := h₂.timed c₂.backend.gucs.operationTimeoutMs
      exact ⟨hready.conn, hready.uncommitted⟩

/-- Giving a connection up hangs up. -/
theorem localAmqpDisconnectBs_talks (hc : Ending t c) :
    wp (localAmqpDisconnectBs false) (fun _ c' => HungUp t c' ∧ c'.bs.inerror = c.bs.inerror) (fun _ _ => False) c := by
  obtain ⟨k, hk, ht⟩ := hc
  rw [wp_localAmqpDisconnectBs_some hk]
  exact ⟨⟨by rw [Cell.dropped_talk, ht], rfl, rfl⟩, rfl⟩

theorem Speaking.ready_resting (h : Speaking t (.ready · 0) c) : Resting t c := by
  obtain ⟨k, hk, ht⟩ := h.conn
  unfold Resting
  rw [ht]
  exact ⟨by rw [hk]; rfl, h.uncommitted⟩

theorem localAmqpFailover_talks (ho : ¬ o.HalfOpen) (brokerId deadline : Int) (tries : Nat) (hc : HungUp t c) :
    wp (localAmqpFailover o brokerId deadline tries)
      (fun r c' => if r = true then Resting t c' else HungUp t c') (fun _ => Resting t) c := by
  induction tries generalizing c with
  | zero => exact hc
  | succ tries ih =>
    -- behind a host that failed
    have next : ∀ {c' : Cell} (h : BrokerHost), HungUp t c' → wp (do
        if 0 < tries then
          elog o (.tryingNextHost h.hostCopy)
        localAmqpFailover o brokerId deadline tries)
        (fun r c' => if r = true then Resting t c' else HungUp t c') (fun _ => Resting t) c' := by
      intro c' h hc'
      by_cases htries : 0 < tries
      · have hw := hc'.silent (.warned t c' (.tryingNextHost h.hostCopy))
        rw [if_pos htries, wp_bind, wp_elog]
        split
        · exact hw.resting
        · exact ih hw
      · rw [if_neg htries]
        exact ih hc'
    unfold localAmqpFailover
    rw [wp_bind, wp_modifyBs, wp_bind, wp_getBs, wp_bind, wp_amqpNewConnection]
    split
    · rw [wp_bind, wp_setConn, wp_ite, if_neg (by simp)]
      refine wp_seq (wp_mono (localAmqpTryHost_talks ho _ _ brokerId ⟨hc.talk, ⟨_, rfl, rfl⟩, hc.uncommitted⟩)
        (fun _ _ h => h) fun _ _ h => h.elim) fun r c₁ h₁ => ?_
      rw [wp_ite]
      cases r with
      | true => exact h₁.ready_resting
      | false =>
        rw [if_neg (by simp)] at h₁ ⊢
        refine wp_seq (wp_mono (localAmqpDisconnectBs_talks h₁) (fun _ _ h => h) fun _ _ h => h.elim) fun _ c₂ h₂ => ?_
        have h₂ := h₂.1
        rw [wp_ite]
        split
        · rw [wp_bind, wp_tick, wp_ite]
          have ht : HungUp t (c₂.ticked .nowMs) := ⟨h₂.talk, h₂.conn, h₂.uncommitted⟩
          split
          · rw [wp_bind, wp_getGucs, wp_bind, wp_elog]
            have hw := ht.silent (.warned t _ (.budgetExhausted c₂.backend.gucs.connectBudgetMs brokerId))
            split
            · exact hw.resting
            · exact hw
          · exact next _ ht
        · exact next _ h₂
    · exact ⟨hc.talk, rfl, hc.uncommitted⟩

/-- However `local_amqp_get_bs` is left, the dialogue rests. -/
theorem localAmqpGetBs_talks (ho : ¬ o.HalfOpen) (brokerId : Int) (hc : Resting t c) :
    wp (localAmqpGetBs o brokerId) (fun _ => Resting t) (fun _ => Resting t) c := by
  cases hk : c.bs.conn with
  | some k =>
    rw [localAmqpGetBs_live o brokerId hk]
    exact hc
  | none =>
    have hup : HungUp t c.link := by
      unfold Resting Talk.Rests at hc
      cases ht : c.talk t <;> simp_all
      exact ⟨ht, hk, hc⟩
    have failed : ∀ {c'}, HungUp t c' → wp (localAmqpConnectFailed o) (fun _ => Resting t) (fun _ => Resting t) c' :=
      fun {c'} h => wp_mono (localAmqpConnectFailed_silent (d := c') c' (.refl t c'))
        (fun _ _ hs => (h.silent hs).resting) fun _ _ hs => (h.silent hs).resting
    have dial : ∀ {deadline c'}, HungUp t c' → wp (do
        if !(← localAmqpFailover o brokerId deadline (← getBs).nhosts) then
          localAmqpConnectFailed o) (fun _ => Resting t) (fun _ => Resting t) c' := by
      intro deadline c' h
      rw [wp_bind, wp_getBs]
      refine wp_seq (localAmqpFailover_talks ho brokerId deadline _ h) fun r c₁ h₁ => ?_
      rw [wp_ite]
      cases r with
      | true => exact h₁
      | false => exact failed h₁
    unfold localAmqpGetBs
    rw [wp_bind, wp_localAmqpGetABs, wp_bind, wp_getBs, wp_ite, if_neg (by simp [Cell.link, hk]), wp_bind,
      wp_localAmqpSuppressed, wp_ite]
    have hchecked : HungUp t (c.link.checked) := by
      refine hup.silent ?_
      unfold Cell.checked
      split
      · exact .refl t _
      · exact ⟨rfl, rfl, rfl, rfl⟩
    split
    · exact hchecked.resting
    · refine wp_seq (wp_mono (localAmqpLoadHosts_silent (d := c.link.checked) _ (.refl t _))
        (fun _ _ h => hchecked.silent h) fun _ _ h => (hchecked.silent h).resting) fun n c₁ h₁ => ?_
      rw [wp_ite]
      split
      · exact wp_seq (failed h₁) fun _ _ h => h
      · rw [wp_bind, wp_getGucs]
        dsimp only
        rw [wp_ite]
        split
        · rw [wp_bind, wp_tick, wp_bind, wp_pure]
          exact dial ⟨h₁.talk, h₁.conn, h₁.uncommitted⟩
        · rw [wp_bind, wp_pure]
          exact dial h₁

end Connecting

end PgAmqp
