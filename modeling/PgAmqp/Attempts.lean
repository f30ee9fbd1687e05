import PgAmqp.Drain

/-!
# One attempt to connect to a host

Unless a cancel unwinds, what an attempt comes to depends only on how often the library
was called before. `Outcomes.completes` reads it off those numbers, and `Outcomes.spent`
has the numbers with which the next attempt starts. `Outcomes.Makes` leads from the
numbers with which a connect call starts to those of the attempt that makes its
connection.
-/
namespace PgAmqp

open ProgramLogic

namespace Cell

/-- The cell after the failover loop stepped on to the next host. -/
def turned (c : Cell) : Cell := c.modified fun bs => { bs with idx := (bs.idx + 1) % bs.nhosts }

/-- The cell after `amqp_new_connection`. -/
def dialed (c : Cell) : Cell :=
  c.allocated.modified fun bs => { bs with conn := some (.new c.backend.nextConn) }

/-- The cell after a connect attempt went through. -/
def connected (c : Cell) : Cell :=
  (c.timed c.backend.gucs.operationTimeoutMs).modified fun bs =>
    { bs with lastFailedConnect := 0, consecutiveFailures := 0, blocked := false }

end Cell

/-- The rpcs of the handshake. -/
def Rpc.handshakes : Rpc → Bool
  | .login _ => true
  | .channelOpen _ => true
  | .txSelect => true
  | _ => false

/-- What no part of a call on an entry changes but connecting and the full reset. -/
structure SameList (c c' : Cell) : Prop where
  brokerId : c'.bs.brokerId = c.bs.brokerId
  idx : c'.bs.idx = c.bs.idx
  consecutiveFailures : c'.bs.consecutiveFailures = c.bs.consecutiveFailures
  lastFailedConnect : c'.bs.lastFailedConnect = c.bs.lastFailedConnect
  hosts : c'.bs.hosts = c.bs.hosts
  nhosts : c'.bs.nhosts = c.bs.nhosts
  gucs : c'.backend.gucs = c.backend.gucs
  pid : c'.backend.myProcPid = c.backend.myProcPid
  nextConn : c'.backend.nextConn = c.backend.nextConn
  holdoff : c'.backend.holdoff = c.backend.holdoff
  linked : c.linked = true → c'.linked = true

theorem SameList.refl (c : Cell) : SameList c c := ⟨rfl, rfl, rfl, rfl, rfl, rfl, rfl, rfl, rfl, rfl, id⟩

theorem SameList.trans {c c' c'' : Cell} (h : SameList c c') (h' : SameList c' c'') : SameList c c'' where
  brokerId := h'.brokerId.trans h.brokerId
  idx := h'.idx.trans h.idx
  consecutiveFailures := h'.consecutiveFailures.trans h.consecutiveFailures
  lastFailedConnect := h'.lastFailedConnect.trans h.lastFailedConnect
  hosts := h'.hosts.trans h.hosts
  nhosts := h'.nhosts.trans h.nhosts
  gucs := h'.gucs.trans h.gucs
  pid := h'.pid.trans h.pid
  nextConn := h'.nextConn.trans h.nextConn
  holdoff := h'.holdoff.trans h.holdoff
  linked := h'.linked ∘ h.linked

/-- No cancel is pending at any warning. -/
def Outcomes.Calm (o : Outcomes) : Prop := ∀ n r, o.unwind n r = false

theorem wp_elog_calm {o : Outcomes} (ho : o.Calm) (r : Report) {c : Cell} {Q : Unit → Cell → Prop}
    {E : Raised → Cell → Prop} : wp (elog o r) Q E c = Q () (c.warned r) := by
  rw [wp_elog, if_neg (by simp [Cell.unwinds, ho _ r])]

/-- A warning is given, unless a cancel is pending at one. -/
theorem elog_warned {o : Outcomes} {Q : Unit → Cell → Prop} {E : Raised → Cell → Prop} {c : Cell}
    (hE : ∀ e c', ¬ o.Calm → E e c') (r : Report) (h : Q () (c.warned r)) : wp (elog o r) Q E c := by
  rw [wp_elog]
  split
  · rename_i hu
    refine hE _ _ fun ho => ?_
    simp [Cell.unwinds, ho _ r] at hu
  · exact h

/-- How often each call of an attempt has been used. -/
structure Uses where
  socketNew : Nat
  socketOpen : Nat
  login : Nat
  channelOpen : Nat
  txSelect : Nat
  deriving DecidableEq, Repr

def Cell.uses (c : Cell) : Uses where
  socketNew := c.counts .socketNew
  socketOpen := c.counts .socketOpen
  login := c.counts .login
  channelOpen := c.counts .channelOpen
  txSelect := c.counts .txSelect

theorem Scanned.uses {closed : Bool} {c c' : Cell} (h : Scanned closed c c') : c'.uses = c.uses := by
  unfold Cell.uses
  rw [h.counts .socketNew (by decide), h.counts .socketOpen (by decide), h.counts .login (by decide),
    h.counts .channelOpen (by decide), h.counts .txSelect (by decide)]

theorem Dropped.uses {c c' : Cell} (h : Dropped c c') : c'.uses = c.uses := by
  unfold Cell.uses
  rw [h.counts]

namespace Outcomes

variable (o : Outcomes) (u : Uses)

/-- The socket is created and opened. -/
def opens : Bool := o.socketNew u.socketNew && o.socketOpen u.socketOpen

def logsIn : Bool := o.opens u && (o.login u.login).reply = .normal

def channelOne : Bool := o.logsIn u && (o.channelOpen u.channelOpen).reply = .normal

def channelTwo : Bool := o.channelOne u && (o.channelOpen (u.channelOpen + 1)).reply = .normal

/-- The attempt completes socket open, login, both channel opens and `tx.select`. -/
def completes : Bool := o.channelTwo u && (o.txSelect u.txSelect).reply = .normal

/-- The numbers after the attempt. -/
def spent : Uses where
  socketNew := u.socketNew + 1
  socketOpen := u.socketOpen + (o.socketNew u.socketNew).toNat
  login := u.login + (o.opens u).toNat
  channelOpen := u.channelOpen + (o.logsIn u).toNat + (o.channelOne u).toNat
  txSelect := u.txSelect + (o.channelTwo u).toNat

/-- The frames that arrive with the answers of the handshake. -/
def greeting : List Frame :=
  (o.login u.login).arrivals ++ (o.channelOpen u.channelOpen).arrivals ++
    (o.channelOpen (u.channelOpen + 1)).arrivals ++ (o.txSelect u.txSelect).arrivals

end Outcomes

/-- The calls that no attempt uses. -/
def Call.spared : Call → Bool
  | .spi => true
  | .time => true
  | .nowMs => true
  | .newConnection => true
  | .poll => true
  | .basicPublish => true
  | _ => false

/-- The attempt that began in `c` has come to `c'`, and these frames have arrived meanwhile. -/
structure Trying (fs : List Frame) (u : Uses) (c c' : Cell) : Prop where
  list : SameList c c'
  conn : ∃ k k', c.bs.conn = some k ∧ c'.bs.conn = some k' ∧ k'.id = k.id ∧
    k'.consumed = k.consumed ∧ k'.queue = k.queue ++ fs
  uncommitted : c'.bs.uncommitted = c.bs.uncommitted
  inerror : c'.bs.inerror = c.bs.inerror
  counts : ∀ j, j.spared = true → c'.counts j = c.counts j
  uses : c'.uses = u

section Attempt

variable {o : Outcomes} {fs : List Frame} {u u' : Uses} {c c' : Cell} {Q : Bool → Cell → Prop}
  {E : Raised → Cell → Prop}

theorem Trying.ticked (h : Trying fs u c c') {k : Call} (hk : k.spared = false)
    (hu : (c'.ticked k).uses = u') : Trying fs u' c (c'.ticked k) where
  list := h.list.trans ⟨rfl, rfl, rfl, rfl, rfl, rfl, rfl, rfl, rfl, rfl, id⟩
  conn := h.conn
  uncommitted := h.uncommitted
  inerror := h.inerror
  counts := fun j hj => by
    rw [c'.ticked_other (fun he => by rw [he, hk] at hj; cases hj)]
    exact h.counts j hj
  uses := hu

theorem Trying.login (h : Trying fs u c c') :
    Trying fs { u with login := u.login + 1 } c (c'.ticked .login) :=
  h.ticked rfl (congrArg (fun u : Uses => { u with login := u.login + 1 }) h.uses)

theorem Trying.channelOpen (h : Trying fs u c c') :
    Trying fs { u with channelOpen := u.channelOpen + 1 } c (c'.ticked .channelOpen) :=
  h.ticked rfl (congrArg (fun u : Uses => { u with channelOpen := u.channelOpen + 1 }) h.uses)

theorem Trying.txSelect (h : Trying fs u c c') :
    Trying fs { u with txSelect := u.txSelect + 1 } c (c'.ticked .txSelect) :=
  h.ticked rfl (congrArg (fun u : Uses => { u with txSelect := u.txSelect + 1 }) h.uses)

theorem Trying.recorded (h : Trying fs u c c') (e : Event) : Trying fs u c (c'.recorded e) where
  list := h.list.trans ⟨rfl, rfl, rfl, rfl, rfl, rfl, rfl, rfl, rfl, rfl, id⟩
  conn := h.conn
  uncommitted := h.uncommitted
  inerror := h.inerror
  counts := h.counts
  uses := h.uses

theorem Trying.warned (h : Trying fs u c c') (r : Report) : Trying fs u c (c'.warned r) :=
  (h.ticked (k := .elog) rfl (by rw [← h.uses]; rfl)).recorded _

/-- The connection is changed, and what it has read and what it holds are kept. -/
theorem Trying.retimed (h : Trying fs u c c') (ms : Nat) : Trying fs u c (c'.timed ms) where
  list := h.list.trans ⟨rfl, rfl, rfl, rfl, rfl, rfl, rfl, rfl, rfl, rfl, id⟩
  conn := by
    obtain ⟨k, k', hk, hk', hid, hcons, hq⟩ := h.conn
    exact ⟨k, k'.setTimeout c'.bs.sockfd ms, hk, by simp [Cell.timed, hk'], hid, hcons, hq⟩
  uncommitted := h.uncommitted
  inerror := h.inerror
  counts := h.counts
  uses := h.uses

theorem Trying.sockfd (h : Trying fs u c c') (fd : Int) :
    Trying fs u c ((c'.ticked .sockfd).modified fun bs => { bs with sockfd := fd }) where
  list := h.list.trans ⟨rfl, rfl, rfl, rfl, rfl, rfl, rfl, rfl, rfl, rfl, id⟩
  conn := h.conn
  uncommitted := h.uncommitted
  inerror := h.inerror
  counts := (h.ticked (k := .sockfd) rfl rfl).counts
  uses := h.uses

theorem Rpc.effect_id (kind : Rpc) (k : Connection) : (kind.effect k).id = k.id := by
  unfold Rpc.effect
  split <;> rfl

theorem Rpc.effect_consumed (kind : Rpc) (k : Connection) : (kind.effect k).consumed = k.consumed := by
  unfold Rpc.effect
  split <;> rfl

theorem Rpc.effect_queue (kind : Rpc) (k : Connection) : (kind.effect k).queue = k.queue := by
  unfold Rpc.effect
  split <;> rfl

/-- An rpc only adds what arrived with its answer. -/
theorem Connection.answered_keeps (k : Connection) (kind : Rpc) (a : Answer) :
    (k.answered kind a).id = k.id ∧ (k.answered kind a).consumed = k.consumed ∧
      (k.answered kind a).queue = k.queue ++ a.arrivals := by
  unfold Connection.answered
  split
  · exact ⟨Rpc.effect_id .., Rpc.effect_consumed .., Rpc.effect_queue ..⟩
  · exact ⟨rfl, rfl, rfl⟩

theorem Trying.asked (h : Trying fs u c c') {k : Connection} (hk : c'.bs.conn = some k) (kind : Rpc)
    (a : Answer) : Trying (fs ++ a.arrivals) u c (c'.asked kind a k) where
  list := h.list.trans ⟨rfl, rfl, rfl, rfl, rfl, rfl, rfl, rfl, rfl, rfl, id⟩
  conn := by
    obtain ⟨k₀, k', hk₀, hk', hid, hcons, hq⟩ := h.conn
    obtain rfl := Option.some.inj (hk'.symm.trans hk)
    obtain ⟨hid', hcons', hq'⟩ := k'.answered_keeps kind a
    exact ⟨k₀, _, hk₀, rfl, hid'.trans hid, hcons'.trans hcons, by rw [hq', hq, List.append_assoc]⟩
  uncommitted := h.uncommitted
  inerror := h.inerror
  counts := h.counts
  uses := h.uses

theorem Rpc.answer_handshake {kind : Rpc} (h : kind.handshakes = true) (k : Connection) (r : Reply) :
    kind.answer k r = r := by
  cases kind <;> first | rfl | cases h

/-- One rpc of the handshake, and the warning when it is refused. -/
theorem stage_trying (hE : ∀ e c', ¬ o.Calm → E e c') {kind : Rpc} (hkind : kind.handshakes = true) (r : Report)
    (a : Answer) {rest : M Bool} (h : Trying fs u c c')
    (hfail : a.reply ≠ .normal → ∀ c'', Trying (fs ++ a.arrivals) u c c'' → Q false c'')
    (hrest : a.reply = .normal → ∀ c'', Trying (fs ++ a.arrivals) u c c'' → wp rest Q E c'') :
    wp (do if (← rpc kind a) ≠ .normal then do elog o r; return false else rest) Q E c' := by
  obtain ⟨_, k, -, hk, -⟩ := h.conn
  rw [wp_bind, wp_rpc hk, Rpc.answer_handshake hkind, wp_ite]
  split
  · rename_i hr
    rw [wp_bind]
    exact elog_warned hE r (hfail hr _ ((h.asked hk kind a).warned r))
  · rename_i hr
    exact hrest (not_not.mp hr) _ (h.asked hk kind a)

/-- What an attempt that started in `c` comes to. -/
def Handshaken (o : Outcomes) (c : Cell) (ok : Bool) (c' : Cell) : Prop :=
  ok = o.completes c.uses ∧
    ∃ fs, (ok = true → fs = o.greeting c.uses) ∧ Trying fs (o.spent c.uses) c c'

theorem Trying.failed (h : Trying fs u c c') (hc : o.completes c.uses = false)
    (hu : u = o.spent c.uses) : Handshaken o c false c' :=
  ⟨hc.symm, fs, fun hok => Bool.noConfusion hok, hu ▸ h⟩

theorem localAmqpHandshake_trying (hE : ∀ e c', ¬ o.Calm → E e c') (host : BrokerHost) (hostCopy : String)
    (brokerId : Int) (hopen : o.opens c.uses = true) (h : Trying [] { c.uses with
      socketNew := c.uses.socketNew + 1, socketOpen := c.uses.socketOpen + 1 } c c') :
    wp (localAmqpHandshake o host hostCopy brokerId) (Handshaken o c) E c' := by
  have hcreated : o.socketNew c.uses.socketNew = true := (Bool.and_eq_true_iff.mp hopen).1
  unfold localAmqpHandshake localAmqpLogin amqpLoginWithProperties amqpChannelOpen amqpTxSelect
  simp only [bind_assoc, wp_bind, wp_tick]
  rw [← wp_bind]
  have hn : c'.counts .login = c.uses.login := congrArg Uses.login h.uses
  rw [hn]
  refine stage_trying hE rfl _ _ h.login (fun hr c₂ h₂ => ?_) fun hr c₂ h₂ => ?_
  · have hno : o.logsIn c.uses = false := by simp [Outcomes.logsIn, hr]
    refine h₂.failed ?_ ?_
    · simp [Outcomes.completes, Outcomes.channelTwo, Outcomes.channelOne, hno]
    · simp [Outcomes.spent, Outcomes.channelTwo, Outcomes.channelOne, hno, hopen, hcreated]
  have hlogin : o.logsIn c.uses = true := by simp [Outcomes.logsIn, hopen, hr]
  simp only [wp_bind, wp_tick]
  rw [← wp_bind]
  have hn : c₂.counts .channelOpen = c.uses.channelOpen := congrArg Uses.channelOpen h₂.uses
  rw [hn]
  refine stage_trying hE rfl _ _ h₂.channelOpen (fun hr c₃ h₃ => ?_) fun hr c₃ h₃ => ?_
  · have hno : o.channelOne c.uses = false := by simp [Outcomes.channelOne, hr]
    refine h₃.failed ?_ ?_
    · simp [Outcomes.completes, Outcomes.channelTwo, hno]
    · simp [Outcomes.spent, Outcomes.channelTwo, hno, hlogin, hopen, hcreated]
  have hone : o.channelOne c.uses = true := by simp [Outcomes.channelOne, hlogin, hr]
  simp only [wp_bind, wp_tick]
  rw [← wp_bind]
  have hn : c₃.counts .channelOpen = c.uses.channelOpen + 1 := congrArg Uses.channelOpen h₃.uses
  rw [hn]
  refine stage_trying hE rfl _ _ h₃.channelOpen (fun hr c₄ h₄ => ?_) fun hr c₄ h₄ => ?_
  · have hno : o.channelTwo c.uses = false := by simp [Outcomes.channelTwo, hr]
    refine h₄.failed ?_ ?_
    · simp [Outcomes.completes, hno]
    · simp [Outcomes.spent, hno, hone, hlogin, hopen, hcreated]
  have htwo : o.channelTwo c.uses = true := by simp [Outcomes.channelTwo, hone, hr]
  simp only [wp_bind, wp_tick]
  rw [← wp_bind]
  have hn : c₄.counts .txSelect = c.uses.txSelect := congrArg Uses.txSelect h₄.uses
  rw [hn]
  have hspent : o.spent c.uses = ⟨c.uses.socketNew + 1, c.uses.socketOpen + 1, c.uses.login + 1,
      c.uses.channelOpen + 1 + 1, c.uses.txSelect + 1⟩ := by
    simp [Outcomes.spent, htwo, hone, hlogin, hopen, hcreated]
  refine stage_trying hE rfl _ _ h₄.txSelect (fun hr c₅ h₅ => ?_) fun hr c₅ h₅ => ?_
  · refine h₅.failed ?_ hspent.symm
    simp [Outcomes.completes, hr]
  · refine ⟨by simp [Outcomes.completes, htwo, hr], _, fun _ => ?_, hspent ▸ h₅⟩
    simp [Outcomes.greeting]

/-- What the whole attempt on a host returns with. -/
def Attempt (o : Outcomes) (c : Cell) (ok : Bool) (c' : Cell) : Prop :=
  ok = o.completes c.uses ∧ ∃ fs c'', Trying fs (o.spent c.uses) c c'' ∧
    if ok = true then fs = o.greeting c.uses ∧ c' = c''.connected else c' = c''

theorem localAmqpTryHost_attempt (hE : ∀ e c', ¬ o.Calm → E e c') (h : BrokerHost) (hostCopy : String)
    (brokerId : Int) (hc : c.bs.conn.isSome = true) :
    wp (localAmqpTryHost o h hostCopy brokerId) (Attempt o c) E c := by
  obtain ⟨k, hk⟩ := Option.isSome_iff_exists.mp hc
  have h₀ : Trying [] c.uses c c :=
    ⟨.refl c, ⟨k, k, hk, hk, rfl, rfl, (List.append_nil _).symm⟩, rfl, rfl, fun _ _ => rfl, rfl⟩
  have h₁ : Trying [] { c.uses with socketNew := c.uses.socketNew + 1 } c (c.ticked .socketNew) :=
    h₀.ticked rfl rfl
  have failed : ∀ {u c'}, Trying [] u c c' → o.opens c.uses = false → u = o.spent c.uses →
      Attempt o c false c' := by
    intro u c' h' hno hu
    refine ⟨?_, [], c', hu ▸ h', rfl⟩
    simp [Outcomes.completes, Outcomes.channelTwo, Outcomes.channelOne, Outcomes.logsIn, hno]
  unfold localAmqpTryHost localAmqpOpenSocket
  rw [wp_bind, wp_bind, wp_getBs, wp_bind, wp_tick, wp_ite]
  split
  · rename_i hnew
    have hnew : o.socketNew c.uses.socketNew = false := (Bool.not_eq_true' _).mp hnew
    rw [wp_bind]
    refine elog_warned hE _ ?_
    rw [wp_pure, wp_ite, if_pos (by simp)]
    refine failed (h₁.warned _) (by simp [Outcomes.opens, hnew]) ?_
    simp [Outcomes.spent, Outcomes.channelTwo, Outcomes.channelOne, Outcomes.logsIn, Outcomes.opens, hnew]
  rename_i hnew
  have hnew : o.socketNew c.uses.socketNew = true :=
    Bool.of_not_eq_false fun hf => hnew ((Bool.not_eq_true' _).mpr hf)
  have hn : (c.ticked .socketNew).counts .socketOpen = c.uses.socketOpen := rfl
  rw [wp_bind, wp_tick, wp_bind, wp_getGucs, wp_bind, wp_record, wp_ite, hn]
  have h₂ : Trying [] { c.uses with
      socketNew := c.uses.socketNew + 1, socketOpen := c.uses.socketOpen + 1 } c
      ((c.ticked .socketNew).ticked .socketOpen) := h₁.ticked rfl rfl
  have h₃ := fun e => h₂.recorded e
  split
  · rename_i hopen
    have hopen : o.socketOpen c.uses.socketOpen = false := (Bool.not_eq_true' _).mp hopen
    rw [wp_bind]
    refine elog_warned hE _ ?_
    rw [wp_pure, wp_ite, if_pos (by simp)]
    refine failed ((h₃ _).warned _) (by simp [Outcomes.opens, hopen]) ?_
    simp [Outcomes.spent, Outcomes.channelTwo, Outcomes.channelOne, Outcomes.logsIn, Outcomes.opens,
      hnew, hopen]
  rename_i hopen
  have hopen : o.socketOpen c.uses.socketOpen = true :=
    Bool.of_not_eq_false fun hf => hopen ((Bool.not_eq_true' _).mpr hf)
  have hopen : o.opens c.uses = true := by simp [Outcomes.opens, hnew, hopen]
  rw [wp_pure, wp_ite, if_neg (by simp), wp_bind, wp_tick, wp_bind, wp_modifyBs, wp_bind, wp_getGucs,
    wp_bind, wp_localAmqpSetTimeout]
  have h₄ := ((h₃ (.socketOpen h c.backend.gucs.connectTimeoutMs (o.socketOpen c.uses.socketOpen))).sockfd
    (o.sockfd ((c.ticked .socketNew).counts .sockfd))).retimed c.backend.gucs.handshakeTimeoutMs
  refine wp_seq (localAmqpHandshake_trying hE h hostCopy brokerId hopen h₄) fun ok c₅ h₅ => ?_
  obtain ⟨hok, fs, hfs, ht⟩ := h₅
  rw [wp_ite]
  cases ok with
  | false => exact ⟨hok, fs, c₅, ht, rfl⟩
  | true => exact ⟨hok, fs, c₅, ht, hfs rfl, rfl⟩

end Attempt

/-- Of the attempts from `u` on, that which starts with `v` is the first to complete. -/
inductive Outcomes.Makes (o : Outcomes) : Uses → Uses → Prop where
  | here {u} : o.completes u = true → o.Makes u u
  | next {u v} : o.completes u = false → o.Makes (o.spent u) v → o.Makes u v

/-- The connection of an entry was made by the attempts from `u` on, and nothing was read
from it. -/
def Outcomes.Greets (o : Outcomes) (u : Uses) (c : Cell) : Prop :=
  ∃ v, o.Makes u v ∧ c.uses = o.spent v ∧ c.bs.blocked = false ∧ c.bs.pending = o.greeting v

/-- There is no connection, and the attempts are at `u`. -/
structure Unmade (u : Uses) (c : Cell) : Prop where
  conn : c.bs.conn = none
  uses : c.uses = u

section Greets

variable {o : Outcomes} {u : Uses} {c c' : Cell}

theorem Unmade.aside (u : Uses) : KeptAside (Unmade u) where
  ticked := by
    intro c k hk h
    refine ⟨h.conn, ?_⟩
    simp only [List.mem_cons, List.not_mem_nil, or_false] at hk
    rcases hk with rfl | rfl | rfl <;> exact h.uses
  warned := fun _ _ _ h => ⟨h.conn, h.uses⟩
  modified := fun _ _ _ hc _ _ h => ⟨hc.trans h.conn, h.uses⟩

/-- An attempt from `u` that went through. -/
theorem Attempt.greets (h : Attempt o c true c') (hq : c.bs.pending = []) : o.Greets c.uses c' := by
  obtain ⟨hok, fs, c'', ht, hfs, rfl⟩ := h
  obtain ⟨k, k', hk, hk', -, -, hqueue⟩ := ht.conn
  have hq : k.queue = [] := by simpa [BrokerState.pending, hk] using hq
  refine ⟨c.uses, .here hok.symm, ht.uses, rfl, ?_⟩
  simpa [Cell.connected, Cell.timed, BrokerState.pending, hk', hq, hfs, Connection.setTimeout] using hqueue

theorem localAmqpFailover_greets (brokerId deadline : Int) (tries : Nat) (h : Unmade u c) :
    wp (localAmqpFailover o brokerId deadline tries)
      (fun ok c' => if ok = true then o.Greets u c' else c'.bs.conn = none) (fun _ _ => True) c := by
  induction tries generalizing c u with
  | zero => exact h.conn
  | succ tries ih =>
    unfold localAmqpFailover
    rw [wp_bind, wp_modifyBs, wp_bind, wp_getBs]
    generalize (c.modified _).bs.currentHost = host
    rw [wp_bind, wp_amqpNewConnection]
    split
    · rw [wp_bind, wp_setConn, wp_ite, if_neg (by simp)]
      refine wp_seq (localAmqpTryHost_attempt (o := o) (c := (c.turned.ticked .newConnection).dialed)
        (fun _ _ _ => trivial) host host.hostCopy brokerId rfl) fun ok c₁ h₁ => ?_
      have hu : (c.turned.ticked .newConnection).dialed.uses = u := h.uses
      rw [wp_ite]
      cases ok with
      | true => exact hu ▸ h₁.greets rfl
      | false =>
        obtain ⟨hno, fs, c₂, ht, rfl⟩ := h₁
        obtain ⟨-, k, -, hk, -⟩ := ht.conn
        rw [hu] at hno ht
        rw [if_neg (by simp), wp_bind, wp_localAmqpDisconnectBs_some hk]
        have hdropped : Unmade (o.spent u) (c₁.dropped k) := ⟨rfl, ht.uses⟩
        refine (Unmade.aside _).nextHost o deadline tries brokerId host.hostCopy hdropped
          (fun _ h => h.conn) (fun c₃ h₃ => ?_) fun _ _ _ => trivial
        refine wp_mono (ih h₃) (fun ok c₄ h₄ => ?_) fun _ _ h => h
        cases ok with
        | false => exact h₄
        | true =>
          obtain ⟨v, hv, hrest⟩ := h₄
          exact ⟨v, .next hno.symm hv, hrest⟩
    · rw [wp_bind, wp_setConn, wp_ite, if_pos (by simp)]
      rfl

/-- A call that has to connect leaves no connection, or that of the first attempt which completes. -/
theorem localAmqpGetBs_greets (brokerId : Int) (hc : c.bs.conn = none) :
    wp (localAmqpGetBs o brokerId) (fun _ c' => c'.bs.conn = none ∨ o.Greets c.uses c')
      (fun _ _ => True) c := by
  have unconnected : KeptAside fun c' => c'.bs.conn = none :=
    ⟨fun _ _ _ h => h, fun _ _ _ h => h, fun _ _ _ hc _ _ h => hc.trans h⟩
  exact localAmqpGetBs_goes (Unmade.aside c.uses) unconnected (fun _ h => h.conn) hc ⟨hc, rfl⟩
    (fun deadline tries _ h => localAmqpFailover_greets brokerId deadline tries h) fun _ _ _ => trivial

end Greets

end PgAmqp
