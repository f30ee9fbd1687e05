import PgAmqp.PublishPaths

/-!
# The changes of a broker entry

The moves say what a call may do to the messages of an entry. The changes are finer:
each is one assignment of the source, or a few that always go together, with the stage
that the call has reached. What holds of an entry between two calls may fail while a
connection is being made or a transaction is being ended, so an invariant is stated for
each stage and checked change by change.

`Serve` has the changes of an entry in use, `Dial` those of `local_amqp_get_bs`, and
`Change` both and the full reset of `amqp.disconnect`. A call is a chain of them. A
cancel that unwinds in the middle leaves a chain too, and `Lapses` names the three
places where that matters.
-/
namespace PgAmqp

/-- How far a call is with the connection it works on. -/
inductive Stage where
  | rest
  /-- The connection is new, and its socket is not set up. -/
  | dial
  /-- The handshake is going on. -/
  | shake
  /-- The transaction is being ended on the connection. -/
  | flush
  deriving DecidableEq, Repr

/-- The places at which a cancel may unwind and leave an entry out of step. -/
structure Lapses where
  /-- From the warning of a failed host attempt. -/
  halfOpen : Prop
  /-- Between `connection.blocked` and the flag that notes it. -/
  unheard : Prop
  /-- From the loop that fills the host list. -/
  partly : Prop

/-- The entry of the host list that is made from a row. -/
def BrokerRow.toHost (row : BrokerRow) : BrokerHost where
  host := some (row.host.getD "localhost")
  port := if row.port.getD 5672 < 1 ∨ 65535 < row.port.getD 5672 then 5672 else row.port.getD 5672
  vhost := some (row.vhost.getD "/")
  user := some (row.username.getD "guest")
  pass := some (row.password.getD "guest")
  useSsl := row.ssl.getD false
  sslVerify := row.sslVerify.getD true
  sslCacert := row.sslCacert
  sslCert := row.sslCert
  sslKey := row.sslKey

/-- The warnings about a returned message. -/
def Report.isReturned : Report → Bool
  | .returned _ _ => true
  | _ => false

namespace Cell

/-- The cell after one frame was read and noted. -/
def heard (c : Cell) (f : Frame) (rest : List Frame) : Cell :=
  match f with
  | .basicReturn r => (c.taken f rest).warned (.returned c.bs.brokerId r)
  | .connectionBlocked =>
    (if c.bs.blocked then c.taken f rest else (c.taken f rest).warned (.blocked c.bs.brokerId)).modified
      fun bs => { bs with blocked := true }
  | .connectionUnblocked => (c.taken f rest).modified fun bs => { bs with blocked := false }
  | _ => c.taken f rest

/-- The cell after a write that ended in `w`. -/
def wrote (c : Cell) (k : Connection) (channel : Nat) (m : Msg) (w : Write) : Cell :=
  (c.recorded (.basicPublish k channel m w)).modified fun bs =>
    { bs with conn := some (k.written channel m w) }

/-- The cell after a message was acknowledged. -/
def acknowledged (c : Cell) (k : Connection) (channel : Nat) (m : Msg) : Cell :=
  (c.recorded (.acknowledged k channel m)).modified fun bs =>
    { bs with uncommitted := if channel = 2 then bs.uncommitted + 1 else bs.uncommitted }

/-- The cell after the host list was put in place. -/
def filled (c : Cell) (hosts : List BrokerHost) (idx : Nat) : Cell := c.modified fun bs =>
  { bs with hosts := some hosts, nhosts := hosts.length, idx := idx }

/-- The cell after the failure of a connect attempt was noted. -/
def failed (c : Cell) (now : Int) : Cell := c.modified fun bs => { bs with
  consecutiveFailures := bs.consecutiveFailures + 1, lastFailedConnect := now }

/-- The cell after the assignments of `local_amqp_disconnect`. -/
def reset (c : Cell) : Cell := c.modified fun bs => { bs with
  inerror := false, idx := 0, consecutiveFailures := 0, lastFailedConnect := 0 }

/-- The cell after `local_amqp_free_hosts`. -/
def freed (c : Cell) : Cell := c.modified fun bs =>
  if bs.hosts.isSome then { bs with hosts := none, nhosts := 0 } else bs

end Cell

@[simp] theorem Cell.freed_conn (c : Cell) : c.freed.bs.conn = c.bs.conn := by
  simp only [Cell.freed, Cell.modified_bs]
  cases c.bs.hosts.isSome <;> rfl

@[simp] theorem Cell.freed_hosts (c : Cell) : c.freed.bs.hosts = none := by
  simp only [Cell.freed, Cell.modified_bs]
  cases h : c.bs.hosts <;> simp [h]

theorem Cell.freed_nhosts (c : Cell) (h : c.bs.hosts = none → c.bs.nhosts = 0) :
    c.freed.bs.nhosts = 0 := by
  simp only [Cell.freed, Cell.modified_bs]
  cases hs : c.bs.hosts with
  | none => simpa using h hs
  | some _ => rfl

@[simp] theorem Cell.freed_consecutiveFailures (c : Cell) :
    c.freed.bs.consecutiveFailures = c.bs.consecutiveFailures := by
  simp only [Cell.freed, Cell.modified_bs]
  split <;> rfl

@[simp] theorem Cell.freed_lastFailedConnect (c : Cell) :
    c.freed.bs.lastFailedConnect = c.bs.lastFailedConnect := by
  simp only [Cell.freed, Cell.modified_bs]
  split <;> rfl

@[simp] theorem Cell.link_bs (c : Cell) : c.link.bs = c.bs := rfl

@[simp] theorem Cell.link_backend (c : Cell) : c.link.backend = c.backend := rfl

/-- The rpcs that end a transaction. -/
def Rpc.endsTx : Rpc → Bool
  | .txCommit => true
  | .txRollback => true
  | _ => false

/-- The changes of an entry that is in use. -/
inductive Serve (L : Lapses) : Stage × Cell → Stage × Cell → Prop where
  | link {g c} : Serve L (g, c) (g, c.link)
  | tick {g c} (k : Call) : Serve L (g, c) (g, c.ticked k)
  | warn {g c} (r : Report) : r.isReturned = false → Serve L (g, c) (g, c.warned r)
  | number {c} : Serve L (.rest, c) (.rest, c.numbered)
  | hear {g c} (f : Frame) (rest : List Frame) : c.bs.conn.isSome = true → g = .rest ∨ g = .flush →
      Serve L (g, c) (g, c.heard f rest)
  | mishear {g c} (rest : List Frame) : c.bs.conn.isSome = true → g = .rest ∨ g = .flush → L.unheard →
      Serve L (g, c) (g, (c.taken .connectionBlocked rest).warned (.blocked c.bs.brokerId))
  | declare {c} (k : Connection) (d : Declaration) (a : Answer) : c.bs.conn = some k →
      Serve L (.rest, c) (.rest, c.asked (.exchangeDeclare d) a k)
  | write {c} (k : Connection) (channel : Nat) (m : Msg) (w : Write) : c.bs.conn = some k →
      c.bs.blocked = false → Serve L (.rest, c) (.rest, c.wrote k channel m w)
  | refuse {c} : c.bs.conn.isSome = true → c.bs.blocked = true →
      Serve L (.rest, c) (.rest, c.recorded (.refused c.bs.conn))
  | accept {c} (k : Connection) (channel : Nat) (m : Msg) : c.bs.conn.isSome = true →
      Serve L (.rest, c) (.rest, c.acknowledged k channel m)
  | drop {g c} (k : Connection) : c.bs.conn = some k → Serve L (g, c) (.rest, c.dropped k)
  | inerror {g c} (b : Bool) : Serve L (g, c) (g, c.modified fun bs => { bs with inerror := b })
  | settle {c} : Serve L (.rest, c) (.rest, c.modified fun bs => { bs with uncommitted := 0 })
  | flush {c} : Serve L (.rest, c) (.flush, c.timed c.backend.gucs.commitTimeoutMs)
  | finish {c} (k : Connection) (kind : Rpc) (a : Answer) : c.bs.conn = some k →
      kind.endsTx = true → Serve L (.flush, c) (.flush, c.asked kind a k)
  | restore {c} : Serve L (.flush, c) (.rest, c.timed c.backend.gucs.operationTimeoutMs)

/-- The changes of an entry that is being connected. -/
inductive Dial (L : Lapses) (o : Outcomes) : Stage × Cell → Stage × Cell → Prop where
  | fill {c} (n : Nat) (rows : List BrokerRow) (hosts : List BrokerHost) (idx : Nat) :
      c.bs.hosts = none → c.bs.conn = none → o.spi n = .rows rows → rows ≠ [] →
      hosts.length = rows.length →
      (hosts = rows.map BrokerRow.toHost ∨ L.partly) →
      (idx = c.backend.myProcPid % rows.length ∨ idx = c.bs.idx) →
      Dial L o (.rest, c) (.rest, c.filled hosts idx)
  | turn {c} : c.bs.conn = none → 0 < c.bs.nhosts → Dial L o (.rest, c) (.rest, c.turned)
  | new {c} : c.bs.conn = none → 0 < c.bs.nhosts → Dial L o (.rest, c) (.dial, c.dialed)
  | open {c} (ok : Bool) : Dial L o (.dial, c) (.dial, c.recorded
      (.socketOpen c.bs.currentHost c.backend.gucs.connectTimeoutMs ok))
  | shake {c} (n : Nat) : Dial L o (.dial, c) (.shake,
      (c.modified fun bs => { bs with sockfd := o.sockfd n }).timed c.backend.gucs.handshakeTimeoutMs)
  | ask {c} (k : Connection) (kind : Rpc) (a : Answer) : c.bs.conn = some k →
      kind.handshakes = true → Dial L o (.shake, c) (.shake, c.asked kind a k)
  | connect {c} : Dial L o (.shake, c) (.rest, c.connected)
  | fail {c} (n : Nat) : c.bs.conn = none → Dial L o (.rest, c) (.rest, c.failed (o.time n))
  | unwind {g c} : L.halfOpen → Dial L o (g, c) (.rest, c)

/-- One change of an entry. -/
inductive Change (L : Lapses) (o : Outcomes) : Stage × Cell → Stage × Cell → Prop where
  | serve {p q} : Serve L p q → Change L o p q
  | dial {p q} : Dial L o p q → Change L o p q
  | close {c} (k : Connection) : c.bs.conn = some k → Change L o (.rest, c) (.rest, c.closed k)
  | reset {c} : c.bs.conn = none → Change L o (.rest, c) (.rest, c.reset)
  | free {c} : c.bs.conn = none → c.bs.idx = 0 → Change L o (.rest, c) (.rest, c.freed)

/-- The changes of a part of a call that leaves the connect state of the entry alone. -/
abbrev Served (L : Lapses) : Stage × Cell → Stage × Cell → Prop := Relation.ReflTransGen (Serve L)

/-- No lapse at all. -/
def Lapses.none : Lapses := ⟨False, False, False⟩

/-- What a callback does, and a call between its calls of `local_amqp_get_bs`. -/
abbrev Between (c c' : Cell) : Prop := Served .none (.rest, c) (.rest, c')

/-- The changes of a call, one after the other. -/
abbrev Chain (L : Lapses) (o : Outcomes) : Stage × Cell → Stage × Cell → Prop :=
  Relation.ReflTransGen (Change L o)

section Chains

variable {L : Lapses} {o : Outcomes} {p q : Stage × Cell}

theorem Serve.lapsing (h : Serve .none p q) : Serve L p q := by
  cases h with
  | link => exact .link
  | tick k => exact .tick k
  | warn r hr => exact .warn r hr
  | number => exact .number
  | hear f rest hc hg => exact .hear f rest hc hg
  | mishear _ _ _ hu => exact hu.elim
  | declare k d a hk => exact .declare k d a hk
  | write k channel m w hk hb => exact .write k channel m w hk hb
  | refuse hc hb => exact .refuse hc hb
  | accept k channel m hc => exact .accept k channel m hc
  | drop k hk => exact .drop k hk
  | inerror b => exact .inerror b
  | settle => exact .settle
  | flush => exact .flush
  | finish k kind a hk hkind => exact .finish k kind a hk hkind
  | restore => exact .restore

theorem Served.lapsing (h : Served .none p q) : Served L p q :=
  Relation.ReflTransGen.mono (fun _ _ => Serve.lapsing) _ _ h

theorem Served.chain (h : Served L p q) : Chain L o p q :=
  Relation.ReflTransGen.mono (fun _ _ hs => Change.serve hs) _ _ h

/-- An invariant that every change keeps is kept by every chain. -/
theorem Chain.keeps {I : Stage × Cell → Prop} (hI : ∀ p q, Change L o p q → I p → I q)
    (h : Chain L o p q) (hp : I p) : I q := by
  induction h with
  | refl => exact hp
  | tail _ hc ih => exact hI _ _ hc ih

variable (c : Cell) (f : Frame) (rest : List Frame)

@[simp] theorem Cell.heard_bs : (c.heard f rest).bs =
    { (c.taken f rest).bs with blocked := f.word.getD c.bs.blocked } := by
  unfold Cell.heard
  cases f with
  | connectionBlocked => dsimp only; split <;> rfl
  | _ => rfl

@[simp] theorem Cell.heard_backend : (c.heard f rest).backend = c.backend := by
  unfold Cell.heard
  cases f with
  | connectionBlocked => dsimp only; split <;> rfl
  | _ => rfl

@[simp] theorem Cell.heard_linked : (c.heard f rest).linked = c.linked := by
  unfold Cell.heard
  cases f with
  | connectionBlocked => dsimp only; split <;> rfl
  | _ => rfl

/-- The warnings that a frame leads to. -/
def Cell.noted (c : Cell) : Frame → List Event
  | .basicReturn r => [.warning (.returned c.bs.brokerId r)]
  | .connectionBlocked => if c.bs.blocked then [] else [.warning (.blocked c.bs.brokerId)]
  | _ => []

theorem Cell.noted_warning {e : Event} (he : e ∈ c.noted f) : ∃ r, e = .warning r := by
  unfold Cell.noted at he
  cases f with
  | basicReturn r => exact ⟨_, List.mem_singleton.mp he⟩
  | connectionBlocked =>
    dsimp only at he
    split at he
    · cases he
    · exact ⟨_, List.mem_singleton.mp he⟩
  | _ => cases he

@[simp] theorem Cell.heard_log : (c.heard f rest).log = c.log ++ c.noted f := by
  unfold Cell.heard Cell.noted
  cases f with
  | basicReturn => rfl
  | connectionBlocked => dsimp only; split <;> simp [Cell.taken, Cell.warned]
  | _ => simp [Cell.taken]

theorem Serve.sameList (h : Serve L p q) : SameList p.2 q.2 := by
  cases h with
  | hear f rest _ _ =>
    refine ⟨?_, ?_, ?_, ?_, ?_, ?_, ?_, ?_, ?_, ?_, ?_⟩
    all_goals first | rw [Cell.heard_bs] | rw [Cell.heard_backend] | rw [Cell.heard_linked]
    all_goals first | rfl | exact id
  | link => exact ⟨rfl, rfl, rfl, rfl, rfl, rfl, rfl, rfl, rfl, rfl, fun _ => rfl⟩
  | _ => exact ⟨rfl, rfl, rfl, rfl, rfl, rfl, rfl, rfl, rfl, rfl, id⟩

/-- Only an attempt to connect opens a socket. -/
def Event.opened : Event → Option BrokerHost
  | .socketOpen h _ _ => some h
  | _ => none

/-- The hosts to which a record has sockets opened, in order. -/
def openedIn (log : List Event) : List BrokerHost := log.filterMap Event.opened

@[simp] theorem openedIn_nil : openedIn [] = [] := rfl

@[simp] theorem openedIn_append (log log' : List Event) : openedIn (log ++ log') = openedIn log ++ openedIn log' := by
  simp [openedIn]

/-- The record has become longer, and by no socket. -/
def Unopened (c c' : Cell) : Prop := ∃ evs, c'.log = c.log ++ evs ∧ ∀ e ∈ evs, e.opened = none

theorem Unopened.refl (c : Cell) : Unopened c c := ⟨[], (List.append_nil _).symm, by simp⟩

theorem Unopened.trans {c c' c'' : Cell} (h : Unopened c c') (h' : Unopened c' c'') : Unopened c c'' := by
  obtain ⟨evs, hl, hn⟩ := h
  obtain ⟨evs', hl', hn'⟩ := h'
  exact ⟨evs ++ evs', by rw [hl', hl, List.append_assoc], fun e he => (List.mem_append.mp he).elim (hn e) (hn' e)⟩

theorem Unopened.said {c c' : Cell} {e : Event} (hl : c'.log = c.log ++ [e]) (he : e.opened = none) : Unopened c c' :=
  ⟨[e], hl, by simpa using he⟩

theorem Unopened.silent {c c' : Cell} (hl : c'.log = c.log) : Unopened c c' :=
  ⟨[], by rw [hl, List.append_nil], by simp⟩

theorem Unopened.mem {c c' : Cell} (h : Unopened c c') {e : Event} (he : e ∈ c'.log) : e ∈ c.log ∨ e.opened = none := by
  obtain ⟨evs, hl, hn⟩ := h
  rw [hl] at he
  exact (List.mem_append.mp he).imp_right (hn e)

theorem Unopened.openedIn {c c' : Cell} (h : Unopened c c') : openedIn c'.log = openedIn c.log := by
  obtain ⟨evs, hl, hn⟩ := h
  have hnil : PgAmqp.openedIn evs = [] := List.filterMap_eq_nil_iff.mpr hn
  rw [hl, openedIn_append, hnil, List.append_nil]

theorem Serve.unopened (h : Serve L p q) : Unopened p.2 q.2 := by
  cases h with
  | @hear g c f rest =>
    refine ⟨c.noted f, c.heard_log f rest, fun e he => ?_⟩
    obtain ⟨r, rfl⟩ := c.noted_warning f he
    rfl
  | warn => exact .said rfl rfl
  | mishear => exact .said rfl rfl
  | declare => exact .said rfl rfl
  | write => exact .said rfl rfl
  | refuse => exact .said rfl rfl
  | accept => exact .said rfl rfl
  | drop => exact .said rfl rfl
  | finish => exact .said rfl rfl
  | _ => exact .silent rfl

theorem Served.unopened (h : Served L p q) : Unopened p.2 q.2 := by
  induction h with
  | refl => exact .refl _
  | tail _ hs ih => exact ih.trans hs.unopened

theorem Served.sameList (h : Served L p q) : SameList p.2 q.2 := by
  induction h with
  | refl => exact .refl _
  | tail _ hc ih => exact ih.trans hc.sameList

/-- What no change of an entry affects; connections are numbered upwards. -/
structure Lasts (c c' : Cell) : Prop where
  brokerId : c'.bs.brokerId = c.bs.brokerId
  gucs : c'.backend.gucs = c.backend.gucs
  pid : c'.backend.myProcPid = c.backend.myProcPid
  nextConn : c.backend.nextConn ≤ c'.backend.nextConn
  holdoff : c'.backend.holdoff = c.backend.holdoff
  linked : c.linked = true → c'.linked = true

theorem Lasts.refl (c : Cell) : Lasts c c := ⟨rfl, rfl, rfl, Nat.le_refl _, rfl, id⟩

theorem Lasts.trans {c c' c'' : Cell} (h : Lasts c c') (h' : Lasts c' c'') : Lasts c c'' :=
  ⟨h'.brokerId.trans h.brokerId, h'.gucs.trans h.gucs, h'.pid.trans h.pid,
    Nat.le_trans h.nextConn h'.nextConn, h'.holdoff.trans h.holdoff, h'.linked ∘ h.linked⟩

theorem SameList.lasts {c c' : Cell} (h : SameList c c') : Lasts c c' :=
  ⟨h.brokerId, h.gucs, h.pid, Nat.le_of_eq h.nextConn.symm, h.holdoff, h.linked⟩

theorem Change.lasts (h : Change L o p q) : Lasts p.2 q.2 := by
  cases h with
  | serve h => exact h.sameList.lasts
  | dial h =>
    cases h with
    | new => exact ⟨rfl, rfl, rfl, Nat.le_succ _, rfl, id⟩
    | _ => exact ⟨rfl, rfl, rfl, Nat.le_refl _, rfl, id⟩
  | free =>
    refine ⟨?_, rfl, rfl, Nat.le_refl _, rfl, id⟩
    simp only [Cell.freed, Cell.modified_bs]
    split <;> rfl
  | _ => exact ⟨rfl, rfl, rfl, Nat.le_refl _, rfl, id⟩

theorem Chain.lasts (h : Chain L o p q) : Lasts p.2 q.2 := by
  induction h with
  | refl => exact .refl _
  | tail _ hc ih => exact ih.trans hc.lasts

theorem Chain.linked (h : Chain L o p q) (hl : p.2.linked = true) : q.2.linked = true :=
  h.lasts.linked hl

/-- A connection is only made from a host list. -/
structure Anchored (bs : BrokerState) : Prop where
  hosts : bs.conn.isSome = true → bs.hosts.isSome = true
  nhosts : bs.hosts = none → bs.nhosts = 0

theorem Serve.isSome (h : Serve L p q) : q.2.bs.conn.isSome = true → p.2.bs.conn.isSome = true := by
  cases h with
  | hear f rest hc _ => exact fun _ => hc
  | mishear rest hc _ _ => exact fun _ => hc
  | declare k _ _ hk => exact fun _ => by simp [hk]
  | write k _ _ _ hk _ => exact fun _ => by simp [hk]
  | drop k hk => exact fun _ => by simp [hk]
  | flush => simp [Cell.timed]
  | finish k _ _ hk _ => exact fun _ => by simp [hk]
  | restore => simp [Cell.timed]
  | _ => exact id

theorem Change.anchored (h : Change L o p q) (ha : Anchored p.2.bs) : Anchored q.2.bs := by
  cases h with
  | serve h =>
    constructor
    · rw [h.sameList.hosts]
      exact fun hc => ha.hosts (h.isSome hc)
    · rw [h.sameList.hosts, h.sameList.nhosts]
      exact ha.nhosts
  | dial h =>
    cases h with
    | fill => exact ⟨fun _ => rfl, by simp [Cell.filled]⟩
    | new hc hn =>
      refine ⟨fun _ => Option.isSome_iff_ne_none.mpr fun hs => ?_, ha.nhosts⟩
      exact absurd (ha.nhosts hs) (Nat.ne_of_gt hn)
    | shake => exact ⟨fun hc => ha.hosts (by simpa [Cell.timed] using hc), ha.nhosts⟩
    | ask k _ _ hk => exact ⟨fun _ => ha.hosts (by simp [hk]), ha.nhosts⟩
    | connect => exact ⟨fun hc => ha.hosts (by simpa [Cell.connected, Cell.timed] using hc), ha.nhosts⟩
    | _ => exact ⟨ha.hosts, ha.nhosts⟩
  | close => exact ⟨fun hc => by simp [Cell.closed, Cell.dropped] at hc, ha.nhosts⟩
  | reset => exact ⟨ha.hosts, ha.nhosts⟩
  | free hc _ => exact ⟨by simp [hc], fun _ => Cell.freed_nhosts _ ha.nhosts⟩

theorem Chain.anchored (h : Chain L o p q) (ha : Anchored p.2.bs) : Anchored q.2.bs :=
  h.keeps (I := fun p => Anchored p.2.bs) (fun _ _ => Change.anchored) ha

end Chains

end PgAmqp
