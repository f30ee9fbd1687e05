import PgAmqp.State

/-!
# What the extension calls: PostgreSQL, the clock and rabbitmq-c

`Outcomes` holds everything that one call into the extension is told from
outside while it works on one broker: it answers the n-th use of each kind of
call. A program runs on a `Cell`, the entry it works on together with the rest
of the backend that it reads or changes. Nothing bounds or relates the answers,
so a statement for all `Outcomes` is a statement for every behaviour of the
library, the broker, the clock and the query cancel.
-/
namespace PgAmqp

open ProgramLogic

/-- The kinds of outside calls that are counted. -/
inductive Call where
  | elog | spi | time | nowMs | newConnection | socketNew | socketOpen | sockfd
  | login | channelOpen | txSelect | exchangeDeclare | txCommit | txRollback
  | poll | basicPublish
  deriving DecidableEq, Repr

/-- `SPI_connect` and `SPI_execute` of the host lookup. -/
inductive Spi where
  | connectError : Spi
  | executeError : Spi
  | rows : List BrokerRow → Spi
  /-- The query itself raises an error. -/
  | raised : Spi
  deriving DecidableEq, Repr

/-- One rpc: the reply, and the unrelated frames that arrived before it and stay queued. -/
structure Answer where
  reply : Reply
  arrivals : List Frame
  deriving DecidableEq, Repr

/-- One read of pending frames: what has arrived by then, and whether the read
that finds no further frame ends in `AMQP_STATUS_TIMEOUT` (alive) or in an error. -/
structure Poll where
  arrivals : List Frame
  alive : Bool
  deriving DecidableEq, Repr

/-- The status of `amqp_basic_publish`. -/
inductive Write where
  /-- `AMQP_STATUS_OK`: the local socket write went through. -/
  | ok : Write
  /-- The library refused its arguments; nothing was written. -/
  | rejected : Write
  /-- The write failed; `left` tells whether the whole message reached the broker anyway. -/
  | failed (left : Bool) : Write
  deriving DecidableEq, Repr

structure Outcomes where
  /-- A cancel is pending at the n-th `elog(WARNING)`, which carries this report. -/
  unwind : Nat → Report → Bool
  spi : Nat → Spi
  /-- `time(NULL)` and `local_amqp_now_ms`. -/
  time : Nat → Int
  nowMs : Nat → Int
  newConnection : Nat → Bool
  socketNew : Nat → Bool
  socketOpen : Nat → Bool
  sockfd : Nat → Int
  login : Nat → Answer
  channelOpen : Nat → Answer
  txSelect : Nat → Answer
  exchangeDeclare : Nat → Answer
  txCommit : Nat → Answer
  txRollback : Nat → Answer
  poll : Nat → Poll
  basicPublish : Nat → Write

/-- One reachable host, a broker that answers everything, and no cancel. -/
def Outcomes.good : Outcomes where
  unwind := fun _ _ => false
  spi := fun _ => .rows [⟨some "mq", none, none, none, none, none, none, none, none, none⟩]
  time := fun _ => 1000
  nowMs := fun _ => 1000000
  newConnection := fun _ => true
  socketNew := fun _ => true
  socketOpen := fun _ => true
  sockfd := fun _ => 7
  login := fun _ => ⟨.normal, []⟩
  channelOpen := fun _ => ⟨.normal, []⟩
  txSelect := fun _ => ⟨.normal, []⟩
  exchangeDeclare := fun _ => ⟨.normal, []⟩
  txCommit := fun _ => ⟨.normal, []⟩
  txRollback := fun _ => ⟨.normal, []⟩
  poll := fun _ => ⟨[], true⟩
  basicPublish := fun _ => .ok

/-- What `amqp_exchange_declare` is given. -/
structure Declaration where
  exchange : String
  exchangeType : String
  passive : Bool
  durable : Bool
  autoDelete : Bool
  internal : Bool
  deriving DecidableEq, Repr

/-- What `amqp_login_with_properties` is given behind the connection; the method is
`AMQP_SASL_METHOD_PLAIN`, and the properties are a table of tables of booleans. -/
structure LoginArgs where
  vhost : Option String
  channelMax : Nat
  frameMax : Nat
  heartbeat : Nat
  clientProperties : List (String × List (String × Bool))
  user : Option String
  pass : Option String
  deriving DecidableEq, Repr

/-- The rpcs of rabbitmq-c that the extension uses. -/
inductive Rpc where
  | login : LoginArgs → Rpc
  | channelOpen : Nat → Rpc
  | txSelect : Rpc
  | exchangeDeclare : Declaration → Rpc
  | txCommit : Rpc
  | txRollback : Rpc
  | connectionClose : Rpc
  deriving DecidableEq, Repr

/-- What a call leaves in the record: its warnings and its traffic with the library.
A connection is recorded as it was when the library was called. -/
inductive Event where
  | warning : Report → Event
  | socketOpen : BrokerHost → (timeoutMs : Nat) → (ok : Bool) → Event
  | rpc : Rpc → Connection → Reply → Event
  | basicPublish : Connection → (channel : Nat) → Msg → Write → Event
  /-- A publish call returned true for a message written to this connection. -/
  | acknowledged : Connection → (channel : Nat) → Msg → Event
  /-- A publish call failed fast because the broker has blocked publishers, with this connection. -/
  | refused : Option Connection → Event
  | destroyed : Connection → Event
  deriving DecidableEq, Repr

/-- The part of the backend that is not a broker entry. -/
structure Backend where
  gucs : Gucs
  myProcPid : Nat
  /-- The identity of the next connection. -/
  nextConn : Nat
  /-- The number of the next publish call. -/
  nextCall : Nat
  /-- Interrupts are held off: the transaction callbacks run so. -/
  holdoff : Bool
  deriving DecidableEq, Repr

/-- What a call sees while it works on one entry; `linked` when it is in `HEAD_BS`. -/
structure Cell where
  bs : BrokerState
  linked : Bool
  backend : Backend
  counts : Call → Nat
  log : List Event

abbrev M := EStateM Raised Cell

def bump (counts : Call → Nat) (k : Call) : Call → Nat :=
  fun j => if j = k then counts j + 1 else counts j

/-- Count one use of `k` and return how many there were before. -/
def tick (k : Call) : M Nat := fun c => .ok (c.counts k) { c with counts := bump c.counts k }

def getBs : M BrokerState := fun c => .ok c.bs c

def getGucs : M Gucs := fun c => .ok c.backend.gucs c

def modifyBs (f : BrokerState → BrokerState) : M Unit := fun c => .ok () { c with bs := f c.bs }

def record (e : Event) : M Unit := fun c => .ok () { c with log := c.log ++ [e] }

def setConn (conn : Option Connection) : M Unit := modifyBs fun bs => { bs with conn := conn }

/-- `elog(WARNING)`. `errfinish` checks for interrupts, so a pending cancel unwinds
from here unless interrupts are held off. -/
def elog (o : Outcomes) (r : Report) : M Unit := fun c =>
  let c' := { c with counts := bump c.counts .elog, log := c.log ++ [.warning r] }
  if !c.backend.holdoff && o.unwind (c.counts .elog) r then .error .canceled c' else .ok () c'

/-- `elog(ERROR)`. -/
def elogError (r : Report) : M Unit := fun c => .error (.error r) c

/-- The identity of a new connection. -/
def allocate : M Nat := fun c =>
  .ok c.backend.nextConn { c with backend := { c.backend with nextConn := c.backend.nextConn + 1 } }

def amqpNewConnection (o : Outcomes) : M (Option Connection) := do
  if o.newConnection (← tick .newConnection) then
    return some (.new (← allocate))
  else
    return none

/-- Closes the socket and frees the connection, without any handshake. -/
def amqpDestroyConnection (conn : Connection) : M Unit := record (.destroyed conn)

/-- A rpc that needs tx mode is refused by the broker on a channel that is not in it. -/
def Rpc.answer (k : Rpc) (c : Connection) (reply : Reply) : Reply :=
  match k with
  | .txCommit => if c.txMode || reply != .normal then reply else .channelException
  | .txRollback => if c.txMode || reply != .normal then reply else .channelException
  | _ => reply

/-- What a normal reply means for the connection. -/
def Rpc.effect : Rpc → Connection → Connection
  | .login _, c => { c with loggedIn := true }
  | .channelOpen 1, c => { c with channel1 := true }
  | .channelOpen 2, c => { c with channel2 := true }
  | .txSelect, c => { c with txMode := true }
  | .txCommit, c => { c with buffer := [] }
  | .txRollback, c => { c with buffer := [] }
  | _, c => c

/-- One rpc on the entry's connection; frames of other kinds stay queued in order. -/
def rpc (k : Rpc) (a : Answer) : M Reply := do
  match (← getBs).conn with
  | none => return .none
  | some conn =>
    let reply := k.answer conn a.reply
    record (.rpc k conn reply)
    let conn' := { conn with queue := conn.queue ++ a.arrivals }
    setConn (some (if reply = .normal then k.effect conn' else conn'))
    return reply

def amqpLoginWithProperties (o : Outcomes) (args : LoginArgs) : M Reply := do
  rpc (.login args) (o.login (← tick .login))

def amqpChannelOpen (o : Outcomes) (channel : Nat) : M Reply := do
  rpc (.channelOpen channel) (o.channelOpen (← tick .channelOpen))

def amqpTxSelect (o : Outcomes) : M Reply := do rpc .txSelect (o.txSelect (← tick .txSelect))

def amqpExchangeDeclare (o : Outcomes) (d : Declaration) : M Reply := do
  rpc (.exchangeDeclare d) (o.exchangeDeclare (← tick .exchangeDeclare))

def amqpTxCommit (o : Outcomes) : M Reply := do rpc .txCommit (o.txCommit (← tick .txCommit))

def amqpTxRollback (o : Outcomes) : M Reply := do
  rpc .txRollback (o.txRollback (← tick .txRollback))

/-- The broker's channel-2 buffer after a write: a channel in tx mode keeps what reached it. -/
def Connection.written (c : Connection) (channel : Nat) (m : Msg) (w : Write) : Connection :=
  if channel = 2 ∧ c.txMode ∧ (w = .ok ∨ w = .failed true) then
    { c with buffer := c.buffer ++ [m] }
  else c

/-- `amqp_basic_publish` reports the local socket write only. -/
def amqpBasicPublish (o : Outcomes) (conn : Connection) (channel : Nat) (m : Msg) : M Write := do
  let n ← tick .basicPublish
  record (.basicPublish conn channel m (o.basicPublish n))
  setConn (some (conn.written channel m (o.basicPublish n)))
  return o.basicPublish n

end PgAmqp
