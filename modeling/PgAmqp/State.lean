import PgAmqp.ProgramLogic

/-!
# The backend's broker state

One PostgreSQL backend keeps a list of `struct brokerstate` entries, one for each
`broker_id` it has touched. An entry owns at most one rabbitmq-c connection with
two channels: channel 1 carries autonomous publishes and exchange declarations,
channel 2 is in tx mode and carries the messages of the PostgreSQL transaction.

The connection record holds what the library and the broker know about it: how
far it has been set up, its timeouts, the frames the broker has pushed, and the
broker's uncommitted channel-2 buffer.
-/
namespace PgAmqp

/-- The arguments of `basic.return` that the extension reports. -/
structure BasicReturn where
  replyCode : Nat
  replyText : String
  exchange : String
  routingKey : String
  deriving DecidableEq, Repr

/-- A frame pushed by the broker, as far as `local_amqp_drain_returns` tells them apart. -/
inductive Frame where
  | basicReturn : BasicReturn → Frame
  | connectionBlocked : Frame
  | connectionUnblocked : Frame
  | channelClose : Nat → Frame
  | connectionClose : Frame
  /-- Any other method, and the content header and body frames. -/
  | other : Frame
  deriving DecidableEq, Repr

/-- Frames by which the broker tears a channel or the whole connection down. -/
def Frame.isClose : Frame → Bool
  | .channelClose _ => true
  | .connectionClose => true
  | _ => false

def hasClose (fs : List Frame) : Bool := fs.any Frame.isClose

@[simp] theorem hasClose_nil : hasClose [] = false := rfl

@[simp] theorem hasClose_append (fs gs : List Frame) :
    hasClose (fs ++ gs) = (hasClose fs || hasClose gs) := List.any_append

/-- The properties of `amqp_basic_properties_t` that are set, by flag. -/
structure Properties where
  deliveryMode : Option Int
  contentType : Option String
  replyTo : Option String
  correlationId : Option String
  deriving DecidableEq, Repr

/-- What one call hands to `amqp_basic_publish`. `properties` is `none` for the
NULL pointer passed when no flag is set. -/
structure Content where
  exchange : String
  routingKey : String
  mandatory : Bool
  immediate : Bool
  properties : Option Properties
  body : String
  deriving DecidableEq, Repr

/-- A message is the content written by one publish call; `call` numbers the calls. -/
structure Msg where
  call : Nat
  content : Content
  deriving DecidableEq, Repr

/-- An `amqp_connection_state_t` together with the broker's side of it. -/
structure Connection where
  id : Nat
  loggedIn : Bool
  channel1 : Bool
  channel2 : Bool
  /-- `tx.select` was answered on channel 2. -/
  txMode : Bool
  /-- The rpc timeout and the two socket timeouts, in milliseconds. -/
  rpcTimeout : Option Nat
  socketTimeout : Option Nat
  /-- Frames that have arrived and were not read yet, oldest first. -/
  queue : List Frame
  /-- Frames that `local_amqp_drain_returns` has read, oldest first. -/
  consumed : List Frame
  /-- The broker's buffer of channel 2: written, and neither committed nor rolled back. -/
  buffer : List Msg
  deriving DecidableEq, Repr

namespace Connection

/-- What `amqp_new_connection` returns. -/
def new (id : Nat) : Connection where
  id := id
  loggedIn := false
  channel1 := false
  channel2 := false
  txMode := false
  rpcTimeout := none
  socketTimeout := none
  queue := []
  consumed := []
  buffer := []

/-- Login, both channel opens and `tx.select` have all been answered normally. -/
def ready (c : Connection) : Bool := c.loggedIn && c.channel1 && c.channel2 && c.txMode

/-- A close frame has been read from this connection. -/
def closeSeen (c : Connection) : Bool := hasClose c.consumed

end Connection

/-- One cached `amqp.broker` row. The strings are pointers and may be NULL. -/
structure BrokerHost where
  host : Option String
  port : Int
  vhost : Option String
  user : Option String
  pass : Option String
  useSsl : Bool
  sslVerify : Bool
  sslCacert : Option String
  sslCert : Option String
  sslKey : Option String
  deriving DecidableEq, Repr

/-- The zeroed entry of a fresh allocation. -/
def BrokerHost.zero : BrokerHost where
  host := none
  port := 0
  vhost := none
  user := none
  pass := none
  useSsl := false
  sslVerify := false
  sslCacert := none
  sslCert := none
  sslKey := none

/-- `struct brokerstate`, without the list link. Where the source counts in an `int`,
`uncommitted` and `consecutiveFailures` are unbounded. -/
structure BrokerState where
  brokerId : Int
  conn : Option Connection
  sockfd : Int
  uncommitted : Nat
  inerror : Bool
  blocked : Bool
  idx : Nat
  consecutiveFailures : Nat
  lastFailedConnect : Int
  hosts : Option (List BrokerHost)
  nhosts : Nat
  deriving DecidableEq, Repr

/-- The entry that `local_amqp_get_a_bs` links when a broker is first used. -/
def BrokerState.fresh (brokerId : Int) : BrokerState where
  brokerId := brokerId
  conn := none
  sockfd := -1
  uncommitted := 0
  inerror := false
  blocked := false
  idx := 0
  consecutiveFailures := 0
  lastFailedConnect := 0
  hosts := none
  nhosts := 0

/-- The settings of `_PG_init`, with their boot values. -/
structure Gucs where
  connectTimeoutMs : Nat := 2000
  handshakeTimeoutMs : Nat := 2000
  operationTimeoutMs : Nat := 30000
  commitTimeoutMs : Nat := 2000
  maxBodyBytes : Nat := 0
  connectBudgetMs : Nat := 0
  deriving DecidableEq, Repr

/-- A row of the lookup query on `amqp.broker`, each column possibly NULL. -/
structure BrokerRow where
  host : Option String
  port : Option Int
  vhost : Option String
  username : Option String
  password : Option String
  ssl : Option Bool
  sslVerify : Option Bool
  sslCacert : Option String
  sslCert : Option String
  sslKey : Option String
  deriving DecidableEq, Repr

/-- `amqp_rpc_reply_t`: its type, and for a server exception what the broker closed. -/
inductive Reply where
  | none : Reply
  | normal : Reply
  | libraryException : Int → Reply
  | channelException : Reply
  | connectionException : Reply
  deriving DecidableEq, Repr

/-- `reply.reply_type`, an `amqp_response_type_enum`. -/
def Reply.replyType : Reply → Nat
  | .none => 0
  | .normal => 1
  | .libraryException _ => 2
  | .channelException => 3
  | .connectionException => 3

/-- `reply.library_error`. -/
def Reply.libraryError : Reply → Int
  | .libraryException e => e
  | _ => 0

/-- The messages passed to `elog`. -/
inductive Report where
  | bodyTooLarge (blen maxBody : Nat)
  | invalidPort (broker : Int) (host : Option String) (port : Int)
  | insecureTls (broker : Int) (host : Option String)
  | brokerNotFound (broker : Int)
  | lookupFailed
  | tlsSocketFailed (hostCopy : String) (broker : Int)
  | tcpSocketFailed (hostCopy : String) (broker : Int)
  | connectFailed (hostCopy : String) (broker : Int)
  | loginFailed (hostCopy : String) (broker : Int)
  | channelOpenFailed (hostCopy : String) (broker : Int)
  | txModeFailed (hostCopy : String) (broker : Int)
  | budgetExhausted (budgetMs : Nat) (broker : Int)
  | tryingNextHost (hostCopy : String)
  | returned (broker : Int) (r : BasicReturn)
  | blocked (broker : Int)
  | publisherBlocked (broker : Int)
  | ignoredDeliveryMode (mode : Int)
  | cannotPrepare (uncommitted : Nat) (broker : Int)
  | discarding (uncommitted : Nat) (broker : Int)
  | commitFailed (broker : Int) (uncommitted : Nat) (replyType : Nat) (libraryErrno : Int)
  | rollbackFailed (broker : Int) (replyType : Nat) (libraryErrno : Int)
  | subxactRolledBack (uncommitted : Nat) (broker : Int)
  deriving DecidableEq, Repr

namespace Report

/-- A C string printed with `%s`; a host is NULL only in a zeroed entry of the host list. -/
def printed (s : Option String) : String := s.getD "(null)"

/-- The text of each message. -/
def text : Report → String
  | .bodyTooLarge blen maxBody =>
    s!"amqp: message body ({blen} bytes) exceeds pg_amqp.max_body_bytes ({maxBody} bytes); not published"
  | .invalidPort broker host port =>
    s!"amqp: broker {broker} host '{printed host}' has invalid port {port}; using 5672"
  | .insecureTls broker host =>
    s!"amqp: broker {broker} host '{printed host}' uses TLS with ssl_verify=false; " ++
    "the server certificate is NOT validated (MITM/credential capture risk). " ++
    "Restrict write access to amqp.broker."
  | .brokerNotFound broker => s!"amqp can't find broker {broker}"
  | .lookupFailed => "amqp broker lookup query failed"
  | .tlsSocketFailed h broker => s!"amqp[{h}] could not allocate TLS socket on broker {broker}"
  | .tcpSocketFailed h broker => s!"amqp[{h}] could not allocate TCP socket on broker {broker}"
  | .connectFailed h broker => s!"amqp[{h}] socket/connect failed on broker {broker}"
  | .loginFailed h broker => s!"amqp[{h}] login failed on broker {broker}"
  | .channelOpenFailed h broker => s!"amqp[{h}] channel open failed on broker {broker}"
  | .txModeFailed h broker => s!"amqp[{h}] could not start tx mode on broker {broker}"
  | .budgetExhausted ms broker =>
    s!"amqp: connect budget ({ms}ms) exhausted for broker {broker}; abandoning failover"
  | .tryingNextHost h => s!"amqp[{h}] failed on trying next host"
  | .returned broker r =>
    s!"amqp: unroutable message returned by broker {broker} (reply_code={r.replyCode} " ++
    s!"reply_text={r.replyText} exchange={r.exchange} routing_key={r.routingKey})"
  | .blocked broker =>
    s!"amqp: broker {broker} has blocked publishers (resource alarm); " ++
    "publishes will fail fast until it is unblocked"
  | .publisherBlocked broker =>
    s!"amqp: broker {broker} is blocking publishers (resource alarm); message not published"
  | .ignoredDeliveryMode mode => s!"Ignored delivery_mode {mode}, value should be 1 or 2"
  | .cannotPrepare n broker =>
    s!"amqp: cannot PREPARE TRANSACTION after amqp.publish(): {n} message(s) " ++
    s!"are buffered on broker {broker} and transactional AMQP publishing is not " ++
    "compatible with two-phase commit. Use amqp.autonomous_publish(), or " ++
    "publish from a non-prepared transaction / an outbox."
  | .discarding n broker =>
    s!"amqp: DISCARDING {n} already-acknowledged message(s) buffered on " ++
    s!"broker {broker} because the channel errored before commit; these messages " ++
    "are LOST even though the PostgreSQL transaction committed"
  | .commitFailed broker n replyType libraryErrno =>
    s!"amqp: COMMIT to broker {broker} FAILED after PostgreSQL already committed; " ++
    s!"{n} message(s) may be LOST (reply_type={replyType}, library_errno={libraryErrno})"
  | .rollbackFailed broker replyType libraryErrno =>
    s!"amqp could not rollback tx mode on broker {broker}, " ++
    s!"reply_type={replyType}, library_errno={libraryErrno}"
  | .subxactRolledBack n broker =>
    s!"amqp: a savepoint/subtransaction rolled back after {n} message(s) were " ++
    s!"published on broker {broker}; to avoid delivering rolled-back work the entire " ++
    "transaction's buffered AMQP messages will be discarded at commit"

/-- The warnings that stand between a failed host attempt and its `next_host` label. -/
def isHostFailure : Report → Bool
  | .tlsSocketFailed _ _ => true
  | .tcpSocketFailed _ _ => true
  | .connectFailed _ _ => true
  | .loginFailed _ _ => true
  | .channelOpenFailed _ _ => true
  | .txModeFailed _ _ => true
  | _ => false

/-- The number of messages of a broker that a warning reports as lost. -/
def lossOn (b : Int) : Report → Nat
  | .discarding n broker => if broker = b then n else 0
  | .commitFailed broker n _ _ => if broker = b then n else 0
  | _ => 0

/-- The warnings that report a loss. -/
def isLoss : Report → Bool
  | .discarding _ _ => true
  | .commitFailed _ _ _ _ => true
  | _ => false

theorem lossOn_eq_zero {r : Report} (h : r.isLoss = false) (b : Int) : r.lossOn b = 0 := by
  cases r <;> first | rfl | cases h

end Report

/-- How a call leaves by an error: an `elog(ERROR)`, the cancel that a warning
found pending, or an error inside the lookup query. -/
inductive Raised where
  | error : Report → Raised
  | canceled : Raised
  | spi : Raised
  deriving DecidableEq, Repr

end PgAmqp
