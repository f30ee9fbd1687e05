import PgAmqp.Library

/-!
# Connecting to a broker

The part of `pg_amqp.c` that finds or makes the connection of a broker entry:
the cached host list, the failover loop over it with its backoff and budget, and
the two ways to give a connection up.
-/
namespace PgAmqp

/-- Find the entry in `HEAD_BS`, or link a fresh one. -/
def localAmqpGetABs : M Unit := fun c => .ok () { c with linked := true }

def Connection.setTimeout (c : Connection) (sockfd : Int) (ms : Nat) : Connection :=
  { c with rpcTimeout := some ms, socketTimeout := if 0 ≤ sockfd then some ms else c.socketTimeout }

def localAmqpSetTimeout (ms : Nat) : M Unit :=
  modifyBs fun bs => { bs with conn := bs.conn.map fun c => c.setTimeout bs.sockfd ms }

/-- `AMQP_GRACEFUL_CLOSE_MS`. -/
def amqpGracefulCloseMs : Nat := 500

/-- With the rpc timeout of a graceful close. -/
def Connection.closing (c : Connection) : Connection := { c with rpcTimeout := some amqpGracefulCloseMs }

def localAmqpDisconnectBs (graceful : Bool) : M Unit := do
  match (← getBs).conn with
  | none => return
  | some conn =>
    if graceful then
      setConn (some conn.closing)
      record (.rpc .connectionClose conn.closing .none)
    amqpDestroyConnection (if graceful then conn.closing else conn)
    modifyBs fun bs => { bs with conn := none, sockfd := -1, uncommitted := 0, blocked := false }

def localAmqpFreeHosts : M Unit := modifyBs fun bs =>
  if bs.hosts.isSome then { bs with hosts := none, nhosts := 0 } else bs

/-- Change `bs->hosts[i]`. -/
def modifyHost (i : Nat) (f : BrokerHost → BrokerHost) : M Unit := modifyBs fun bs =>
  { bs with hosts := bs.hosts.map fun hosts => hosts.modify i f }

/-- One turn of the fill loop of `local_amqp_load_hosts`. -/
def localAmqpFillHost (o : Outcomes) (brokerId : Int) (i : Nat) (row : BrokerRow) : M Unit := do
  let host := some (row.host.getD "localhost")
  let port := row.port.getD 5672
  modifyHost i fun h => { h with host := host, port := port }
  if port < 1 ∨ 65535 < port then
    elog o (.invalidPort brokerId host port)
    modifyHost i fun h => { h with port := 5672 }
  let useSsl := row.ssl.getD false
  let sslVerify := row.sslVerify.getD true
  modifyHost i fun h => { h with
    vhost := some (row.vhost.getD "/")
    user := some (row.username.getD "guest")
    pass := some (row.password.getD "guest")
    useSsl := useSsl
    sslVerify := sslVerify
    sslCacert := row.sslCacert
    sslCert := row.sslCert
    sslKey := row.sslKey }
  if useSsl && !sslVerify then
    elog o (.insecureTls brokerId host)

def localAmqpFillHosts (o : Outcomes) (brokerId : Int) : Nat → List BrokerRow → M Unit
  | _, [] => return
  | i, row :: rows => do
    localAmqpFillHost o brokerId i row
    localAmqpFillHosts o brokerId (i + 1) rows

/-- Returns the number of hosts, or `-1` when SPI is not available. -/
def localAmqpLoadHosts (o : Outcomes) : M Int := do
  let bs ← getBs
  if bs.hosts.isSome then
    return bs.nhosts
  match o.spi (← tick .spi) with
  | .connectError => return -1
  | .raised => throw .spi
  | .executeError =>
    elog o .lookupFailed
    return (← getBs).nhosts
  | .rows [] =>
    elog o (.brokerNotFound bs.brokerId)
    return (← getBs).nhosts
  | .rows rows =>
    let n := rows.length
    modifyBs fun bs => { bs with hosts := some (List.replicate n .zero), nhosts := n }
    localAmqpFillHosts o bs.brokerId 0 rows
    fun c => .ok () { c with bs := { c.bs with idx := c.backend.myProcPid % n } }
    return (← getBs).nhosts

/-- Create and open the socket of one host, TLS or TCP; false for the NULL return. -/
def localAmqpOpenSocket (o : Outcomes) (h : BrokerHost) (hostCopy : String) : M Bool := do
  let brokerId := (← getBs).brokerId
  if !o.socketNew (← tick .socketNew) then
    elog o (if h.useSsl then .tlsSocketFailed hostCopy brokerId else .tcpSocketFailed hostCopy brokerId)
    return false
  let opened := o.socketOpen (← tick .socketOpen)
  record (.socketOpen h (← getGucs).connectTimeoutMs opened)
  if !opened then
    elog o (.connectFailed hostCopy brokerId)
    return false
  return true

/-- What `local_amqp_login` passes: it advertises the `connection.blocked` capability and does
without a heartbeat. -/
def BrokerHost.loginArgs (h : BrokerHost) : LoginArgs where
  vhost := h.vhost
  channelMax := 0
  frameMax := 131072
  heartbeat := 0
  clientProperties := [("capabilities", [("connection.blocked", true)])]
  user := h.user
  pass := h.pass

def localAmqpLogin (o : Outcomes) (h : BrokerHost) : M Reply := amqpLoginWithProperties o h.loginArgs

/-- The handshake on an open socket; false for each `goto next_host`. -/
def localAmqpHandshake (o : Outcomes) (h : BrokerHost) (hostCopy : String) (brokerId : Int) : M Bool := do
  if (← localAmqpLogin o h) ≠ .normal then
    elog o (.loginFailed hostCopy brokerId)
    return false
  if (← amqpChannelOpen o 1) ≠ .normal then
    elog o (.channelOpenFailed hostCopy brokerId)
    return false
  if (← amqpChannelOpen o 2) ≠ .normal then
    elog o (.channelOpenFailed hostCopy brokerId)
    return false
  if (← amqpTxSelect o) ≠ .normal then
    elog o (.txModeFailed hostCopy brokerId)
    return false
  return true

/-- From `amqp_new_connection` on to the decision between success and `next_host`. -/
def localAmqpTryHost (o : Outcomes) (h : BrokerHost) (hostCopy : String) (brokerId : Int) :
    M Bool := do
  if !(← localAmqpOpenSocket o h hostCopy) then
    return false
  let sockfd := o.sockfd (← tick .sockfd)
  modifyBs fun bs => { bs with sockfd := sockfd }
  localAmqpSetTimeout (← getGucs).handshakeTimeoutMs
  if !(← localAmqpHandshake o h hostCopy brokerId) then
    return false
  localAmqpSetTimeout (← getGucs).operationTimeoutMs
  modifyBs fun bs => { bs with lastFailedConnect := 0, consecutiveFailures := 0, blocked := false }
  return true

/-- `&bs->hosts[bs->idx]`. -/
def BrokerState.currentHost (bs : BrokerState) : BrokerHost := (bs.hosts.getD []).getD bs.idx .zero

/-- The characters that fit into `n` bytes. Of one that the end of a buffer cuts in two the
source keeps the first bytes, which are no text; they are left out here. -/
def takeBytes : Nat → List Char → List Char
  | _, [] => []
  | n, c :: rest => if c.utf8Size ≤ n then c :: takeBytes (n - c.utf8Size) rest else []

/-- `host_copy`: host and port in a buffer of 300 bytes, of which the last is the terminator. -/
def BrokerHost.hostCopy (h : BrokerHost) : String :=
  String.ofList (takeBytes 299 s!"{Report.printed h.host}:{h.port}".toList)

/-- The failover loop, counting `tries` down; true when it returned a connection. -/
def localAmqpFailover (o : Outcomes) (brokerId : Int) (deadline : Int) : Nat → M Bool
  | 0 => return false
  | tries + 1 => do
    modifyBs fun bs => { bs with idx := (bs.idx + 1) % bs.nhosts }
    let h := (← getBs).currentHost
    let conn ← amqpNewConnection o
    setConn conn
    if conn.isNone then
      return false
    if (← localAmqpTryHost o h h.hostCopy brokerId) then
      return true
    localAmqpDisconnectBs false
    if deadline ≠ 0 then
      if deadline ≤ o.nowMs (← tick .nowMs) then
        elog o (.budgetExhausted (← getGucs).connectBudgetMs brokerId)
        return false
    if 0 < tries then
      elog o (.tryingNextHost h.hostCopy)
    localAmqpFailover o brokerId deadline tries

/-- `AMQP_RECONNECT_BACKOFF_BASE_SEC` and `AMQP_RECONNECT_BACKOFF_CAP_SEC`. -/
def amqpReconnectBackoffBaseSec : Nat := 2

def amqpReconnectBackoffCapSec : Nat := 30

/-- The backoff window in seconds: exponential, capped, and with a jitter by process. -/
def reconnectBackoff (consecutiveFailures myProcPid : Nat) : Nat :=
  let shift := if consecutiveFailures > 4 then 4 else consecutiveFailures
  let backoff := amqpReconnectBackoffBaseSec <<< shift
  let backoff := if backoff > amqpReconnectBackoffCapSec then amqpReconnectBackoffCapSec else backoff
  backoff + myProcPid % (amqpReconnectBackoffBaseSec + 1)

/-- The connect attempt is suppressed: the last one failed less than a window ago. -/
def localAmqpSuppressed (o : Outcomes) : M Bool := do
  let bs ← getBs
  if bs.lastFailedConnect = 0 then
    return false
  let now := o.time (← tick .time)
  fun c => .ok (now - bs.lastFailedConnect < reconnectBackoff bs.consecutiveFailures c.backend.myProcPid) c

def localAmqpConnectFailed (o : Outcomes) : M Unit := do
  let now := o.time (← tick .time)
  modifyBs fun bs => { bs with
    consecutiveFailures := bs.consecutiveFailures + 1, lastFailedConnect := now }

def localAmqpGetBs (o : Outcomes) (brokerId : Int) : M Unit := do
  localAmqpGetABs
  if (← getBs).conn.isSome then
    return
  if (← localAmqpSuppressed o) then
    return
  if (← localAmqpLoadHosts o) ≤ 0 then
    localAmqpConnectFailed o
    return
  let budget := (← getGucs).connectBudgetMs
  let deadline ← if 0 < budget then do pure (o.nowMs (← tick .nowMs) + budget) else pure 0
  if !(← localAmqpFailover o brokerId deadline (← getBs).nhosts) then
    localAmqpConnectFailed o

def localAmqpDisconnect : M Unit := do
  localAmqpGetABs
  localAmqpDisconnectBs true
  modifyBs fun bs => { bs with
    inerror := false, idx := 0, consecutiveFailures := 0, lastFailedConnect := 0 }
  localAmqpFreeHosts

end PgAmqp
