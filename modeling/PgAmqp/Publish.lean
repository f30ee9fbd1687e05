import PgAmqp.Connect

/-!
# The SQL-callable operations

`amqp.publish`, `amqp.autonomous_publish` and `amqp.exchange_declare`, with the
drain of pushed frames that the publish path and the commit path share. Channel
2 is the transactional channel, channel 1 the autonomous one.
-/
namespace PgAmqp

/-- One frame taken off the queue of the connection. -/
def takeFrame (f : Frame) (rest : List Frame) : M Unit := modifyBs fun bs =>
  { bs with conn := bs.conn.map fun c => { c with queue := rest, consumed := c.consumed ++ [f] } }

/-- The loop over the pending frames; `alive` is how the read that finds none ends. -/
def localAmqpDrainLoop (o : Outcomes) (alive : Bool) : List Frame → M Int
  | [] => return if alive then 0 else -1
  | f :: rest => do
    takeFrame f rest
    match f with
    | .basicReturn r =>
      elog o (.returned (← getBs).brokerId r)
      localAmqpDrainLoop o alive rest
    | .connectionBlocked =>
      let bs ← getBs
      if !bs.blocked then
        elog o (.blocked bs.brokerId)
      modifyBs fun bs => { bs with blocked := true }
      localAmqpDrainLoop o alive rest
    | .connectionUnblocked =>
      modifyBs fun bs => { bs with blocked := false }
      localAmqpDrainLoop o alive rest
    | .channelClose _ => return -1
    | .connectionClose => return -1
    | .other => localAmqpDrainLoop o alive rest

/-- Read what the broker has already pushed; 0 while the connection is usable, else -1. -/
def localAmqpDrainReturns (o : Outcomes) : M Int := do
  match (← getBs).conn with
  | none => return -1
  | some conn =>
    let p := o.poll (← tick .poll)
    localAmqpDrainLoop o p.alive (conn.queue ++ p.arrivals)

/-- The arguments of `amqp.publish` and `amqp.autonomous_publish`, each possibly NULL.
A call through the eight-argument signature of older versions has no `mandatory`. -/
structure PublishArgs where
  brokerId : Option Int
  exchange : Option String
  routingKey : Option String
  message : Option String
  deliveryMode : Option Int
  contentType : Option String
  replyTo : Option String
  correlationId : Option String
  mandatory : Option Bool
  deriving DecidableEq, Repr

namespace PublishArgs

/-- The body-size guard, evaluated before the broker is touched. -/
def bodyTooLarge (a : PublishArgs) (gucs : Gucs) : Bool :=
  0 < gucs.maxBodyBytes && match a.message with
    | none => false
    | some body => gucs.maxBodyBytes < body.utf8ByteSize

/-- `delivery_mode` when it is given and is not 1 or 2. -/
def badDeliveryMode (a : PublishArgs) : Option Int :=
  a.deliveryMode.filter fun m => !(m == 1 || m == 2)

def properties (a : PublishArgs) : Option Properties :=
  let p : Properties := {
    deliveryMode := a.deliveryMode.filter fun m => m == 1 || m == 2
    contentType := a.contentType
    replyTo := a.replyTo
    correlationId := a.correlationId }
  -- `_flags == 0` passes a NULL pointer
  if p = ⟨none, none, none, none⟩ then none else some p

/-- The argument mapping of `pg_amqp_publish_opt`, with the default of each argument. -/
def content (a : PublishArgs) : Content where
  exchange := a.exchange.getD "amq.direct"
  routingKey := a.routingKey.getD ""
  mandatory := a.mandatory.getD false
  immediate := false
  properties := a.properties
  body := a.message.getD ""

end PublishArgs

/-- `once_more`: give the connection up and go back to `redo`, or give the call up. -/
def orRedo (channel : Nat) (onceMore : Bool) (redo giveUp : M Bool) : M Bool := do
  if onceMore ∧ (channel = 1 ∨ (← getBs).uncommitted = 0) then
    localAmqpDisconnectBs false
    redo
  else
    giveUp

def setInerror : M Unit := modifyBs fun bs => { bs with inerror := true }

/-- What the status of `amqp_basic_publish` means. -/
def publishWritten (m : Msg) (channel : Nat) (onceMore : Bool) (redo : M Bool) (conn : Connection)
    (rv : Write) : M Bool := do
  if rv ≠ .ok then
    orRedo channel onceMore redo do
      setInerror
      return false
  else
    record (.acknowledged conn channel m)
    modifyBs fun bs => { bs with
      uncommitted := if channel = 2 then bs.uncommitted + 1 else bs.uncommitted }
    return true

/-- The autonomous channel has no later read in which a return could surface. -/
def publishPoll (o : Outcomes) (m : Msg) (channel : Nat) : M Unit := do
  if channel = 1 ∧ m.content.mandatory then
    let _ ← localAmqpDrainReturns o

def publishMode (o : Outcomes) : Option Int → M Unit
  | none => return
  | some mode => elog o (.ignoredDeliveryMode mode)

/-- The write on a connection that the drain found usable. -/
def publishWrite (o : Outcomes) (m : Msg) (channel : Nat) (onceMore : Bool) (redo : M Bool) :
    M Bool := do
  match (← getBs).conn with
  | none => return false
  | some conn =>
    let rv ← amqpBasicPublish o conn channel m
    publishPoll o m channel
    publishWritten m channel onceMore redo conn rv

/-- From the drain on. -/
def publishDrained (o : Outcomes) (brokerId : Int) (m : Msg) (badMode : Option Int) (channel : Nat)
    (onceMore : Bool) (redo : M Bool) : M Bool := do
  let bs ← getBs
  if bs.blocked then
    record (.refused bs.conn)
    elog o (.publisherBlocked brokerId)
    return false
  else
    publishMode o badMode
    publishWrite o m channel onceMore redo

/-- From the connection check on. -/
def publishConnected (o : Outcomes) (brokerId : Int) (m : Msg) (badMode : Option Int)
    (channel : Nat) (onceMore : Bool) (redo : M Bool) : M Bool := do
  let bs ← getBs
  if bs.conn.isSome ∧ (channel = 1 ∨ ¬ bs.inerror) then
    if (← localAmqpDrainReturns o) ≠ 0 then
      orRedo channel onceMore redo do
        if channel = 2 then setInerror
        return false
    else
      publishDrained o brokerId m badMode channel onceMore redo
  else
    return false

/-- One pass over the body of `pg_amqp_publish_opt` from the label `redo` on; `redo` is
the backward goto. -/
def publishPass (o : Outcomes) (brokerId : Int) (m : Msg) (badMode : Option Int) (channel : Nat)
    (onceMore : Bool) (redo : M Bool) : M Bool := do
  localAmqpGetBs o brokerId
  publishConnected o brokerId m badMode channel onceMore redo

/-- The message of this call. -/
def newMsg (content : Content) : M Msg := fun c => .ok ⟨c.backend.nextCall, content⟩
  { c with backend := { c.backend with nextCall := c.backend.nextCall + 1 } }

/-- The call with a broker id: the guard, the first pass, and the one retry of `once_more`. -/
def pgAmqpPublishOpt (o : Outcomes) (brokerId : Int) (a : PublishArgs) (channel : Nat) : M Bool := do
  let gucs ← getGucs
  if a.bodyTooLarge gucs then
    elog o (.bodyTooLarge (a.message.getD "").utf8ByteSize gucs.maxBodyBytes)
    return false
  let m ← newMsg a.content
  publishPass o brokerId m a.badDeliveryMode channel true
    (publishPass o brokerId m a.badDeliveryMode channel false (return false))

/-- The arguments of `amqp.exchange_declare`, each possibly NULL. -/
structure DeclareArgs where
  brokerId : Option Int
  exchange : Option String
  exchangeType : Option String
  passive : Option Bool
  durable : Option Bool
  autoDelete : Option Bool
  deriving DecidableEq, Repr

def DeclareArgs.declaration (a : DeclareArgs) : Declaration where
  exchange := a.exchange.getD ""
  exchangeType := a.exchangeType.getD ""
  passive := a.passive.getD false
  durable := a.durable.getD false
  autoDelete := a.autoDelete.getD false
  internal := false

def pgAmqpExchangeDeclare (o : Outcomes) (brokerId : Int) (a : DeclareArgs) : M Bool := do
  localAmqpGetBs o brokerId
  if (← getBs).conn.isSome then
    if (← amqpExchangeDeclare o a.declaration) = .normal then
      return true
    else
      localAmqpDisconnectBs false
      return false
  else
    return false

end PgAmqp
