import PgAmqp.Publish

/-!
# The transaction callbacks

`amqp_local_phase2` and `amqp_local_subxact` run over all entries of `HEAD_BS`.
The definitions here are the bodies of their loops, for one entry.
-/
namespace PgAmqp

/-- The events of `RegisterXactCallback`. -/
inductive XactEvent where
  | prePrepare | parallelPreCommit | preCommit
  | commit | parallelCommit | abort | parallelAbort | prepare
  deriving DecidableEq, Repr

/-- The entry's turn at `XACT_EVENT_PRE_PREPARE`. -/
def amqpLocalPrePrepare : M Unit := do
  let bs ← getBs
  if 0 < bs.uncommitted then
    elogError (.cannotPrepare bs.uncommitted bs.brokerId)

/-- What the reply to `tx.commit` or `tx.rollback` means: a refusal is reported and the
connection dropped, otherwise its steady-state timeout is restored. -/
def closeTx (o : Outcomes) (report : Reply → BrokerState → Report) (reply : Reply) : M Unit := do
  if reply ≠ .normal then
    let bs ← getBs
    elog o (report reply bs)
    localAmqpDisconnectBs false
  else
    localAmqpSetTimeout (← getGucs).operationTimeoutMs

def commitFailed (reply : Reply) (bs : BrokerState) : Report :=
  .commitFailed bs.brokerId bs.uncommitted reply.replyType reply.libraryError

def rollbackFailed (reply : Reply) (bs : BrokerState) : Report :=
  .rollbackFailed bs.brokerId reply.replyType reply.libraryError

/-- The flush: drain, `tx.commit`, and what its reply means. -/
def amqpLocalFlush (o : Outcomes) : M Unit := do
  localAmqpSetTimeout (← getGucs).commitTimeoutMs
  let _ ← localAmqpDrainReturns o
  closeTx o commitFailed (← amqpTxCommit o)

/-- A connection whose channel 2 is in error is given up. -/
def dropErrored : M Unit := do
  if (← getBs).inerror then
    localAmqpDisconnectBs false

def clearInerror : M Unit := modifyBs fun bs => { bs with inerror := false }

def withConn (act : M Unit) : M Unit := do
  if (← getBs).conn.isSome then
    act

/-- An entry with nothing uncommitted is skipped; otherwise `act` ends the
transaction on its connection, if it has one. -/
def settleWith (act : M Unit) : M Unit := do
  if (← getBs).uncommitted ≠ 0 then
    withConn act
    modifyBs fun bs => { bs with uncommitted := 0 }

/-- The entry's turn at `XACT_EVENT_COMMIT`. -/
def amqpLocalCommit (o : Outcomes) : M Unit := do
  let bs ← getBs
  if 0 < bs.uncommitted ∧ (bs.inerror ∨ bs.conn.isNone) then
    elog o (.discarding bs.uncommitted bs.brokerId)
    localAmqpDisconnectBs false
    modifyBs fun bs => { bs with inerror := false, uncommitted := 0 }
  else
    -- where the flag is down already, clearing it changes nothing
    dropErrored
    clearInerror
    settleWith (amqpLocalFlush o)

/-- The rollback of the channel-2 buffer. -/
def amqpLocalRollback (o : Outcomes) : M Unit := do
  localAmqpSetTimeout (← getGucs).commitTimeoutMs
  closeTx o rollbackFailed (← amqpTxRollback o)

/-- The entry's turn at `XACT_EVENT_ABORT`. -/
def amqpLocalAbort (o : Outcomes) : M Unit := do
  dropErrored
  clearInerror
  settleWith (amqpLocalRollback o)

/-- The body of each loop of `amqp_local_phase2`. -/
def amqpLocalPhase2 (event : XactEvent) (o : Outcomes) : M Unit :=
  match event with
  | .prePrepare => amqpLocalPrePrepare
  | .parallelPreCommit => return
  | .preCommit => return
  | .commit => amqpLocalCommit o
  | .parallelCommit => amqpLocalCommit o
  | .abort => amqpLocalAbort o
  | .parallelAbort => amqpLocalAbort o
  | .prepare => return

/-- The body of the loop of `amqp_local_subxact` at `SUBXACT_EVENT_ABORT_SUB`. -/
def amqpLocalSubxact (o : Outcomes) : M Unit := do
  let bs ← getBs
  if 0 < bs.uncommitted ∧ ¬ bs.inerror then
    elog o (.subxactRolledBack bs.uncommitted bs.brokerId)
    modifyBs fun bs => { bs with inerror := true }

end PgAmqp
