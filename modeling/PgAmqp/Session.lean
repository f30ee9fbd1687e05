import PgAmqp.Callbacks
import PgAmqp.Transition

/-!
# Runs of a backend

A session is the static state of one backend's copy of the extension, with a
record of the `amqp.publish` calls of the current transaction that returned
true. A step is one SQL-level action together with everything it is told from
outside, for each broker. A call that raises is followed by the abort callback
of the innermost open subtransaction, or of the transaction itself.
-/
namespace PgAmqp

open Transition

/-- A `amqp.publish` call of the current transaction that returned true. -/
structure Ack where
  broker : Int
  msg : Msg
  /-- The nesting depth of the subtransaction it now belongs to. -/
  depth : Nat
  /-- That subtransaction has rolled back. -/
  undone : Bool
  deriving DecidableEq, Repr

structure Session where
  /-- `HEAD_BS`, newest entry first. -/
  head : List BrokerState
  backend : Backend
  /-- The number of open subtransactions. -/
  depth : Nat
  acks : List Ack
  deriving DecidableEq, Repr

inductive Action where
  | publish : PublishArgs → Action
  | autonomousPublish : PublishArgs → Action
  | exchangeDeclare : DeclareArgs → Action
  | disconnect : Option Int → Action
  | set : Gucs → Action
  | startSub | commitSub | abortSub
  | commit
  /-- The abort of the top-level transaction alone: a `ROLLBACK` with open savepoints is one
  `abortSub` for each of them, innermost first, and then this. -/
  | abort
  | prepare
  deriving DecidableEq, Repr

structure Step where
  action : Action
  outcomes : Int → Outcomes

/-- What a step shows: the boolean it returns, the error it raises, and its events by broker. -/
structure Trace where
  result : Option Bool
  raised : Option Raised
  log : List (Int × Event)
  deriving DecidableEq, Repr

def lookup (head : List BrokerState) (b : Int) : Option BrokerState :=
  head.find? fun e => e.brokerId = b

def replaceBs (bs : BrokerState) : List BrokerState → List BrokerState
  | [] => []
  | e :: rest => if e.brokerId = bs.brokerId then bs :: rest else e :: replaceBs bs rest

def putBs (bs : BrokerState) (head : List BrokerState) : List BrokerState :=
  if (lookup head bs.brokerId).isSome then replaceBs bs head else bs :: head

namespace Session

/-- The entry of a broker, or the one that its first use will link. -/
def entry (s : Session) (b : Int) : BrokerState := (lookup s.head b).getD (.fresh b)

/-- The messages acknowledged on a broker in this transaction, in call order. -/
def acked (s : Session) (b : Int) : List Msg :=
  (s.acks.filter fun k => k.broker = b).map Ack.msg

/-- Those of them whose subtransaction has not rolled back. -/
def live (s : Session) (b : Int) : List Msg :=
  (s.acks.filter fun k => k.broker = b ∧ ¬ k.undone).map Ack.msg

/-- The cell of an entry at the start of a call. -/
def start (bs : BrokerState) (linked : Bool) (k : Backend) : Cell where
  bs := bs
  linked := linked
  backend := k
  counts := fun _ => 0
  log := []

def cell (s : Session) (b : Int) : Cell := start (s.entry b) (lookup s.head b).isSome s.backend

def store (s : Session) (c : Cell) : Session :=
  { s with head := if c.linked then putBs c.bs s.head else s.head, backend := c.backend }

end Session

/-- A callback's loop over `HEAD_BS`. -/
structure Sweep where
  head : List BrokerState
  backend : Backend
  raised : Option Raised
  log : List (Int × Event)

def forEachBs (f : Outcomes → M Unit) (o : Int → Outcomes) : List BrokerState → Backend → Sweep
  | [], k => ⟨[], k, none, []⟩
  | e :: rest, k =>
    match f (o e.brokerId) (Session.start e true k) with
    | .ok _ c =>
      let r := forEachBs f o rest c.backend
      ⟨c.bs :: r.head, r.backend, r.raised, c.log.map (e.brokerId, ·) ++ r.log⟩
    | .error x c => ⟨c.bs :: rest, c.backend, some x, c.log.map (e.brokerId, ·)⟩

namespace Session

/-- Run a callback over all entries; interrupts are held off meanwhile. -/
def sweep (s : Session) (f : Outcomes → M Unit) (o : Int → Outcomes) : Session × Sweep :=
  let r := forEachBs f o s.head { s.backend with holdoff := true }
  ({ s with head := r.head, backend := { r.backend with holdoff := s.backend.holdoff } }, r)

/-- The end of the top-level transaction: what was acknowledged in it is no longer current. -/
def ended (s : Session) : Session := { s with depth := 0, acks := [] }

/-- Leaving a subtransaction that rolls back. -/
def undo (s : Session) : Session :=
  { s with
    depth := s.depth - 1
    acks := s.acks.map fun k => if s.depth ≤ k.depth then { k with undone := true } else k }

/-- Leaving a subtransaction that is released: its calls now belong to the parent. -/
def release (s : Session) : Session :=
  { s with
    depth := s.depth - 1
    acks := s.acks.map fun k => if s.depth ≤ k.depth then { k with depth := s.depth - 1 } else k }

/-- The abort callback of the top-level transaction, behind those of the savepoints still open. -/
def abort (s : Session) (o : Int → Outcomes) : Session × List (Int × Event) :=
  let (s', r) := s.sweep (amqpLocalPhase2 .abort) o
  (s'.ended, r.log)

def abortSub (s : Session) (o : Int → Outcomes) : Session × List (Int × Event) :=
  let (s', r) := s.sweep amqpLocalSubxact o
  (s'.undo, r.log)

/-- What an error rolls back: the innermost subtransaction, or the transaction. -/
def abortCurrent (s : Session) (o : Int → Outcomes) : Session × List (Int × Event) :=
  if 0 < s.depth then s.abortSub o else s.abort o

def commit (s : Session) (o : Int → Outcomes) : Session × Trace :=
  let (s', r) := s.sweep (amqpLocalPhase2 .commit) o
  (s'.ended, ⟨none, none, r.log⟩)

/-- `PREPARE TRANSACTION`: an error at `XACT_EVENT_PRE_PREPARE` aborts the transaction. -/
def prepare (s : Session) (o : Int → Outcomes) : Session × Trace :=
  let (s', r) := s.sweep (amqpLocalPhase2 .prePrepare) o
  match r.raised with
  | some e =>
    let (s'', log) := s'.abort o
    (s'', ⟨none, some e, r.log ++ log⟩)
  | none =>
    let (s'', r') := s'.sweep (amqpLocalPhase2 .prepare) o
    (s''.ended, ⟨none, none, r.log ++ r'.log⟩)

/-- A call on one broker, followed by an abort callback when it raises. -/
def call (s : Session) (o : Int → Outcomes) (b : Int) (x : Outcomes → M Bool) : Session × Trace :=
  match x (o b) (s.cell b) with
  | .ok v c => (s.store c, ⟨some v, none, c.log.map (b, ·)⟩)
  | .error e c =>
    let (s', log) := (s.store c).abortCurrent o
    (s', ⟨none, some e, c.log.map (b, ·) ++ log⟩)

/-- Note the acknowledgement of a transactional publish. -/
def note (s : Session) (b : Int) (m : Msg) (r : Session × Trace) : Session × Trace :=
  if r.2.result = some true then
    ({ r.1 with acks := r.1.acks ++ [⟨b, m, s.depth, false⟩] }, r.2)
  else r

def publish (s : Session) (o : Int → Outcomes) (a : PublishArgs) : Session × Trace :=
  match a.brokerId with
  | none => (s, ⟨some false, none, []⟩)
  | some b =>
    s.note b ⟨s.backend.nextCall, a.content⟩ (s.call o b fun o => pgAmqpPublishOpt o b a 2)

def autonomousPublish (s : Session) (o : Int → Outcomes) (a : PublishArgs) : Session × Trace :=
  match a.brokerId with
  | none => (s, ⟨some false, none, []⟩)
  | some b => s.call o b fun o => pgAmqpPublishOpt o b a 1

def exchangeDeclare (s : Session) (o : Int → Outcomes) (a : DeclareArgs) : Session × Trace :=
  match a.brokerId with
  | none => (s, ⟨some false, none, []⟩)
  | some b => s.call o b fun o => pgAmqpExchangeDeclare o b a

def disconnect (s : Session) (o : Int → Outcomes) : Option Int → Session × Trace
  | none => (s, ⟨none, none, []⟩)
  | some b =>
    let (s', t) := s.call o b fun _ => do localAmqpDisconnect; return true
    (s', { t with result := none })

end Session

/-- One step of a backend. -/
def exec (st : Step) (s : Session) : Session × Trace :=
  match st.action with
  | .publish a => s.publish st.outcomes a
  | .autonomousPublish a => s.autonomousPublish st.outcomes a
  | .exchangeDeclare a => s.exchangeDeclare st.outcomes a
  | .disconnect b => s.disconnect st.outcomes b
  | .set g => ({ s with backend := { s.backend with gucs := g } }, ⟨none, none, []⟩)
  | .startSub => ({ s with depth := s.depth + 1 }, ⟨none, none, []⟩)
  | .commitSub => if 0 < s.depth then (s.release, ⟨none, none, []⟩) else (s, ⟨none, none, []⟩)
  | .abortSub =>
    if 0 < s.depth then
      let (s', log) := s.abortSub st.outcomes
      (s', ⟨none, none, log⟩)
    else (s, ⟨none, none, []⟩)
  | .commit => s.commit st.outcomes
  | .abort =>
    let (s', log) := s.abort st.outcomes
    (s', ⟨none, none, log⟩)
  | .prepare => s.prepare st.outcomes

/-- A step on which everything outside answers well. -/
def Step.good (action : Action) : Step := ⟨action, fun _ => .good⟩

/-- The session after a step. -/
def next (st : Step) (s : Session) : Session := (exec st s).1

/-- The trace of a step. -/
def trace (st : Step) (s : Session) : Trace := (exec st s).2

/-- A backend that has just loaded the extension. -/
structure Session.Initial (s : Session) : Prop where
  head : s.head = []
  depth : s.depth = 0
  acks : s.acks = []
  holdoff : s.backend.holdoff = false

/-- The session of a backend with these settings. -/
def Session.loaded (gucs : Gucs) (myProcPid : Nat) : Session where
  head := []
  backend := ⟨gucs, myProcPid, 0, 0, false⟩
  depth := 0
  acks := []

theorem Session.loaded_initial (gucs : Gucs) (myProcPid : Nat) :
    (Session.loaded gucs myProcPid).Initial := ⟨rfl, rfl, rfl, rfl⟩

/-- The sessions of all runs whose steps meet the guard. -/
abbrev Runs (ok : Session → Step → Prop) : Session → Prop := Reach Session.Initial next ok

end PgAmqp
