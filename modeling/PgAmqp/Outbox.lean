import Mathlib.Logic.Function.Basic
import PgAmqp.Publish
import PgAmqp.Transition

/-!
# The transactional outbox

`amqp.outbox` is a table, `amqp.publish_outbox` inserts into it, and
`amqp.publish_outbox_batch` relays its rows through `amqp.autonomous_publish`. The
database is the committed table, the row locks, and the open transaction of every
session. A transaction is a stack of levels, one for each open subtransaction, and a
level holds what was written and locked in it.

A batch call is taken apart where another session can come in between: the query takes
its snapshot, the cursor claims a row, the row is sent, and the row is marked. What
`autonomous_publish` answers comes from outside, with the step. What a session has sent
is kept in a record that no rollback touches, and a finished transaction leaves its
record behind.
-/
namespace PgAmqp

open Transition

/-- A row of `amqp.outbox`. -/
structure OutboxRow where
  id : Nat
  brokerId : Int
  exchange : String
  routingKey : String
  message : String
  deliveryMode : Option Int
  contentType : Option String
  replyTo : Option String
  correlationId : Option String
  mandatory : Bool
  publishedAt : Option Nat
  attempts : Nat
  lastError : Option String
  deriving DecidableEq, Repr

/-- The INSERT of `amqp.publish_outbox`; `none` when a NOT NULL column refuses a NULL.
It names every column up to `mandatory`, so no column default stands in for a NULL. -/
def publishOutbox (id : Nat) (a : PublishArgs) : Option OutboxRow :=
  match a.brokerId, a.exchange, a.routingKey, a.message, a.mandatory with
  | some brokerId, some exchange, some routingKey, some message, some mandatory => some {
      id := id
      brokerId := brokerId
      exchange := exchange
      routingKey := routingKey
      message := message
      deliveryMode := a.deliveryMode
      contentType := a.contentType
      replyTo := a.replyTo
      correlationId := a.correlationId
      mandatory := mandatory
      publishedAt := none
      attempts := 0
      lastError := none }
  | _, _, _, _, _ => none

namespace OutboxRow

/-- What the batch passes to `amqp.autonomous_publish`. -/
def args (r : OutboxRow) : PublishArgs where
  brokerId := some r.brokerId
  exchange := some r.exchange
  routingKey := some r.routingKey
  message := some r.message
  deliveryMode := r.deliveryMode
  contentType := r.contentType
  replyTo := r.replyTo
  correlationId := r.correlationId
  mandatory := some r.mandatory

/-- The WHERE clause of the batch. -/
def selected (r : OutboxRow) (brokerId : Option Int) : Bool :=
  r.publishedAt.isNone && brokerId.all (· == r.brokerId)

/-- The UPDATE that follows a send. -/
def marked (r : OutboxRow) (now : Nat) (ok : Bool) : OutboxRow :=
  if ok then { r with publishedAt := some now, attempts := r.attempts + 1, lastError := none }
  else { r with attempts := r.attempts + 1, lastError := some "autonomous_publish returned false" }

end OutboxRow

/-- A running call of `amqp.publish_outbox_batch`. -/
structure Batch where
  brokerId : Option Int
  /-- The ids that the snapshot selected and the cursor has not come to, in order. -/
  cursor : List Nat
  /-- How many more rows LIMIT lets through; LIMIT NULL has no bound. -/
  room : Option Nat
  /-- Rows that are claimed and were not sent yet. -/
  fetched : List OutboxRow
  /-- The row that was sent and is not marked yet, with the answer. -/
  awaiting : Option (Nat × Bool)
  count : Nat

/-- The loop is over when every claimed row was dealt with, and the cursor or LIMIT is at
its end. -/
def Batch.over (b : Batch) : Bool :=
  b.awaiting.isNone && b.fetched.isEmpty && (b.cursor.isEmpty || b.room == some 0)

/-- One call of `amqp.autonomous_publish` for a row. -/
structure Send where
  id : Nat
  args : PublishArgs
  ok : Bool
  deriving DecidableEq, Repr

/-- What one subtransaction has written and locked. -/
structure Level where
  written : Nat → Option OutboxRow
  /-- The ids of the rows it inserted. -/
  inserted : List Nat
  locks : List Nat

namespace Level

def empty : Level where
  written := fun _ => none
  inserted := []
  locks := []

def write (l : Level) (id : Nat) (r : Option OutboxRow) : Level :=
  { l with written := Function.update l.written id r }

theorem write_self (l : Level) (id : Nat) (r : Option OutboxRow) : (l.write id r).written id = r :=
  Function.update_self ..

theorem write_other (l : Level) {id id' : Nat} (r : Option OutboxRow) (h : id' ≠ id) :
    (l.write id r).written id' = l.written id' := Function.update_of_ne h ..

/-- A level is merged into the one around it. -/
def into (inner outer : Level) : Level where
  written := fun id => (inner.written id).or (outer.written id)
  inserted := inner.inserted ++ outer.inserted
  locks := inner.locks ++ outer.locks

end Level

/-- An open transaction; `top` is its innermost level. -/
structure Tx where
  now : Nat
  top : Level
  outer : List Level
  batch : Option Batch
  /-- A batch was called in it. -/
  called : Bool
  sends : List Send
  /-- What the last batch returned. -/
  result : Option Nat

/-- The version of a row that is seen from inside these levels. -/
def seen (table : Nat → Option OutboxRow) : List Level → Nat → Option OutboxRow
  | [], id => table id
  | l :: rest, id => (l.written id).or (seen table rest id)

namespace Tx

def start (now : Nat) : Tx where
  now := now
  top := .empty
  outer := []
  batch := none
  called := false
  sends := []
  result := none

def levels (t : Tx) : List Level := t.top :: t.outer

def inserted (t : Tx) : List Nat := t.levels.flatMap Level.inserted

/-- A transaction sees the committed rows and its own. -/
def sees (t : Tx) (table : Nat → Option OutboxRow) (id : Nat) : Option OutboxRow :=
  seen table t.levels id

def savepoint (t : Tx) : Tx := { t with top := .empty, outer := t.top :: t.outer }

def release (t : Tx) (outer : Level) (rest : List Level) : Tx :=
  { t with top := t.top.into outer, outer := rest }

/-- The innermost level is rolled back, and a batch that ran in it is gone. -/
def undo (t : Tx) (outer : Level) (rest : List Level) : Tx :=
  { t with top := outer, outer := rest, batch := none }

def insert (t : Tx) (r : OutboxRow) : Tx :=
  { t with top := { t.top.write r.id (some r) with inserted := r.id :: t.top.inserted } }

def call (t : Tx) (brokerId : Option Int) (ids : List Nat) (batchLimit : Option Nat) : Tx :=
  { t with called := true, batch := some ⟨brokerId, ids, batchLimit, [], none, 0⟩ }

def lock (t : Tx) (id : Nat) : Tx := { t with top := { t.top with locks := id :: t.top.locks } }

/-- The cursor goes on, and may have claimed a row. -/
def fetch (t : Tx) (b : Batch) (rest : List Nat) : Option OutboxRow → Tx
  | none => { t with batch := some { b with cursor := rest } }
  | some r => { t with batch := some { b with
      cursor := rest, room := b.room.map (· - 1), fetched := b.fetched ++ [r] } }

def send (t : Tx) (b : Batch) (r : OutboxRow) (rest : List OutboxRow) (ok : Bool) : Tx :=
  { t with
    sends := t.sends ++ [⟨r.id, r.args, ok⟩]
    batch := some { b with fetched := rest, awaiting := some (r.id, ok) } }

/-- The UPDATE of the row that was sent, as the transaction sees it. -/
def mark (t : Tx) (b : Batch) (id : Nat) (ok : Bool) (r : Option OutboxRow) : Tx :=
  { t with
    top := t.top.write id (r.map (·.marked t.now ok))
    batch := some { b with awaiting := none, count := if ok then b.count + 1 else b.count } }

def returned (t : Tx) (b : Batch) : Tx := { t with batch := none, result := some b.count }

end Tx

/-- The record of a finished transaction. -/
structure Done where
  committed : Bool
  sends : List Send
  deriving DecidableEq, Repr

structure Db where
  /-- The next value of the id sequence. -/
  nextId : Nat
  /-- The committed version of each row. -/
  table : Nat → Option OutboxRow
  /-- The session that holds the lock of a row. -/
  holder : Nat → Option Nat
  txs : Nat → Option Tx
  finished : List Done
  /-- The rows whose INSERT was rolled back. -/
  undone : List Nat
  /-- The arguments with which a row was enqueued. -/
  enqueued : Nat → Option PublishArgs

inductive OutboxAction where
  | begin (now : Nat)
  | savepoint | releaseSavepoint | rollbackToSavepoint
  | commit | abort
  | publishOutbox (a : PublishArgs)
  | publishOutboxBatch (brokerId : Option Int) (batchLimit : Option Nat)
  /-- The cursor goes on to its next id. -/
  | fetch
  /-- The next claimed row is sent, and this is the answer. -/
  | send (ok : Bool)
  | mark
  | returned
  /-- A statement fails, in a batch for example by a cancel during a send. -/
  | fail
  deriving DecidableEq, Repr

/-- An action of a session. -/
structure OutboxStep where
  session : Nat
  action : OutboxAction
  deriving DecidableEq, Repr

namespace Db

def put (db : Db) (s : Nat) (t : Tx) : Db := { db with txs := Function.update db.txs s (some t) }

/-- The end of a transaction: its writes become the committed versions, or are undone,
and its locks are released. -/
def endTx (db : Db) (s : Nat) (t : Tx) (committed : Bool) : Db :=
  { db with
    table := if committed then t.sees db.table else db.table
    holder := fun id => if db.holder id = some s then none else db.holder id
    txs := Function.update db.txs s none
    finished := db.finished ++ [⟨committed, t.sends⟩]
    undone := if committed then db.undone else db.undone ++ t.inserted }

/-- The rollback of the innermost subtransaction, with a level around it. -/
def undoTop (db : Db) (s : Nat) (t : Tx) (outer : Level) (rest : List Level) : Db :=
  { db.put s (t.undo outer rest) with
    holder := fun id => if id ∈ t.top.locks then none else db.holder id
    undone := db.undone ++ t.top.inserted }

/-- What an error rolls back: the innermost subtransaction, or the transaction. -/
def failTx (db : Db) (s : Nat) (t : Tx) : Db :=
  match t.outer with
  | [] => db.endTx s t false
  | outer :: rest => db.undoTop s t outer rest

/-- The sequence gives out an id, also to an INSERT that fails. -/
def drawId (db : Db) : Db := { db with nextId := db.nextId + 1 }

def insertRow (db : Db) (s : Nat) (t : Tx) (a : PublishArgs) (r : OutboxRow) : Db :=
  { db.drawId.put s (t.insert r) with enqueued := Function.update db.enqueued r.id (some a) }

def enqueue (db : Db) (s : Nat) (t : Tx) (a : PublishArgs) : Db :=
  match PgAmqp.publishOutbox db.nextId a with
  | none => db.drawId.failTx s t
  | some r => db.insertRow s t a r

/-- The ids of the query's snapshot, ORDER BY id. -/
def candidates (db : Db) (t : Tx) (brokerId : Option Int) : List Nat :=
  (List.range db.nextId).filter fun id => (t.sees db.table id).any (·.selected brokerId)

/-- Locks a row for a session; a row it has locked before stays locked where it was. -/
def lockRow (db : Db) (s : Nat) (t : Tx) (id : Nat) : Tx :=
  if db.holder id = some s then t else t.lock id

/-- The cursor claims a row: its lock goes to the session. -/
def claim (db : Db) (s : Nat) (t : Tx) (b : Batch) (id : Nat) (rest : List Nat)
    (r : Option OutboxRow) : Db :=
  { db.put s ((db.lockRow s t id).fetch b rest r) with
    holder := Function.update db.holder id (some s) }

/-- `FOR UPDATE SKIP LOCKED`, then the WHERE clause again on the version that was locked,
which may be newer than the snapshot. -/
def fetchNext (db : Db) (s : Nat) (t : Tx) (b : Batch) (id : Nat) (rest : List Nat) : Db :=
  if (db.holder id).any (· != s) then
    db.put s (t.fetch b rest none)
  else
    db.claim s t b id rest ((t.sees db.table id).filter (·.selected b.brokerId))

def fetch (db : Db) (s : Nat) (t : Tx) (b : Batch) : Db :=
  match b.cursor with
  | [] => db
  | id :: rest => if b.awaiting.isNone ∧ b.room ≠ some 0 then db.fetchNext s t b id rest else db

def send (db : Db) (s : Nat) (t : Tx) (b : Batch) (ok : Bool) : Db :=
  match b.fetched with
  | [] => db
  | r :: rest => if b.awaiting.isNone then db.put s (t.send b r rest ok) else db

def mark (db : Db) (s : Nat) (t : Tx) (b : Batch) : Db :=
  match b.awaiting with
  | none => db
  | some (id, ok) => db.put s (t.mark b id ok (t.sees db.table id))

/-- An action of a session that is inside a transaction and not inside a batch. -/
def idle (db : Db) (s : Nat) (t : Tx) : OutboxAction → Db
  | .savepoint => db.put s t.savepoint
  | .releaseSavepoint =>
    match t.outer with
    | [] => db
    | outer :: rest => db.put s (t.release outer rest)
  | .rollbackToSavepoint =>
    match t.outer with
    | [] => db
    | outer :: rest => db.undoTop s t outer rest
  | .commit => db.endTx s t true
  | .abort => db.endTx s t false
  | .publishOutbox a => db.enqueue s t a
  | .publishOutboxBatch brokerId batchLimit =>
    db.put s (t.call brokerId (db.candidates t brokerId) batchLimit)
  | .fail => db.failTx s t
  | _ => db

/-- An action of a session inside a batch. -/
def running (db : Db) (s : Nat) (t : Tx) (b : Batch) : OutboxAction → Db
  | .fetch => db.fetch s t b
  | .send ok => db.send s t b ok
  | .mark => db.mark s t b
  | .returned => if b.over then db.put s (t.returned b) else db
  | .abort => db.endTx s t false
  | .fail => db.failTx s t
  | _ => db

/-- One action of one session; an action that makes no sense there changes nothing. -/
def next (st : OutboxStep) (db : Db) : Db :=
  match db.txs st.session with
  | none =>
    match st.action with
    | .begin now => db.put st.session (.start now)
    | _ => db
  | some t =>
    match t.batch with
    | none => db.idle st.session t st.action
    | some b => db.running st.session t b st.action

/-- An empty outbox. -/
def empty : Db where
  nextId := 0
  table := fun _ => none
  holder := fun _ => none
  txs := fun _ => none
  finished := []
  undone := []
  enqueued := fun _ => none

end Db

/-- The databases of all runs whose steps meet the guard. -/
abbrev OutboxRuns (ok : Db → OutboxStep → Prop) : Db → Prop := Reach (· = Db.empty) Db.next ok

theorem OutboxRuns.empty (ok : Db → OutboxStep → Prop) : OutboxRuns ok .empty := .init rfl

end PgAmqp
