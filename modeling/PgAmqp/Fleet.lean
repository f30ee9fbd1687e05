import PgAmqp.Enqueue
import PgAmqp.Sends

/-!
# A fleet of backends over one database

The outbox and the extension are two halves of one system. A session of the database is a
backend with its own copy of the extension: PostgreSQL runs the callbacks of the extension
at the ends of its transactions and subtransactions, and a call of the extension that
raises fails the statement. The batch sends its rows through that backend, so what
`autonomous_publish` answers is not a choice of the environment any more: it is what the
extension returns, with everything that the library, the broker and a cancel may do to it.

The writes that a batch has made for a row are kept in a record beside it, for the open
transaction of each session and for all finished ones.
-/
namespace PgAmqp

open Transition

/-- A call of `amqp.autonomous_publish` that a batch has made for a row. -/
structure Relayed where
  id : Nat
  args : PublishArgs
  /-- What the call returned, or nothing when it raised. -/
  answer : Option Bool
  /-- The messages that it wrote to channel 1 with status OK. -/
  written : List Msg
  deriving DecidableEq, Repr

/-- The send that the database knows of; a call that raised has failed its statement. -/
def Relayed.send (x : Relayed) : Option Send := x.answer.map (⟨x.id, x.args, ·⟩)

/-- How a statement that fails is told to the callbacks. -/
def Tx.failing (t : Tx) : Action := if t.outer.isEmpty then .abort else .abortSub

namespace Db

/-- What PostgreSQL tells the callbacks of a session that takes this action. -/
def announces (db : Db) (s : Nat) (act : OutboxAction) : Option Action :=
  match db.txs s with
  | none => none
  | some t =>
    match act, t.batch with
    | .abort, _ => some .abort
    | .fail, _ => some t.failing
    | .commit, none => some .commit
    | .savepoint, none => some .startSub
    | .releaseSavepoint, none => if t.outer.isEmpty then none else some .commitSub
    | .rollbackToSavepoint, none => if t.outer.isEmpty then none else some .abortSub
    | .publishOutbox a, none => if (PgAmqp.publishOutbox db.nextId a).isNone then some t.failing else none
    | _, _ => none

/-- The row that the batch of a session sends next. -/
def due (db : Db) (s : Nat) : Option OutboxRow := do
  let b ← (← db.txs s).batch
  if b.awaiting.isNone then b.fetched.head? else none

/-- The session is inside a transaction, and not inside a batch. -/
def ready (db : Db) (s : Nat) : Bool := (db.txs s).any (·.batch.isNone)

/-- The number of open subtransactions of a session. -/
def nesting (db : Db) (s : Nat) : Nat := ((db.txs s).map (·.outer.length)).getD 0

end Db

inductive FleetAction where
  /-- An action on the outbox other than a send. -/
  | outbox : OutboxAction → FleetAction
  /-- The batch sends its next row. -/
  | relay : FleetAction
  /-- The session calls the extension, outside of a batch. -/
  | call : Action → FleetAction
  deriving DecidableEq, Repr

structure FleetStep where
  session : Nat
  action : FleetAction
  outcomes : Int → Outcomes

structure Fleet where
  db : Db
  backends : Nat → Session
  /-- What each session has relayed in its open transaction. -/
  current : Nat → List Relayed
  /-- What was relayed in finished transactions. -/
  past : List Relayed

/-- The calls that an SQL session can make; the callbacks are not among them. -/
def Action.isCall : Action → Bool
  | .publish _ => true
  | .autonomousPublish _ => true
  | .exchangeDeclare _ => true
  | .disconnect _ => true
  | .set _ => true
  | _ => false

def OutboxAction.isSend : OutboxAction → Bool
  | .send _ => true
  | _ => false

/-- The backend after what it was told. -/
def Session.told (s : Session) (o : Int → Outcomes) : Option Action → Session
  | none => s
  | some a => PgAmqp.next ⟨a, o⟩ s

namespace Fleet

/-- Session `s` has moved on; with its transaction its record is finished too. -/
def put (f : Fleet) (s : Nat) (db : Db) (backend : Session) (relayed : List Relayed) : Fleet where
  db := db
  backends := Function.update f.backends s backend
  current := Function.update f.current s (if (db.txs s).isSome then f.current s ++ relayed else [])
  past := if (db.txs s).isSome then f.past else f.past ++ (f.current s ++ relayed)

def outbox (f : Fleet) (s : Nat) (act : OutboxAction) (o : Int → Outcomes) : Fleet :=
  if act.isSend then f
  else f.put s (Db.next ⟨s, act⟩ f.db) ((f.backends s).told o (f.db.announces s act)) []

/-- What the answer of the extension is to the batch. -/
def answered (t : Trace) : OutboxAction :=
  match t.result with
  | some ok => .send ok
  | none => .fail

def relay (f : Fleet) (s : Nat) (o : Int → Outcomes) : Fleet :=
  match f.db.due s with
  | none => f
  | some r =>
    let t := trace ⟨.autonomousPublish r.args, o⟩ (f.backends s)
    f.put s (Db.next ⟨s, answered t⟩ f.db) (PgAmqp.next ⟨.autonomousPublish r.args, o⟩ (f.backends s))
      [⟨r.id, r.args, t.result, writtenOn 1 (t.log.map Prod.snd)⟩]

def call (f : Fleet) (s : Nat) (a : Action) (o : Int → Outcomes) : Fleet :=
  if f.db.ready s && a.isCall then
    let t := trace ⟨a, o⟩ (f.backends s)
    f.put s (if t.raised.isSome then Db.next ⟨s, .fail⟩ f.db else f.db) (PgAmqp.next ⟨a, o⟩ (f.backends s)) []
  else f

/-- One action of one session. -/
def next (st : FleetStep) (f : Fleet) : Fleet :=
  match st.action with
  | .outbox act => f.outbox st.session act st.outcomes
  | .relay => f.relay st.session st.outcomes
  | .call a => f.call st.session a st.outcomes

/-- An empty outbox, and backends that have just loaded the extension. -/
structure Initial (f : Fleet) : Prop where
  db : f.db = .empty
  backends : ∀ s, (f.backends s).Initial
  current : ∀ s, f.current s = []
  past : f.past = []

/-- The fleet of backends with these settings. -/
def loaded (gucs : Gucs) : Fleet where
  db := .empty
  backends := fun s => .loaded gucs s
  current := fun _ => []
  past := []

theorem loaded_initial (gucs : Gucs) : (loaded gucs).Initial :=
  ⟨rfl, fun s => Session.loaded_initial gucs s, fun _ => rfl, rfl⟩

end Fleet

/-- The fleets of all runs whose steps meet the guard. -/
abbrev FleetRuns (ok : Fleet → FleetStep → Prop) : Fleet → Prop := Reach Fleet.Initial Fleet.next ok

/-- A guard on the database, for the steps that act on the outbox. -/
def OnOutbox (ok : Db → OutboxStep → Prop) (f : Fleet) (st : FleetStep) : Prop :=
  match st.action with
  | .outbox act => ok f.db ⟨st.session, act⟩
  | _ => True

instance (ok : Db → OutboxStep → Prop) [∀ db st, Decidable (ok db st)] (f : Fleet) (st : FleetStep) :
    Decidable (OnOutbox ok f st) := by
  unfold OnOutbox
  split
  · infer_instance
  · exact isTrue trivial

section Projections

variable {f : Fleet} {st : FleetStep}

/-- Every step is a step of the session's backend, or leaves it alone. -/
theorem Fleet.next_backend (f : Fleet) (st : FleetStep) :
    (Fleet.next st f).backends = f.backends ∨
      ∃ backend, (Fleet.next st f).backends = Function.update f.backends st.session backend ∧
        (backend = f.backends st.session ∨ ∃ a, backend = PgAmqp.next ⟨a, st.outcomes⟩ (f.backends st.session)) := by
  obtain ⟨s, act, o⟩ := st
  unfold Fleet.next
  cases act with
  | outbox act =>
    dsimp only
    unfold outbox
    split
    · exact .inl rfl
    · refine .inr ⟨_, rfl, ?_⟩
      cases f.db.announces s act with
      | none => exact .inl rfl
      | some a => exact .inr ⟨a, rfl⟩
  | relay =>
    dsimp only
    unfold relay
    split
    · exact .inl rfl
    · exact .inr ⟨_, rfl, .inr ⟨_, rfl⟩⟩
  | call a =>
    dsimp only
    unfold call
    split
    · exact .inr ⟨_, rfl, .inr ⟨a, rfl⟩⟩
    · exact .inl rfl

/-- Every step is a step of the outbox, or leaves it alone. -/
theorem Fleet.next_db (f : Fleet) (st : FleetStep) :
    (Fleet.next st f).db = f.db ∨ ∃ act, (Fleet.next st f).db = Db.next ⟨st.session, act⟩ f.db ∧
      (st.action = .outbox act ∨ act = .fail ∨ act.isSend = true) := by
  obtain ⟨s, act, o⟩ := st
  unfold Fleet.next
  cases act with
  | outbox act =>
    dsimp only
    unfold outbox
    split
    · exact .inl rfl
    · exact .inr ⟨act, rfl, .inl rfl⟩
  | relay =>
    dsimp only
    unfold relay
    split
    · exact .inl rfl
    · refine .inr ⟨_, rfl, .inr ?_⟩
      unfold answered
      split
      · exact .inr rfl
      · exact .inl rfl
  | call a =>
    dsimp only
    unfold call
    split
    · dsimp only [put]
      split
      · exact .inr ⟨.fail, rfl, .inr (.inl rfl)⟩
      · exact .inl rfl
    · exact .inl rfl

end Projections

end PgAmqp
