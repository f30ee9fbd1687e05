import PgAmqp.Relay
import PgAmqp.Session

/-!
# What an enqueue promises

A message that was enqueued by a transaction that rolled back is not sent, as long as a
batch claims no row that its own transaction has inserted: every other row it can see is
committed. And what the relay sends for a row is what `amqp.autonomous_publish` would
have been called with directly, for all arguments that the table can hold.
-/
namespace PgAmqp

open Transition

namespace Db

/-- A call of `amqp.autonomous_publish`, by a finished transaction or an open one. -/
def Sent (db : Db) (x : Send) : Prop :=
  (∃ d ∈ db.finished, x ∈ d.sends) ∨ ∃ s t, db.txs s = some t ∧ x ∈ t.sends

/-- The cursor of a batch comes to a row that its own transaction has inserted. -/
def claimsOwn (db : Db) (st : OutboxStep) : Bool :=
  match db.txs st.session with
  | none => false
  | some t =>
    match t.batch with
    | none => false
    | some b => st.action == .fetch && b.cursor.head?.any t.inserted.contains

end Db

def ClaimsCommitted (db : Db) (st : OutboxStep) : Prop := db.claimsOwn st = false

instance (db : Db) (st : OutboxStep) : Decidable (ClaimsCommitted db st) :=
  inferInstanceAs (Decidable (_ = _))

namespace Db

variable {db db' : Db} {s : Nat} {act : OutboxAction}

theorem Carries.sent {C : Nat → Prop} {R : OutboxRow → Prop} {G : Send → Prop}
    (h : Carries C R G db) {x : Send} (hx : db.Sent x) : G x := by
  rcases hx with ⟨d, hd, hx⟩ | ⟨s, t, ht, hx⟩
  · exact h.finished d hd x hx
  · exact h.sends s t ht x hx

theorem Taken.keeps (h : Taken db s act db') {id : Nat} (hid : (db.table id).isSome = true) :
    (db'.table id).isSome = true := by
  rcases h.table with htable | ⟨t, -, -, -, rfl⟩
  · rw [htable]
    exact hid
  · exact seen_table hid

/-- A row that is claimed, or was sent, is committed. -/
def RelaysCommitted (db : Db) : Prop :=
  Carries (fun _ => True) (fun r => (db.table r.id).isSome = true)
    (fun x => (db.table x.id).isSome = true) db

theorem RelaysCommitted.taken (h : RelaysCommitted db) (hv : db.Versions) (hO : db.Owned)
    (hstep : Taken db s act db') (hc : db.claimsOwn ⟨s, act⟩ = false) : RelaysCommitted db' := by
  refine (Carries.taken h hstep (fun _ _ _ _ _ _ _ => trivial) ?_ fun r ok hr => hr).mono
    (fun _ hid => hid) (fun _ => hstep.keeps) (fun _ => hstep.keeps)
  rintro t b id rest r rfl ht hb hcur - hsees
  have hnot : id ∉ t.inserted := by simpa [claimsOwn, ht, hb, hcur] using hc
  have hid : r.id = id := (hv.sees ht hsees).key
  have hsome : (t.sees db.table id).isSome = true := by rw [hsees]; rfl
  rw [hid]
  exact (hO.sees_isSome ht hsome).resolve_right hnot

end Db

theorem OutboxRuns.relaysCommitted {db : Db} (h : OutboxRuns ClaimsCommitted db) :
    db.RelaysCommitted := by
  refine h.invariant ?_ fun db st hr hI hc =>
    hI.taken (OutboxRuns.versions hr) (OutboxRuns.owned hr) (Db.next_taken st db) hc
  rintro _ rfl
  exact ⟨by simp [Db.empty], by simp [Db.empty], by simp [Db.empty], by simp [Db.empty]⟩

/-- A row whose INSERT was rolled back was never sent, and is not sent later. -/
theorem rolled_back_never_sent {db : Db} (h : OutboxRuns ClaimsCommitted db) (id : Nat)
    (hid : id ∈ db.undone) (x : Send) (hx : db.Sent x) : x.id ≠ id := by
  rintro rfl
  have hsome : (db.table x.id).isSome = true := Db.Carries.sent (OutboxRuns.relaysCommitted h) hx
  exact ((OutboxRuns.owned h).table x.id hsome).2 hid

/-- One row is committed and relayed, and another one is rolled back to a savepoint. -/
def savepointRolledBack : Db := run Db.next
  [⟨0, .begin 0⟩, ⟨0, .publishOutbox .complete⟩, ⟨0, .savepoint⟩, ⟨0, .publishOutbox .complete⟩,
    ⟨0, .rollbackToSavepoint⟩, ⟨0, .commit⟩,
    ⟨1, .begin 1⟩, ⟨1, .publishOutboxBatch none (some 100)⟩, ⟨1, .fetch⟩, ⟨1, .send true⟩, ⟨1, .mark⟩,
    ⟨1, .returned⟩, ⟨1, .commit⟩] .empty

theorem savepointRolledBack_claims : OutboxRuns ClaimsCommitted savepointRolledBack := by
  unfold savepointRolledBack
  refine (OutboxRuns.empty _).run _ ?_
  decide +kernel

theorem savepointRolledBack_unsent :
    savepointRolledBack.finished.map (fun d => d.sends.map Send.id) = [[], [0]] ∧
    ∀ x, savepointRolledBack.Sent x → x.id ≠ 1 :=
  ⟨by decide +kernel, rolled_back_never_sent savepointRolledBack_claims 1 (by decide +kernel)⟩

/-- A row is enqueued and relayed in one transaction, which is then rolled back. -/
def relayedInside : Db := run Db.next
  [⟨0, .begin 0⟩, ⟨0, .publishOutbox .complete⟩, ⟨0, .publishOutboxBatch none (some 100)⟩,
    ⟨0, .fetch⟩, ⟨0, .send true⟩, ⟨0, .mark⟩, ⟨0, .returned⟩, ⟨0, .abort⟩] .empty

theorem rolled_back_sent :
    ¬ ∀ db, OutboxRuns (fun _ _ => True) db → ∀ id ∈ db.undone, ∀ x, db.Sent x → x.id ≠ id := by
  intro h
  have hreached : OutboxRuns (fun _ _ => True) relayedInside := by
    unfold relayedInside
    exact (OutboxRuns.empty _).run _ (Admits.always _ _)
  have hsent : relayedInside.Sent ⟨0, .complete, true⟩ :=
    .inl ⟨⟨false, [⟨0, .complete, true⟩]⟩, by decide +kernel, by decide⟩
  exact h _ hreached 0 (by decide +kernel) _ hsent rfl

/-- The arguments without which the table takes no row are there. -/
def PublishArgs.storable (a : PublishArgs) : Bool :=
  a.exchange.isSome && a.routingKey.isSome && a.message.isSome && a.mandatory.isSome

theorem publishOutbox_isSome (id : Nat) {a : PublishArgs} {b : Int} (hb : a.brokerId = some b) :
    (publishOutbox id a).isSome = a.storable := by
  unfold publishOutbox PublishArgs.storable
  rw [hb]
  cases a.exchange <;> cases a.routingKey <;> cases a.message <;> cases a.mandatory <;> rfl

namespace Db

variable {db db' : Db} {s : Nat} {act : OutboxAction}

/-- An id that the sequence has not given out stands for no message. -/
def Undrawn (db : Db) : Prop := ∀ id, db.nextId ≤ id → db.enqueued id = none

theorem Undrawn.taken (h : Undrawn db) (hstep : Taken db s act db') : Undrawn db' := by
  cases hstep with
  | undone db₀ t outer rest h₀ _ _ =>
    rcases h₀ with rfl | rfl
    · exact h
    · exact fun id hid => h id (Nat.le_of_succ_le hid)
  | aborted db₀ t h₀ _ =>
    rcases h₀ with rfl | rfl
    · exact h
    · exact fun id hid => h id (Nat.le_of_succ_le hid)
  | inserted t a r _ _ hr =>
    intro id hid
    have hid : db.nextId < id := hid
    have hne : id ≠ r.id := by
      rw [(publishOutbox_row hr).1]
      exact Nat.ne_of_gt hid
    exact (Function.update_of_ne hne ..).trans (h id (Nat.le_of_lt hid))
  | _ => exact h

theorem Later.trans {db'' : Db} (h : Later db db') (h' : Later db' db'') : Later db db'' :=
  ⟨Nat.le_trans h.nextId h'.nextId, fun id hid =>
    (h'.enqueued id (Nat.lt_of_lt_of_le hid h.nextId)).trans (h.enqueued id hid)⟩

end Db

theorem OutboxRuns.undrawn {ok : Db → OutboxStep → Prop} {db : Db} (h : OutboxRuns ok db) : db.Undrawn := by
  refine h.invariant ?_ fun db st _ hI _ => hI.taken (Db.next_taken st db)
  rintro _ rfl id -
  rfl

/-- The ids that were drawn stand for the same messages ever after. -/
theorem later_run {ok : Db → OutboxStep → Prop} {db db' : Db} (h : Reach (· = db) Db.next ok db') :
    db.Later db' := by
  refine h.invariant ?_ fun db' st _ hI _ => hI.trans (Db.next_taken st db').later
  rintro _ rfl
  exact .refl _

section Enqueue

variable {db db' : Db} {s : Nat} {t : Tx} {a : PublishArgs}

theorem next_publishOutbox (ht : db.txs s = some t) (hidle : t.batch = none) :
    Db.next ⟨s, .publishOutbox a⟩ db = db.enqueue s t a := by
  rw [Db.next]
  simp only [ht, hidle]
  rfl

/-- The row that an enqueue has inserted is committed with its transaction. -/
theorem insertRow_commit (hidle : t.batch = none) (r : OutboxRow) :
    (Db.next ⟨s, .commit⟩ (db.insertRow s t a r)).table r.id = some r := by
  have ht : (db.insertRow s t a r).txs s = some (t.insert r) := Function.update_self ..
  have hidle : (t.insert r).batch = none := hidle
  rw [Db.next]
  simp only [ht, hidle]
  show (t.insert r).sees db.table r.id = some r
  rw [Tx.sees, Tx.levels, seen]
  show ((t.top.write r.id (some r)).written r.id).or _ = some r
  rw [Level.write_self]
  rfl

/-- The row has the arguments of the enqueue, and every relay selects it. -/
theorem enqueue_stored (ht : db.txs s = some t) (hidle : t.batch = none) {b : Int}
    (hb : a.brokerId = some b) (ha : a.storable = true) :
    ∃ r, Db.next ⟨s, .publishOutbox a⟩ db = db.insertRow s t a r ∧ r.id = db.nextId ∧
      r.selected none = true ∧ r.selected (some b) = true := by
  obtain ⟨r, hr⟩ := Option.isSome_iff_exists.mp ((publishOutbox_isSome db.nextId hb).trans ha)
  obtain ⟨hid, hargs, hnone, -⟩ := publishOutbox_row hr
  have hbroker : some r.brokerId = some b := (congrArg PublishArgs.brokerId hargs).trans hb
  refine ⟨r, ?_, hid, ?_, ?_⟩
  · rw [next_publishOutbox ht hidle, Db.enqueue, hr]
  · simp [OutboxRow.selected, hnone]
  · simp [OutboxRow.selected, hnone, Option.some.inj hbroker]

/-- A NULL that the table does not hold fails the statement. -/
theorem enqueue_refused (ht : db.txs s = some t) (hidle : t.batch = none) {b : Int}
    (hb : a.brokerId = some b) (ha : a.storable = false) :
    Db.next ⟨s, .publishOutbox a⟩ db = db.drawId.failTx s t := by
  have hnone : publishOutbox db.nextId a = none :=
    Option.not_isSome_iff_eq_none.mp (by simp [publishOutbox_isSome db.nextId hb, ha])
  rw [next_publishOutbox ht hidle, Db.enqueue, hnone]

theorem failTx_drawn (db : Db) (s : Nat) (t : Tx) :
    (db.failTx s t).nextId = db.nextId ∧ (db.failTx s t).enqueued = db.enqueued := by
  unfold Db.failTx
  split <;> exact ⟨rfl, rfl⟩

/-- An enqueue takes all arguments that the table can hold, and then the relay does for
the row what the direct call does. With other arguments it fails, and nothing is sent. -/
theorem enqueue_relays_as_direct (h : OutboxRuns (fun _ _ => True) db) (ht : db.txs s = some t)
    (hidle : t.batch = none) {b : Int} (hb : a.brokerId = some b) :
    (a.storable = true →
      (∃ r, (Db.next ⟨s, .commit⟩ (Db.next ⟨s, .publishOutbox a⟩ db)).table db.nextId = some r ∧
        r.selected none = true ∧ r.selected (some b) = true) ∧
      ∀ db', Reach (· = Db.next ⟨s, .publishOutbox a⟩ db) Db.next (fun _ _ => True) db' →
        ∀ x, db'.Sent x → x.id = db.nextId →
          x.args.content = a.content ∧
          ∀ (session : Session) o, session.autonomousPublish o x.args = session.autonomousPublish o a) ∧
    (a.storable = false →
      Db.next ⟨s, .publishOutbox a⟩ db = db.drawId.failTx s t ∧
      ∀ db', Reach (· = Db.next ⟨s, .publishOutbox a⟩ db) Db.next (fun _ _ => True) db' →
        db'.table db.nextId = none ∧ ∀ x, db'.Sent x → x.id ≠ db.nextId) := by
  have hstep : OutboxRuns (fun _ _ => True) (Db.next ⟨s, .publishOutbox a⟩ db) := .step _ h trivial
  refine ⟨fun ha => ?_, fun ha => ?_⟩
  · obtain ⟨r, hrow, hid, hall, hone⟩ := enqueue_stored ht hidle hb ha
    rw [hrow] at hstep ⊢
    refine ⟨⟨r, hid ▸ insertRow_commit hidle r, hall, hone⟩, fun db' hdb' x hx hxid => ?_⟩
    have henq : db'.enqueued db.nextId = some a := by
      rw [(later_run hdb').enqueued db.nextId (Nat.lt_succ_self _), ← hid]
      exact Function.update_self ..
    have hsent := ((OutboxRuns.versions (Reach.trans hstep hdb')).carries.sent hx).args
    have hsame : x.args = a := Option.some.inj (hsent.symm.trans (hxid ▸ henq))
    exact ⟨by rw [hsame], fun session o => by rw [hsame]⟩
  · have hfail := enqueue_refused ht hidle hb ha
    obtain ⟨hnext, henqueued⟩ := failTx_drawn db.drawId s t
    rw [hfail] at hstep ⊢
    refine ⟨rfl, fun db' hdb' => ?_⟩
    have hv := OutboxRuns.versions (Reach.trans hstep hdb')
    have henq : db'.enqueued db.nextId = none := by
      rw [(later_run hdb').enqueued db.nextId (hnext ▸ Nat.lt_succ_self _), henqueued]
      exact OutboxRuns.undrawn h db.nextId (Nat.le_refl _)
    refine ⟨Option.not_isSome_iff_eq_none.mp fun hrow => ?_, fun x hx hxid => ?_⟩
    · obtain ⟨r, hr⟩ := Option.isSome_iff_exists.mp hrow
      exact absurd ((hv.table _ r hr).args.symm.trans henq) (by simp)
    · exact absurd ((hxid ▸ (hv.carries.sent hx).args).symm.trans henq) (by simp)

end Enqueue

/-- A transaction is open. -/
def oneOpen : Db := run Db.next [⟨0, .begin 0⟩] .empty

theorem oneOpen_relays_as_direct :
    PublishArgs.complete.storable = true ∧
    (∃ r, (Db.next ⟨0, .commit⟩ (Db.next ⟨0, .publishOutbox .complete⟩ oneOpen)).table 0 = some r ∧
      r.selected none = true ∧ r.selected (some 1) = true) ∧
    ∀ db', Reach (· = Db.next ⟨0, .publishOutbox .complete⟩ oneOpen) Db.next (fun _ _ => True) db' →
      ∀ x, db'.Sent x → x.id = 0 → x.args.content = PublishArgs.complete.content := by
  have hreached : OutboxRuns (fun _ _ => True) oneOpen := by
    unfold oneOpen
    exact (OutboxRuns.empty _).run _ (Admits.always _ _)
  obtain ⟨hrow, hsent⟩ := (enqueue_relays_as_direct (t := .start 0) (s := 0) (a := .complete) (b := 1)
    hreached rfl rfl rfl).1 rfl
  exact ⟨rfl, hrow, fun db' hdb' x hx hid => (hsent db' hdb' x hx hid).1⟩

/-- Arguments that send a message when they go to `amqp.autonomous_publish`. -/
def PublishArgs.keyless : PublishArgs := { PublishArgs.complete with routingKey := none }

/-- The direct call sends the message, and the enqueue is refused. -/
theorem keyless_not_enqueued :
    ¬ ∀ a : PublishArgs, a.brokerId.isSome = true →
      (trace (.good (.autonomousPublish a)) (.loaded {} 0)).result = some true →
      ((run Db.next [⟨0, .begin 0⟩, ⟨0, .publishOutbox a⟩, ⟨0, .commit⟩] .empty).table 0).isSome = true := by
  intro h
  have hrow := h .keyless rfl (by decide +kernel)
  revert hrow
  decide +kernel

end PgAmqp
