import PgAmqp.Fleet

/-!
# What holds in every run of a fleet

A run of the fleet is a run of the outbox and, for each session, a run of its backend. The
two agree on how deep a session is in subtransactions, so an error in the middle of a
batch rolls back the same level on both sides. And the record of the fleet agrees with the
sends of the database, which carries the accounts of the relay over to the writes that
have really left the backends.
-/
namespace PgAmqp

open Transition

section Projections

variable {ok : Db → OutboxStep → Prop} {f : Fleet}

/-- A send, and a statement that fails, are steps that the guard leaves to the database. -/
structure Lenient (ok : Db → OutboxStep → Prop) : Prop where
  send : ∀ db s b, ok db ⟨s, .send b⟩
  fail : ∀ db s, ok db ⟨s, .fail⟩

theorem ownTransaction_lenient : Lenient OwnTransaction := by
  constructor
  all_goals
    intro db s
    unfold OwnTransaction Db.ownTransaction
    intros
    dsimp only
    split <;> rfl

theorem FleetRuns.outbox (hok : Lenient ok) (h : FleetRuns (OnOutbox ok) f) : OutboxRuns ok f.db := by
  refine h.invariant (I := fun f => OutboxRuns ok f.db) (fun f hf => .init hf.db) fun f st _ hI ho => ?_
  rcases f.next_db st with hdb | ⟨act, hdb, hact⟩
  · rwa [hdb]
  · rw [hdb]
    refine .step _ hI ?_
    rcases hact with hact | rfl | hsend
    · simpa [OnOutbox, hact] using ho
    · exact hok.fail ..
    · cases act with
      | send b => exact hok.send ..
      | _ => cases hsend

theorem FleetRuns.backend {ok : Fleet → FleetStep → Prop} (h : FleetRuns ok f) (s : Nat) :
    Runs (fun _ _ => True) (f.backends s) := by
  refine h.invariant (I := fun f => ∀ s, Runs (fun _ _ => True) (f.backends s))
    (fun f hf s => .init (hf.backends s)) (fun f st _ hI _ s => ?_) s
  rcases f.next_backend st with hb | ⟨backend, hb, hback⟩
  · rw [hb]
    exact hI s
  · rw [hb]
    by_cases hs : s = st.session
    · subst hs
      rw [Function.update_self]
      rcases hback with rfl | ⟨a, rfl⟩
      · exact hI st.session
      · exact .step _ (hI st.session) trivial
    · rw [Function.update_of_ne hs]
      exact hI s

end Projections

section Nesting

variable {s : Session} {o : Int → Outcomes}

theorem abortCurrent_depth (s : Session) (o : Int → Outcomes) : (s.abortCurrent o).1.depth = s.depth - 1 := by
  unfold Session.abortCurrent
  split
  · rfl
  · show 0 = s.depth - 1
    omega

theorem call_depth (s : Session) (o : Int → Outcomes) (b : Int) (x : Outcomes → M Bool) :
    (s.call o b x).1.depth = bif (s.call o b x).2.raised.isSome then s.depth - 1 else s.depth := by
  cases hrun : x (o b) (s.cell b) with
  | ok v c =>
    rw [Session.call_ok hrun]
    rfl
  | error e c =>
    rw [Session.call_error hrun]
    exact abortCurrent_depth (s.store c) o

theorem note_depth (s : Session) (b : Int) (m : Msg) (r : Session × Trace) :
    (s.note b m r).1.depth = r.1.depth ∧ (s.note b m r).2 = r.2 := by
  unfold Session.note
  split <;> exact ⟨rfl, rfl⟩

/-- A call that raises leaves one subtransaction, if there is one. -/
theorem next_call_depth {a : Action} (ha : a.isCall = true) (s : Session) (o : Int → Outcomes) :
    (next ⟨a, o⟩ s).depth = bif (trace ⟨a, o⟩ s).raised.isSome then s.depth - 1 else s.depth := by
  unfold next trace exec
  cases a with
  | publish a =>
    dsimp only
    unfold Session.publish
    cases a.brokerId with
    | none => rfl
    | some b =>
      dsimp only
      rw [(note_depth s b _ _).1, (note_depth s b _ _).2]
      exact call_depth s o b _
  | autonomousPublish a =>
    dsimp only
    unfold Session.autonomousPublish
    cases a.brokerId with
    | none => rfl
    | some b => exact call_depth s o b _
  | exchangeDeclare a =>
    dsimp only
    unfold Session.exchangeDeclare
    cases a.brokerId with
    | none => rfl
    | some b => exact call_depth s o b _
  | disconnect b? =>
    cases b? with
    | none => rfl
    | some b => exact call_depth s o b fun _ => do localAmqpDisconnect; return true
  | set g => rfl
  | _ => cases ha

theorem next_commitSub_depth : (next ⟨.commitSub, o⟩ s).depth = s.depth - 1 := by
  unfold next exec
  dsimp only
  split
  · rfl
  · show s.depth = s.depth - 1
    omega

theorem next_abortSub_depth : (next ⟨.abortSub, o⟩ s).depth = s.depth - 1 := by
  unfold next exec
  dsimp only
  split
  · rfl
  · show s.depth = s.depth - 1
    omega

namespace Db

variable {db : Db} {i : Nat} {t : Tx}

theorem nesting_some (h : db.txs i = some t) : db.nesting i = t.outer.length := by
  simp [nesting, h]

theorem nesting_put (db : Db) (i : Nat) (t : Tx) : (db.put i t).nesting i = t.outer.length := by
  simp [nesting, put]

theorem nesting_endTx (db : Db) (i : Nat) (t : Tx) (c : Bool) : (db.endTx i t c).nesting i = 0 := by
  simp [nesting, endTx]

theorem nesting_undoTop (db : Db) (i : Nat) (t : Tx) (outer : Level) (rest : List Level) :
    (db.undoTop i t outer rest).nesting i = rest.length := by
  simp [nesting, undoTop, put, Tx.undo]

theorem nesting_failTx (db : Db) (i : Nat) (t : Tx) : (db.failTx i t).nesting i = t.outer.length - 1 := by
  unfold failTx
  cases h : t.outer with
  | nil => exact nesting_endTx ..
  | cons outer rest => exact nesting_undoTop ..

theorem nesting_fetch (ht : db.txs i = some t) (b : Batch) : (db.fetch i t b).nesting i = t.outer.length := by
  unfold fetch
  split
  · exact nesting_some ht
  · split
    · unfold fetchNext
      split
      · rw [nesting_put, Tx.fetch_outer]
      · show (db.put i _).nesting i = _
        rw [nesting_put, Tx.fetch_outer, lockRow_outer]
    · exact nesting_some ht

theorem nesting_mark (ht : db.txs i = some t) (b : Batch) : (db.mark i t b).nesting i = t.outer.length := by
  unfold mark
  split
  · exact nesting_some ht
  · exact nesting_put ..

theorem nesting_returned (ht : db.txs i = some t) (b : Batch) :
    (db.running i t b .returned).nesting i = t.outer.length := by
  unfold running
  dsimp only
  split
  · exact nesting_put ..
  · exact nesting_some ht

theorem nesting_send (db : Db) (i : Nat) (ok : Bool) : (Db.next ⟨i, .send ok⟩ db).nesting i = db.nesting i := by
  unfold Db.next
  cases ht : db.txs i with
  | none => rfl
  | some t =>
    rw [nesting_some ht]
    cases hb : t.batch with
    | none =>
      simp only [hb]
      exact nesting_some ht
    | some b =>
      simp only [hb]
      show (db.send i t b ok).nesting i = _
      unfold send
      split
      · exact nesting_some ht
      · split
        · exact nesting_put ..
        · exact nesting_some ht

theorem nesting_fail (db : Db) (i : Nat) : (Db.next ⟨i, .fail⟩ db).nesting i = db.nesting i - 1 := by
  unfold Db.next
  cases ht : db.txs i with
  | none => simp [nesting, ht]
  | some t =>
    rw [nesting_some ht]
    cases hb : t.batch with
    | none =>
      simp only [hb]
      exact nesting_failTx ..
    | some b =>
      simp only [hb]
      exact nesting_failTx ..

end Db

theorem told_failing_depth (s : Session) (o : Int → Outcomes) (t : Tx) (h : s.depth = t.outer.length) :
    (s.told o (some t.failing)).depth = t.outer.length - 1 := by
  unfold Tx.failing Session.told
  cases ho : t.outer with
  | nil => rfl
  | cons outer rest =>
    rw [← ho, ← h, ho]
    exact next_abortSub_depth

/-- The callbacks hear of all steps that open or leave a subtransaction. -/
theorem told_depth {db : Db} {i : Nat} {act : OutboxAction} (h : s.depth = db.nesting i)
    (hact : act.isSend = false) :
    (s.told o (db.announces i act)).depth = (Db.next ⟨i, act⟩ db).nesting i := by
  unfold Db.next Db.announces
  cases ht : db.txs i with
  | none =>
    have hz : db.nesting i = 0 := by simp [Db.nesting, ht]
    cases act with
    | begin now => exact (h.trans hz).trans (db.nesting_put i (.start now)).symm
    | _ => exact h
  | some t =>
    have hlen : s.depth = t.outer.length := h.trans (Db.nesting_some ht)
    cases hb : t.batch with
    | none =>
      simp only [hb]
      cases act with
      | savepoint =>
        show s.depth + 1 = _
        rw [hlen]
        exact (db.nesting_put i t.savepoint).symm
      | releaseSavepoint =>
        dsimp only [Db.idle]
        cases ho : t.outer with
        | nil => exact h
        | cons outer rest =>
          refine next_commitSub_depth.trans ?_
          rw [hlen, ho]
          exact (db.nesting_put i (t.release outer rest)).symm
      | rollbackToSavepoint =>
        dsimp only [Db.idle]
        cases ho : t.outer with
        | nil => exact h
        | cons outer rest =>
          refine next_abortSub_depth.trans ?_
          rw [hlen, ho]
          exact (db.nesting_undoTop i t outer rest).symm
      | commit => exact (db.nesting_endTx i t true).symm
      | abort => exact (db.nesting_endTx i t false).symm
      | publishOutbox a =>
        dsimp only [Db.idle]
        unfold Db.enqueue
        cases publishOutbox db.nextId a with
        | none => exact (told_failing_depth s o t hlen).trans (Db.nesting_failTx ..).symm
        | some r => exact hlen.trans (db.drawId.nesting_put i (t.insert r)).symm
      | publishOutboxBatch brokerId batchLimit =>
        exact hlen.trans (db.nesting_put i (t.call brokerId (db.candidates t brokerId) batchLimit)).symm
      | fail => exact (told_failing_depth s o t hlen).trans (Db.nesting_failTx ..).symm
      | _ => exact h
    | some b =>
      simp only [hb]
      cases act with
      | abort => exact (db.nesting_endTx i t false).symm
      | fail => exact (told_failing_depth s o t hlen).trans (Db.nesting_failTx ..).symm
      | send ok => cases hact
      | fetch => exact hlen.trans (Db.nesting_fetch ht b).symm
      | mark => exact hlen.trans (Db.nesting_mark ht b).symm
      | returned => exact hlen.trans (Db.nesting_returned ht b).symm
      | _ => exact h

/-- The session that moves is as deep in its backend as in the database. -/
theorem put_aligned {f : Fleet} (hf : ∀ i, (f.backends i).depth = f.db.nesting i) {i : Nat} {db : Db}
    {backend : Session} (relayed : List Relayed) (hother : ∀ i' ≠ i, db.txs i' = f.db.txs i')
    (hi : backend.depth = db.nesting i) (i' : Nat) :
    ((f.put i db backend relayed).backends i').depth = (f.put i db backend relayed).db.nesting i' := by
  show (Function.update f.backends i backend i').depth = db.nesting i'
  by_cases hs : i' = i
  · subst hs
    rwa [Function.update_self]
  · rw [Function.update_of_ne hs, hf i', Db.nesting, Db.nesting, hother i' hs]

/-- A call for a row returns or raises. -/
theorem relay_answer {s : Session} (hs : s.Shaped) (o : Int → Outcomes) (r : OutboxRow) :
    let t := trace ⟨.autonomousPublish r.args, o⟩ s
    (∃ ok, t.result = some ok ∧ t.raised = none) ∨ t.result = none ∧ t.raised.isSome = true := by
  intro t
  rcases autonomousPublish_writes hs o (a := r.args) rfl with ⟨ok, hr, hn, -⟩ | ⟨hr, hn, -⟩
  · exact .inl ⟨ok, hr, hn⟩
  · exact .inr ⟨hr, hn⟩

/-- In every run the backends and the database agree on the open subtransactions. -/
theorem FleetRuns.aligned {ok : Fleet → FleetStep → Prop} {f : Fleet} (h : FleetRuns ok f) (i : Nat) :
    (f.backends i).depth = f.db.nesting i := by
  refine h.invariant (I := fun f => ∀ i, (f.backends i).depth = f.db.nesting i) (fun f hf i => ?_)
    (fun f st hr hI _ i' => ?_) i
  · rw [(hf.backends i).depth, hf.db]
    rfl
  · obtain ⟨i, act, o⟩ := st
    unfold Fleet.next
    have other : ∀ act i', i' ≠ i → (Db.next ⟨i, act⟩ f.db).txs i' = f.db.txs i' := fun act i' hi =>
      (Db.next_taken ⟨i, act⟩ f.db).other hi
    cases act with
    | outbox act =>
      dsimp only
      unfold Fleet.outbox
      split
      · exact hI i'
      · rename_i hsend
        exact put_aligned hI [] (other act) (told_depth (hI i) (Bool.eq_false_iff.mpr hsend)) i'
    | relay =>
      dsimp only
      unfold Fleet.relay
      split
      · exact hI i'
      · rename_i r _
        refine put_aligned hI _ (other _) ?_ i'
        rw [next_call_depth rfl, hI i]
        unfold Fleet.answered
        rcases relay_answer (Runs.shaped (FleetRuns.backend hr i)) o r with ⟨ok, hres, hnone⟩ | ⟨hres, hsome⟩
        · rw [hres, hnone]
          exact (Db.nesting_send f.db i ok).symm
        · rw [hres, hsome]
          exact (Db.nesting_fail f.db i).symm
    | call a =>
      dsimp only
      unfold Fleet.call
      split
      · rename_i ha
        have ha : a.isCall = true := (Bool.and_eq_true_iff.mp ha).2
        refine put_aligned hI [] (fun i' hi => ?_) ?_ i'
        · split
          · exact other .fail i' hi
          · rfl
        · rw [next_call_depth ha, hI i]
          cases (trace ⟨a, o⟩ (f.backends i)).raised with
          | none => rfl
          | some e => exact (Db.nesting_fail f.db i).symm
      · exact hI i'

end Nesting

end PgAmqp
