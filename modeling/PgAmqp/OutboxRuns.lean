import PgAmqp.Outbox

/-!
# What an action may do to the outbox

`Taken` lists the ways in which one action changes the database, with what held when it
was taken; `next_taken` is the one place where the actions are taken apart. Two facts
hold in every run. Each version of a row carries the arguments with which the row was
enqueued. And a row that was inserted and is not committed belongs to one open level of
one transaction, so what is undone was never committed.
-/
namespace PgAmqp

open Transition

namespace Db

/-- The ways in which an action of session `s` changes the database. An INSERT that
fails has drawn an id before the rollback. -/
inductive Taken (db : Db) (s : Nat) : OutboxAction → Db → Prop where
  | skip {act : OutboxAction} : Taken db s act db
  | begin (now : Nat) : db.txs s = none → Taken db s (.begin now) (db.put s (.start now))
  | savepoint (t : Tx) : db.txs s = some t → t.batch = none → Taken db s .savepoint (db.put s t.savepoint)
  | release (t : Tx) (outer : Level) (rest : List Level) : db.txs s = some t → t.batch = none →
      t.outer = outer :: rest → Taken db s .releaseSavepoint (db.put s (t.release outer rest))
  | undone {act : OutboxAction} (db₀ : Db) (t : Tx) (outer : Level) (rest : List Level) :
      db₀ = db ∨ db₀ = db.drawId → db.txs s = some t → t.outer = outer :: rest →
      Taken db s act (db₀.undoTop s t outer rest)
  | aborted {act : OutboxAction} (db₀ : Db) (t : Tx) : db₀ = db ∨ db₀ = db.drawId →
      db.txs s = some t → Taken db s act (db₀.endTx s t false)
  | committed (t : Tx) : db.txs s = some t → t.batch = none → Taken db s .commit (db.endTx s t true)
  | inserted (t : Tx) (a : PublishArgs) (r : OutboxRow) : db.txs s = some t → t.batch = none →
      PgAmqp.publishOutbox db.nextId a = some r →
      Taken db s (.publishOutbox a) (db.insertRow s t a r)
  | called (t : Tx) (brokerId : Option Int) (batchLimit : Option Nat) : db.txs s = some t →
      t.batch = none → Taken db s (.publishOutboxBatch brokerId batchLimit)
        (db.put s (t.call brokerId (db.candidates t brokerId) batchLimit))
  | passed (t : Tx) (b : Batch) (id : Nat) (rest : List Nat) : db.txs s = some t →
      t.batch = some b → b.cursor = id :: rest → (db.holder id).any (· != s) = true →
      Taken db s .fetch (db.put s (t.fetch b rest none))
  | claimed (t : Tx) (b : Batch) (id : Nat) (rest : List Nat) (r : Option OutboxRow) :
      db.txs s = some t → t.batch = some b → b.cursor = id :: rest → b.awaiting = none →
      (db.holder id).any (· != s) = false →
      r = (t.sees db.table id).filter (·.selected b.brokerId) →
      Taken db s .fetch (db.claim s t b id rest r)
  | sent (t : Tx) (b : Batch) (r : OutboxRow) (rest : List OutboxRow) (ok : Bool) :
      db.txs s = some t → t.batch = some b → b.fetched = r :: rest → b.awaiting = none →
      Taken db s (.send ok) (db.put s (t.send b r rest ok))
  | marked (t : Tx) (b : Batch) (id : Nat) (ok : Bool) : db.txs s = some t → t.batch = some b →
      b.awaiting = some (id, ok) →
      Taken db s .mark (db.put s (t.mark b id ok (t.sees db.table id)))
  | returned (t : Tx) (b : Batch) : db.txs s = some t → t.batch = some b → b.over = true →
      Taken db s .returned (db.put s (t.returned b))

section Cases

variable {db : Db} {s : Nat} {t : Tx} {b : Batch}

theorem failTx_taken {act : OutboxAction} {db₀ : Db} (h₀ : db₀ = db ∨ db₀ = db.drawId)
    (ht : db.txs s = some t) : Taken db s act (db₀.failTx s t) := by
  unfold failTx
  cases ho : t.outer with
  | nil => exact .aborted db₀ t h₀ ht
  | cons outer rest => exact .undone db₀ t outer rest h₀ ht ho

theorem enqueue_taken (ht : db.txs s = some t) (hb : t.batch = none) (a : PublishArgs) :
    Taken db s (.publishOutbox a) (db.enqueue s t a) := by
  unfold enqueue
  cases hr : PgAmqp.publishOutbox db.nextId a with
  | none => exact failTx_taken (.inr rfl) ht
  | some r => exact .inserted t a r ht hb hr

theorem idle_taken (ht : db.txs s = some t) (hb : t.batch = none) (act : OutboxAction) :
    Taken db s act (db.idle s t act) := by
  cases act with
  | savepoint => exact .savepoint t ht hb
  | releaseSavepoint =>
    unfold idle
    cases ho : t.outer with
    | nil => exact .skip
    | cons outer rest => exact .release t outer rest ht hb ho
  | rollbackToSavepoint =>
    unfold idle
    cases ho : t.outer with
    | nil => exact .skip
    | cons outer rest => exact .undone db t outer rest (.inl rfl) ht ho
  | commit => exact .committed t ht hb
  | abort => exact .aborted db t (.inl rfl) ht
  | publishOutbox a => exact enqueue_taken ht hb a
  | publishOutboxBatch brokerId batchLimit => exact .called t brokerId batchLimit ht hb
  | fail => exact failTx_taken (.inl rfl) ht
  | _ => exact .skip

theorem fetch_taken (ht : db.txs s = some t) (hb : t.batch = some b) :
    Taken db s .fetch (db.fetch s t b) := by
  unfold fetch fetchNext
  cases hc : b.cursor with
  | nil => exact .skip
  | cons id rest =>
    dsimp only
    split
    · rename_i hready
      split
      · rename_i hheld
        exact .passed t b id rest ht hb hc hheld
      · rename_i hfree
        exact .claimed t b id rest _ ht hb hc (Option.isNone_iff_eq_none.mp hready.1)
          (Bool.eq_false_iff.mpr hfree) rfl
    · exact .skip

theorem running_taken (ht : db.txs s = some t) (hb : t.batch = some b) (act : OutboxAction) :
    Taken db s act (db.running s t b act) := by
  cases act with
  | fetch => exact fetch_taken ht hb
  | send ok =>
    unfold running send
    cases hf : b.fetched with
    | nil => exact .skip
    | cons r rest =>
      dsimp only
      split
      · rename_i ha
        exact .sent t b r rest ok ht hb hf (Option.isNone_iff_eq_none.mp ha)
      · exact .skip
  | mark =>
    unfold running mark
    cases ha : b.awaiting with
    | none => exact .skip
    | some x => exact .marked t b x.1 x.2 ht hb ha
  | returned =>
    unfold running
    dsimp only
    split
    · rename_i ho
      exact .returned t b ht hb ho
    · exact .skip
  | abort => exact .aborted db t (.inl rfl) ht
  | fail => exact failTx_taken (.inl rfl) ht
  | _ => exact .skip

/-- Only the commit of a transaction changes the committed versions. -/
theorem Taken.table {act : OutboxAction} {db' : Db} (h : Taken db s act db') :
    db'.table = db.table ∨ ∃ t, act = .commit ∧ db.txs s = some t ∧ t.batch = none ∧
      db' = db.endTx s t true := by
  cases h with
  | committed t ht hb => exact .inr ⟨t, rfl, ht, hb, rfl⟩
  | undone db₀ t outer rest h₀ _ _ => rcases h₀ with rfl | rfl <;> exact .inl rfl
  | aborted db₀ t h₀ _ => rcases h₀ with rfl | rfl <;> exact .inl rfl
  | _ => exact .inl rfl

/-- Only the session that moves changes its transaction. -/
theorem Taken.other {act : OutboxAction} {db' : Db} (h : Taken db s act db') {s' : Nat} (hs : s' ≠ s) :
    db'.txs s' = db.txs s' := by
  cases h with
  | skip => rfl
  | undone db₀ t outer rest h₀ _ _ => rcases h₀ with rfl | rfl <;> exact Function.update_of_ne hs ..
  | aborted db₀ t h₀ _ => rcases h₀ with rfl | rfl <;> exact Function.update_of_ne hs ..
  | _ => exact Function.update_of_ne hs ..

/-- Every step is one of these. -/
theorem next_taken (st : OutboxStep) (db : Db) :
    Taken db st.session st.action (next st db) := by
  obtain ⟨s, act⟩ := st
  unfold next
  dsimp only
  cases ht : db.txs s with
  | none => cases act <;> first | exact .begin _ ht | exact .skip
  | some t =>
    dsimp only
    cases hb : t.batch with
    | none => exact idle_taken ht hb act
    | some b => exact running_taken ht hb act

end Cases

end Db

namespace Tx

@[simp] theorem start_sends (now : Nat) : (start now).sends = [] := rfl
@[simp] theorem start_batch (now : Nat) : (start now).batch = none := rfl
@[simp] theorem start_inserted (now : Nat) : (start now).inserted = [] := rfl

@[simp] theorem fetch_sends (t : Tx) (b : Batch) (rest : List Nat) (r : Option OutboxRow) :
    (t.fetch b rest r).sends = t.sends := by cases r <;> rfl

@[simp] theorem fetch_top (t : Tx) (b : Batch) (rest : List Nat) (r : Option OutboxRow) :
    (t.fetch b rest r).top = t.top := by cases r <;> rfl

@[simp] theorem fetch_outer (t : Tx) (b : Batch) (rest : List Nat) (r : Option OutboxRow) :
    (t.fetch b rest r).outer = t.outer := by cases r <;> rfl

@[simp] theorem fetch_called (t : Tx) (b : Batch) (rest : List Nat) (r : Option OutboxRow) :
    (t.fetch b rest r).called = t.called := by cases r <;> rfl

@[simp] theorem fetch_now (t : Tx) (b : Batch) (rest : List Nat) (r : Option OutboxRow) :
    (t.fetch b rest r).now = t.now := by cases r <;> rfl

/-- What the batch is like after the cursor went on. -/
theorem fetch_batch (t : Tx) (b : Batch) (rest : List Nat) (r : Option OutboxRow) :
    ∃ b', (t.fetch b rest r).batch = some b' ∧ b'.cursor = rest ∧ b'.awaiting = b.awaiting ∧
      b'.fetched = b.fetched ++ r.toList := by
  cases r with
  | none => exact ⟨_, rfl, rfl, rfl, by simp⟩
  | some r => exact ⟨_, rfl, rfl, rfl, rfl⟩

end Tx

namespace Db

@[simp] theorem lockRow_sends (db : Db) (s : Nat) (t : Tx) (id : Nat) :
    (db.lockRow s t id).sends = t.sends := by unfold lockRow; split <;> rfl

@[simp] theorem lockRow_outer (db : Db) (s : Nat) (t : Tx) (id : Nat) :
    (db.lockRow s t id).outer = t.outer := by unfold lockRow; split <;> rfl

@[simp] theorem lockRow_written (db : Db) (s : Nat) (t : Tx) (id : Nat) :
    (db.lockRow s t id).top.written = t.top.written := by unfold lockRow; split <;> rfl

@[simp] theorem lockRow_inserted (db : Db) (s : Nat) (t : Tx) (id : Nat) :
    (db.lockRow s t id).top.inserted = t.top.inserted := by unfold lockRow; split <;> rfl

@[simp] theorem lockRow_called (db : Db) (s : Nat) (t : Tx) (id : Nat) :
    (db.lockRow s t id).called = t.called := by unfold lockRow; split <;> rfl

@[simp] theorem lockRow_now (db : Db) (s : Nat) (t : Tx) (id : Nat) :
    (db.lockRow s t id).now = t.now := by unfold lockRow; split <;> rfl

/-- The open transactions after that of one session has changed. -/
theorem update_txs {txs : Nat → Option Tx} {s s' : Nat} {x : Option Tx} {t' : Tx}
    (h : Function.update txs s x s' = some t') : (s' = s ∧ x = some t') ∨ (s' ≠ s ∧ txs s' = some t') := by
  by_cases hs : s' = s
  · subst hs
    rw [Function.update_self] at h
    exact .inl ⟨rfl, h⟩
  · rw [Function.update_of_ne hs] at h
    exact .inr ⟨hs, h⟩

/-- The ids under a cursor have `C`, the claimed rows `R`, and what was sent `G`. -/
structure Carries (C : Nat → Prop) (R : OutboxRow → Prop) (G : Send → Prop) (db : Db) : Prop where
  cursor : ∀ s t b, db.txs s = some t → t.batch = some b → ∀ id ∈ b.cursor, C id
  fetched : ∀ s t b, db.txs s = some t → t.batch = some b → ∀ r ∈ b.fetched, R r
  sends : ∀ s t, db.txs s = some t → ∀ x ∈ t.sends, G x
  finished : ∀ d ∈ db.finished, ∀ x ∈ d.sends, G x

section Carries

variable {C : Nat → Prop} {R : OutboxRow → Prop} {G : Send → Prop} {db db' : Db}

theorem Carries.mono {C' : Nat → Prop} {R' : OutboxRow → Prop} {G' : Send → Prop}
    (h : Carries C R G db) (hC : ∀ id, C id → C' id) (hR : ∀ r, R r → R' r) (hG : ∀ x, G x → G' x) :
    Carries C' R' G' db :=
  ⟨fun s t b ht hb id hid => hC id (h.cursor s t b ht hb id hid),
    fun s t b ht hb r hr => hR r (h.fetched s t b ht hb r hr),
    fun s t ht x hx => hG x (h.sends s t ht x hx), fun d hd x hx => hG x (h.finished d hd x hx)⟩

/-- The transaction of one session changes, and what it carries is checked there. -/
theorem Carries.change (h : Carries C R G db) {s : Nat} {x : Option Tx}
    (htxs : db'.txs = Function.update db.txs s x)
    (hfin : ∀ d ∈ db'.finished, d ∈ db.finished ∨ ∀ x ∈ d.sends, G x)
    (hbatch : ∀ t b, x = some t → t.batch = some b →
      (∀ id ∈ b.cursor, C id) ∧ ∀ r ∈ b.fetched, R r)
    (hsends : ∀ t, x = some t → ∀ y ∈ t.sends, G y) : Carries C R G db' := by
  refine ⟨fun s' t b ht hb => ?_, fun s' t b ht hb => ?_, fun s' t ht => ?_, fun d hd y hy => ?_⟩
  · rcases update_txs (htxs ▸ ht) with ⟨-, hx⟩ | ⟨-, ht⟩
    · exact (hbatch t b hx hb).1
    · exact h.cursor s' t b ht hb
  · rcases update_txs (htxs ▸ ht) with ⟨-, hx⟩ | ⟨-, ht⟩
    · exact (hbatch t b hx hb).2
    · exact h.fetched s' t b ht hb
  · rcases update_txs (htxs ▸ ht) with ⟨-, hx⟩ | ⟨-, ht⟩
    · exact hsends t hx
    · exact h.sends s' t ht
  · rcases hfin d hd with hd | hd
    · exact h.finished d hd y hy
    · exact hd y hy

/-- A transaction without a batch that has sent no more than before. -/
theorem Carries.quiet (h : Carries C R G db) {s : Nat} {t : Tx} (t' : Tx) (ht : db.txs s = some t)
    (hb : t'.batch = none) (hs : t'.sends = t.sends) (htxs : db'.txs = Function.update db.txs s (some t'))
    (hfin : db'.finished = db.finished) : Carries C R G db' := by
  refine h.change htxs (fun d hd => .inl (hfin ▸ hd)) (fun t₁ b hx hb₁ => ?_) (fun t₁ hx => ?_)
  · obtain rfl : t' = t₁ := Option.some.inj hx
    simp [hb] at hb₁
  · obtain rfl : t' = t₁ := Option.some.inj hx
    rw [hs]
    exact h.sends s t ht

/-- A transaction in a batch that has sent no more than before. -/
theorem Carries.busy (h : Carries C R G db) {s : Nat} {t : Tx} {b' : Batch} (t' : Tx)
    (ht : db.txs s = some t) (hb : t'.batch = some b') (hC : ∀ id ∈ b'.cursor, C id)
    (hR : ∀ r ∈ b'.fetched, R r) (hs : t'.sends = t.sends)
    (htxs : db'.txs = Function.update db.txs s (some t')) (hfin : db'.finished = db.finished) :
    Carries C R G db' := by
  refine h.change htxs (fun d hd => .inl (hfin ▸ hd)) (fun t₁ b hx hb₁ => ?_) (fun t₁ hx => ?_)
  · obtain rfl : t' = t₁ := Option.some.inj hx
    obtain rfl : b' = b := Option.some.inj (hb.symm.trans hb₁)
    exact ⟨hC, hR⟩
  · obtain rfl : t' = t₁ := Option.some.inj hx
    rw [hs]
    exact h.sends s t ht

/-- The end of a transaction. -/
theorem Carries.ended (h : Carries C R G db) {s : Nat} {t : Tx} {committed : Bool}
    (ht : db.txs s = some t) (htxs : db'.txs = db.txs) (hfin : db'.finished = db.finished) :
    Carries C R G (db'.endTx s t committed) := by
  have htxs : (db'.endTx s t committed).txs = Function.update db.txs s none := by
    rw [← htxs]
    rfl
  refine h.change htxs (fun d hd => ?_) (by simp) (by simp)
  have hd : d ∈ db.finished ++ [⟨committed, t.sends⟩] := hfin ▸ hd
  rcases List.mem_append.mp hd with hd | hd
  · exact .inl hd
  · rw [List.mem_singleton.mp hd]
    exact .inr (h.sends s t ht)

/-- A step carries on what the snapshot of a call selects. -/
theorem Carries.taken (h : Carries C R G db) {s : Nat} {act : OutboxAction} (hstep : Taken db s act db')
    (hcall : ∀ t brokerId batchLimit, act = .publishOutboxBatch brokerId batchLimit →
      db.txs s = some t → ∀ id ∈ db.candidates t brokerId, C id)
    (hclaim : ∀ t b id rest r, act = .fetch → db.txs s = some t → t.batch = some b →
      b.cursor = id :: rest → C id → t.sees db.table id = some r → R r)
    (hsend : ∀ r ok, R r → G ⟨r.id, r.args, ok⟩) : Carries C R G db' := by
  cases hstep with
  | skip => exact h
  | begin now _ =>
    refine h.change rfl (fun d hd => .inl hd) (fun t b hx hb => ?_) (fun t hx => ?_)
    · obtain rfl : Tx.start now = t := Option.some.inj hx
      simp at hb
    · obtain rfl : Tx.start now = t := Option.some.inj hx
      simp
  | savepoint t ht hb => exact h.quiet t.savepoint ht hb rfl rfl rfl
  | release t outer rest ht hb _ => exact h.quiet (t.release outer rest) ht hb rfl rfl rfl
  | undone db₀ t outer rest h₀ ht _ =>
    rcases h₀ with rfl | rfl <;> exact h.quiet (t.undo outer rest) ht rfl rfl rfl rfl
  | aborted db₀ t h₀ ht => rcases h₀ with rfl | rfl <;> exact h.ended ht rfl rfl
  | committed t ht _ => exact h.ended ht rfl rfl
  | inserted t a r ht hb _ => exact h.quiet (t.insert r) ht hb rfl rfl rfl
  | called t brokerId batchLimit ht _ =>
    exact h.busy (t.call brokerId (db.candidates t brokerId) batchLimit) ht rfl
      (hcall t brokerId batchLimit rfl ht) (by simp) rfl rfl rfl
  | passed t b id rest ht hb hc _ =>
    refine h.busy (t.fetch b rest none) ht rfl (fun id' hid => ?_)
      (h.fetched s t b ht hb) rfl rfl rfl
    exact h.cursor s t b ht hb id' (hc ▸ List.mem_cons_of_mem id hid)
  | claimed t b id rest r ht hb hc _ _ hr =>
    obtain ⟨b', hb', hcursor, -, hfetched⟩ := (db.lockRow s t id).fetch_batch b rest r
    refine h.busy _ ht hb' (fun id' hid => ?_) (fun r' hr' => ?_) (by simp) rfl rfl
    · rw [hcursor] at hid
      exact h.cursor s t b ht hb id' (hc ▸ List.mem_cons_of_mem id hid)
    · rw [hfetched] at hr'
      rcases List.mem_append.mp hr' with hr' | hr'
      · exact h.fetched s t b ht hb r' hr'
      · obtain ⟨hsees, -⟩ := Option.filter_eq_some_iff.mp (hr.symm.trans (Option.mem_toList.mp hr'))
        exact hclaim t b id rest r' rfl ht hb hc (h.cursor s t b ht hb id (by simp [hc])) hsees
  | sent t b r rest ok ht hb hf _ =>
    refine h.change rfl (fun d hd => .inl hd) (fun t₁ b₁ hx hb₁ => ?_) (fun t₁ hx y hy => ?_)
    · obtain rfl : t.send b r rest ok = t₁ := Option.some.inj hx
      obtain rfl := Option.some.inj hb₁
      exact ⟨h.cursor s t b ht hb, fun r' hr' =>
        h.fetched s t b ht hb r' (hf ▸ List.mem_cons_of_mem r hr')⟩
    · obtain rfl : t.send b r rest ok = t₁ := Option.some.inj hx
      rcases List.mem_append.mp hy with hy | hy
      · exact h.sends s t ht y hy
      · rw [List.mem_singleton.mp hy]
        exact hsend r ok (h.fetched s t b ht hb r (by simp [hf]))
  | marked t b id ok ht hb _ =>
    exact h.busy (t.mark b id ok (t.sees db.table id)) ht rfl (h.cursor s t b ht hb)
      (h.fetched s t b ht hb) rfl rfl rfl
  | returned t b ht _ _ => exact h.quiet (t.returned b) ht rfl rfl rfl rfl

end Carries

end Db

end PgAmqp
