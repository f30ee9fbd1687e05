import Mathlib.Algebra.GroupWithZero.Nat
import Mathlib.Data.List.Nodup
import PgAmqp.OutboxRows

/-!
# The relay of the outbox

Relay workers run `amqp.publish_outbox_batch`, each call as a transaction of its own. A
send cannot be undone, while the mark of a row is part of the transaction. What ties
them together is the row lock: from the moment a worker has found a row unpublished to
the end of its transaction nobody else can publish it. `Working` says so for the rows
that a worker has claimed or sent, and the accounts of the finished transactions follow.
-/
namespace PgAmqp

open Transition

/-- A batch is called in a transaction that does nothing else. -/
def Db.ownTransaction (db : Db) (st : OutboxStep) : Bool :=
  match db.txs st.session with
  | none => true
  | some t =>
    match st.action with
    | .publishOutbox _ => !t.called
    | .savepoint => !t.called
    | .publishOutboxBatch _ _ => !t.called && t.inserted.isEmpty && t.outer.isEmpty
    | _ => true

def OwnTransaction (db : Db) (st : OutboxStep) : Prop := db.ownTransaction st = true

instance (db : Db) (st : OutboxStep) : Decidable (OwnTransaction db st) :=
  inferInstanceAs (Decidable (_ = _))

/-- The transaction committed, and it sent the row or tried to. -/
def Done.tried (id : Nat) (d : Done) : Bool := d.committed && d.sends.any (·.id == id)

/-- The transaction committed, and its send of the row returned true. -/
def Done.delivered (id : Nat) (d : Done) : Bool :=
  d.committed && d.sends.any fun x => x.id == id && x.ok

/-- The transaction was rolled back after its send of the row had returned true. -/
def Done.repeated (id : Nat) (d : Done) : Bool :=
  !d.committed && d.sends.any fun x => x.id == id && x.ok

/-- The number of sends of a row that returned true, in finished transactions. -/
def trueSends (finished : List Done) (id : Nat) : Nat :=
  (finished.map fun d => d.sends.countP fun x => x.id == id && x.ok).sum

/-- A row is committed as published. -/
def published (x : Option OutboxRow) : Bool := x.any (·.publishedAt.isSome)

/-- What the committed version of a row tells about the finished transactions. -/
structure Db.Balanced (db : Db) (id : Nat) : Prop where
  delivered : db.finished.countP (Done.delivered id) = if published (db.table id) = true then 1 else 0
  tried : db.finished.countP (Done.tried id) = ((db.table id).map OutboxRow.attempts).getD 0

theorem countP_once {sends : List Send} (h : (sends.map Send.id).Nodup) (id : Nat) :
    (sends.countP fun x => x.id == id && x.ok) =
      if (sends.any fun x => x.id == id && x.ok) = true then 1 else 0 := by
  induction sends with
  | nil => rfl
  | cons x rest ih =>
    obtain ⟨hnot, hrest⟩ := List.nodup_cons.mp h
    rw [List.countP_cons, ih hrest, List.any_cons]
    by_cases hx : (x.id == id && x.ok) = true
    · have hid : x.id = id := by simp_all
      have hnone : (rest.any fun x => x.id == id && x.ok) = false := by
        rw [List.any_eq_false]
        intro y hy
        have : y.id ≠ id := fun hyid => hnot (hid ▸ hyid ▸ List.mem_map_of_mem hy)
        simp [this]
      simp [hx, hnone]
    · simp [hx]

/-- Every send that returned true is accounted for once. -/
theorem trueSends_eq {finished : List Done} (h : ∀ d ∈ finished, (d.sends.map Send.id).Nodup) (id : Nat) :
    trueSends finished id =
      finished.countP (Done.delivered id) + finished.countP (Done.repeated id) := by
  induction finished with
  | nil => rfl
  | cons d rest ih =>
    have hd : (d.sends.map Send.id).Nodup := h d (List.mem_cons_self ..)
    have ih := ih fun d' hd' => h d' (List.mem_cons_of_mem d hd')
    have hcons : trueSends (d :: rest) id =
        (d.sends.countP fun x => x.id == id && x.ok) + trueSends rest id := by
      simp [trueSends]
    rw [hcons, countP_once hd, ih, List.countP_cons, List.countP_cons]
    cases hc : d.committed <;> simp only [Done.delivered, Done.repeated, hc] <;> split <;> simp_all <;> omega

/-- A level that has inserted what it has written, and locked nothing. -/
structure Level.Fresh (l : Level) : Prop where
  written : ∀ id r, l.written id = some r → id ∈ l.inserted ∧ r.publishedAt = none ∧ r.attempts = 0
  locks : l.locks = []

/-- A transaction that enqueues. -/
structure Tx.Enqueuing (t : Tx) : Prop where
  batch : t.batch = none
  sends : t.sends = []
  levels : ∀ l ∈ t.levels, l.Fresh

section Enqueuing

variable {t : Tx}

theorem Level.Fresh.empty : Level.empty.Fresh := ⟨fun id r hr => by simp [Level.empty] at hr, rfl⟩

theorem Level.Fresh.into {inner outer : Level} (h : inner.Fresh) (h' : outer.Fresh) :
    (inner.into outer).Fresh := by
  refine ⟨fun id r hr => ?_, ?_⟩
  · rcases Option.or_eq_some_iff.mp hr with hr | ⟨-, hr⟩
    · obtain ⟨hid, hv⟩ := h.written id r hr
      exact ⟨List.mem_append_left _ hid, hv⟩
    · obtain ⟨hid, hv⟩ := h'.written id r hr
      exact ⟨List.mem_append_right _ hid, hv⟩
  · show inner.locks ++ outer.locks = []
    rw [h.locks, h'.locks]
    rfl

theorem Tx.Enqueuing.start (now : Nat) : (Tx.start now).Enqueuing :=
  ⟨rfl, rfl, fun l hl => by
    obtain rfl : l = .empty := by simpa [Tx.levels, Tx.start] using hl
    exact .empty⟩

theorem Tx.Enqueuing.top (h : t.Enqueuing) : t.top.Fresh := h.levels t.top (List.mem_cons_self ..)

theorem Tx.Enqueuing.savepoint (h : t.Enqueuing) : t.savepoint.Enqueuing := by
  refine ⟨h.batch, h.sends, fun l hl => ?_⟩
  rcases List.mem_cons.mp hl with rfl | hl
  · exact .empty
  · exact h.levels l hl

theorem Tx.Enqueuing.release {outer : Level} {rest : List Level} (h : t.Enqueuing)
    (ho : t.outer = outer :: rest) : (t.release outer rest).Enqueuing := by
  refine ⟨h.batch, h.sends, fun l hl => ?_⟩
  rcases List.mem_cons.mp hl with rfl | hl
  · exact h.top.into (h.levels outer (by simp [Tx.levels, ho]))
  · have hl : l ∈ rest := hl
    exact h.levels l (by simp [Tx.levels, ho, hl])

theorem Tx.Enqueuing.undo {outer : Level} {rest : List Level} (h : t.Enqueuing)
    (ho : t.outer = outer :: rest) : (t.undo outer rest).Enqueuing :=
  ⟨rfl, h.sends, fun l hl => h.levels l (List.mem_cons_of_mem _ (ho ▸ hl))⟩

theorem Tx.Enqueuing.insert (h : t.Enqueuing) {id : Nat} {a : PublishArgs} {r : OutboxRow}
    (hr : publishOutbox id a = some r) : (t.insert r).Enqueuing := by
  refine ⟨h.batch, h.sends, fun l hl => ?_⟩
  rcases List.mem_cons.mp hl with rfl | hl
  · refine ⟨fun id' r' hr' => ?_, h.top.locks⟩
    have hr' : (t.top.write r.id (some r)).written id' = some r' := hr'
    by_cases hid : id' = r.id
    · subst hid
      rw [Level.write_self] at hr'
      obtain rfl := Option.some.inj hr'
      exact ⟨List.mem_cons_self .., (publishOutbox_row hr).2.2⟩
    · rw [Level.write_other _ _ hid] at hr'
      exact (h.top.written id' r' hr').imp_left (List.mem_cons_of_mem _)
  · exact h.levels l (List.mem_cons_of_mem _ hl)

/-- What a transaction that enqueues sees is committed, or a new row of its own. -/
theorem Tx.Enqueuing.sees (h : t.Enqueuing) {table : Nat → Option OutboxRow} {id : Nat} {r : OutboxRow}
    (hs : t.sees table id = some r) :
    table id = some r ∨ id ∈ t.inserted ∧ r.publishedAt = none ∧ r.attempts = 0 := by
  refine seen_of (V := fun id r => table id = some r ∨
    id ∈ t.inserted ∧ r.publishedAt = none ∧ r.attempts = 0) (fun _ _ hr => .inl hr)
    (fun l hl id r hr => ?_) hs
  obtain ⟨hid, hv⟩ := (h.levels l hl).written id r hr
  exact .inr ⟨List.mem_flatMap.mpr ⟨l, hl, hid⟩, hv⟩

end Enqueuing

/-- The rows that a call of the batch goes through: sent, claimed, and under its cursor. -/
def Tx.line (t : Tx) (b : Batch) : List Nat :=
  t.sends.map Send.id ++ (b.fetched.map OutboxRow.id ++ b.cursor)

namespace Db

/-- A session holds the lock of a row that is committed and unpublished. -/
structure Holds (db : Db) (s : Nat) (id : Nat) (r : OutboxRow) : Prop where
  holder : db.holder id = some s
  table : db.table id = some r
  unpublished : r.publishedAt = none

/-- A transaction that relays. A row it has sent is marked, or its mark is what comes next. -/
structure Working (db : Db) (s : Nat) (t : Tx) : Prop where
  outer : t.outer = []
  inserted : t.inserted = []
  once : (t.sends.map Send.id).Nodup
  sent : ∀ x ∈ t.sends, ∃ r, db.Holds s x.id r ∧
    (t.top.written x.id = some (r.marked t.now x.ok) ∨
      t.top.written x.id = none ∧ ∃ b, t.batch = some b ∧ b.awaiting = some (x.id, x.ok))
  written : ∀ id, (t.top.written id).isSome = true → ∃ x ∈ t.sends, x.id = id
  line : ∀ b, t.batch = some b → (t.line b).Nodup
  fetched : ∀ b, t.batch = some b → ∀ r ∈ b.fetched, db.Holds s r.id r
  awaiting : ∀ b id ok, t.batch = some b → b.awaiting = some (id, ok) →
    t.top.written id = none ∧ ∃ x ∈ t.sends, x.id = id ∧ x.ok = ok

/-- The invariant of the relay. -/
structure Ledger (db : Db) : Prop where
  balanced : ∀ id, db.Balanced id
  once : ∀ d ∈ db.finished, (d.sends.map Send.id).Nodup
  enqueuing : ∀ s t, db.txs s = some t → t.called = false → t.Enqueuing
  working : ∀ s t, db.txs s = some t → t.called = true → db.Working s t

/-- A step keeps the rows that a session holds. -/
def Protects (db db' : Db) (s : Nat) : Prop := ∀ id r, db.Holds s id r → db'.Holds s id r

section Relay

variable {db db' : Db} {s : Nat} {act : OutboxAction} {t : Tx}

theorem Working.protected (h : db.Working s t) (hp : Protects db db' s) : db'.Working s t where
  outer := h.outer
  inserted := h.inserted
  once := h.once
  sent := fun x hx => by
    obtain ⟨r, hr, hw⟩ := h.sent x hx
    exact ⟨r, hp _ r hr, hw⟩
  written := h.written
  line := h.line
  fetched := fun b hb r hr => hp _ r (h.fetched b hb r hr)
  awaiting := h.awaiting

/-- A step that changes the transaction of one session, and leaves the accounts alone. -/
theorem Ledger.change (h : Ledger db) {x : Option Tx} (htxs : db'.txs = Function.update db.txs s x)
    (hprotects : ∀ s', s' ≠ s → Protects db db' s') (hbalanced : ∀ id, db'.Balanced id)
    (honce : ∀ d ∈ db'.finished, (d.sends.map Send.id).Nodup)
    (henq : ∀ t, x = some t → t.called = false → t.Enqueuing)
    (hwork : ∀ t, x = some t → t.called = true → db'.Working s t) : Ledger db' := by
  refine ⟨hbalanced, honce, fun s' t ht hc => ?_, fun s' t ht hc => ?_⟩
  · rcases update_txs (htxs ▸ ht) with ⟨-, ht⟩ | ⟨-, ht⟩
    · exact henq t ht hc
    · exact h.enqueuing s' t ht hc
  · rcases update_txs (htxs ▸ ht) with ⟨rfl, ht⟩ | ⟨hs, ht⟩
    · exact hwork t ht hc
    · exact (h.working s' t ht hc).protected (hprotects s' hs)

/-- A step that changes nothing but the transaction of one session. -/
theorem Ledger.put (h : Ledger db) (t' : Tx) (htxs : db'.txs = Function.update db.txs s (some t'))
    (hsame : db'.table = db.table ∧ db'.holder = db.holder ∧ db'.finished = db.finished)
    (henq : t'.called = false → t'.Enqueuing) (hwork : t'.called = true → db.Working s t') :
    Ledger db' := by
  obtain ⟨htable, hholder, hfin⟩ := hsame
  have hp : ∀ s', Protects db db' s' := fun s' id r hr =>
    ⟨hholder ▸ hr.holder, htable ▸ hr.table, hr.unpublished⟩
  refine h.change htxs (fun s' _ => hp s') (fun id => ?_) (hfin ▸ h.once) ?_ ?_
  · constructor
    · rw [hfin, htable]
      exact (h.balanced id).delivered
    · rw [hfin, htable]
      exact (h.balanced id).tried
  · rintro t₁ ⟨⟩
    exact henq
  · rintro t₁ ⟨⟩ hc
    exact (hwork hc).protected (hp s)

/-- What a transaction that relays sees is committed, except where it has written. -/
theorem Working.sees (h : db.Working s t) (id : Nat) :
    t.sees db.table id = (t.top.written id).or (db.table id) := by
  rw [Tx.sees, Tx.levels, h.outer]
  rfl

theorem Working.unwritten (h : db.Working s t) {id : Nat} (hid : id ∉ t.sends.map Send.id) :
    t.top.written id = none := by
  refine Option.not_isSome_iff_eq_none.mp fun hw => ?_
  obtain ⟨x, hx, rfl⟩ := h.written id hw
  exact hid (List.mem_map_of_mem hx)

/-- A row that was sent is marked, unless its mark is what comes next. -/
theorem Working.marked (h : db.Working s t) {x : Send} (hx : x ∈ t.sends)
    (hn : ∀ b, t.batch = some b → b.awaiting ≠ some (x.id, x.ok)) :
    ∃ r, db.Holds s x.id r ∧ t.top.written x.id = some (r.marked t.now x.ok) := by
  obtain ⟨r, hr, hw | ⟨-, b, hb, ha⟩⟩ := h.sent x hx
  · exact ⟨r, hr, hw⟩
  · exact absurd ha (hn b hb)

theorem Working.call (h : t.Enqueuing) (hins : t.inserted = []) (ho : t.outer = [])
    (brokerId : Option Int) {ids : List Nat} (batchLimit : Option Nat) (hids : ids.Nodup) :
    db.Working s (t.call brokerId ids batchLimit) := by
  have hnone : ∀ id, (t.call brokerId ids batchLimit).top.written id = none := fun id => by
    refine Option.not_isSome_iff_eq_none.mp fun hw => ?_
    obtain ⟨r, hr⟩ := Option.isSome_iff_exists.mp hw
    obtain ⟨hid, -⟩ := h.top.written id r hr
    have hmem : id ∈ t.inserted := List.mem_flatMap.mpr ⟨t.top, List.mem_cons_self .., hid⟩
    simp [hins] at hmem
  have hsends : (t.call brokerId ids batchLimit).sends = [] := h.sends
  refine ⟨ho, hins, ?_, ?_, ?_, ?_, ?_, ?_⟩
  · simp [hsends]
  · simp [hsends]
  · intro id hw
    simp [hnone id] at hw
  · rintro b ⟨⟩
    simpa [Tx.line, hsends] using hids
  · rintro b ⟨⟩
    simp
  · rintro b id ok ⟨⟩
    simp

theorem Working.fetch (h : db.Working s t) {b : Batch} (hb : t.batch = some b) {id : Nat}
    {rest : List Nat} (hc : b.cursor = id :: rest) {t₀ : Tx} {r : Option OutboxRow}
    (h₀ : t₀.sends = t.sends ∧ t₀.top.written = t.top.written ∧ t₀.top.inserted = t.top.inserted ∧
      t₀.outer = t.outer ∧ t₀.now = t.now)
    (hr : ∀ r', r = some r' → r'.id = id ∧ db.Holds s id r') : db.Working s (t₀.fetch b rest r) := by
  obtain ⟨hsends, hwritten, hinserted, houter, hnow⟩ := h₀
  obtain ⟨b', hb', hcursor, hawaiting, hfetched⟩ := t₀.fetch_batch b rest r
  refine ⟨?_, ?_, ?_, ?_, ?_, ?_, ?_, ?_⟩
  · rw [Tx.fetch_outer, houter]
    exact h.outer
  · have hins := h.inserted
    simpa [Tx.inserted, Tx.levels, hinserted, houter] using hins
  · rw [Tx.fetch_sends, hsends]
    exact h.once
  · rw [Tx.fetch_sends, Tx.fetch_top, Tx.fetch_now, hsends, hwritten, hnow, hb']
    intro x hx
    obtain ⟨r', hr', hw | ⟨hw, b₁, hb₁, ha⟩⟩ := h.sent x hx
    · exact ⟨r', hr', .inl hw⟩
    · obtain rfl : b = b₁ := Option.some.inj (hb.symm.trans hb₁)
      exact ⟨r', hr', .inr ⟨hw, b', rfl, hawaiting.trans ha⟩⟩
  · rw [Tx.fetch_sends, Tx.fetch_top, hsends, hwritten]
    exact h.written
  · intro b₁ hb₁
    obtain rfl : b' = b₁ := Option.some.inj (hb'.symm.trans hb₁)
    have hline := h.line b hb
    rw [Tx.line, hc] at hline
    rw [Tx.line, Tx.fetch_sends, hsends, hcursor, hfetched, List.map_append, List.append_assoc]
    refine hline.sublist (.append (.refl _) (.append (.refl _) ?_))
    cases r with
    | none => exact List.sublist_cons_self ..
    | some r' =>
      rw [← (hr r' rfl).1]
      exact .refl _
  · intro b₁ hb₁ r' hr'
    obtain rfl : b' = b₁ := Option.some.inj (hb'.symm.trans hb₁)
    rw [hfetched] at hr'
    rcases List.mem_append.mp hr' with hr' | hr'
    · exact h.fetched b hb r' hr'
    · obtain ⟨hid, hheld⟩ := hr r' (Option.mem_toList.mp hr')
      exact hid ▸ hheld
  · intro b₁ id' ok hb₁ ha
    obtain rfl : b' = b₁ := Option.some.inj (hb'.symm.trans hb₁)
    rw [Tx.fetch_top, Tx.fetch_sends, hwritten, hsends]
    exact h.awaiting b id' ok hb (hawaiting ▸ ha)

theorem Working.send (h : db.Working s t) {b : Batch} (hb : t.batch = some b) {r : OutboxRow}
    {rest : List OutboxRow} (hf : b.fetched = r :: rest) (ha : b.awaiting = none) (ok : Bool) :
    db.Working s (t.send b r rest ok) := by
  have hline : (t.sends.map Send.id ++ (r.id :: rest.map OutboxRow.id ++ b.cursor)).Nodup := by
    have hline := h.line b hb
    rwa [Tx.line, hf] at hline
  have hnot : r.id ∉ t.sends.map Send.id := fun hmem =>
    (List.nodup_append.mp hline).2.2 r.id hmem r.id (by simp) rfl
  have hline' : (t.send b r rest ok).line { b with fetched := rest, awaiting := some (r.id, ok) } =
      t.sends.map Send.id ++ (r.id :: rest.map OutboxRow.id ++ b.cursor) := by
    simp [Tx.line, Tx.send]
  refine ⟨h.outer, h.inserted, ?_, ?_, ?_, ?_, ?_, ?_⟩
  · have hsub : ((t.send b r rest ok).sends.map Send.id).Sublist
        (t.sends.map Send.id ++ (r.id :: rest.map OutboxRow.id ++ b.cursor)) := by
      rw [← hline']
      exact List.sublist_append_left ..
    exact hline.sublist hsub
  · intro x hx
    rcases List.mem_append.mp hx with hx | hx
    · obtain ⟨r', hr', hw⟩ := h.marked hx fun b₁ hb₁ ha₁ => by
        obtain rfl : b = b₁ := Option.some.inj (hb.symm.trans hb₁)
        simp [ha] at ha₁
      exact ⟨r', hr', .inl hw⟩
    · obtain rfl := List.mem_singleton.mp hx
      exact ⟨r, h.fetched b hb r (by simp [hf]), .inr ⟨h.unwritten hnot, _, rfl, rfl⟩⟩
  · intro id hw
    obtain ⟨x, hx, hid⟩ := h.written id hw
    exact ⟨x, List.mem_append_left _ hx, hid⟩
  · rintro b₁ ⟨⟩
    rw [hline']
    exact hline
  · rintro b₁ ⟨⟩ r' hr'
    exact h.fetched b hb r' (hf ▸ List.mem_cons_of_mem r hr')
  · rintro b₁ id ok' ⟨⟩ ⟨⟩
    exact ⟨h.unwritten hnot, _, List.mem_append_right _ (List.mem_singleton_self _), rfl, rfl⟩

theorem Working.mark (h : db.Working s t) {b : Batch} (hb : t.batch = some b) {id : Nat} {ok : Bool}
    (ha : b.awaiting = some (id, ok)) : db.Working s (t.mark b id ok (t.sees db.table id)) := by
  obtain ⟨hnone, x, hx, hid, hok⟩ := h.awaiting b id ok hb ha
  obtain ⟨r, hr, -⟩ := h.sent x hx
  have hsees : t.sees db.table id = some r := by
    rw [h.sees, hnone, ← hid]
    exact hr.table
  rw [hsees]
  refine ⟨h.outer, h.inserted, h.once, fun y hy => ?_, fun id' hw => ?_, ?_, ?_, ?_⟩
  · by_cases hy' : y.id = id
    · obtain rfl : y = x := List.inj_on_of_nodup_map h.once hy hx (hy'.trans hid.symm)
      refine ⟨r, hr, .inl ?_⟩
      show (t.top.write id (some (r.marked t.now ok))).written y.id = _
      rw [hy', Level.write_self, hok]
      rfl
    · obtain ⟨r', hr', hw⟩ := h.marked hy fun b₁ hb₁ ha₁ => by
        obtain rfl : b = b₁ := Option.some.inj (hb.symm.trans hb₁)
        rw [ha] at ha₁
        simp at ha₁
        exact hy' ha₁.1.symm
      refine ⟨r', hr', .inl ?_⟩
      show (t.top.write id (some (r.marked t.now ok))).written y.id = _
      rw [Level.write_other _ _ hy']
      exact hw
  · by_cases hid' : id' = id
    · exact ⟨x, hx, hid.trans hid'.symm⟩
    · have hw : ((t.top.write id (some (r.marked t.now ok))).written id').isSome = true := hw
      rw [Level.write_other _ _ hid'] at hw
      exact h.written id' hw
  · rintro b₁ ⟨⟩
    exact h.line b hb
  · rintro b₁ ⟨⟩
    exact h.fetched b hb
  · rintro b₁ id' ok' ⟨⟩
    simp

theorem Working.returned (h : db.Working s t) {b : Batch} (hb : t.batch = some b)
    (ho : b.over = true) : db.Working s (t.returned b) := by
  have ha : b.awaiting = none := by
    unfold Batch.over at ho
    simp only [Bool.and_eq_true] at ho
    exact Option.isNone_iff_eq_none.mp ho.1.1
  refine ⟨h.outer, h.inserted, h.once, fun x hx => ?_, h.written, ?_, ?_, ?_⟩
  · obtain ⟨r, hr, hw⟩ := h.marked hx fun b₁ hb₁ ha₁ => by
      obtain rfl : b = b₁ := Option.some.inj (hb.symm.trans hb₁)
      simp [ha] at ha₁
    exact ⟨r, hr, .inl hw⟩
  · rintro b₁ ⟨⟩
  · rintro b₁ ⟨⟩
  · rintro b₁ id ok ⟨⟩

/-- What the commit of a transaction makes of a row. -/
inductive Commits (db : Db) (s : Nat) (t : Tx) (id : Nat) : Prop where
  | kept : t.sees db.table id = db.table id → (∀ x ∈ t.sends, x.id ≠ id) → Commits db s t id
  | enqueued (r : OutboxRow) : db.table id = none → (∀ x ∈ t.sends, x.id ≠ id) →
      t.sees db.table id = some r → r.publishedAt = none → r.attempts = 0 → Commits db s t id
  | relayed (r : OutboxRow) (x : Send) : x ∈ t.sends → x.id = id → db.Holds s id r →
      t.sees db.table id = some (r.marked t.now x.ok) → Commits db s t id

theorem Ledger.commits (h : Ledger db) (hO : db.Owned) (ht : db.txs s = some t) (hb : t.batch = none)
    (id : Nat) : Commits db s t id := by
  cases hc : t.called with
  | false =>
    have henq := h.enqueuing s t ht hc
    have hnone : ∀ x ∈ t.sends, x.id ≠ id := by simp [henq.sends]
    cases hs : t.sees db.table id with
    | none =>
      refine .kept (hs.trans (Option.not_isSome_iff_eq_none.mp fun hsome => ?_).symm) hnone
      have hseen : (t.sees db.table id).isSome = true := seen_table hsome
      simp [hs] at hseen
    | some r =>
      rcases henq.sees hs with hr | ⟨hid, hp, ha⟩
      · exact .kept (hs.trans hr.symm) hnone
      · exact .enqueued r ((hO.tx s t ht).uncommitted id hid) hnone hs hp ha
  | true =>
    have hwork := h.working s t ht hc
    by_cases hsent : ∃ x ∈ t.sends, x.id = id
    · obtain ⟨x, hx, rfl⟩ := hsent
      obtain ⟨r, hr, hw⟩ := hwork.marked hx (by simp [hb])
      refine .relayed r x hx rfl hr ?_
      rw [hwork.sees, hw]
      rfl
    · have hnone : ∀ x ∈ t.sends, x.id ≠ id := fun x hx hid => hsent ⟨x, hx, hid⟩
      refine .kept ?_ hnone
      rw [hwork.sees, hwork.unwritten (by simpa using hnone)]
      rfl

theorem any_unsent {sends : List Send} {id : Nat} (h : ∀ x ∈ sends, x.id ≠ id) (p : Send → Bool) :
    (sends.any fun x => x.id == id && p x) = false := by
  rw [List.any_eq_false]
  intro x hx
  simp [h x hx]

/-- A transaction that is rolled back leaves the accounts of the committed ones alone. -/
theorem Balanced.abort {id : Nat} (h : db.Balanced id) (sends : List Send)
    (hfin : db'.finished = db.finished ++ [⟨false, sends⟩]) (htable : db'.table = db.table) :
    db'.Balanced id := by
  constructor
  · rw [hfin, htable, List.countP_append, h.delivered]
    simp [Done.delivered]
  · rw [hfin, htable, List.countP_append, h.tried]
    simp [Done.tried]

theorem Balanced.commit {id : Nat} (h : db.Balanced id) (hc : Commits db s t id)
    (honce : (t.sends.map Send.id).Nodup) : (db.endTx s t true).Balanced id := by
  have hfin : (db.endTx s t true).finished = db.finished ++ [⟨true, t.sends⟩] := rfl
  have htable : (db.endTx s t true).table id = t.sees db.table id := rfl
  have hd := h.delivered
  have ht := h.tried
  constructor <;> rw [hfin, htable, List.countP_append, List.countP_singleton]
  · rw [hd, Done.delivered, Bool.true_and]
    cases hc with
    | kept hsees hnone => rw [hsees, any_unsent hnone]; simp
    | enqueued r htn hnone hsees hp _ =>
      rw [any_unsent hnone, htn, hsees]
      simp [published, hp]
    | relayed r x hx hid hr hsees =>
      have hany : (t.sends.any fun y => y.id == id && y.ok) = x.ok := by
        rw [Bool.eq_iff_iff, List.any_eq_true]
        constructor
        · rintro ⟨y, hy, hyid⟩
          rw [Bool.and_eq_true, beq_iff_eq] at hyid
          rw [← List.inj_on_of_nodup_map honce hy hx (hyid.1.trans hid.symm)]
          exact hyid.2
        · exact fun hok => ⟨x, hx, by simp [hid, hok]⟩
      rw [hany, hr.table, hsees]
      cases hok : x.ok <;> simp [published, OutboxRow.marked, hr.unpublished]
  · rw [ht, Done.tried, Bool.true_and]
    cases hc with
    | kept hsees hnone =>
      have hany : (t.sends.any fun x => x.id == id) = false := by
        simpa using any_unsent hnone fun _ => true
      rw [hsees, hany]
      simp
    | enqueued r htn hnone hsees _ ha =>
      have hany : (t.sends.any fun x => x.id == id) = false := by
        simpa using any_unsent hnone fun _ => true
      rw [hany, htn, hsees]
      simp [ha]
    | relayed r x hx hid hr hsees =>
      have hany : (t.sends.any fun x => x.id == id) = true :=
        List.any_eq_true.mpr ⟨x, hx, by simp [hid]⟩
      rw [hany, hr.table, hsees]
      simp

/-- What the record of a transaction says it sent, it sent once. -/
theorem Ledger.sent_once (h : Ledger db) (ht : db.txs s = some t) : (t.sends.map Send.id).Nodup := by
  cases hc : t.called with
  | false => simp [(h.enqueuing s t ht hc).sends]
  | true => exact (h.working s t ht hc).once

/-- The end of a transaction lets go of its own rows only. -/
theorem Ledger.endTx (h : Ledger db) (ht : db.txs s = some t) {committed : Bool}
    (htxs : db'.txs = Function.update db.txs s none)
    (hholder : db'.holder = fun id => if db.holder id = some s then none else db.holder id)
    (hfin : db'.finished = db.finished ++ [⟨committed, t.sends⟩])
    (htable : ∀ s' id r, s' ≠ s → db.Holds s' id r → db'.table id = some r)
    (hbalanced : ∀ id, db'.Balanced id) : Ledger db' := by
  refine h.change htxs (fun s' hs id r hr => ⟨?_, htable s' id r hs hr, hr.unpublished⟩) hbalanced
    (fun d hd => ?_) (by simp) (by simp)
  · have hne : ¬ db.holder id = some s := fun hheld =>
      hs (Option.some.inj (hr.holder.symm.trans hheld))
    rw [hholder]
    dsimp only
    rw [if_neg hne]
    exact hr.holder
  · rw [hfin] at hd
    rcases List.mem_append.mp hd with hd | hd
    · exact h.once d hd
    · rw [List.mem_singleton.mp hd]
      exact h.sent_once ht

theorem Ledger.abort (h : Ledger db) (ht : db.txs s = some t) (hfin : db'.finished = db.finished ++ [⟨false, t.sends⟩])
    (htxs : db'.txs = Function.update db.txs s none)
    (hholder : db'.holder = fun id => if db.holder id = some s then none else db.holder id)
    (htable : db'.table = db.table) : Ledger db' :=
  h.endTx ht htxs hholder hfin (fun _ _ _ _ hr => htable ▸ hr.table)
    fun id => (h.balanced id).abort t.sends hfin htable

theorem Ledger.commit (h : Ledger db) (hO : db.Owned) (ht : db.txs s = some t) (hb : t.batch = none) :
    Ledger (db.endTx s t true) := by
  refine h.endTx ht rfl rfl rfl (fun s' id r hs hr => ?_)
    fun id => (h.balanced id).commit (h.commits hO ht hb id) (h.sent_once ht)
  show t.sees db.table id = some r
  cases h.commits hO ht hb id with
  | kept hsees _ => exact hsees.trans hr.table
  | enqueued r' hnone => simp [hr.table] at hnone
  | relayed r' x _ _ hr' => exact absurd (Option.some.inj (hr.holder.symm.trans hr'.holder)) hs

/-- A batch only runs where it was called. -/
theorem Ledger.called (h : Ledger db) (ht : db.txs s = some t) {b : Batch} (hb : t.batch = some b) :
    t.called = true := by
  cases hc : t.called with
  | true => rfl
  | false => simp [(h.enqueuing s t ht hc).batch] at hb

/-- A transaction that has a level around it does not relay. -/
theorem Ledger.nested (h : Ledger db) (ht : db.txs s = some t) {outer : Level} {rest : List Level}
    (ho : t.outer = outer :: rest) : t.called = false := by
  cases hc : t.called with
  | false => rfl
  | true => simp [(h.working s t ht hc).outer] at ho

/-- A step of a batch that touches no row. -/
theorem Ledger.relays (h : Ledger db) {b : Batch} (t' : Tx) (ht : db.txs s = some t)
    (hb : t.batch = some b) (hc : t'.called = t.called)
    (htxs : db'.txs = Function.update db.txs s (some t'))
    (hsame : db'.table = db.table ∧ db'.holder = db.holder ∧ db'.finished = db.finished)
    (hwork : db.Working s t → db.Working s t') : Ledger db' := by
  have hcalled := h.called ht hb
  exact h.put t' htxs hsame (fun hf => absurd (hf.symm.trans (hc.trans hcalled)) (by decide))
    fun _ => hwork (h.working s t ht hcalled)

/-- The lock of a row goes to the session that claims it, and all other rows keep theirs. -/
theorem protects_claim {b : Batch} {id : Nat} {rest : List Nat} {r : Option OutboxRow}
    (hfree : (db.holder id).any (· != s) = false) (s' : Nat) :
    Protects db (db.claim s t b id rest r) s' := by
  intro id' r' hr'
  refine ⟨?_, hr'.table, hr'.unpublished⟩
  show Function.update db.holder id (some s) id' = some s'
  by_cases hid : id' = id
  · subst hid
    rw [Function.update_self]
    rw [hr'.holder] at hfree
    simp only [Option.any_some, bne_eq_false_iff_eq] at hfree
    rw [hfree]
  · rw [Function.update_of_ne hid]
    exact hr'.holder

/-- The row that a batch claims is in the table, and nobody has sent it. -/
theorem Ledger.claim (h : Ledger db) (hv : db.Versions) {b : Batch} {id : Nat} {rest : List Nat}
    {r : Option OutboxRow} (ht : db.txs s = some t) (hb : t.batch = some b) (hcur : b.cursor = id :: rest)
    (hfree : (db.holder id).any (· != s) = false)
    (hr : r = (t.sees db.table id).filter (·.selected b.brokerId)) : Ledger (db.claim s t b id rest r) := by
  have hcalled := h.called ht hb
  have hw := h.working s t ht hcalled
  have hp : ∀ s', Protects db (db.claim s t b id rest r) s' := protects_claim hfree
  refine h.change rfl (fun s' _ => hp s') (fun id' => ⟨(h.balanced id').delivered, (h.balanced id').tried⟩)
    h.once ?_ ?_
  · rintro t₁ ⟨⟩ hc'
    rw [Tx.fetch_called, lockRow_called] at hc'
    exact absurd (hc'.symm.trans hcalled) (by decide)
  · rintro t₁ ⟨⟩ -
    have h₀ : (db.lockRow s t id).sends = t.sends ∧ (db.lockRow s t id).top.written = t.top.written ∧
        (db.lockRow s t id).top.inserted = t.top.inserted ∧ (db.lockRow s t id).outer = t.outer ∧
        (db.lockRow s t id).now = t.now := by simp
    refine (hw.protected (hp s)).fetch hb hcur h₀ fun r' hr' => ?_
    obtain ⟨hsees, hsel⟩ := Option.filter_eq_some_iff.mp (hr.symm.trans hr')
    have hnot : id ∉ t.sends.map Send.id := fun hmem => by
      have hline := hw.line b hb
      rw [Tx.line] at hline
      exact (List.nodup_append.mp hline).2.2 id hmem id (by simp [hcur]) rfl
    rw [hw.sees, hw.unwritten hnot] at hsees
    refine ⟨(hv.table id r' hsees).key, ⟨Function.update_self .., hsees, ?_⟩⟩
    rw [OutboxRow.selected, Bool.and_eq_true] at hsel
    exact Option.isNone_iff_eq_none.mp hsel.1

theorem Ledger.taken (h : Ledger db) (hv : db.Versions) (hO : db.Owned) (hstep : Taken db s act db')
    (hown : db.ownTransaction ⟨s, act⟩ = true) : Ledger db' := by
  cases hstep with
  | skip => exact h
  | begin now _ =>
    exact h.put (.start now) rfl ⟨rfl, rfl, rfl⟩ (fun _ => .start now) (fun hc => by cases hc)
  | savepoint t ht _ =>
    have hc : t.called = false := by simpa [ownTransaction, ht] using hown
    exact h.put t.savepoint rfl ⟨rfl, rfl, rfl⟩ (fun _ => (h.enqueuing s t ht hc).savepoint)
      fun hc' => absurd (hc.symm.trans hc') (by decide)
  | release t outer rest ht _ ho =>
    have hc : t.called = false := h.nested ht ho
    exact h.put (t.release outer rest) rfl ⟨rfl, rfl, rfl⟩
      (fun _ => (h.enqueuing s t ht hc).release ho) fun hc' => absurd (hc.symm.trans hc') (by decide)
  | undone db₀ t outer rest h₀ ht ho =>
    have hc : t.called = false := h.nested ht ho
    have hlocks : t.top.locks = [] := (h.enqueuing s t ht hc).top.locks
    refine h.put (s := s) (t.undo outer rest) ?_ ?_ (fun _ => (h.enqueuing s t ht hc).undo ho)
      fun hc' => absurd (hc.symm.trans hc') (by decide)
    · rcases h₀ with rfl | rfl <;> rfl
    · rcases h₀ with rfl | rfl <;> exact ⟨rfl, by simp [undoTop, drawId, hlocks], rfl⟩
  | aborted db₀ t h₀ ht => rcases h₀ with rfl | rfl <;> exact h.abort ht rfl rfl rfl rfl
  | committed t ht hb => exact h.commit hO ht hb
  | inserted t a r ht _ hr =>
    have hc : t.called = false := by simpa [ownTransaction, ht] using hown
    exact h.put (t.insert r) rfl ⟨rfl, rfl, rfl⟩ (fun _ => (h.enqueuing s t ht hc).insert hr)
      fun hc' => absurd (hc.symm.trans hc') (by decide)
  | called t brokerId batchLimit ht _ =>
    have hc : (t.called = false ∧ t.inserted = []) ∧ t.outer = [] := by
      simpa [ownTransaction, ht] using hown
    exact h.put (t.call brokerId (db.candidates t brokerId) batchLimit) rfl ⟨rfl, rfl, rfl⟩
      (fun hc' => by cases hc') fun _ => .call (h.enqueuing s t ht hc.1.1) hc.1.2 hc.2 brokerId batchLimit
        (List.nodup_range.filter _)
  | passed t b id rest ht hb hcur _ =>
    exact h.relays (t.fetch b rest none) ht hb rfl rfl ⟨rfl, rfl, rfl⟩ fun hw =>
      hw.fetch hb hcur ⟨rfl, rfl, rfl, rfl, rfl⟩ (by simp)
  | claimed t b id rest r ht hb hcur _ hfree hr => exact h.claim hv ht hb hcur hfree hr
  | sent t b r rest ok ht hb hf ha =>
    exact h.relays (t.send b r rest ok) ht hb rfl rfl ⟨rfl, rfl, rfl⟩ fun hw => hw.send hb hf ha ok
  | marked t b id ok ht hb ha =>
    exact h.relays (t.mark b id ok (t.sees db.table id)) ht hb rfl rfl ⟨rfl, rfl, rfl⟩ fun hw =>
      hw.mark hb ha
  | returned t b ht hb ho =>
    exact h.relays (t.returned b) ht hb rfl rfl ⟨rfl, rfl, rfl⟩ fun hw => hw.returned hb ho

theorem Ledger.empty : Ledger Db.empty :=
  ⟨fun _ => ⟨rfl, rfl⟩, by simp [Db.empty], by simp [Db.empty], by simp [Db.empty]⟩

end Relay

end Db

theorem OutboxRuns.ledger {db : Db} (h : OutboxRuns OwnTransaction db) : db.Ledger :=
  h.invariant (I := Db.Ledger) (by rintro _ rfl; exact .empty) fun _ st hr hI ho =>
    hI.taken (OutboxRuns.versions hr) (OutboxRuns.owned hr) (Db.next_taken st _) ho

section Accounts

variable {db db' : Db} {s : Nat} {act : OutboxAction}

/-- The row that becomes published was sent as it is, and that send returned true. -/
theorem Db.Ledger.publishes (h : db.Ledger) (hv : db.Versions) (hO : db.Owned)
    (hstep : db.Taken s act db') {id : Nat} {r' : OutboxRow} (hr' : db'.table id = some r')
    (hp : r'.publishedAt.isSome = true) (hbefore : published (db.table id) = false) :
    act = .commit ∧ ∃ t, db.txs s = some t ∧ ⟨id, r'.args, true⟩ ∈ t.sends := by
  rcases hstep.table with htable | ⟨t, rfl, ht, hb, rfl⟩
  · rw [← htable, hr', published, Option.any_some, hp] at hbefore
    cases hbefore
  · have hr' : t.sees db.table id = some r' := hr'
    refine ⟨rfl, t, ht, ?_⟩
    cases h.commits hO ht hb id with
    | kept hsees _ =>
      rw [← hsees, hr', published, Option.any_some, hp] at hbefore
      cases hbefore
    | enqueued r _ _ hsees hnone _ =>
      obtain rfl : r' = r := Option.some.inj (hr'.symm.trans hsees)
      simp [hnone] at hp
    | relayed r x hx hid hr hsees =>
      obtain rfl : r' = r.marked t.now x.ok := Option.some.inj (hr'.symm.trans hsees)
      have hok : x.ok = true := by
        cases hok : x.ok with
        | true => rfl
        | false => simp [hok, OutboxRow.marked, hr.unpublished] at hp
      have hargs : db.enqueued id = some x.args := hid ▸ (hv.carries.sends s t ht x hx).args
      have hsame : r.args = x.args :=
        Option.some.inj ((hv.table id r hr.table).args.symm.trans hargs)
      have hx' : x = ⟨id, (r.marked t.now x.ok).args, true⟩ := by
        rw [marked_args, hsame]
        cases x
        simp_all
      exact hx' ▸ hx

/-- A row that is committed as published was not sent by any transaction still open. -/
theorem Db.Ledger.published_unsent (h : db.Ledger) {id : Nat} {r : OutboxRow}
    (hr : db.table id = some r) (hp : r.publishedAt.isSome = true) {t : Tx} (ht : db.txs s = some t) :
    ∀ x ∈ t.sends, x.id ≠ id := by
  rintro x hx rfl
  cases hc : t.called with
  | false => simp [(h.enqueuing s t ht hc).sends] at hx
  | true =>
    obtain ⟨r', hr', -⟩ := (h.working s t ht hc).sent x hx
    obtain rfl : r = r' := Option.some.inj (hr.symm.trans hr'.table)
    simp [hr'.unpublished] at hp

/-- A row that is committed as published does not change any more. -/
theorem Db.Ledger.published_stays (h : db.Ledger) (hO : db.Owned) (hstep : db.Taken s act db') {id : Nat}
    {r : OutboxRow} (hr : db.table id = some r) (hp : r.publishedAt.isSome = true) :
    db'.table id = some r := by
  rcases hstep.table with htable | ⟨t, rfl, ht, hb, rfl⟩
  · rw [htable, hr]
  · show t.sees db.table id = some r
    cases h.commits hO ht hb id with
    | kept hsees _ => exact hsees.trans hr
    | enqueued r' hnone => simp [hr] at hnone
    | relayed r' x hx hid _ _ => exact absurd hid (h.published_unsent hr hp ht x hx)

end Accounts

/-- The relay loses nothing, and sends a row again only where a transaction that had sent it
was rolled back. -/
theorem relay_accounts {db : Db} (h : OutboxRuns OwnTransaction db) (id : Nat) :
    (∀ st, OwnTransaction db st → ∀ r, (Db.next st db).table id = some r →
      r.publishedAt.isSome = true → published (db.table id) = false →
      st.action = .commit ∧ ∃ t, db.txs st.session = some t ∧ ⟨id, r.args, true⟩ ∈ t.sends) ∧
    ∀ r, db.table id = some r →
      trueSends db.finished id =
        (if r.publishedAt.isSome = true then 1 else 0) + db.finished.countP (Done.repeated id) ∧
      (r.publishedAt.isSome = true →
        (∀ s t, db.txs s = some t → ∀ x ∈ t.sends, x.id ≠ id) ∧
        ∀ st, OwnTransaction db st → (Db.next st db).table id = some r) ∧
      r.attempts = db.finished.countP (Done.tried id) := by
  have hL := h.ledger
  have hv : db.Versions := OutboxRuns.versions h
  have hO : db.Owned := OutboxRuns.owned h
  refine ⟨fun st _ r hr hp hb => hL.publishes hv hO (Db.next_taken st db) hr hp hb,
    fun r hr => ⟨?_, fun hp => ⟨fun s t ht => hL.published_unsent hr hp ht,
      fun st _ => hL.published_stays hO (Db.next_taken st db) hr hp⟩, ?_⟩⟩
  · rw [trueSends_eq hL.once, (hL.balanced id).delivered, hr]
    rfl
  · have ht := (hL.balanced id).tried
    rw [hr] at ht
    exact ht.symm

/-- Arguments that the outbox takes. -/
def PublishArgs.complete : PublishArgs where
  brokerId := some 1
  exchange := some "orders"
  routingKey := some "new"
  message := some "a"
  deliveryMode := some 2
  contentType := none
  replyTo := none
  correlationId := none
  mandatory := some false

/-- Three workers and one row: the first is rolled back after its send, the second sends
it again and commits, and the third has an older snapshot. -/
def threeWorkers : Db := run Db.next
  [⟨0, .begin 0⟩, ⟨0, .publishOutbox .complete⟩, ⟨0, .commit⟩,
    ⟨1, .begin 1⟩, ⟨1, .publishOutboxBatch none (some 100)⟩, ⟨1, .fetch⟩,
    ⟨2, .begin 2⟩, ⟨2, .publishOutboxBatch (some 1) none⟩,
    ⟨3, .begin 3⟩, ⟨3, .publishOutboxBatch none (some 1)⟩,
    ⟨1, .send true⟩, ⟨1, .abort⟩,
    ⟨2, .fetch⟩, ⟨2, .send true⟩, ⟨2, .mark⟩, ⟨2, .returned⟩, ⟨2, .commit⟩,
    ⟨3, .fetch⟩, ⟨3, .send true⟩, ⟨3, .returned⟩, ⟨3, .commit⟩] .empty

theorem threeWorkers_own : OutboxRuns OwnTransaction threeWorkers := by
  unfold threeWorkers
  refine (OutboxRuns.empty _).run _ ?_
  decide +kernel

theorem threeWorkers_accounts :
    (threeWorkers.table 0).map OutboxRow.attempts = some 1 ∧ trueSends threeWorkers.finished 0 = 2 ∧
    ∀ r, threeWorkers.table 0 = some r →
      trueSends threeWorkers.finished 0 = (if r.publishedAt.isSome = true then 1 else 0) +
        threeWorkers.finished.countP (Done.repeated 0) ∧
      r.attempts = threeWorkers.finished.countP (Done.tried 0) :=
  ⟨by decide +kernel, by decide +kernel, fun r hr =>
    have h := (relay_accounts threeWorkers_own 0).2 r hr
    ⟨h.1, h.2.2⟩⟩

end PgAmqp
