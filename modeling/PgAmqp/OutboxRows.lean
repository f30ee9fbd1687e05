import PgAmqp.OutboxRuns

/-!
# The rows of the outbox

Every version of a row, committed or not, carries the arguments with which the row was
enqueued, and so does everything that is sent for it. And a row is committed, or it
belongs to one level of one open transaction, or its INSERT was rolled back.
-/
namespace PgAmqp

open Transition

theorem publishOutbox_row {id : Nat} {a : PublishArgs} {r : OutboxRow}
    (h : publishOutbox id a = some r) :
    r.id = id ∧ r.args = a ∧ r.publishedAt = none ∧ r.attempts = 0 := by
  unfold publishOutbox at h
  split at h
  · rename_i hb he hk hm hd
    obtain rfl := Option.some.inj h
    refine ⟨rfl, ?_, rfl, rfl⟩
    rw [OutboxRow.args, ← hb, ← he, ← hk, ← hm, ← hd]
  · cases h

@[simp] theorem marked_id (r : OutboxRow) (now : Nat) (ok : Bool) : (r.marked now ok).id = r.id := by
  cases ok <;> rfl

@[simp] theorem marked_args (r : OutboxRow) (now : Nat) (ok : Bool) :
    (r.marked now ok).args = r.args := by
  cases ok <;> rfl

@[simp] theorem marked_attempts (r : OutboxRow) (now : Nat) (ok : Bool) :
    (r.marked now ok).attempts = r.attempts + 1 := by
  cases ok <;> rfl

/-- Every version that a transaction has written has `V`. -/
def Tx.Writes (V : Nat → OutboxRow → Prop) (t : Tx) : Prop :=
  ∀ l ∈ t.levels, ∀ id r, l.written id = some r → V id r

section Writes

variable {V : Nat → OutboxRow → Prop} {table : Nat → Option OutboxRow} {t t' : Tx}

theorem seen_of {levels : List Level} (ht : ∀ id r, table id = some r → V id r)
    (h : ∀ l ∈ levels, ∀ id r, l.written id = some r → V id r) {id : Nat} {r : OutboxRow}
    (hs : seen table levels id = some r) : V id r := by
  induction levels with
  | nil => exact ht id r hs
  | cons l rest ih =>
    rcases Option.or_eq_some_iff.mp hs with hs | ⟨-, hs⟩
    · exact h l (List.mem_cons_self ..) id r hs
    · exact ih (fun l' hl' => h l' (List.mem_cons_of_mem l hl')) hs

/-- What a transaction sees was committed or is its own. -/
theorem Tx.Writes.sees (h : t.Writes V) (ht : ∀ id r, table id = some r → V id r) {id : Nat}
    {r : OutboxRow} (hs : t.sees table id = some r) : V id r := seen_of ht h hs

theorem Tx.Writes.mono {V' : Nat → OutboxRow → Prop} (h : t.Writes V) (hV : ∀ id r, V id r → V' id r) :
    t.Writes V' := fun l hl id r hr => hV id r (h l hl id r hr)

theorem Tx.Writes.start (now : Nat) : (Tx.start now).Writes V := by
  intro l hl id r hr
  obtain rfl : l = .empty := by simpa [Tx.start, Tx.levels] using hl
  simp [Level.empty] at hr

theorem Tx.Writes.same (h : t.Writes V) (htop : t'.top.written = t.top.written)
    (houter : t'.outer = t.outer) : t'.Writes V := by
  intro l hl
  rcases List.mem_cons.mp hl with rfl | hl
  · rw [htop]
    exact h t.top (List.mem_cons_self ..)
  · exact h l (List.mem_cons_of_mem _ (houter ▸ hl))

theorem Tx.Writes.savepoint (h : t.Writes V) : t.savepoint.Writes V := by
  intro l hl id r hr
  rcases List.mem_cons.mp hl with rfl | hl
  · simp [Tx.savepoint, Level.empty] at hr
  · exact h l hl id r hr

theorem Tx.Writes.release {outer : Level} {rest : List Level} (h : t.Writes V)
    (ho : t.outer = outer :: rest) : (t.release outer rest).Writes V := by
  intro l hl id r hr
  rcases List.mem_cons.mp hl with rfl | hl
  · rcases Option.or_eq_some_iff.mp hr with hr | ⟨-, hr⟩
    · exact h t.top (List.mem_cons_self ..) id r hr
    · exact h outer (by simp [Tx.levels, ho]) id r hr
  · have hl : l ∈ rest := hl
    exact h l (by simp [Tx.levels, ho, hl]) id r hr

theorem Tx.Writes.undo {outer : Level} {rest : List Level} (h : t.Writes V)
    (ho : t.outer = outer :: rest) : (t.undo outer rest).Writes V :=
  fun l hl => h l (List.mem_cons_of_mem _ (ho ▸ hl))

theorem Tx.Writes.write (id : Nat) {x : Option OutboxRow} (h : t.Writes V)
    (hx : ∀ r, x = some r → V id r) (htop : t'.top.written = (t.top.write id x).written)
    (houter : t'.outer = t.outer) : t'.Writes V := by
  intro l hl id' r hr
  rcases List.mem_cons.mp hl with rfl | hl
  · rw [htop] at hr
    by_cases hid : id' = id
    · subst hid
      rw [Level.write_self] at hr
      exact hx r hr
    · rw [Level.write_other _ _ hid] at hr
      exact h t.top (List.mem_cons_self ..) id' r hr
  · exact h l (List.mem_cons_of_mem _ (houter ▸ hl)) id' r hr

end Writes

namespace Db

/-- `r` is a version of the row that was enqueued under `id`. -/
structure Version (db : Db) (id : Nat) (r : OutboxRow) : Prop where
  key : r.id = id
  drawn : id < db.nextId
  args : db.enqueued id = some r.args

/-- What was sent for a row are the arguments with which it was enqueued. -/
structure Genuine (db : Db) (x : Send) : Prop where
  drawn : x.id < db.nextId
  args : db.enqueued x.id = some x.args

/-- A database after which the ids drawn so far stand for the same messages. -/
structure Later (db db' : Db) : Prop where
  nextId : db.nextId ≤ db'.nextId
  enqueued : ∀ id < db.nextId, db'.enqueued id = db.enqueued id

section Versions

variable {db db' : Db} {s : Nat} {act : OutboxAction}

theorem Later.refl (db : Db) : Later db db := ⟨Nat.le_refl _, fun _ _ => rfl⟩

theorem Later.version (h : Later db db') {id : Nat} {r : OutboxRow} (hv : db.Version id r) :
    db'.Version id r :=
  ⟨hv.key, Nat.lt_of_lt_of_le hv.drawn h.nextId, (h.enqueued id hv.drawn).trans hv.args⟩

theorem Later.genuine (h : Later db db') {x : Send} (hx : db.Genuine x) : db'.Genuine x :=
  ⟨Nat.lt_of_lt_of_le hx.drawn h.nextId, (h.enqueued _ hx.drawn).trans hx.args⟩

theorem Taken.later (h : Taken db s act db') : Later db db' := by
  cases h with
  | undone db₀ t outer rest h₀ _ _ =>
    rcases h₀ with rfl | rfl
    · exact ⟨Nat.le_refl _, fun _ _ => rfl⟩
    · exact ⟨Nat.le_succ _, fun _ _ => rfl⟩
  | aborted db₀ t h₀ _ =>
    rcases h₀ with rfl | rfl
    · exact ⟨Nat.le_refl _, fun _ _ => rfl⟩
    · exact ⟨Nat.le_succ _, fun _ _ => rfl⟩
  | inserted t a r _ _ hr =>
    refine ⟨Nat.le_succ _, fun id hid => Function.update_of_ne ?_ _ _⟩
    rw [(publishOutbox_row hr).1]
    exact Nat.ne_of_lt hid
  | _ => exact ⟨Nat.le_refl _, fun _ _ => rfl⟩

/-- Every version, and everything that is claimed or sent, goes back to an enqueue. -/
structure Versions (db : Db) : Prop where
  table : ∀ id r, db.table id = some r → db.Version id r
  written : ∀ s t, db.txs s = some t → t.Writes db.Version
  carries : Carries (fun _ => True) (fun r => db.Version r.id r) db.Genuine db

theorem Versions.sees (h : Versions db) {t : Tx} (ht : db.txs s = some t) {id : Nat} {r : OutboxRow}
    (hs : t.sees db.table id = some r) : db.Version id r := (h.written s t ht).sees h.table hs

/-- The table and the one transaction that a step changes are checked, and the rest follows. -/
theorem Versions.change (h : Versions db) (hstep : Taken db s act db') {x : Option Tx}
    (htable : ∀ id r, db'.table id = some r → db.Version id r)
    (htxs : db'.txs = Function.update db.txs s x) (hx : ∀ t, x = some t → t.Writes db'.Version) :
    Versions db' := by
  have hlater := hstep.later
  refine ⟨fun id r hr => hlater.version (htable id r hr), fun s' t ht => ?_, ?_⟩
  · rcases update_txs (htxs ▸ ht) with ⟨-, ht⟩ | ⟨-, ht⟩
    · exact hx t ht
    · exact (h.written s' t ht).mono fun _ _ => hlater.version
  · refine (h.carries.taken hstep (fun _ _ _ _ _ _ _ => trivial) (fun t _ id _ r _ ht _ _ _ hs => ?_)
      (fun r ok hr => ⟨hr.drawn, hr.args⟩)).mono (fun _ h => h) (fun _ => hlater.version)
      (fun _ => hlater.genuine)
    have hv : db.Version id r := h.sees ht hs
    exact hv.key ▸ hv

theorem Versions.taken (h : Versions db) (hstep : Taken db s act db') : Versions db' := by
  have hlater := hstep.later
  have same : ∀ {t t' : Tx}, db.txs s = some t → t'.top.written = t.top.written →
      t'.outer = t.outer → ∀ t₁, some t' = some t₁ → t₁.Writes db'.Version := by
    rintro t t' ht htop houter t₁ ⟨⟩
    exact ((h.written s t ht).same htop houter).mono fun _ _ => hlater.version
  cases hstep with
  | skip => exact h
  | begin now hnone =>
    refine h.change (.begin now hnone) h.table rfl ?_
    rintro t₁ ⟨⟩
    exact .start now
  | savepoint t ht hb =>
    refine h.change (.savepoint t ht hb) h.table rfl ?_
    rintro t₁ ⟨⟩
    exact (h.written s t ht).savepoint.mono fun _ _ => hlater.version
  | release t outer rest ht hb ho =>
    refine h.change (.release t outer rest ht hb ho) h.table rfl ?_
    rintro t₁ ⟨⟩
    exact ((h.written s t ht).release ho).mono fun _ _ => hlater.version
  | undone db₀ t outer rest h₀ ht ho =>
    have hundo : Tx.Writes _ (t.undo outer rest) :=
      ((h.written s t ht).undo ho).mono fun _ _ => hlater.version
    have hstep : Taken db s act (db₀.undoTop s t outer rest) := .undone db₀ t outer rest h₀ ht ho
    refine h.change hstep ?_ (x := some (t.undo outer rest)) ?_
      (fun t₁ ht₁ => Option.some.inj ht₁ ▸ hundo)
    · rcases h₀ with rfl | rfl <;> exact h.table
    · rcases h₀ with rfl | rfl <;> rfl
  | aborted db₀ t h₀ ht =>
    have hstep : Taken db s act (db₀.endTx s t false) := .aborted db₀ t h₀ ht
    refine h.change hstep ?_ (x := none) ?_ (by simp)
    · rcases h₀ with rfl | rfl <;> exact h.table
    · rcases h₀ with rfl | rfl <;> rfl
  | committed t ht hb =>
    refine h.change (.committed t ht hb) (fun id r hr => ?_) (x := none) rfl (by simp)
    exact h.sees ht hr
  | inserted t a r ht hb hr =>
    obtain ⟨hid, hargs, -, -⟩ := publishOutbox_row hr
    refine h.change (.inserted t a r ht hb hr) h.table rfl ?_
    rintro t₁ ⟨⟩
    refine Tx.Writes.write (t := t) r.id (x := some r)
      ((h.written s t ht).mono fun _ _ => hlater.version) ?_ rfl rfl
    rintro r' ⟨⟩
    refine ⟨rfl, ?_, ?_⟩
    · rw [hid]
      exact Nat.lt_succ_self _
    · rw [hargs]
      exact Function.update_self ..
  | called t brokerId batchLimit ht hb =>
    exact h.change (.called t brokerId batchLimit ht hb) h.table rfl (same ht rfl rfl)
  | passed t b id rest ht hb hc hheld =>
    exact h.change (.passed t b id rest ht hb hc hheld) h.table rfl (same ht rfl rfl)
  | claimed t b id rest r ht hb hc ha hfree hr =>
    exact h.change (.claimed t b id rest r ht hb hc ha hfree hr) h.table rfl
      (same ht (by simp) (by simp))
  | sent t b r rest ok ht hb hf ha =>
    exact h.change (.sent t b r rest ok ht hb hf ha) h.table rfl (same ht rfl rfl)
  | marked t b id ok ht hb ha =>
    refine h.change (.marked t b id ok ht hb ha) h.table rfl ?_
    rintro t₁ ⟨⟩
    refine Tx.Writes.write (t := t) id
      ((h.written s t ht).mono fun _ _ => hlater.version) (fun r hr => ?_) rfl rfl
    obtain ⟨r', hr', rfl⟩ := Option.map_eq_some_iff.mp hr
    have hv : db.Version id r' := h.sees ht hr'
    exact ⟨(marked_id ..).trans hv.key, hv.drawn, hv.args.trans (congrArg some (marked_args ..).symm)⟩
  | returned t b ht hb ho =>
    exact h.change (.returned t b ht hb ho) h.table rfl (same ht rfl rfl)

theorem Versions.empty : Versions Db.empty :=
  ⟨by simp [Db.empty], by simp [Db.empty], by simp [Db.empty], by simp [Db.empty],
    by simp [Db.empty], by simp [Db.empty]⟩

end Versions

end Db

/-- A level has only written rows that it inserted or found there. -/
def Grounded (table : Nat → Option OutboxRow) : List Level → Prop
  | [] => True
  | l :: rest =>
    (∀ id, (l.written id).isSome = true → id ∈ l.inserted ∨ (seen table rest id).isSome = true) ∧
      Grounded table rest

section Grounded

variable {table table' : Nat → Option OutboxRow} {levels : List Level} {id : Nat}

theorem Grounded.seen (h : Grounded table levels) (hs : (seen table levels id).isSome = true) :
    (table id).isSome = true ∨ id ∈ levels.flatMap Level.inserted := by
  induction levels with
  | nil => exact .inl hs
  | cons l rest ih =>
    have rest' : (PgAmqp.seen table rest id).isSome = true →
        (table id).isSome = true ∨ id ∈ (l :: rest).flatMap Level.inserted := fun hs =>
      (ih h.2 hs).imp_right fun hid => by
        rw [List.flatMap_cons]
        exact List.mem_append_right _ hid
    rw [PgAmqp.seen, Option.isSome_or, Bool.or_eq_true] at hs
    rcases hs with hs | hs
    · rcases h.1 id hs with hid | hs
      · rw [List.flatMap_cons]
        exact .inr (List.mem_append_left _ hid)
      · exact rest' hs
    · exact rest' hs

theorem seen_mono (hm : ∀ id, (table id).isSome = true → (table' id).isSome = true)
    (hs : (seen table levels id).isSome = true) : (seen table' levels id).isSome = true := by
  induction levels with
  | nil => exact hm id hs
  | cons l rest ih =>
    rw [seen, Option.isSome_or, Bool.or_eq_true] at hs ⊢
    exact hs.imp_right ih

theorem Grounded.mono (hm : ∀ id, (table id).isSome = true → (table' id).isSome = true)
    (h : Grounded table levels) : Grounded table' levels := by
  induction levels with
  | nil => trivial
  | cons l rest ih => exact ⟨fun id hw => (h.1 id hw).imp_right (seen_mono hm), ih h.2⟩

theorem Grounded.write {l : Level} {x : Option OutboxRow} (h : Grounded table (l :: levels))
    (hx : x.isSome = true → id ∈ l.inserted ∨ (PgAmqp.seen table levels id).isSome = true) :
    Grounded table (l.write id x :: levels) := by
  refine ⟨fun id' hw => ?_, h.2⟩
  by_cases hid : id' = id
  · subst hid
    rw [Level.write_self] at hw
    exact hx hw
  · rw [Level.write_other _ _ hid] at hw
    exact h.1 id' hw

theorem Grounded.into {inner outer : Level} (h : Grounded table (inner :: outer :: levels)) :
    Grounded table (inner.into outer :: levels) := by
  have below : ∀ id, (outer.written id).isSome = true →
      id ∈ (inner.into outer).inserted ∨ (PgAmqp.seen table levels id).isSome = true :=
    fun id hw => (h.2.1 id hw).imp_left (List.mem_append_right _)
  refine ⟨fun id hw => ?_, h.2.2⟩
  have hw : ((inner.written id).or (outer.written id)).isSome = true := hw
  rw [Option.isSome_or, Bool.or_eq_true] at hw
  rcases hw with hw | hw
  · rcases h.1 id hw with hid | hs
    · exact .inl (List.mem_append_left _ hid)
    · rw [PgAmqp.seen, Option.isSome_or, Bool.or_eq_true] at hs
      exact hs.elim (below id) .inr
  · exact below id hw

end Grounded

theorem Tx.inserted_undo {t : Tx} {outer : Level} {rest : List Level} (ho : t.outer = outer :: rest) :
    t.inserted = t.top.inserted ++ (t.undo outer rest).inserted := by
  simp [Tx.inserted, Tx.levels, Tx.undo, ho]

namespace Db

/-- The rows that a transaction has inserted are its own. -/
structure TxOwned (db : Db) (t : Tx) : Prop where
  nodup : t.inserted.Nodup
  drawn : ∀ id ∈ t.inserted, id < db.nextId
  uncommitted : ∀ id ∈ t.inserted, db.table id = none
  standing : ∀ id ∈ t.inserted, id ∉ db.undone
  grounded : Grounded db.table t.levels

/-- A row is committed, undone, or inserted by one open transaction. -/
structure Owned (db : Db) : Prop where
  table : ∀ id, (db.table id).isSome = true → id < db.nextId ∧ id ∉ db.undone
  undone : ∀ id ∈ db.undone, id < db.nextId
  tx : ∀ s t, db.txs s = some t → db.TxOwned t
  apart : ∀ s s' t t', s ≠ s' → db.txs s = some t → db.txs s' = some t' →
    ∀ id ∈ t.inserted, id ∉ t'.inserted

section Owned

variable {db db' : Db} {s : Nat} {act : OutboxAction} {t t' : Tx}

/-- A step that changes one transaction, and commits or undoes only rows of that one. -/
theorem Owned.change (h : Owned db) {x : Option Tx} (htxs : db'.txs = Function.update db.txs s x)
    (hnext : db.nextId ≤ db'.nextId)
    (htable : ∀ id, (db'.table id).isSome = true → id < db'.nextId ∧ id ∉ db'.undone)
    (hundone : ∀ id ∈ db'.undone, id < db'.nextId)
    (hkept : ∀ id, (db.table id).isSome = true → (db'.table id).isSome = true)
    (hothers : ∀ s' t', s' ≠ s → db.txs s' = some t' → ∀ id ∈ t'.inserted,
      db'.table id = none ∧ id ∉ db'.undone)
    (hx : ∀ t, x = some t → db'.TxOwned t)
    (hapart : ∀ t s' t', x = some t → s' ≠ s → db.txs s' = some t' →
      ∀ id ∈ t.inserted, id ∉ t'.inserted) : Owned db' := by
  refine ⟨htable, hundone, fun s₁ t₁ ht₁ => ?_, fun s₁ s₂ t₁ t₂ hne ht₁ ht₂ id hid => ?_⟩
  · rcases update_txs (htxs ▸ ht₁) with ⟨-, ht₁⟩ | ⟨hs, ht₁⟩
    · exact hx t₁ ht₁
    · have hold := h.tx s₁ t₁ ht₁
      exact ⟨hold.nodup, fun id hid => Nat.lt_of_lt_of_le (hold.drawn id hid) hnext,
        fun id hid => (hothers s₁ t₁ hs ht₁ id hid).1, fun id hid => (hothers s₁ t₁ hs ht₁ id hid).2,
        hold.grounded.mono hkept⟩
  · rcases update_txs (htxs ▸ ht₁) with ⟨hs₁, ht₁⟩ | ⟨hs₁, ht₁⟩ <;>
      rcases update_txs (htxs ▸ ht₂) with ⟨hs₂, ht₂⟩ | ⟨hs₂, ht₂⟩
    · exact absurd (hs₁.trans hs₂.symm) hne
    · exact hapart t₁ s₂ t₂ ht₁ hs₂ ht₂ id hid
    · exact fun hid' => hapart t₂ s₁ t₁ ht₂ hs₁ ht₁ id hid' hid
    · exact h.apart s₁ s₂ t₁ t₂ hne ht₁ ht₂ id hid

/-- A step that inserts, commits and undoes nothing. -/
theorem Owned.kept (h : Owned db) (t' : Tx) (ht : db.txs s = some t)
    (htxs : db'.txs = Function.update db.txs s (some t')) (hins : t'.inserted = t.inserted)
    (hg : Grounded db.table t'.levels) (hsame : db'.nextId = db.nextId ∧ db'.table = db.table ∧
      db'.undone = db.undone) : Owned db' := by
  obtain ⟨hnext, htable, hundone⟩ := hsame
  have hold := h.tx s t ht
  refine h.change htxs (Nat.le_of_eq hnext.symm) ?_ ?_ ?_ ?_ ?_ ?_
  · rw [htable, hnext, hundone]
    exact h.table
  · rw [hnext, hundone]
    exact h.undone
  · rw [htable]
    exact fun _ hid => hid
  · rw [htable, hundone]
    exact fun s' t₁ _ ht₁ id hid => ⟨(h.tx s' t₁ ht₁).uncommitted id hid, (h.tx s' t₁ ht₁).standing id hid⟩
  · rintro t₁ ⟨⟩
    constructor
    · rw [hins]; exact hold.nodup
    · rw [hins, hnext]; exact hold.drawn
    · rw [hins, htable]; exact hold.uncommitted
    · rw [hins, hundone]; exact hold.standing
    · rw [htable]; exact hg
  · rintro t₁ s' t₂ ⟨⟩ hs ht₂ id hid
    exact h.apart s s' t t₂ (Ne.symm hs) ht ht₂ id (hins ▸ hid)

/-- A step that undoes rows of one transaction. -/
theorem Owned.undo (h : Owned db) (ht : db.txs s = some t) {x : Option Tx} {ids rest : List Nat}
    (hsplit : t.inserted = ids ++ rest) (htxs : db'.txs = Function.update db.txs s x)
    (hnext : db.nextId ≤ db'.nextId) (htable : db'.table = db.table)
    (hundone : db'.undone = db.undone ++ ids)
    (hx : ∀ t', x = some t' → t'.inserted = rest ∧ Grounded db.table t'.levels) : Owned db' := by
  have hold := h.tx s t ht
  have hids : ∀ id ∈ ids, id ∈ t.inserted := fun id hid => hsplit ▸ List.mem_append_left _ hid
  have hrest : ∀ id ∈ rest, id ∈ t.inserted := fun id hid => hsplit ▸ List.mem_append_right _ hid
  refine h.change htxs hnext (fun id hid => ?_) (fun id hid => ?_) (fun id hid => ?_)
    (fun s' t₁ hs ht₁ id hid => ?_) (fun t' hx' => ?_) (fun t' s' t₂ hx' hs ht₂ id hid => ?_)
  · rw [htable] at hid
    refine ⟨Nat.lt_of_lt_of_le (h.table id hid).1 hnext, ?_⟩
    rw [hundone, List.mem_append, not_or]
    refine ⟨(h.table id hid).2, fun hid' => ?_⟩
    rw [hold.uncommitted id (hids id hid')] at hid
    cases hid
  · rw [hundone] at hid
    exact Nat.lt_of_lt_of_le
      ((List.mem_append.mp hid).elim (h.undone id) fun hid => hold.drawn id (hids id hid)) hnext
  · rw [htable]
    exact hid
  · rw [htable, hundone, List.mem_append, not_or]
    exact ⟨(h.tx s' t₁ ht₁).uncommitted id hid, (h.tx s' t₁ ht₁).standing id hid,
      fun hid' => h.apart s s' t t₁ (Ne.symm hs) ht ht₁ id (hids id hid') hid⟩
  · obtain ⟨hins, hg⟩ := hx t' hx'
    have hnodup := List.nodup_append.mp (hsplit ▸ hold.nodup)
    constructor
    · rw [hins]
      exact hnodup.2.1
    · rw [hins]
      exact fun id hid => Nat.lt_of_lt_of_le (hold.drawn id (hrest id hid)) hnext
    · rw [hins, htable]
      exact fun id hid => hold.uncommitted id (hrest id hid)
    · rw [hins, hundone]
      intro id hid hmem
      rcases List.mem_append.mp hmem with hmem | hmem
      · exact hold.standing id (hrest id hid) hmem
      · exact hnodup.2.2 id hmem id hid rfl
    · rw [htable]
      exact hg
  · exact h.apart s s' t t₂ (Ne.symm hs) ht ht₂ id (hrest id ((hx t' hx').1 ▸ hid))

/-- Committed rows stay, and the rows that become so were inserted by the transaction. -/
theorem Owned.sees_isSome (h : Owned db) (ht : db.txs s = some t) {id : Nat} :
    (t.sees db.table id).isSome = true → (db.table id).isSome = true ∨ id ∈ t.inserted :=
  (h.tx s t ht).grounded.seen

theorem seen_table {table : Nat → Option OutboxRow} {levels : List Level} {id : Nat}
    (h : (table id).isSome = true) : (seen table levels id).isSome = true := by
  induction levels with
  | nil => exact h
  | cons l rest ih =>
    rw [seen, Option.isSome_or, ih, Bool.or_true]

theorem Owned.commit (h : Owned db) (ht : db.txs s = some t) : Owned (db.endTx s t true) := by
  have hold := h.tx s t ht
  refine h.change (x := none) rfl (Nat.le_refl _) (fun id hid => ?_) h.undone
    (fun id hid => seen_table hid) (fun s' t₁ hs ht₁ id hid => ?_) (by simp) (by simp)
  · rcases h.sees_isSome ht hid with hid | hid
    · exact h.table id hid
    · exact ⟨hold.drawn id hid, hold.standing id hid⟩
  · refine ⟨Option.not_isSome_iff_eq_none.mp fun hsome => ?_, (h.tx s' t₁ ht₁).standing id hid⟩
    rcases h.sees_isSome ht hsome with hsome | hid'
    · rw [(h.tx s' t₁ ht₁).uncommitted id hid] at hsome
      cases hsome
    · exact h.apart s s' t t₁ (Ne.symm hs) ht ht₁ id hid' hid

theorem Owned.insert (h : Owned db) (ht : db.txs s = some t) {a : PublishArgs} {r : OutboxRow}
    (hr : PgAmqp.publishOutbox db.nextId a = some r) : Owned (db.insertRow s t a r) := by
  have hold := h.tx s t ht
  have hid : r.id = db.nextId := (publishOutbox_row hr).1
  have hins : (t.insert r).inserted = r.id :: t.inserted := by
    simp [Tx.inserted, Tx.levels, Tx.insert]
  have hfresh : ∀ {P : Nat → Prop}, (∀ id, P id → id < db.nextId) → ¬ P r.id := fun hP hp =>
    Nat.lt_irrefl _ (hid ▸ hP _ hp)
  refine h.change (x := some (t.insert r)) rfl (Nat.le_succ _)
    (fun id hid => ⟨Nat.lt_succ_of_lt (h.table id hid).1, (h.table id hid).2⟩)
    (fun id hid => Nat.lt_succ_of_lt (h.undone id hid)) (fun _ hid => hid)
    (fun s' t₁ _ ht₁ id hid => ⟨(h.tx s' t₁ ht₁).uncommitted id hid, (h.tx s' t₁ ht₁).standing id hid⟩)
    ?_ ?_
  · rintro t₁ ⟨⟩
    constructor
    · rw [hins]
      exact List.nodup_cons.mpr ⟨hfresh hold.drawn, hold.nodup⟩
    · rw [hins]
      intro id hmem
      rcases List.mem_cons.mp hmem with rfl | hmem
      · exact hid ▸ Nat.lt_succ_self _
      · exact Nat.lt_succ_of_lt (hold.drawn id hmem)
    · rw [hins]
      intro id hmem
      rcases List.mem_cons.mp hmem with rfl | hmem
      · exact Option.not_isSome_iff_eq_none.mp (hfresh fun id hid => (h.table id hid).1)
      · exact hold.uncommitted id hmem
    · rw [hins]
      intro id hmem
      rcases List.mem_cons.mp hmem with rfl | hmem
      · exact hfresh h.undone
      · exact hold.standing id hmem
    · refine ⟨fun id hw => ?_, hold.grounded.2⟩
      by_cases hkey : id = r.id
      · exact .inl (hkey ▸ List.mem_cons_self ..)
      · have hw : ((t.top.write r.id (some r)).written id).isSome = true := hw
        rw [Level.write_other _ _ hkey] at hw
        exact (hold.grounded.1 id hw).imp_left (List.mem_cons_of_mem _)
  · rintro t₁ s' t₂ ⟨⟩ hs ht₂ id hmem
    rw [hins] at hmem
    rcases List.mem_cons.mp hmem with rfl | hmem
    · exact hfresh (h.tx s' t₂ ht₂).drawn
    · exact h.apart s s' t t₂ (Ne.symm hs) ht ht₂ id hmem

/-- A transaction whose rows are as they were. -/
theorem Owned.same (h : Owned db) {t t' : Tx} (ht : db.txs s = some t)
    (htxs : db'.txs = Function.update db.txs s (some t')) (hw : t'.top.written = t.top.written)
    (hi : t'.top.inserted = t.top.inserted) (ho : t'.outer = t.outer)
    (hsame : db'.nextId = db.nextId ∧ db'.table = db.table ∧ db'.undone = db.undone) : Owned db' := by
  refine h.kept t' ht htxs ?_ ?_ hsame
  · simp [Tx.inserted, Tx.levels, hi, ho]
  · obtain ⟨hg, hg'⟩ := (h.tx s t ht).grounded
    rw [Tx.levels, ho]
    exact ⟨by rw [hw, hi]; exact hg, hg'⟩

/-- A new transaction has written nothing. -/
theorem Owned.begin (h : Owned db) (now : Nat) : Owned (db.put s (.start now)) := by
  refine h.change (x := some (.start now)) rfl (Nat.le_refl _) h.table h.undone (fun _ hid => hid)
    (fun s' t₁ _ ht₁ id hid => ⟨(h.tx s' t₁ ht₁).uncommitted id hid, (h.tx s' t₁ ht₁).standing id hid⟩)
    ?_ ?_
  · rintro t₁ ⟨⟩
    refine ⟨by simp, by simp, by simp, by simp, fun id hw => ?_, trivial⟩
    simp [Tx.start, Level.empty] at hw
  · rintro t₁ s' t₂ ⟨⟩
    simp

theorem Owned.taken (h : Owned db) (hstep : Taken db s act db') : Owned db' := by
  cases hstep with
  | skip => exact h
  | begin now _ => exact h.begin now
  | savepoint t ht _ =>
    refine h.kept t.savepoint ht rfl ?_ ⟨fun id hw => ?_, (h.tx s t ht).grounded⟩ ⟨rfl, rfl, rfl⟩
    · simp [Tx.inserted, Tx.levels, Tx.savepoint, Level.empty]
    · simp [Tx.savepoint, Level.empty] at hw
  | release t outer rest ht _ ho =>
    refine h.kept (t.release outer rest) ht rfl ?_ ?_ ⟨rfl, rfl, rfl⟩
    · simp [Tx.inserted, Tx.levels, Tx.release, Level.into, ho]
    · have hg := (h.tx s t ht).grounded
      rw [Tx.levels, ho] at hg
      exact hg.into
  | undone db₀ t outer rest h₀ ht ho =>
    have hg : Grounded db.table (t.undo outer rest).levels := by
      have hg := (h.tx s t ht).grounded
      rw [Tx.levels, ho] at hg
      exact hg.2
    have hx : ∀ t', some (t.undo outer rest) = some t' →
        t'.inserted = (t.undo outer rest).inserted ∧ Grounded db.table t'.levels := by
      rintro t' ⟨⟩
      exact ⟨rfl, hg⟩
    rcases h₀ with rfl | rfl
    · exact h.undo ht (Tx.inserted_undo ho) rfl (Nat.le_refl _) rfl rfl hx
    · exact h.undo ht (Tx.inserted_undo ho) rfl (Nat.le_succ _) rfl rfl hx
  | aborted db₀ t h₀ ht =>
    rcases h₀ with rfl | rfl
    · exact h.undo (x := none) ht (List.append_nil _).symm rfl (Nat.le_refl _) rfl rfl (by simp)
    · exact h.undo (x := none) ht (List.append_nil _).symm rfl (Nat.le_succ _) rfl rfl (by simp)
  | committed t ht _ => exact h.commit ht
  | inserted t a r ht _ hr => exact h.insert ht hr
  | called t brokerId batchLimit ht _ => exact h.same ht rfl rfl rfl rfl ⟨rfl, rfl, rfl⟩
  | passed t b id rest ht _ _ _ => exact h.same ht rfl rfl rfl rfl ⟨rfl, rfl, rfl⟩
  | claimed t b id rest r ht _ _ _ _ _ =>
    exact h.same ht rfl (by simp) (by simp) (by simp) ⟨rfl, rfl, rfl⟩
  | sent t b r rest ok ht _ _ _ => exact h.same ht rfl rfl rfl rfl ⟨rfl, rfl, rfl⟩
  | marked t b id ok ht _ _ =>
    refine h.kept (t.mark b id ok (t.sees db.table id)) ht rfl rfl ?_ ⟨rfl, rfl, rfl⟩
    refine (h.tx s t ht).grounded.write fun hx => ?_
    rw [Option.isSome_map, Tx.sees, Tx.levels, seen, Option.isSome_or, Bool.or_eq_true] at hx
    exact hx.elim ((h.tx s t ht).grounded.1 id) .inr
  | returned t b ht _ _ => exact h.same ht rfl rfl rfl rfl ⟨rfl, rfl, rfl⟩

theorem Owned.empty : Owned Db.empty :=
  ⟨by simp [Db.empty], by simp [Db.empty], by simp [Db.empty], by simp [Db.empty]⟩

end Owned

end Db

theorem OutboxRuns.owned {ok : Db → OutboxStep → Prop} {db : Db} (h : OutboxRuns ok db) : db.Owned :=
  h.invariant (I := Db.Owned) (by rintro _ rfl; exact .empty) fun _ st _ hI _ => hI.taken (Db.next_taken st _)

theorem OutboxRuns.versions {ok : Db → OutboxStep → Prop} {db : Db} (h : OutboxRuns ok db) :
    db.Versions :=
  h.invariant (I := Db.Versions) (by rintro _ rfl; exact .empty) fun _ st _ hI _ => hI.taken (Db.next_taken st _)

end PgAmqp
