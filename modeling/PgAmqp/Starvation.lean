import PgAmqp.FrontService
import PgAmqp.Relay

/-!
# The relay serves the oldest rows first

A call of `publish_outbox_batch` with nobody else at work sends the first `batch_limit`
pending rows in the order of their ids, and a row whose send fails stays where it is. So
the outbox is a queue that is served from its front. A row is reached as long as fewer than
`batch_limit` rows in front of it fail; behind `batch_limit` rows that keep failing it is not.
-/
namespace PgAmqp

open Transition FrontService

namespace Db

/-- The ids of the pending rows, in order. -/
def pending (db : Db) : List Nat :=
  (List.range db.nextId).filter fun id => (db.table id).any (·.publishedAt.isNone)

/-- Nobody is at work. -/
structure Quiet (db : Db) : Prop where
  txs : ∀ s, db.txs s = none
  holder : ∀ id, db.holder id = none

end Db

/-- The actions inside a batch, but for its end. -/
def OutboxAction.loops : OutboxAction → Bool
  | .fetch => true
  | .send _ => true
  | .mark => true
  | _ => false

/-- The steps of a session that calls `amqp.publish_outbox_batch(NULL, n)` in a transaction
of its own. -/
def relaySteps (s now n : Nat) (acts : List OutboxAction) : List OutboxStep :=
  ⟨s, .begin now⟩ :: ⟨s, .publishOutboxBatch none (some n)⟩ ::
    (acts.map (⟨s, ·⟩) ++ [⟨s, .returned⟩, ⟨s, .commit⟩])

/-- Such a call takes the database from `db` to `db'`, commits, and makes these sends. -/
def Db.Relays (n : Nat) (db : Db) (sends : List Send) (db' : Db) : Prop :=
  ∃ s now acts, (∀ a ∈ acts, a.loops = true) ∧ db' = run Db.next (relaySteps s now n acts) db ∧
    db'.finished = db.finished ++ [⟨true, sends⟩]

/-- One such call after the other. -/
inductive Db.RelaysAll (n : Nat) : Db → List (List Send) → Db → Prop where
  | nil {db : Db} : RelaysAll n db [] db
  | cons {db db₁ db₂ : Db} {sends : List Send} {calls : List (List Send)} :
      db.Relays n sends db₁ → RelaysAll n db₁ calls db₂ → RelaysAll n db (sends :: calls) db₂

/-- What the sends of a call answer for a row. -/
def answered (sends : List Send) (id : Nat) : Bool := sends.any fun x => x.id == id && x.ok

/-- A send of the row fails in one of the calls. -/
def failsIn (calls : List (List Send)) (id : Nat) : Bool :=
  calls.any fun sends => sends.any fun x => x.id == id && !x.ok

section Answered

variable {sends : List Send} {x : Send} {id : Nat}

/-- A call sends a row once at most, so there is one answer. -/
theorem answered_sent (h : (sends.map Send.id).Nodup) (hx : x ∈ sends) : answered sends x.id = x.ok := by
  unfold answered
  cases hok : x.ok with
  | true => exact List.any_eq_true.mpr ⟨x, hx, by simp [hok]⟩
  | false =>
    refine List.any_eq_false.mpr fun y hy => ?_
    by_cases hid : y.id = x.id
    · obtain rfl : y = x := List.inj_on_of_nodup_map h hy hx hid
      simp [hok]
    · simp [hid]

theorem answered_unsent (h : id ∉ sends.map Send.id) : answered sends id = false := by
  refine List.any_eq_false.mpr fun y hy => ?_
  have hid : y.id ≠ id := fun he => h (he ▸ List.mem_map_of_mem hy)
  simp [hid]

end Answered

namespace Db

/-- A call at work, on a database that was quiet before: its line are the pending rows. -/
structure Relaying (db₀ : Db) (n s : Nat) (db : Db) (t : Tx) (b : Batch) : Prop where
  txs : db.txs = Function.update db₀.txs s (some t)
  holder : ∀ id, db.holder id = none ∨ db.holder id = some s
  table : db.table = db₀.table
  nextId : db.nextId = db₀.nextId
  finished : db.finished = db₀.finished
  batch : t.batch = some b
  brokerId : b.brokerId = none
  line : t.line b = db₀.pending
  claimed : t.sends.length + b.fetched.length ≤ n
  room : b.room = some (n - (t.sends.length + b.fetched.length))
  working : db.Working s t

section Relaying

variable {db₀ db : Db} {n s : Nat} {t : Tx} {b : Batch}

theorem mem_pending {id : Nat} : id ∈ db.pending ↔
    id < db.nextId ∧ ∃ r, db.table id = some r ∧ r.publishedAt = none := by
  unfold pending
  rw [List.mem_filter, List.mem_range]
  cases h : db.table id with
  | none => simp
  | some r => simp

theorem pending_nodup (db : Db) : db.pending.Nodup := List.nodup_range.filter _

theorem candidates_start (db : Db) (now : Nat) : db.candidates (.start now) none = db.pending := by
  unfold candidates pending
  refine List.filter_congr fun id _ => ?_
  have hsees : (Tx.start now).sees db.table id = db.table id := rfl
  rw [hsees]
  cases db.table id with
  | none => rfl
  | some r => simp [OutboxRow.selected]

/-- The query of a call in a fresh transaction. -/
theorem Relaying.start (hq : db₀.Quiet) (now n s : Nat) : Relaying db₀ n s
    (run next [⟨s, .begin now⟩, ⟨s, .publishOutboxBatch none (some n)⟩] db₀)
    ((Tx.start now).call none db₀.pending (some n)) ⟨none, db₀.pending, some n, [], none, 0⟩ := by
  have hbegin : next ⟨s, .begin now⟩ db₀ = db₀.put s (.start now) := by
    simp [next, hq.txs]
  have hcall : next ⟨s, .publishOutboxBatch none (some n)⟩ (db₀.put s (.start now)) =
      (db₀.put s (.start now)).put s ((Tx.start now).call none db₀.pending (some n)) := by
    simp only [next, put, Function.update_self, Tx.start_batch, idle]
    rw [show ({ db₀ with txs := Function.update db₀.txs s (some (Tx.start now)) } : Db).candidates
      (Tx.start now) none = db₀.pending from candidates_start db₀ now]
  have hrun : run next [⟨s, .begin now⟩, ⟨s, .publishOutboxBatch none (some n)⟩] db₀ =
      (db₀.put s (.start now)).put s ((Tx.start now).call none db₀.pending (some n)) := by
    simp only [run, List.foldl_cons, List.foldl_nil, hbegin, hcall]
  rw [hrun]
  refine ⟨?_, fun id => .inl (hq.holder id), rfl, rfl, rfl, rfl, rfl, rfl, Nat.zero_le _, rfl, ?_⟩
  · simp [put]
  · exact .call (.start now) rfl rfl none (some n) db₀.pending_nodup

theorem Relaying.next_eq (h : Relaying db₀ n s db t b) (act : OutboxAction) :
    next ⟨s, act⟩ db = db.running s t b act := by
  unfold next
  simp only [h.txs, Function.update_self, h.batch]

/-- A row under the cursor is pending still, and the transaction sees it so. -/
theorem Relaying.sees (h : Relaying db₀ n s db t b) {id : Nat} {rest : List Nat} (hc : b.cursor = id :: rest) :
    ∃ r, db.table id = some r ∧ (t.sees db.table id).filter (·.selected b.brokerId) = some r := by
  have hmem : id ∈ t.line b := by simp [Tx.line, hc]
  rw [h.line] at hmem
  obtain ⟨-, r, hr, hp⟩ := mem_pending.mp hmem
  have hnot : id ∉ t.sends.map Send.id := by
    have hnodup := h.working.line b h.batch
    rw [Tx.line, hc] at hnodup
    exact fun hid => (List.nodup_append.mp hnodup).2.2 id hid id (by simp) rfl
  refine ⟨r, h.table ▸ hr, ?_⟩
  rw [h.working.sees, h.working.unwritten hnot, h.table, hr, h.brokerId]
  simp [OutboxRow.selected, hp]

theorem Relaying.fetch (h : Relaying db₀ n s db t b) (hkey : ∀ id r, db₀.table id = some r → r.id = id) :
    ∃ t' b', Relaying db₀ n s (db.fetch s t b) t' b' := by
  unfold Db.fetch
  cases hc : b.cursor with
  | nil => exact ⟨t, b, h⟩
  | cons id rest =>
    dsimp only
    split
    swap
    · exact ⟨t, b, h⟩
    rename_i hready
    obtain ⟨r, hr, hsees⟩ := h.sees hc
    have hid : r.id = id := hkey id r (h.table ▸ hr)
    have hfree : ¬ (db.holder id).any (· != s) = true := by
      rcases h.holder id with hh | hh <;> simp [hh]
    have hpending : r.publishedAt = none := by
      have hsel := (Option.filter_eq_some_iff.mp hsees).2
      simpa [OutboxRow.selected, h.brokerId] using hsel
    unfold fetchNext
    rw [if_neg hfree, hsees]
    have hroom : n - (t.sends.length + b.fetched.length) ≠ 0 := fun h0 => hready.2 (by rw [h.room, h0])
    have hp : Protects db (db.claim s t b id rest (some r)) s :=
      protects_claim (Bool.eq_false_iff.mpr hfree) s
    refine ⟨(db.lockRow s t id).fetch b rest (some r),
      { b with cursor := rest, room := b.room.map (· - 1), fetched := b.fetched ++ [r] }, ?_, ?_, h.table, h.nextId,
      h.finished, rfl, h.brokerId, ?_, ?_, ?_, ?_⟩
    · show Function.update db.txs s _ = _
      rw [h.txs, Function.update_idem]
    · intro id'
      show Function.update db.holder id (some s) id' = none ∨ Function.update db.holder id (some s) id' = some s
      by_cases hid' : id' = id
      · rw [hid', Function.update_self]
        exact .inr rfl
      · rw [Function.update_of_ne hid']
        exact h.holder id'
    · rw [← h.line]
      simp [Tx.line, hc, hid]
    · simp only [Tx.fetch_sends, lockRow_sends, List.length_append, List.length_singleton]
      omega
    · rw [h.room]
      simp only [Tx.fetch_sends, lockRow_sends, List.length_append, List.length_singleton, Option.map_some,
        Option.some.injEq]
      omega
    · refine (h.working.protected hp).fetch h.batch hc (by simp) ?_
      rintro r' ⟨⟩
      exact ⟨hid, Function.update_self .., hr, hpending⟩

theorem Relaying.send (h : Relaying db₀ n s db t b) (ok : Bool) :
    ∃ t' b', Relaying db₀ n s (db.send s t b ok) t' b' := by
  unfold Db.send
  cases hf : b.fetched with
  | nil => exact ⟨t, b, h⟩
  | cons r rest =>
    dsimp only
    split
    swap
    · exact ⟨t, b, h⟩
    rename_i ha
    have ha : b.awaiting = none := Option.isNone_iff_eq_none.mp ha
    have hlen : (t.send b r rest ok).sends.length + rest.length = t.sends.length + b.fetched.length := by
      simp [Tx.send, hf]
      omega
    refine ⟨t.send b r rest ok, { b with fetched := rest, awaiting := some (r.id, ok) }, ?_, h.holder, h.table,
      h.nextId, h.finished, rfl, h.brokerId, ?_, ?_, ?_, ?_⟩
    · show Function.update db.txs s _ = _
      rw [h.txs, Function.update_idem]
    · rw [← h.line]
      simp [Tx.line, Tx.send, hf]
    · rw [hlen]
      exact h.claimed
    · rw [hlen]
      exact h.room
    · exact (h.working.send h.batch hf ha ok).protected fun _ _ hr => ⟨hr.holder, hr.table, hr.unpublished⟩

theorem Relaying.mark (h : Relaying db₀ n s db t b) : ∃ t' b', Relaying db₀ n s (db.mark s t b) t' b' := by
  unfold Db.mark
  cases ha : b.awaiting with
  | none => exact ⟨t, b, h⟩
  | some x =>
    refine ⟨t.mark b x.1 x.2 (t.sees db.table x.1), { b with
      awaiting := none, count := if x.2 then b.count + 1 else b.count }, ?_, h.holder, h.table, h.nextId, h.finished,
      rfl, h.brokerId, h.line, h.claimed, h.room, ?_⟩
    · show Function.update db.txs s _ = _
      rw [h.txs, Function.update_idem]
    · exact (h.working.mark h.batch ha).protected fun _ _ hr => ⟨hr.holder, hr.table, hr.unpublished⟩

/-- The loop of a call. -/
theorem Relaying.loop (h : Relaying db₀ n s db t b) (hkey : ∀ id r, db₀.table id = some r → r.id = id)
    {acts : List OutboxAction} (hacts : ∀ a ∈ acts, a.loops = true) :
    ∃ t' b', Relaying db₀ n s (run next (acts.map (⟨s, ·⟩)) db) t' b' := by
  induction acts generalizing db t b with
  | nil => exact ⟨t, b, h⟩
  | cons a rest ih =>
    obtain ⟨ha, hrest⟩ := List.forall_mem_cons.mp hacts
    have hstep : ∃ t' b', Relaying db₀ n s (next ⟨s, a⟩ db) t' b' := by
      rw [h.next_eq]
      cases a with
      | fetch => exact h.fetch hkey
      | send ok => exact h.send ok
      | mark => exact h.mark
      | _ => cases ha
    obtain ⟨t', b', h'⟩ := hstep
    exact ih h' hrest

/-- When the loop is over the call has sent the first `n` pending rows. -/
theorem Relaying.sent (h : Relaying db₀ n s db t b) (ho : b.over = true) :
    t.sends.map Send.id = db₀.pending.take n := by
  unfold Batch.over at ho
  simp only [Bool.and_eq_true, Bool.or_eq_true, List.isEmpty_iff, beq_iff_eq] at ho
  obtain ⟨⟨-, hf⟩, hend⟩ := ho
  have hclaimed := h.claimed
  have hroom := h.room
  have hline := h.line
  rw [hf, List.length_nil, Nat.add_zero] at hclaimed hroom
  rw [Tx.line, hf, List.map_nil, List.nil_append] at hline
  rw [← hline]
  rcases hend with hc | hz
  · rw [hc, List.append_nil, List.take_of_length_le (by simpa using hclaimed)]
  · rw [hroom, Option.some.injEq] at hz
    rw [List.take_left' (by rw [List.length_map]; omega)]

/-- What the commit of a call leaves of a row that it sent. -/
theorem Relaying.commit_sent (h : Relaying db₀ n s db t b) (ho : b.over = true) {x : Send} (hx : x ∈ t.sends) :
    ∃ r, db₀.table x.id = some r ∧ r.publishedAt = none ∧
      (t.returned b).sees db.table x.id = some (r.marked t.now x.ok) := by
  have hw : db.Working s (t.returned b) := h.working.returned h.batch ho
  obtain ⟨r, hr, hm⟩ := hw.marked hx (by simp [Tx.returned])
  refine ⟨r, h.table ▸ hr.table, hr.unpublished, ?_⟩
  rw [hw.sees, hm]
  rfl

/-- Every other row is as it was. -/
theorem Relaying.commit_unsent (h : Relaying db₀ n s db t b) (ho : b.over = true) {id : Nat}
    (hid : id ∉ t.sends.map Send.id) : (t.returned b).sees db.table id = db₀.table id := by
  have hw : db.Working s (t.returned b) := h.working.returned h.batch ho
  rw [hw.sees, hw.unwritten hid, h.table]
  rfl

theorem Relaying.commit_pending (h : Relaying db₀ n s db t b) (ho : b.over = true) {db' : Db}
    (hdb : db' = db.endTx s (t.returned b) true) :
    db'.pending = serveRound n (answered t.sends) db₀.pending := by
  have htable : ∀ id, db'.table id = (t.returned b).sees db.table id := fun id => by rw [hdb]; rfl
  have hnextId : db'.nextId = db₀.nextId := by rw [hdb]; exact h.nextId
  have hmarked : db'.pending = db₀.pending.filter fun id => !answered t.sends id := by
    unfold pending
    rw [hnextId, List.filter_filter]
    refine List.filter_congr fun id _ => ?_
    rw [htable]
    by_cases hid : id ∈ t.sends.map Send.id
    · obtain ⟨x, hx, rfl⟩ := List.mem_map.mp hid
      obtain ⟨r, hr, hp, hm⟩ := h.commit_sent ho hx
      have hans : answered t.sends x.id = x.ok := answered_sent h.working.once hx
      rw [hr, hm, hans]
      cases hok : x.ok <;> simp [OutboxRow.marked, hp]
    · rw [h.commit_unsent ho hid, answered_unsent hid]
      simp
  rw [hmarked]
  unfold serveRound
  conv_lhs => rw [← List.take_append_drop n db₀.pending]
  rw [List.filter_append]
  congr 1
  -- the call has sent none of the rows behind the first `n`
  refine List.filter_eq_self.mpr fun id hid => ?_
  have hnot : id ∉ t.sends.map Send.id := by
    rw [h.sent ho]
    have hnodup := db₀.pending_nodup
    rw [← List.take_append_drop n db₀.pending] at hnodup
    exact fun hmem => (List.nodup_append.mp hnodup).2.2 id hmem id hid rfl
  simp [answered_unsent hnot]

/-- The commit of a call. -/
theorem Relaying.commit (h : Relaying db₀ n s db t b) (ho : b.over = true) (hq : db₀.Quiet)
    (hkey : ∀ id r, db₀.table id = some r → r.id = id) {db' : Db} (hdb : db' = db.endTx s (t.returned b) true) :
    db'.Quiet ∧ (∀ id r, db'.table id = some r → r.id = id) ∧
      db'.pending = serveRound n (answered t.sends) db₀.pending := by
  refine ⟨⟨fun s' => ?_, fun id => ?_⟩, fun id r hr => ?_, h.commit_pending ho hdb⟩
  · rw [hdb]
    show Function.update db.txs s none s' = none
    rw [h.txs, Function.update_idem]
    by_cases hs : s' = s
    · rw [hs, Function.update_self]
    · rw [Function.update_of_ne hs, hq.txs]
  · rw [hdb]
    show (if db.holder id = some s then none else db.holder id) = none
    rcases h.holder id with hh | hh <;> simp [hh]
  · have hr : (t.returned b).sees db.table id = some r := by
      rw [hdb] at hr
      exact hr
    by_cases hid : id ∈ t.sends.map Send.id
    · obtain ⟨x, hx, rfl⟩ := List.mem_map.mp hid
      obtain ⟨r₀, hr₀, -, hm⟩ := h.commit_sent ho hx
      obtain rfl := Option.some.inj (hm.symm.trans hr)
      exact (marked_id ..).trans (hkey _ _ hr₀)
    · exact hkey id r (h.commit_unsent ho hid ▸ hr)

end Relaying

section Calls

variable {db db' : Db} {n : Nat} {sends : List Send} {calls : List (List Send)}

/-- A call sends the first `n` pending rows, and is one round of the queue. -/
theorem Relays.served (h : db.Relays n sends db') (hq : db.Quiet)
    (hkey : ∀ id r, db.table id = some r → r.id = id) :
    sends.map Send.id = db.pending.take n ∧ db'.Quiet ∧ (∀ id r, db'.table id = some r → r.id = id) ∧
      db'.pending = serveRound n (answered sends) db.pending := by
  obtain ⟨s, now, acts, hacts, hrun, hfin⟩ := h
  obtain ⟨t, b, hloop⟩ := (Relaying.start hq now n s).loop hkey hacts
  have hsplit : run next (relaySteps s now n acts) db = next ⟨s, .commit⟩ (next ⟨s, .returned⟩
      (run next (acts.map (⟨s, ·⟩)) (run next [⟨s, .begin now⟩, ⟨s, .publishOutboxBatch none (some n)⟩] db))) := by
    simp only [run, relaySteps, List.foldl_cons, List.foldl_append, List.foldl_nil]
  rw [hsplit] at hrun
  generalize run next (acts.map (⟨s, ·⟩)) (run next [⟨s, .begin now⟩, ⟨s, .publishOutboxBatch none (some n)⟩] db) =
    db₂ at hrun hloop
  have hreturned := hloop.next_eq .returned
  rw [hreturned] at hrun
  unfold running at hrun
  dsimp only at hrun
  cases ho : b.over with
  | false =>
    -- a call that is not over does not commit
    have hcommit := hloop.next_eq .commit
    simp only [ho, Bool.false_eq_true, if_false] at hrun
    rw [hcommit] at hrun
    have hsame : db' = db₂ := hrun
    rw [hsame, hloop.finished] at hfin
    simp at hfin
  | true =>
    simp only [ho, if_true] at hrun
    have hcommit : next ⟨s, .commit⟩ (db₂.put s (t.returned b)) =
        (db₂.put s (t.returned b)).endTx s (t.returned b) true := by
      simp [next, put, Tx.returned, idle]
    rw [hcommit] at hrun
    have hend : db' = db₂.endTx s (t.returned b) true := by
      rw [hrun]
      unfold endTx put
      simp only [Function.update_idem]
    have hsends : sends = t.sends := by
      rw [hend] at hfin
      have hfin : db₂.finished ++ [⟨true, t.sends⟩] = db.finished ++ [⟨true, sends⟩] := hfin
      rw [hloop.finished] at hfin
      simpa using (List.append_cancel_left hfin).symm
    rw [hsends]
    exact ⟨hloop.sent ho, hloop.commit ho hq hkey hend⟩

/-- The calls are the rounds of the queue, and only rows that failed count as failing. -/
theorem RelaysAll.served (h : db.RelaysAll n calls db') (hq : db.Quiet)
    (hkey : ∀ id r, db.table id = some r → r.id = id) :
    calls.flatMap (fun sends => sends.map Send.id) = served n (calls.map answered) db.pending ∧
      ∀ id ∈ failed n (calls.map answered) db.pending, failsIn calls id = true := by
  induction h with
  | nil => exact ⟨rfl, by simp [failed]⟩
  | @cons db db₁ db₂ sends calls hcall _ ih =>
    obtain ⟨hsent, hq', hkey', hpending⟩ := hcall.served hq hkey
    obtain ⟨hserved, hfailed⟩ := ih hq' hkey'
    rw [hpending] at hserved hfailed
    refine ⟨?_, fun id hid => ?_⟩
    · rw [List.flatMap_cons, hsent, hserved]
      rfl
    · unfold failsIn
      rw [List.any_cons, Bool.or_eq_true]
      rcases List.mem_append.mp hid with hid | hid
      · obtain ⟨hmem, hans⟩ := List.mem_filter.mp hid
        rw [← hsent] at hmem
        obtain ⟨x, hx, rfl⟩ := List.mem_map.mp hmem
        refine .inl (List.any_eq_true.mpr ⟨x, hx, ?_⟩)
        have hok : x.ok = false := by
          cases hok : x.ok with
          | false => rfl
          | true =>
            have htrue : answered sends x.id = true := List.any_eq_true.mpr ⟨x, hx, by simp [hok]⟩
            simp [htrue] at hans
        simp [hok]
      · exact .inr (hfailed id hid)

end Calls

end Db

/-- A pending row is sent once the calls are enough for the rows in front of it, of which at
most `f` fail; with fewer failures than `n` some number of calls is enough. -/
theorem relay_reaches {db db' : Db} (hdb : OutboxRuns (fun _ _ => True) db) (hq : db.Quiet) {n : Nat}
    {calls : List (List Send)} (h : db.RelaysAll n calls db') (hne : calls ≠ []) {id f : Nat}
    (hid : id ∈ db.pending) (hf : (db.pending.filter fun i => i < id && failsIn calls i).length ≤ f)
    (hcalls : (db.pending.filter (· < id)).length < (calls.length - 1) * (n - f) + n) :
    ∃ sends ∈ calls, ∃ x ∈ sends, x.id = id := by
  have hkey : ∀ id r, db.table id = some r → r.id = id := fun id r hr => ((OutboxRuns.versions hdb).table id r hr).key
  obtain ⟨hserved, hfailed⟩ := h.served hq hkey
  -- the rows in front are those with a smaller id
  obtain ⟨front, back, hsplit⟩ := List.append_of_mem hid
  have hsorted : db.pending.Pairwise (· < ·) := (List.pairwise_lt_range).filter _
  have hfront : db.pending.filter (· < id) = front := by
    rw [hsplit] at hsorted ⊢
    obtain ⟨-, hback, hlt⟩ := List.pairwise_append.mp hsorted
    have hself : front.filter (· < id) = front :=
      List.filter_eq_self.mpr fun i hi => by simpa using hlt i hi id (by simp)
    have hnone : back.filter (· < id) = [] := by
      refine List.filter_eq_nil_iff.mpr fun i hi => ?_
      have hgt := (List.pairwise_cons.mp hback).1 i hi
      simp
      omega
    rw [List.filter_append, hself, List.filter_cons]
    simp [hnone]
  have hfails : (front.filter (failsIn calls)).length ≤ f := by
    rw [← hfront, List.filter_filter]
    refine Nat.le_trans (Nat.le_of_eq (congrArg List.length (List.filter_congr fun i _ => ?_))) hf
    exact Bool.and_comm _ _
  have hmem : id ∈ served n (calls.map answered) (front ++ id :: back) := by
    refine mem_served (failsIn calls) (by simpa using hne) hfails ?_ ?_
    · rw [← hsplit]
      exact hfailed
    · rw [List.length_map, ← hfront]
      exact hcalls
  rw [← hsplit, ← hserved] at hmem
  obtain ⟨sends, hsends, hx⟩ := List.mem_flatMap.mp hmem
  obtain ⟨x, hx, hxid⟩ := List.mem_map.mp hx
  exact ⟨sends, hsends, x, hx, hxid⟩

/-- The same message for another broker. -/
def PublishArgs.elsewhere : PublishArgs := { PublishArgs.complete with brokerId := some 2 }

/-- Two rows are enqueued, for two brokers. -/
def twoRows : Db := run Db.next
  [⟨0, .begin 0⟩, ⟨0, .publishOutbox .complete⟩, ⟨0, .publishOutbox .elsewhere⟩, ⟨0, .commit⟩] .empty

theorem twoRows_runs : OutboxRuns (fun _ _ => True) twoRows := by
  unfold twoRows
  exact (OutboxRuns.empty _).run _ (Admits.always _ _)

theorem twoRows_quiet : twoRows.Quiet where
  txs s := by cases s <;> rfl
  holder _ := rfl

/-- A call with a batch limit of one whose send answers `ok`. -/
def relayOne (ok : Bool) (db : Db) : Db := run Db.next (relaySteps 0 1 1 [.fetch, .send ok, .mark]) db

theorem relayOne_relays {ok : Bool} {db : Db} {sends : List Send}
    (h : (relayOne ok db).finished = db.finished ++ [⟨true, sends⟩]) : db.Relays 1 sends (relayOne ok db) :=
  ⟨0, 1, [.fetch, .send ok, .mark], by cases ok <;> decide, rfl, h⟩

theorem twoRows_reached :
    ∃ sends ∈ ([[⟨0, .complete, true⟩], [⟨1, .elsewhere, true⟩]] : List (List Send)), ∃ x ∈ sends, x.id = 1 := by
  have hcalls : twoRows.RelaysAll 1 [[⟨0, .complete, true⟩], [⟨1, .elsewhere, true⟩]]
      (relayOne true (relayOne true twoRows)) :=
    .cons (relayOne_relays (by decide +kernel)) (.cons (relayOne_relays (by decide +kernel)) .nil)
  have hpending : 1 ∈ twoRows.pending := by decide +kernel
  exact relay_reaches twoRows_runs twoRows_quiet hcalls (by simp) hpending (f := 0) (by decide +kernel)
    (by decide +kernel)

/-- A row that fails twice is all that two calls send. -/
theorem row_behind_failures_starves :
    ¬ ∀ db db' : Db, OutboxRuns (fun _ _ => True) db → db.Quiet → ∀ n, 1 ≤ n → ∀ calls : List (List Send),
      db.RelaysAll n calls db' → calls.length = (db.pending.length + (n - 1)) / n →
        ∀ id ∈ db.pending, ∃ sends ∈ calls, ∃ x ∈ sends, x.id = id := by
  intro h
  have hcalls : twoRows.RelaysAll 1 [[⟨0, .complete, false⟩], [⟨0, .complete, false⟩]]
      (relayOne false (relayOne false twoRows)) :=
    .cons (relayOne_relays (by decide +kernel)) (.cons (relayOne_relays (by decide +kernel)) .nil)
  obtain ⟨sends, hsends, x, hx, hid⟩ :=
    h twoRows _ twoRows_runs twoRows_quiet 1 (Nat.le_refl 1) _ hcalls (by decide +kernel) 1 (by decide +kernel)
  simp only [List.mem_cons, List.not_mem_nil, or_false, or_self] at hsends
  subst hsends
  rw [List.mem_singleton] at hx
  subst hx
  cases hid

end PgAmqp
