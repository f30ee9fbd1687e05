import PgAmqp.Relay

/-!
# One call of the relay

A call of `amqp.publish_outbox_batch` goes on while other sessions do what they like. What
it has sent, what it has claimed and what its cursor has not come to are always one list in
the order of the ids, taken from the rows that were pending when the call began. So it
sends them in the order in which they were enqueued and none of them twice, no more than
its limit, and what it returns is the number of sends that were answered with true. It is
never stuck; and a row that it leaves out, its limit not being reached, was locked by
another session or no longer pending when the cursor came to it.
-/
namespace PgAmqp

open Transition

/-- The actions that a running call consists of. -/
def OutboxAction.relays : OutboxAction → Bool
  | .fetch => true
  | .send _ => true
  | .mark => true
  | _ => false

/-- While the call goes on its session does nothing else; all others may. -/
def WhileCalling (s : Nat) (_ : Db) (st : OutboxStep) : Prop := st.session = s → st.action.relays = true

/-- The states in which a call that session `s` made in `db` is going on. -/
abbrev Calling (db : Db) (s : Nat) (brokerId : Option Int) (batchLimit : Option Nat) : Db → Prop :=
  Reach (· = Db.next ⟨s, .publishOutboxBatch brokerId batchLimit⟩ db) Db.next (WhileCalling s)

/-- The cursor would go past this row: another session has it, or it is not selected any more. -/
def Db.PassesOver (db : Db) (s : Nat) (brokerId : Option Int) (id : Nat) : Prop :=
  (db.holder id).any (· != s) = true ∨
    ∃ t, db.txs s = some t ∧ (t.sees db.table id).any (·.selected brokerId) = false

namespace Batch

/-- The cursor is free to go on: no row waits for its mark, and the limit is not used up. -/
def Ready (b : Batch) : Prop := b.awaiting.isNone = true ∧ b.room ≠ some 0

/-- The ids that a call is still concerned with, behind those it has sent. -/
def ahead (b : Batch) : List Nat := b.fetched.map OutboxRow.id ++ b.cursor

/-- A send that was answered with true and is not counted yet. -/
def uncounted (b : Batch) : Nat := if b.awaiting.any Prod.snd = true then 1 else 0

/-- A bound on what is left to do. -/
def left (b : Batch) : Nat :=
  3 * b.cursor.length + 2 * b.fetched.length + if b.awaiting.isSome = true then 1 else 0

end Batch

/-- How far a call has come that took `ids` from its snapshot, in the transaction `t₀`;
`Passed` is what its cursor went past. -/
structure CallState (ids : List Nat) (t₀ : Tx) (brokerId : Option Int) (batchLimit : Option Nat) (Passed : Nat → Prop)
    (new : List Send) (t : Tx) (b : Batch) : Prop where
  batch : t.batch = some b
  filter : b.brokerId = brokerId
  sends : t.sends = t₀.sends ++ new
  ordered : (new.map Send.id ++ b.ahead).Pairwise (· < ·)
  taken : ∀ id ∈ new.map Send.id ++ b.ahead, id ∈ ids
  passed : ∀ id ∈ ids, id ∈ new.map Send.id ++ b.ahead ∨ Passed id
  fetched : ∀ r ∈ b.fetched, r.selected brokerId = true
  sent : ∀ x ∈ new, ∃ r : OutboxRow, r.id = x.id ∧ r.args = x.args ∧ r.selected brokerId = true
  room : batchLimit = b.room.map (new.length + b.fetched.length + ·)
  count : b.count + b.uncounted = new.countP Send.ok

section CallState

variable {ids : List Nat} {t₀ t : Tx} {b : Batch} {brokerId : Option Int} {batchLimit : Option Nat}
  {Passed : Nat → Prop} {new : List Send}

theorem CallState.call (hids : ids.Pairwise (· < ·)) :
    CallState ids t₀ brokerId batchLimit Passed [] (t₀.call brokerId ids batchLimit)
      ⟨brokerId, ids, batchLimit, [], none, 0⟩ where
  batch := rfl
  filter := rfl
  sends := (List.append_nil _).symm
  ordered := hids
  taken := fun _ h => h
  passed := fun _ h => .inl h
  fetched := by simp
  sent := by simp
  room := by cases batchLimit <;> simp
  count := rfl

theorem CallState.mono {Passed' : Nat → Prop} (hp : ∀ id, Passed id → Passed' id)
    (h : CallState ids t₀ brokerId batchLimit Passed new t b) : CallState ids t₀ brokerId batchLimit Passed' new t b :=
  ⟨h.batch, h.filter, h.sends, h.ordered, h.taken, fun id hid => (h.passed id hid).imp_right (hp id), h.fetched,
    h.sent, h.room, h.count⟩

/-- The cursor goes past a row. -/
theorem CallState.pass (h : CallState ids t₀ brokerId batchLimit Passed new t b) {id : Nat} {rest : List Nat}
    (hc : b.cursor = id :: rest) (hp : Passed id) (t' : Tx) (ht : t'.sends = t.sends) {b' : Batch}
    (hb : t'.batch = some b') (hb' : b' = { b with cursor := rest }) :
    CallState ids t₀ brokerId batchLimit Passed new t' b' := by
  subst hb'
  have hsub : (new.map Send.id ++ { b with cursor := rest }.ahead).Sublist (new.map Send.id ++ b.ahead) := by
    refine List.Sublist.append_left (List.Sublist.append_left ?_ _) _
    rw [hc]
    exact List.sublist_cons_self ..
  refine ⟨hb, h.filter, ht.trans h.sends, h.ordered.sublist hsub, fun i hi => h.taken i (hsub.subset hi),
    fun i hi => ?_, h.fetched, h.sent, h.room, h.count⟩
  rcases h.passed i hi with hi | hi
  · by_cases hid : i = id
    · exact .inr (hid ▸ hp)
    · refine .inl ?_
      simp only [Batch.ahead, hc, List.mem_append, List.mem_cons] at hi ⊢
      grind
  · exact .inr hi

/-- The cursor claims a row. -/
theorem CallState.claim (h : CallState ids t₀ brokerId batchLimit Passed new t b) {id : Nat} {rest : List Nat}
    (hc : b.cursor = id :: rest) (hroom : b.room ≠ some 0) {r : OutboxRow} (hr : r.id = id)
    (hsel : r.selected brokerId = true) (t' : Tx) (ht : t'.sends = t.sends) {b' : Batch} (hb : t'.batch = some b')
    (hb' : b' = { b with cursor := rest, room := b.room.map (· - 1), fetched := b.fetched ++ [r] }) :
    CallState ids t₀ brokerId batchLimit Passed new t' b' := by
  subst hb'
  have hahead : { b with cursor := rest, room := b.room.map (· - 1), fetched := b.fetched ++ [r] }.ahead = b.ahead := by
    simp [Batch.ahead, hc, hr]
  refine ⟨hb, h.filter, ht.trans h.sends, ?_, ?_, ?_, ?_, h.sent, ?_, h.count⟩
  · rw [hahead]
    exact h.ordered
  · rw [hahead]
    exact h.taken
  · rw [hahead]
    exact h.passed
  · intro r' hr'
    rcases List.mem_append.mp hr' with hr' | hr'
    · exact h.fetched r' hr'
    · rw [List.mem_singleton.mp hr']
      exact hsel
  · rw [h.room]
    cases hroom' : b.room with
    | none => rfl
    | some n =>
      have hn : n ≠ 0 := by
        rintro rfl
        exact hroom hroom'
      simp only [Option.map_some, List.length_append, List.length_singleton]
      congr 1
      omega

/-- The next claimed row is sent. -/
theorem CallState.send (h : CallState ids t₀ brokerId batchLimit Passed new t b) {r : OutboxRow}
    {rest : List OutboxRow} (hf : b.fetched = r :: rest) (ha : b.awaiting = none) (ok : Bool) :
    CallState ids t₀ brokerId batchLimit Passed (new ++ [(⟨r.id, r.args, ok⟩ : Send)]) (t.send b r rest ok)
      { b with fetched := rest, awaiting := some (r.id, ok) } := by
  have hline : (new ++ [(⟨r.id, r.args, ok⟩ : Send)]).map Send.id ++
      { b with fetched := rest, awaiting := some (r.id, ok) }.ahead = new.map Send.id ++ b.ahead := by
    simp [Batch.ahead, hf]
  refine ⟨rfl, h.filter, ?_, ?_, ?_, ?_, ?_, ?_, ?_, ?_⟩
  · show t.sends ++ _ = _
    rw [h.sends, List.append_assoc]
  · rw [hline]
    exact h.ordered
  · rw [hline]
    exact h.taken
  · rw [hline]
    exact h.passed
  · exact fun r' hr' => h.fetched r' (hf ▸ List.mem_cons_of_mem r hr')
  · intro x hx
    rcases List.mem_append.mp hx with hx | hx
    · exact h.sent x hx
    · rw [List.mem_singleton.mp hx]
      exact ⟨r, rfl, rfl, h.fetched r (hf ▸ List.mem_cons_self ..)⟩
  · rw [h.room, hf]
    cases b.room with
    | none => rfl
    | some n =>
      simp only [Option.map_some, List.length_append, List.length_cons, List.length_nil]
      congr 1
      omega
  · have hcount := h.count
    rw [List.countP_append, ← hcount]
    unfold Batch.uncounted
    rw [ha]
    cases ok <;> simp

/-- The row that was sent is marked. -/
theorem CallState.mark (h : CallState ids t₀ brokerId batchLimit Passed new t b) {id : Nat} {ok : Bool}
    (ha : b.awaiting = some (id, ok)) (r : Option OutboxRow) :
    CallState ids t₀ brokerId batchLimit Passed new (t.mark b id ok r)
      { b with awaiting := none, count := if ok then b.count + 1 else b.count } := by
  refine ⟨rfl, h.filter, h.sends, h.ordered, h.taken, h.passed, h.fetched, h.sent, h.room, ?_⟩
  have hcount := h.count
  rw [← hcount]
  unfold Batch.uncounted
  rw [ha]
  cases ok <;> simp

end CallState

section Calling

variable {db db' : Db} {s : Nat} {t₀ t : Tx} {b : Batch} {brokerId : Option Int} {batchLimit : Option Nat}
  {Passed : Nat → Prop} {new : List Send}

/-- On the way of the call to `db'` there was a state in which its cursor stood at the row, free
to go on, would go past it, and went on. -/
def PassedOver (db : Db) (s : Nat) (brokerId : Option Int) (batchLimit : Option Nat) (db' : Db) (id : Nat) : Prop :=
  ∃ db'' t b rest, Calling db s brokerId batchLimit db'' ∧ db''.txs s = some t ∧ t.batch = some b ∧
    b.cursor = id :: rest ∧ b.Ready ∧ db''.PassesOver s brokerId id ∧
    Reach (· = Db.next ⟨s, .fetch⟩ db'') Db.next (WhileCalling s) db'

theorem PassedOver.step {id : Nat} (h : PassedOver db s brokerId batchLimit db' id) {st : OutboxStep}
    (hst : WhileCalling s db' st) : PassedOver db s brokerId batchLimit (Db.next st db') id := by
  obtain ⟨db'', t, b, rest, hcall, ht, hb, hc, hready, hpass, hway⟩ := h
  exact ⟨db'', t, b, rest, hcall, ht, hb, hc, hready, hpass, hway.step st hst⟩

/-- What a state of a call is like: `new` was sent so far. -/
structure Going (db : Db) (s : Nat) (t₀ : Tx) (brokerId : Option Int) (batchLimit : Option Nat) (db' : Db)
    (new : List Send) (t : Tx) (b : Batch) : Prop where
  tx : db'.txs s = some t
  state : CallState (db.candidates t₀ brokerId) t₀ brokerId batchLimit (PassedOver db s brokerId batchLimit db') new t b

theorem Db.candidates_ordered (db : Db) (t : Tx) (brokerId : Option Int) :
    (db.candidates t brokerId).Pairwise (· < ·) :=
  List.Pairwise.filter _ List.pairwise_lt_range

theorem Db.next_call (ht : db.txs s = some t₀) (hb : t₀.batch = none) :
    Db.next ⟨s, .publishOutboxBatch brokerId batchLimit⟩ db =
      db.put s (t₀.call brokerId (db.candidates t₀ brokerId) batchLimit) := by
  unfold Db.next
  rw [ht]
  dsimp only
  rw [hb]
  rfl

theorem Db.next_running (ht : db'.txs s = some t) (hb : t.batch = some b) (act : OutboxAction) :
    Db.next ⟨s, act⟩ db' = db'.running s t b act := by
  unfold Db.next
  rw [ht]
  dsimp only
  rw [hb]

theorem Db.put_txs (db : Db) (s : Nat) (t : Tx) : (db.put s t).txs s = some t := Function.update_self ..

/-- The states of a call in a run are states of the run. -/
theorem Calling.runs (hdb : OutboxRuns (fun _ _ => True) db) (h : Calling db s brokerId batchLimit db') :
    OutboxRuns (fun _ _ => True) db' := by
  induction h with
  | init hs =>
    subst hs
    exact .step _ hdb trivial
  | step i _ _ ih => exact .step i ih trivial

/-- The cursor goes on. -/
theorem CallState.fetch {ids : List Nat} (h : CallState ids t₀ brokerId batchLimit Passed new t b) (hv : db'.Versions)
    (ht : db'.txs s = some t)
    (hpass : ∀ id rest, b.cursor = id :: rest → b.Ready → db'.PassesOver s brokerId id → Passed id) :
    ∃ t' b', (db'.fetch s t b).txs s = some t' ∧ CallState ids t₀ brokerId batchLimit Passed new t' b' := by
  unfold Db.fetch
  cases hc : b.cursor with
  | nil => exact ⟨t, b, ht, h⟩
  | cons id rest =>
    dsimp only
    split
    · rename_i hready
      unfold Db.fetchNext
      split
      · rename_i hheld
        exact ⟨_, _, Db.put_txs .., h.pass hc (hpass id rest hc hready (.inl hheld)) (t.fetch b rest none) rfl rfl rfl⟩
      · unfold Db.claim
        cases hsee : (t.sees db'.table id).filter (·.selected b.brokerId) with
        | none =>
          have hunseen : (t.sees db'.table id).any (·.selected brokerId) = false := by
            rw [h.filter] at hsee
            cases hrow : t.sees db'.table id with
            | none => rfl
            | some r => simpa [hrow, Option.filter] using hsee
          exact ⟨_, _, Function.update_self .., h.pass hc (hpass id rest hc hready (.inr ⟨t, ht, hunseen⟩))
            ((db'.lockRow s t id).fetch b rest none) (by simp) rfl rfl⟩
        | some r =>
          obtain ⟨hrow, hsel⟩ := Option.filter_eq_some_iff.mp hsee
          have hid : r.id = id := (hv.sees ht hrow).key
          refine ⟨_, _, Function.update_self .., h.claim hc hready.2 hid ?_ ((db'.lockRow s t id).fetch b rest (some r))
            (by simp) rfl rfl⟩
          rw [← h.filter]
          exact hsel
    · exact ⟨t, b, ht, h⟩

theorem CallState.running {ids : List Nat} (h : CallState ids t₀ brokerId batchLimit Passed new t b)
    (hv : db'.Versions) (ht : db'.txs s = some t) {act : OutboxAction} (hact : act.relays = true)
    (hpass : act = .fetch → ∀ id rest, b.cursor = id :: rest → b.Ready →
      db'.PassesOver s brokerId id → Passed id) :
    ∃ new' t' b', (db'.running s t b act).txs s = some t' ∧
      CallState ids t₀ brokerId batchLimit Passed new' t' b' := by
  cases act with
  | fetch => exact ⟨new, h.fetch hv ht (hpass rfl)⟩
  | send ok =>
    unfold Db.running Db.send
    cases hf : b.fetched with
    | nil => exact ⟨new, t, b, ht, h⟩
    | cons r rest =>
      dsimp only
      split
      · rename_i ha
        exact ⟨_, _, _, Db.put_txs .., h.send hf (Option.isNone_iff_eq_none.mp ha) ok⟩
      · exact ⟨new, t, b, ht, h⟩
  | mark =>
    unfold Db.running Db.mark
    cases ha : b.awaiting with
    | none => exact ⟨new, t, b, ht, h⟩
    | some x => exact ⟨new, _, _, Db.put_txs .., h.mark ha _⟩
  | _ => cases hact

/-- Every state of a call accounts for what the snapshot has given it. -/
theorem Calling.going (hdb : OutboxRuns (fun _ _ => True) db) (ht : db.txs s = some t₀) (hb : t₀.batch = none)
    (h : Calling db s brokerId batchLimit db') : ∃ new t b, Going db s t₀ brokerId batchLimit db' new t b := by
  refine h.invariant (I := fun db' => ∃ new t b, Going db s t₀ brokerId batchLimit db' new t b) ?_ ?_
  · rintro _ rfl
    refine ⟨[], _, _, ?_, .call (db.candidates_ordered t₀ brokerId)⟩
    rw [Db.next_call ht hb]
    exact Db.put_txs ..
  · intro db' st hcall hI hst
    obtain ⟨new, t, b, hg⟩ := hI
    -- what the cursor went past so far stays behind it
    have hstate := hg.state.mono fun _ hp => hp.step hst
    by_cases hs : st.session = s
    · obtain ⟨s', act⟩ := st
      obtain rfl : s' = s := hs
      obtain ⟨new', t', b', htx, hstate'⟩ := hstate.running (Calling.runs hdb hcall).versions hg.tx (hst rfl)
        (fun hact id rest hc hready hp =>
          ⟨db', t, b, rest, hcall, hg.tx, hg.state.batch, hc, hready, hp, .init (hact ▸ rfl)⟩)
      exact ⟨new', t', b', by rw [Db.next_running hg.tx hg.state.batch]; exact htx, hstate'⟩
    · refine ⟨new, t, b, ?_, hstate⟩
      rw [(Db.next_taken st db').other (Ne.symm hs)]
      exact hg.tx

/-- A call that is not over can go on, and has less left to do then. -/
theorem Going.proceeds (h : Going db s t₀ brokerId batchLimit db' new t b) (ho : b.over = false) :
    ∃ act t' b', act.relays = true ∧ (Db.next ⟨s, act⟩ db').txs s = some t' ∧ t'.batch = some b' ∧
      b'.left < b.left := by
  have running : ∀ act, Db.next ⟨s, act⟩ db' = db'.running s t b act := Db.next_running h.tx h.state.batch
  cases ha : b.awaiting with
  | some x =>
    have hnext : Db.next ⟨s, .mark⟩ db' = db'.put s (t.mark b x.1 x.2 (t.sees db'.table x.1)) := by
      rw [running]
      unfold Db.running Db.mark
      rw [ha]
    refine ⟨.mark, t.mark b x.1 x.2 (t.sees db'.table x.1), _, rfl, ?_, rfl, ?_⟩
    · rw [hnext]
      exact Db.put_txs ..
    · simp [Batch.left, ha]
  | none =>
    cases hf : b.fetched with
    | cons r rest =>
      have hnext : Db.next ⟨s, .send true⟩ db' = db'.put s (t.send b r rest true) := by
        rw [running]
        unfold Db.running Db.send
        rw [hf]
        simp [ha]
      refine ⟨.send true, t.send b r rest true, _, rfl, ?_, rfl, ?_⟩
      · rw [hnext]
        exact Db.put_txs ..
      · simp [Batch.left, ha, hf]
        omega
    | nil =>
      cases hc : b.cursor with
      | nil => simp [Batch.over, ha, hf, hc] at ho
      | cons id rest =>
        have hroom : b.room ≠ some 0 := by
          intro hr
          simp [Batch.over, ha, hf, hr] at ho
        have hnext : Db.next ⟨s, .fetch⟩ db' = db'.fetchNext s t b id rest := by
          rw [running]
          unfold Db.running Db.fetch
          rw [hc]
          simp [ha, hroom]
        have htx : ∃ t₁ : Tx, ∃ r, (db'.fetchNext s t b id rest).txs s = some (t₁.fetch b rest r) := by
          unfold Db.fetchNext Db.claim
          split
          · exact ⟨t, none, Db.put_txs ..⟩
          · exact ⟨db'.lockRow s t id, _, Function.update_self ..⟩
        obtain ⟨t₁, r, htx⟩ := htx
        refine ⟨.fetch, t₁.fetch b rest r, ?_⟩
        obtain ⟨b', hb', hcursor, hawaiting, hfetched⟩ := t₁.fetch_batch b rest r
        refine ⟨b', rfl, hnext ▸ htx, hb', ?_⟩
        have hlen : r.toList.length ≤ 1 := by cases r <;> simp
        simp only [Batch.left, hcursor, hawaiting, hfetched, ha, hf, hc, List.nil_append, List.length_cons,
          List.length_nil]
        omega

/-- What a call that is over has done with the ids of its snapshot. -/
theorem Going.over (h : Going db s t₀ brokerId batchLimit db' new t b) (ho : b.over = true) :
    b.count = new.countP Send.ok ∧ ∀ id ∈ db.candidates t₀ brokerId, id ∈ new.map Send.id ∨
      batchLimit = some new.length ∨ PassedOver db s brokerId batchLimit db' id := by
  simp only [Batch.over, Bool.and_eq_true, Bool.or_eq_true, Option.isNone_iff_eq_none, List.isEmpty_iff,
    beq_iff_eq] at ho
  obtain ⟨⟨ha, hf⟩, hend⟩ := ho
  refine ⟨?_, fun id hid => ?_⟩
  · have hcount := h.state.count
    simpa [Batch.uncounted, ha] using hcount
  · rcases h.state.passed id hid with hin | hpassed
    · rcases hend with hc | hroom
      · refine .inl ?_
        simpa [Batch.ahead, hf, hc] using hin
      · refine .inr (.inl ?_)
        rw [h.state.room, hroom, hf]
        simp
    · exact .inr (.inr hpassed)

/-- A call sends pending rows in the order of their ids and within its limit, whatever the
other sessions do meanwhile, and it can always go on until it is over. Then it returns the
number of sends answered with true; what it has left out, short of its limit, another
session had locked when the cursor came to it, or it was not pending any more then. -/
theorem batch_relays (hdb : OutboxRuns (fun _ _ => True) db) (ht : db.txs s = some t₀) (hb : t₀.batch = none)
    (h : Calling db s brokerId batchLimit db') :
    ∃ t b new, db'.txs s = some t ∧ t.batch = some b ∧ t.sends = t₀.sends ++ new ∧
      (new.map Send.id).Pairwise (· < ·) ∧
      (∀ x ∈ new, x.id ∈ db.candidates t₀ brokerId ∧ ∀ id, brokerId = some id → x.args.brokerId = some id) ∧
      (∀ n, batchLimit = some n → new.length ≤ n) ∧
      (b.over = false → ∃ act t' b', act.relays = true ∧ (Db.next ⟨s, act⟩ db').txs s = some t' ∧
        t'.batch = some b' ∧ b'.left < b.left) ∧
      (b.over = true →
        (∃ t', (Db.next ⟨s, .returned⟩ db').txs s = some t' ∧ t'.batch = none ∧ t'.sends = t.sends ∧
          t'.result = some (new.countP Send.ok)) ∧
        ∀ id ∈ db.candidates t₀ brokerId, id ∈ new.map Send.id ∨ batchLimit = some new.length ∨
          PassedOver db s brokerId batchLimit db' id) := by
  obtain ⟨new, t, b, hg⟩ := Calling.going hdb ht hb h
  refine ⟨t, b, new, hg.tx, hg.state.batch, hg.state.sends, (List.pairwise_append.mp hg.state.ordered).1,
    fun x hx => ⟨?_, ?_⟩, ?_, hg.proceeds, fun ho => ⟨?_, (hg.over ho).2⟩⟩
  · exact hg.state.taken x.id (List.mem_append_left _ (List.mem_map_of_mem hx))
  · rintro id rfl
    obtain ⟨r, -, hargs, hsel⟩ := hg.state.sent x hx
    have hid : id = r.brokerId := by simpa [OutboxRow.selected] using (Bool.and_eq_true_iff.mp hsel).2
    rw [← hargs, hid]
    rfl
  · rintro n rfl
    have hroom := hg.state.room
    cases hr : b.room with
    | none => simp [hr] at hroom
    | some m =>
      rw [hr] at hroom
      have hn : n = new.length + b.fetched.length + m := Option.some.inj hroom
      omega
  · have hnext : Db.next ⟨s, .returned⟩ db' = db'.put s (t.returned b) := by
      rw [Db.next_running hg.tx hg.state.batch]
      unfold Db.running
      dsimp only
      rw [if_pos ho]
    refine ⟨t.returned b, hnext ▸ Db.put_txs .., rfl, rfl, ?_⟩
    show some b.count = _
    rw [(hg.over ho).1]

end Calling

/-- Two rows are pending, and worker 1 has locked the first when worker 2 begins. -/
def secondWorker : Db := run Db.next
  [⟨0, .begin 0⟩, ⟨0, .publishOutbox .complete⟩, ⟨0, .publishOutbox .complete⟩, ⟨0, .commit⟩,
    ⟨1, .begin 1⟩, ⟨1, .publishOutboxBatch none none⟩, ⟨1, .fetch⟩, ⟨2, .begin 2⟩] .empty

/-- Its call goes past the first row and sends the second. -/
def secondCall : Db := run Db.next [⟨2, .fetch⟩, ⟨1, .send true⟩, ⟨2, .fetch⟩, ⟨2, .send true⟩, ⟨2, .mark⟩]
  (Db.next ⟨2, .publishOutboxBatch (some 1) (some 5)⟩ secondWorker)

theorem secondCall_calling : Calling secondWorker 2 (some 1) (some 5) secondCall := by
  have hinit : Calling secondWorker 2 (some 1) (some 5)
      (Db.next ⟨2, .publishOutboxBatch (some 1) (some 5)⟩ secondWorker) := .init rfl
  refine hinit.run _ ?_
  exact ⟨fun _ => rfl, fun h => absurd h (by decide), fun _ => rfl, fun _ => rfl, fun _ => rfl, trivial⟩

theorem secondCall_relays :
    (secondCall.txs 2).map (fun t => t.sends.map Send.id) = some [1] ∧
    ∃ t b new, secondCall.txs 2 = some t ∧ t.batch = some b ∧ t.sends = [] ++ new ∧
      (new.map Send.id).Pairwise (· < ·) ∧
      (∀ x ∈ new, x.id ∈ secondWorker.candidates (.start 2) (some 1) ∧
        ∀ id, some 1 = some id → x.args.brokerId = some id) ∧
      (∀ n, some 5 = some n → new.length ≤ n) ∧
      (b.over = false → ∃ act t' b', act.relays = true ∧ (Db.next ⟨2, act⟩ secondCall).txs 2 = some t' ∧
        t'.batch = some b' ∧ b'.left < b.left) ∧
      (b.over = true →
        (∃ t', (Db.next ⟨2, .returned⟩ secondCall).txs 2 = some t' ∧ t'.batch = none ∧ t'.sends = t.sends ∧
          t'.result = some (new.countP Send.ok)) ∧
        ∀ id ∈ secondWorker.candidates (.start 2) (some 1), id ∈ new.map Send.id ∨ some 5 = some new.length ∨
          PassedOver secondWorker 2 (some 1) (some 5) secondCall id) :=
  ⟨by decide +kernel, batch_relays ((OutboxRuns.empty _).run _ (Admits.always _ _)) rfl rfl
    secondCall_calling⟩

end PgAmqp
