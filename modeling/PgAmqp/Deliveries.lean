import PgAmqp.FleetRuns

/-!
# What a fleet delivers

The accounts of the relay speak of the sends that the database knows of. The fleet knows
what was really written, so the accounts are carried over: the record of what a session
relayed is the list of its sends, with the calls that raised in between, and each entry of
it has written the message of its row once, or not at all.
-/
namespace PgAmqp

open Transition

namespace Db

/-- The sends of the open transaction of a session. -/
def sendsOf (db : Db) (s : Nat) : List Send := ((db.txs s).map Tx.sends).getD []

/-- The sends of session `s` grow by `new`, or pass on to the finished transactions. -/
inductive Flow (db : Db) (s : Nat) (new : List Send) (db' : Db) : Prop where
  | kept (t : Tx) : db'.txs s = some t → t.sends = db.sendsOf s ++ new →
      db'.finished = db.finished → Flow db s new db'
  | still : db.txs s = none → db'.txs s = none → new = [] → db'.finished = db.finished → Flow db s new db'
  | ended (committed : Bool) : (db.txs s).isSome = true → db'.txs s = none → new = [] →
      db'.finished = db.finished ++ [⟨committed, db.sendsOf s⟩] → Flow db s new db'

section Flow

variable {db db' : Db} {s : Nat} {act : OutboxAction} {t : Tx}

theorem sendsOf_some (h : db.txs s = some t) : db.sendsOf s = t.sends := by
  simp [sendsOf, h]

theorem Flow.refl (db : Db) (s : Nat) : Flow db s [] db := by
  cases h : db.txs s with
  | none => exact .still h h rfl rfl
  | some t => exact .kept t h (by rw [sendsOf_some h, List.append_nil]) rfl

/-- The transaction goes on, and has sent nothing. -/
theorem Flow.goes (t' : Tx) (ht : db.txs s = some t) (hs : t'.sends = t.sends)
    (htxs : db'.txs = Function.update db.txs s (some t')) (hfin : db'.finished = db.finished) :
    Flow db s [] db' := by
  refine .kept t' ?_ ?_ hfin
  · rw [htxs, Function.update_self]
  · rw [sendsOf_some ht, hs, List.append_nil]

theorem Flow.ends (committed : Bool) (ht : db.txs s = some t)
    (htxs : db'.txs = Function.update db.txs s none)
    (hfin : db'.finished = db.finished ++ [⟨committed, t.sends⟩]) : Flow db s [] db' := by
  refine .ended committed (by simp [ht]) ?_ rfl ?_
  · rw [htxs, Function.update_self]
  · rw [hfin, sendsOf_some ht]

/-- Only a send adds to the sends. -/
theorem Taken.flow (h : Taken db s act db') (hact : act.isSend = false) : Flow db s [] db' := by
  cases h with
  | skip => exact .refl db s
  | begin now hnone =>
    refine .kept (.start now) (Function.update_self ..) ?_ rfl
    simp [sendsOf, hnone]
  | savepoint t ht _ => exact .goes t.savepoint ht rfl rfl rfl
  | release t outer rest ht _ _ => exact .goes (t.release outer rest) ht rfl rfl rfl
  | undone db₀ t outer rest h₀ ht _ =>
    rcases h₀ with rfl | rfl <;> exact .goes (t.undo outer rest) ht rfl rfl rfl
  | aborted db₀ t h₀ ht => rcases h₀ with rfl | rfl <;> exact .ends false ht rfl rfl
  | committed t ht _ => exact .ends true ht rfl rfl
  | inserted t a r ht _ _ => exact .goes (t.insert r) ht rfl rfl rfl
  | called t brokerId batchLimit ht _ =>
    exact .goes (t.call brokerId (db.candidates t brokerId) batchLimit) ht rfl rfl rfl
  | passed t b id rest ht _ _ _ => exact .goes (t.fetch b rest none) ht (by simp) rfl rfl
  | claimed t b id rest r ht _ _ _ _ _ =>
    exact .goes ((db.lockRow s t id).fetch b rest r) ht (by simp) rfl rfl
  | sent _ _ _ _ _ _ _ _ _ => cases hact
  | marked t b id ok ht _ _ => exact .goes (t.mark b id ok (t.sees db.table id)) ht rfl rfl rfl
  | returned t b ht _ _ => exact .goes (t.returned b) ht rfl rfl rfl

/-- The row that is due is the first one that the running batch has claimed. -/
theorem due_some {r : OutboxRow} (h : db.due s = some r) :
    ∃ t b rest, db.txs s = some t ∧ t.batch = some b ∧ b.fetched = r :: rest ∧ b.awaiting.isNone = true := by
  unfold due at h
  cases ht : db.txs s with
  | none => simp [ht] at h
  | some t =>
    cases hb : t.batch with
    | none => simp [ht, hb] at h
    | some b =>
      cases hf : b.fetched with
      | nil => simp [ht, hb, hf] at h
      | cons r' rest =>
        obtain ⟨ha, rfl⟩ : b.awaiting = none ∧ r' = r := by simpa [ht, hb, hf] using h
        exact ⟨t, b, rest, rfl, hb, hf, by simp [ha]⟩

theorem send_flow {r : OutboxRow} (h : db.due s = some r) (ok : Bool) :
    Flow db s [⟨r.id, r.args, ok⟩] (Db.next ⟨s, .send ok⟩ db) := by
  obtain ⟨t, b, rest, ht, hb, hf, ha⟩ := due_some h
  have hnext : Db.next ⟨s, .send ok⟩ db = db.put s (t.send b r rest ok) := by
    unfold Db.next
    simp only [ht, hb]
    show db.send s t b ok = _
    unfold send
    rw [hf]
    exact if_pos ha
  rw [hnext]
  refine .kept (t.send b r rest ok) (Function.update_self ..) ?_ rfl
  rw [sendsOf_some ht]
  rfl

end Flow

end Db

/-- The entry has written the message of its row once if the call returned true, not at all
if it returned false, and at most once if it raised. -/
def Relayed.Honest (x : Relayed) : Prop :=
  ∃ n, match x.answer with
    | some ok => x.written = if ok = true then [⟨n, x.args.content⟩] else []
    | none => x.written = [] ∨ x.written = [⟨n, x.args.content⟩]

/-- The arguments of the entry are those with which its row was enqueued. -/
def Relayed.Genuine (db : Db) (x : Relayed) : Prop := db.Genuine ⟨x.id, x.args, true⟩

namespace Fleet

/-- The entry is in the record of an open transaction or of a finished one. -/
def Recorded (f : Fleet) (x : Relayed) : Prop := x ∈ f.past ∨ ∃ s, x ∈ f.current s

/-- The record agrees with the sends of the database, and with what was enqueued. -/
structure Agrees (f : Fleet) : Prop where
  current : ∀ s, (f.current s).filterMap Relayed.send = f.db.sendsOf s
  idle : ∀ s, f.db.txs s = none → f.current s = []
  past : f.past.filterMap Relayed.send = f.db.finished.flatMap Done.sends
  honest : ∀ x, f.Recorded x → x.Honest
  genuine : ∀ x, f.Recorded x → x.Genuine f.db

section Agrees

variable {f : Fleet} {s : Nat} {db : Db} {backend : Session} {relayed : List Relayed} {new : List Send}

theorem put_recorded {x : Relayed} (h : (f.put s db backend relayed).Recorded x) :
    f.Recorded x ∨ x ∈ relayed := by
  rcases h with h | ⟨s', h⟩
  · have h : x ∈ if (db.txs s).isSome then f.past else f.past ++ (f.current s ++ relayed) := h
    split at h
    · exact .inl (.inl h)
    · simp only [List.mem_append] at h
      exact h.elim (fun h => .inl (.inl h)) fun h => h.imp_left fun h => .inr ⟨s, h⟩
  · have h : x ∈ Function.update f.current s
        (if (db.txs s).isSome then f.current s ++ relayed else []) s' := h
    by_cases hs : s' = s
    · subst hs
      rw [Function.update_self] at h
      split at h
      · exact (List.mem_append.mp h).imp_left fun h => .inr ⟨s', h⟩
      · cases h
    · rw [Function.update_of_ne hs] at h
      exact .inl (.inr ⟨s', h⟩)

theorem Agrees.put (h : f.Agrees) (hflow : f.db.Flow s new db) (hother : ∀ s' ≠ s, db.txs s' = f.db.txs s')
    (hlater : f.db.Later db) (hnew : relayed.filterMap Relayed.send = new)
    (hhonest : ∀ x ∈ relayed, x.Honest) (hgenuine : ∀ x ∈ relayed, x.Genuine f.db) :
    (f.put s db backend relayed).Agrees := by
  have hall : (f.current s ++ relayed).filterMap Relayed.send = f.db.sendsOf s ++ new := by
    rw [List.filterMap_append, h.current s, hnew]
  refine ⟨fun s' => ?_, fun s' hnone => ?_, ?_, fun x hx => ?_, fun x hx => ?_⟩
  · show (Function.update f.current s _ s').filterMap Relayed.send = db.sendsOf s'
    by_cases hs : s' = s
    · subst hs
      rw [Function.update_self]
      cases hflow with
      | kept t ht hsends _ =>
        rw [if_pos (by simp [ht]), hall, Db.sendsOf_some ht, hsends]
      | still _ ht _ _ => simp [ht, Db.sendsOf]
      | ended _ _ ht _ _ => simp [ht, Db.sendsOf]
    · rw [Function.update_of_ne hs, h.current s', Db.sendsOf, Db.sendsOf, hother s' hs]
  · show Function.update f.current s _ s' = []
    by_cases hs : s' = s
    · subst hs
      rw [Function.update_self, if_neg]
      have hnone : db.txs s' = none := hnone
      simp [hnone]
    · rw [Function.update_of_ne hs]
      exact h.idle s' ((hother s' hs).symm.trans hnone)
  · show (if (db.txs s).isSome then f.past else f.past ++ (f.current s ++ relayed)).filterMap _ =
      db.finished.flatMap Done.sends
    cases hflow with
    | kept t ht _ hfin => rw [if_pos (by simp [ht]), h.past, hfin]
    | still hnone ht hnil hfin =>
      have hzero : f.db.sendsOf s = [] := by simp [Db.sendsOf, hnone]
      rw [if_neg (by simp [ht]), List.filterMap_append, hall, hzero, hnil, h.past, hfin]
      simp
    | ended committed _ ht hnil hfin =>
      rw [if_neg (by simp [ht]), List.filterMap_append, hall, hnil, h.past, hfin]
      simp
  · exact (put_recorded hx).elim (h.honest x) (hhonest x)
  · exact hlater.genuine ((put_recorded hx).elim (h.genuine x) (hgenuine x))

theorem relay_honest {b : Session} (hb : b.Shaped) (o : Int → Outcomes) (r : OutboxRow) :
    let t := trace ⟨.autonomousPublish r.args, o⟩ b
    Relayed.Honest ⟨r.id, r.args, t.result, writtenOn 1 (t.log.map Prod.snd)⟩ := by
  intro t
  refine ⟨b.backend.nextCall, ?_⟩
  rcases autonomousPublish_writes hb o (a := r.args) rfl with ⟨ok, hr, -, hw⟩ | ⟨hr, -, hw⟩
  · have hr : t.result = some ok := hr
    rw [hr]
    exact hw
  · have hr : t.result = none := hr
    rw [hr]
    exact hw

/-- The row that a batch sends next is a version of an enqueued row. -/
theorem due_genuine (hv : f.db.Versions) {r : OutboxRow} (h : f.db.due s = some r) (answer : Option Bool)
    (written : List Msg) : Relayed.Genuine f.db ⟨r.id, r.args, answer, written⟩ := by
  obtain ⟨t, b, rest, ht, hb, hf, -⟩ := Db.due_some h
  have hr := hv.carries.fetched s t b ht hb r (by simp [hf])
  exact ⟨hr.drawn, hr.args⟩

theorem Agrees.next (h : f.Agrees) (hv : f.db.Versions) (hb : ∀ s, (f.backends s).Shaped) (st : FleetStep) :
    (Fleet.next st f).Agrees := by
  obtain ⟨s, act, o⟩ := st
  unfold Fleet.next
  have taken : ∀ act, f.db.Taken s act (Db.next ⟨s, act⟩ f.db) := fun act => Db.next_taken ⟨s, act⟩ f.db
  cases act with
  | outbox act =>
    dsimp only
    unfold outbox
    split
    · exact h
    · rename_i hsend
      exact h.put ((taken act).flow (Bool.eq_false_iff.mpr hsend)) (fun _ => (taken act).other)
        (taken act).later rfl (by simp) (by simp)
  | relay =>
    dsimp only
    unfold relay
    cases hd : f.db.due s with
    | none => exact h
    | some r =>
      have hhonest := relay_honest (hb s) o r
      have hgenuine := due_genuine hv hd (trace ⟨.autonomousPublish r.args, o⟩ (f.backends s)).result
        (writtenOn 1 ((trace ⟨.autonomousPublish r.args, o⟩ (f.backends s)).log.map Prod.snd))
      dsimp only at hhonest ⊢
      generalize (trace ⟨.autonomousPublish r.args, o⟩ (f.backends s)) = t at hhonest hgenuine
      unfold answered
      cases hres : t.result with
      | some ok =>
        rw [hres] at hhonest hgenuine
        exact h.put (Db.send_flow hd ok) (fun _ => (taken _).other) (taken _).later rfl
          (by simpa using hhonest) (by simpa using hgenuine)
      | none =>
        rw [hres] at hhonest hgenuine
        exact h.put ((taken .fail).flow rfl) (fun _ => (taken .fail).other) (taken .fail).later rfl
          (by simpa using hhonest) (by simpa using hgenuine)
  | call a =>
    dsimp only
    unfold call
    split
    · dsimp only
      split
      · exact h.put ((taken .fail).flow rfl) (fun _ => (taken .fail).other) (taken .fail).later rfl
          (by simp) (by simp)
      · exact h.put (.refl f.db s) (fun _ _ => rfl) (.refl f.db) rfl (by simp) (by simp)
    · exact h

end Agrees

end Fleet

theorem lenient_always : Lenient fun _ _ => True := ⟨fun _ _ _ => trivial, fun _ _ => trivial⟩

/-- Any run is one that no guard narrows on the outbox. -/
theorem FleetRuns.unguarded {ok : Fleet → FleetStep → Prop} {f : Fleet} (h : FleetRuns ok f) :
    FleetRuns (OnOutbox fun _ _ => True) f :=
  h.mono fun f st _ => by
    unfold OnOutbox
    split <;> trivial

/-- In every run the record agrees with the database. -/
theorem FleetRuns.agrees {ok : Fleet → FleetStep → Prop} {f : Fleet} (h : FleetRuns ok f) : f.Agrees := by
  refine h.invariant (I := Fleet.Agrees) (fun f hf => ?_) fun f st hr hI _ => ?_
  · have hnone : ∀ x, ¬ f.Recorded x := by
      rintro x (hx | ⟨s, hx⟩)
      · simp [hf.past] at hx
      · simp [hf.current s] at hx
    refine ⟨fun s => ?_, fun s _ => hf.current s, ?_, fun x hx => absurd hx (hnone x),
      fun x hx => absurd hx (hnone x)⟩
    · rw [hf.current s, hf.db]
      rfl
    · rw [hf.past, hf.db]
      rfl
  · exact hI.next (OutboxRuns.versions ((FleetRuns.unguarded hr).outbox lenient_always))
      (fun s => Runs.shaped (FleetRuns.backend hr s)) st

namespace Fleet

/-- The messages that finished transactions have written for a row. -/
def writtenFor (f : Fleet) (id : Nat) : List Msg :=
  (f.past.filter (·.id == id)).flatMap Relayed.written

/-- Those of them that were written by a call that raised. -/
def cutOffFor (f : Fleet) (id : Nat) : List Msg :=
  (f.past.filter fun x => x.id == id && x.answer.isNone).flatMap Relayed.written

/-- What an entry has written is what its send counts for, or what its raise has cut off. -/
theorem written_length {x : Relayed} (h : x.Honest) :
    x.written.length = (if x.answer = some true then 1 else 0) + if x.answer.isNone then x.written.length else 0 := by
  obtain ⟨n, h⟩ := h
  cases hx : x.answer with
  | none => simp
  | some ok =>
    rw [hx] at h
    cases ok <;> simp [h]

theorem written_count {l : List Relayed} (h : ∀ x ∈ l, x.Honest) (id : Nat) :
    ((l.filter (·.id == id)).flatMap Relayed.written).length =
      ((l.filterMap Relayed.send).countP fun x => x.id == id && x.ok) +
        ((l.filter fun x => x.id == id && x.answer.isNone).flatMap Relayed.written).length := by
  induction l with
  | nil => rfl
  | cons x rest ih =>
    obtain ⟨hx, hrest⟩ := List.forall_mem_cons.mp h
    have ih := ih hrest
    have hlen := written_length hx
    by_cases hid : x.id = id
    · cases ha : x.answer with
      | none =>
        have hsend : x.send = none := by simp [Relayed.send, ha]
        simp only [List.filter_cons, List.filterMap_cons, hid, ha, hsend, beq_self_eq_true, Option.isNone_none,
          Bool.and_self, if_true, List.flatMap_cons, List.length_append]
        omega
      | some ok =>
        have hsend : x.send = some ⟨x.id, x.args, ok⟩ := by simp [Relayed.send, ha]
        rw [ha] at hlen
        cases ok
        · simp_all
        · simp_all
          omega
    · have hne : (x.id == id) = false := by simpa using hid
      cases ha : x.answer with
      | none => simpa [hne, ha, Relayed.send] using ih
      | some ok => simpa [hne, ha, Relayed.send] using ih

/-- Calls that raised have written at most one message each. -/
theorem cutOff_length {l : List Relayed} (h : ∀ x ∈ l, x.Honest) {p : Relayed → Bool}
    (hp : ∀ x, p x = true → x.answer = none) :
    ((l.filter p).flatMap Relayed.written).length ≤ l.countP p := by
  induction l with
  | nil => exact Nat.le_refl _
  | cons x rest ih =>
    obtain ⟨⟨n, hx⟩, hrest⟩ := List.forall_mem_cons.mp h
    have ih := ih hrest
    by_cases hpx : p x = true
    · rw [hp x hpx] at hx
      have hle : x.written.length ≤ 1 := by
        rcases hx with hx | hx <;> simp [hx]
      rw [List.filter_cons_of_pos hpx, List.countP_cons_of_pos hpx, List.flatMap_cons, List.length_append]
      omega
    · rw [List.filter_cons_of_neg hpx, List.countP_cons_of_neg hpx]
      exact ih

end Fleet

/-- A run of a fleet is a run of the outbox and of each of its backends, which agree on how
deep the session is in subtransactions. Where each batch runs in a transaction of its own, so
it does in the run of the outbox. -/
theorem fleet_projects {f : Fleet} (h : FleetRuns (fun _ _ => True) f) :
    OutboxRuns (fun _ _ => True) f.db ∧
    (∀ s, Runs (fun _ _ => True) (f.backends s) ∧ (f.backends s).depth = f.db.nesting s) ∧
    (FleetRuns (OnOutbox OwnTransaction) f → OutboxRuns OwnTransaction f.db) :=
  ⟨h.unguarded.outbox lenient_always, fun s => ⟨FleetRuns.backend h s, FleetRuns.aligned h s⟩,
    fun hown => hown.outbox ownTransaction_lenient⟩

/-- The messages that finished transactions have written for a row are one for the row being
published, one for each transaction that was rolled back after its send, and at most one
for each call that was cut off; each is the message that was enqueued. -/
theorem relay_end_to_end {f : Fleet} (h : FleetRuns (OnOutbox OwnTransaction) f) (id : Nat) :
    (f.writtenFor id).length = (if published (f.db.table id) = true then 1 else 0) +
      f.db.finished.countP (Done.repeated id) + (f.cutOffFor id).length ∧
    (f.cutOffFor id).length ≤ f.past.countP (fun x => x.id == id && x.answer.isNone) ∧
    ∀ m ∈ f.writtenFor id, ∃ a, f.db.enqueued id = some a ∧ m.content = a.content := by
  have hagrees := FleetRuns.agrees h
  have hledger := OutboxRuns.ledger (h.outbox ownTransaction_lenient)
  have hhonest : ∀ x ∈ f.past, x.Honest := fun x hx => hagrees.honest x (.inl hx)
  refine ⟨?_, Fleet.cutOff_length hhonest (by simp), fun m hm => ?_⟩
  · have htrue : (f.past.filterMap Relayed.send).countP (fun x => x.id == id && x.ok) =
        trueSends f.db.finished id := by
      rw [hagrees.past, List.countP_flatMap]
      rfl
    show ((f.past.filter (·.id == id)).flatMap Relayed.written).length = _
    rw [Fleet.written_count hhonest id, htrue, trueSends_eq hledger.once, (hledger.balanced id).delivered]
    rfl
  · obtain ⟨x, hx, hm⟩ := List.mem_flatMap.mp hm
    obtain ⟨hpast, hid⟩ := List.mem_filter.mp hx
    obtain rfl : x.id = id := by simpa using hid
    refine ⟨x.args, (hagrees.genuine x (.inl hpast)).args, ?_⟩
    obtain ⟨n, hw⟩ := hhonest x hpast
    have hone : m = ⟨n, x.args.content⟩ := by
      cases ha : x.answer with
      | none =>
        rw [ha] at hw
        rcases hw with hw | hw <;> simp_all
      | some ok =>
        rw [ha] at hw
        cases ok <;> simp_all
    rw [hone]

/-- The broker returns the message, and a cancel is pending at the warning about it. -/
def Outcomes.cutOffReturn : Outcomes :=
  { Outcomes.good with
    poll := fun n => ⟨if n = 1 then [.basicReturn ⟨312, "NO_ROUTE", "orders", "new"⟩] else [], true⟩
    unwind := fun _ r => match r with
      | .returned _ _ => true
      | _ => false }

def FleetStep.good (session : Nat) (action : FleetAction) : FleetStep := ⟨session, action, fun _ => .good⟩

/-- A row is relayed twice: the first call is cut off after its write, and the second one
publishes the row. -/
def relayedTwice : Fleet := run Fleet.next
  [.good 0 (.outbox (.begin 0)),
    .good 0 (.outbox (.publishOutbox { PublishArgs.complete with mandatory := some true })),
    .good 0 (.outbox .commit),
    .good 1 (.outbox (.begin 1)), .good 1 (.outbox (.publishOutboxBatch none (some 100))), .good 1 (.outbox .fetch),
    ⟨1, .relay, fun _ => .cutOffReturn⟩,
    .good 2 (.outbox (.begin 2)), .good 2 (.outbox (.publishOutboxBatch (some 1) none)), .good 2 (.outbox .fetch),
    .good 2 .relay, .good 2 (.outbox .mark), .good 2 (.outbox .returned), .good 2 (.outbox .commit)]
  (.loaded {})

theorem relayedTwice_runs : FleetRuns (OnOutbox OwnTransaction) relayedTwice := by
  unfold relayedTwice
  refine Reach.run (.init (Fleet.loaded_initial {})) _ ?_
  decide +kernel

theorem relayedTwice_projects :
    relayedTwice.db.nesting 2 = 0 ∧ OutboxRuns (fun _ _ => True) relayedTwice.db ∧
    (∀ s, Runs (fun _ _ => True) (relayedTwice.backends s) ∧
      (relayedTwice.backends s).depth = relayedTwice.db.nesting s) ∧
    (FleetRuns (OnOutbox OwnTransaction) relayedTwice → OutboxRuns OwnTransaction relayedTwice.db) :=
  ⟨by decide +kernel, fleet_projects (relayedTwice_runs.mono fun _ _ _ => trivial)⟩

theorem relayedTwice_written :
    published (relayedTwice.db.table 0) = true ∧ (relayedTwice.cutOffFor 0).length = 1 ∧
    (relayedTwice.writtenFor 0).length = 2 ∧
    (relayedTwice.writtenFor 0).length = (if published (relayedTwice.db.table 0) = true then 1 else 0) +
      relayedTwice.db.finished.countP (Done.repeated 0) + (relayedTwice.cutOffFor 0).length ∧
    (relayedTwice.cutOffFor 0).length ≤ relayedTwice.past.countP (fun x => x.id == 0 && x.answer.isNone) ∧
    ∀ m ∈ relayedTwice.writtenFor 0, ∃ a, relayedTwice.db.enqueued 0 = some a ∧ m.content = a.content :=
  ⟨by decide +kernel, by decide +kernel, by decide +kernel, relay_end_to_end relayedTwice_runs 0⟩

end PgAmqp
