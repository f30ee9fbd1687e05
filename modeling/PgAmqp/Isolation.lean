import PgAmqp.Charges
import PgAmqp.Projection
import PgAmqp.Trails

/-!
# Brokers do not interfere

A backend has one list of entries, and its callbacks go over all of them. For one broker all
the others might as well not be there: a call on another broker moves the counters from which
connections and publish calls are numbered, and where it raises it ends the transaction, or the
subtransaction. Messages that are buffered for another broker refuse a `PREPARE TRANSACTION`,
which is then an abort. Nothing else that is done on other brokers reaches this one.
-/
namespace PgAmqp

open ProgramLogic Transition

/-- The session as far as it is about one broker. -/
def Session.only (s : Session) (b : Int) : Session := { s with
  head := s.head.filter (·.brokerId = b)
  acks := s.acks.filter (·.broker = b) }

/-- What is seen of a broker: the events on it, and how the calls on it end. -/
inductive Sight where
  | event (e : Event)
  | answer (result : Option Bool) (raised : Option Raised)

/-- What a step shows of a broker. -/
def Step.shows (st : Step) (b : Int) (s : Session) : List Sight :=
  (logOf b (trace st s).log).map .event ++
    if st.action.target = some b then [.answer (trace st s).result (trace st s).raised] else []

/-- What a backend is given that knows one broker. -/
inductive Solo where
  | own (st : Step)
  /-- Connections were made and publish calls were numbered for other brokers. -/
  | elsewhere (nextConn nextCall : Nat)

namespace Solo

def next : Solo → Session → Session
  | .own st, s => PgAmqp.next st s
  | .elsewhere nextConn nextCall, s =>
    { s with backend := { s.backend with nextConn := nextConn, nextCall := nextCall } }

def shows (b : Int) : Solo → Session → List Sight
  | .own st, s => st.shows b s
  | .elsewhere _ _, _ => []

end Solo

/-- What an error makes of the transaction. -/
def Session.failing (s : Session) : Action := if 0 < s.depth then .abortSub else .abort

theorem Session.failing_target (s : Session) : s.failing.target = none := by
  unfold failing
  split <;> rfl

/-- What a call on another broker is for this one. -/
def Session.elsewhere (s : Session) (o : Int → Outcomes) (r : Session × Trace) : List Solo :=
  .elsewhere r.1.backend.nextConn r.1.backend.nextCall :: if r.2.raised.isSome then [.own ⟨s.failing, o⟩] else []

/-- What a step is for one broker. -/
def Session.solo (s : Session) (b : Int) (st : Step) : List Solo :=
  match st.action.target with
  | some b' => if b' = b then [.own st] else s.elsewhere st.outcomes (exec st s)
  | none =>
    -- only the messages of other brokers refuse it
    if st.action = .prepare ∧ (trace st s).raised.isSome ∧ (s.entry b).uncommitted = 0 then
      [.own ⟨.abort, st.outcomes⟩]
    else [.own st]

theorem Step.shows_other {st : Step} {b : Int} (h : st.action.target ≠ some b) (s : Session) :
    st.shows b s = (logOf b (trace st s).log).map .event := by
  unfold Step.shows
  rw [if_neg h, List.append_nil]

section Head

variable {b : Int} {bs : BrokerState} {head : List BrokerState}

theorem lookup_filter (head : List BrokerState) (b : Int) :
    lookup (head.filter (·.brokerId = b)) b = lookup head b := by
  induction head with
  | nil => rfl
  | cons e rest ih =>
    rw [List.filter_cons]
    by_cases he : e.brokerId = b
    · simp [he, lookup_cons]
    · simp [he, lookup_cons, ih]

theorem replaceBs_filter (bs : BrokerState) (head : List BrokerState) :
    (replaceBs bs head).filter (·.brokerId = bs.brokerId) = replaceBs bs (head.filter (·.brokerId = bs.brokerId)) := by
  induction head with
  | nil => rfl
  | cons e rest ih =>
    rw [replaceBs, List.filter_cons]
    by_cases he : e.brokerId = bs.brokerId
    · simp [he, replaceBs]
    · have hkept : ¬ (decide (e.brokerId = bs.brokerId)) = true := by simpa using he
      rw [if_neg he, if_neg hkept, List.filter_cons, if_neg hkept, ih]

theorem putBs_filter (bs : BrokerState) (head : List BrokerState) :
    (putBs bs head).filter (·.brokerId = bs.brokerId) = putBs bs (head.filter (·.brokerId = bs.brokerId)) := by
  unfold putBs
  rw [lookup_filter]
  split
  · exact replaceBs_filter bs head
  · simp

theorem replaceBs_filter_other (h : bs.brokerId ≠ b) :
    (replaceBs bs head).filter (·.brokerId = b) = head.filter (·.brokerId = b) := by
  induction head with
  | nil => rfl
  | cons e rest ih =>
    unfold replaceBs
    by_cases he : e.brokerId = bs.brokerId
    · simp [he, h]
    · rw [if_neg he, List.filter_cons, List.filter_cons, ih]

theorem putBs_filter_other (h : bs.brokerId ≠ b) :
    (putBs bs head).filter (·.brokerId = b) = head.filter (·.brokerId = b) := by
  unfold putBs
  split
  · exact replaceBs_filter_other h
  · simp [h]

end Head

namespace Session

section Only

variable {s : Session} {b : Int}

@[simp] theorem only_entry : (s.only b).entry b = s.entry b := by
  unfold entry only
  rw [lookup_filter]

theorem only_cell : (s.only b).cell b = s.cell b := by
  unfold cell
  rw [only_entry]
  unfold only
  rw [lookup_filter]

theorem only_entry_other {b' : Int} (h : b' ≠ b) : (s.only b).entry b' = .fresh b' := by
  have hnone : lookup (s.only b).head b' = none := by
    rw [lookup_none]
    intro hmem
    obtain ⟨e, he, hid⟩ := List.mem_map.mp hmem
    have he : e.brokerId = b := by simpa using (List.mem_filter.mp he).2
    exact h (hid.symm.trans he)
  unfold entry
  rw [hnone]
  rfl

theorem Shaped.only (hs : s.Shaped) : (s.only b).Shaped where
  ids := hs.ids.sublist (List.Sublist.map _ List.filter_sublist)
  holdoff := hs.holdoff
  idle := by
    intro b'
    by_cases hb : b' = b
    · rw [hb, only_entry]
      exact hs.idle b
    · rw [only_entry_other hb]
      exact fun _ => rfl
  calls := hs.calls.sublist List.filter_sublist
  numbered := fun k hk => hs.numbered k (List.mem_of_mem_filter hk)

theorem only_store {c : Cell} (hid : c.bs.brokerId = b) : (s.store c).only b = (s.only b).store c := by
  unfold store only
  subst hid
  dsimp only
  split
  · rw [putBs_filter]
  · rfl

theorem only_store_other {c : Cell} (hid : c.bs.brokerId ≠ b) :
    (s.store c).only b = { s.only b with backend := c.backend } := by
  unfold store only
  dsimp only
  split
  · rw [putBs_filter_other hid]
  · rfl

theorem only_ended : s.ended.only b = (s.only b).ended := rfl

/-- The filter passes a change of the record that keeps the brokers. -/
theorem acks_filter {g : Ack → Ack} (hg : ∀ k, (g k).broker = k.broker) (acks : List Ack) (b : Int) :
    (acks.map g).filter (·.broker = b) = (acks.filter (·.broker = b)).map g := by
  rw [List.filter_map]
  congr 1
  refine List.filter_congr fun k _ => ?_
  rw [Function.comp_apply, hg]

theorem only_undo : s.undo.only b = (s.only b).undo := by
  unfold undo only
  dsimp only
  rw [acks_filter fun k => by split <;> rfl]

theorem only_release : s.release.only b = (s.only b).release := by
  unfold release only
  dsimp only
  rw [acks_filter fun k => by split <;> rfl]

end Only

end Session

section Callbacks

variable {f : Outcomes → M Unit} {o : Int → Outcomes} {b : Int} {s : Session}

/-- The second is the first without the other brokers. -/
structure Shows (b : Int) (r r' : Session × List (Int × Event)) : Prop where
  state : r.1.only b = r'.1
  log : logOf b r.2 = logOf b r'.2

theorem Shows.leave (g : Session → Session) (hg : ∀ s, (g s).only b = g (s.only b))
    {r r' : Session × List (Int × Event)} (h : Shows b r r') : Shows b (g r.1, r.2) (g r'.1, r'.2) :=
  ⟨by rw [hg, h.state], h.log⟩

/-- With the same answer, too. -/
structure Answers (b : Int) (r r' : Session × Trace) : Prop where
  shows : Shows b (r.1, r.2.log) (r'.1, r'.2.log)
  result : r.2.result = r'.2.result
  raised : r.2.raised = r'.2.raised

/-- A callback changes nothing around its entry, and raises nothing. -/
def KeepsAround (f : Outcomes → M Unit) : Prop :=
  ∀ o c, c.backend.holdoff = true →
    wp (f o) (fun _ c' => c'.bs.brokerId = c.bs.brokerId ∧ c'.backend = c.backend) (fun _ _ => False) c

theorem keepsAround {due : Cell → ℕ∞ × ℕ}
    (hserved : ∀ o c, c.backend.holdoff = true → wp (f o) (fun _ => Between c) (fun _ _ => False) c)
    (hcharged : ∀ o c, c.backend.holdoff = true → wp (f o) (fun _ => Charged (due c) c) (fun _ _ => False) c) :
    KeepsAround f :=
  fun o c hh => wp_mono (wp_and (hserved o c hh) (hcharged o c hh))
    (fun _ _ h => ⟨h.1.sameList.brokerId, h.2.backend⟩) fun _ _ h => h.1

theorem commit_keepsAround : KeepsAround (amqpLocalPhase2 .commit) :=
  keepsAround (fun _ _ => amqpLocalCommit_served) fun _ _ => amqpLocalCommit_charged

theorem abort_keepsAround : KeepsAround (amqpLocalPhase2 .abort) :=
  keepsAround (fun _ _ => amqpLocalAbort_served) fun _ _ => amqpLocalAbort_charged

theorem prepare_keepsAround : KeepsAround (amqpLocalPhase2 .prepare) := fun _ _ _ => ⟨rfl, rfl⟩

theorem subxact_keepsAround : KeepsAround amqpLocalSubxact :=
  keepsAround (fun _ _ => amqpLocalSubxact_served) fun _ _ => amqpLocalSubxact_unspent

/-- The first entry of the loop, whatever comes behind it. -/
theorem forEachBs_first (hf : KeepsAround f) (o : Int → Outcomes) (e : BrokerState) {k : Backend}
    (hk : k.holdoff = true) :
    ∃ c : Cell, c.bs.brokerId = e.brokerId ∧ ∀ rest, forEachBs f o (e :: rest) k =
      ⟨c.bs :: (forEachBs f o rest k).head, (forEachBs f o rest k).backend, (forEachBs f o rest k).raised,
        c.log.map (e.brokerId, ·) ++ (forEachBs f o rest k).log⟩ := by
  obtain ⟨u, c, hrun, hid, hback⟩ := wp_ok (hf (o e.brokerId) (Session.start e true k) hk)
  have hback : c.backend = k := hback
  refine ⟨c, hid, fun rest => ?_⟩
  rw [forEachBs, hrun, ← hback]

theorem forEachBs_backend (hf : KeepsAround f) (o : Int → Outcomes) (head : List BrokerState) {k : Backend}
    (hk : k.holdoff = true) : (forEachBs f o head k).backend = k := by
  induction head with
  | nil => rfl
  | cons e rest ih =>
    obtain ⟨c, -, hstep⟩ := forEachBs_first hf o e hk
    rw [hstep]
    exact ih

/-- The loop does to the entries of a broker what it does to them alone. -/
theorem forEachBs_filter (hf : KeepsAround f) (o : Int → Outcomes) (b : Int) (head : List BrokerState) {k : Backend}
    (hk : k.holdoff = true) :
    (forEachBs f o head k).head.filter (·.brokerId = b) = (forEachBs f o (head.filter (·.brokerId = b)) k).head ∧
      logOf b (forEachBs f o head k).log = logOf b (forEachBs f o (head.filter (·.brokerId = b)) k).log := by
  induction head with
  | nil => exact ⟨rfl, rfl⟩
  | cons e rest ih =>
    obtain ⟨c, hid, hstep⟩ := forEachBs_first hf o e hk
    by_cases he : e.brokerId = b
    · rw [List.filter_cons, if_pos (by simpa using he), hstep, hstep]
      constructor
      · rw [List.filter_cons, if_pos (by simpa using hid.trans he), ih.1]
      · rw [logOf_append, logOf_append, ih.2]
    · rw [List.filter_cons, if_neg (by simpa using he), hstep]
      constructor
      · rw [List.filter_cons, if_neg (by simpa [hid] using he), ih.1]
      · rw [logOf_append, logOf_other he, List.nil_append, ih.2]

namespace Session

/-- A sweep works on the entries alone. -/
theorem sweep_head (hf : KeepsAround f) (s : Session) (o : Int → Outcomes) :
    (s.sweep f o).1 = { s with head := (forEachBs f o s.head { s.backend with holdoff := true }).head } := by
  unfold sweep
  dsimp only
  rw [forEachBs_backend hf o s.head rfl]

theorem sweep_only (hf : KeepsAround f) (s : Session) (o : Int → Outcomes) (b : Int) :
    Shows b ((s.sweep f o).1, (s.sweep f o).2.log) (((s.only b).sweep f o).1, ((s.only b).sweep f o).2.log) := by
  obtain ⟨hhead, hlog⟩ := forEachBs_filter hf o b s.head (k := { s.backend with holdoff := true }) rfl
  refine ⟨?_, hlog⟩
  dsimp only
  rw [sweep_head hf, sweep_head hf]
  unfold only
  dsimp only
  rw [hhead]

theorem commit_only (s : Session) (o : Int → Outcomes) (b : Int) :
    Shows b ((s.commit o).1, (s.commit o).2.log) (((s.only b).commit o).1, ((s.only b).commit o).2.log) :=
  .leave ended (fun _ => only_ended) (sweep_only commit_keepsAround s o b)

theorem abort_only (s : Session) (o : Int → Outcomes) (b : Int) : Shows b (s.abort o) ((s.only b).abort o) :=
  .leave ended (fun _ => only_ended) (sweep_only abort_keepsAround s o b)

theorem abortSub_only (s : Session) (o : Int → Outcomes) (b : Int) :
    Shows b (s.abortSub o) ((s.only b).abortSub o) :=
  .leave undo (fun _ => only_undo) (sweep_only subxact_keepsAround s o b)

theorem abortCurrent_only (s : Session) (o : Int → Outcomes) (b : Int) :
    Shows b (s.abortCurrent o) ((s.only b).abortCurrent o) := by
  unfold abortCurrent
  by_cases hd : 0 < s.depth
  · rw [if_pos hd, if_pos (show 0 < (s.only b).depth from hd)]
    exact abortSub_only s o b
  · rw [if_neg hd, if_neg (show ¬ 0 < (s.only b).depth from hd)]
    exact abort_only s o b

theorem abortCurrent_backend (s : Session) (o : Int → Outcomes) : (s.abortCurrent o).1.backend = s.backend := by
  unfold abortCurrent
  split
  · show (s.sweep amqpLocalSubxact o).1.backend = _
    rw [sweep_head subxact_keepsAround]
  · show (s.sweep (amqpLocalPhase2 .abort) o).1.backend = _
    rw [sweep_head abort_keepsAround]

/-- The step that an error is. -/
theorem exec_failing (s : Session) (o : Int → Outcomes) :
    exec ⟨s.failing, o⟩ s = ((s.abortCurrent o).1, ⟨none, none, (s.abortCurrent o).2⟩) := by
  unfold failing abortCurrent
  split
  · rename_i hd
    exact if_pos hd
  · rfl

/-- `PREPARE TRANSACTION` for one broker: refused for the messages of another, it is an abort. -/
theorem prepare_only (hs : s.Shaped) (o : Int → Outcomes) (b : Int) :
    Shows b ((s.prepare o).1, (s.prepare o).2.log)
      (if (s.prepare o).2.raised.isSome ∧ (s.entry b).uncommitted = 0 then (s.only b).abort o
        else (((s.only b).prepare o).1, ((s.only b).prepare o).2.log)) := by
  rcases prepare_cases (o := o) hs with ⟨b₀, -, hp⟩ | ⟨hzero, hp⟩
  · rw [hp]
    split
    · exact abort_only s o b
    · rename_i hcounts
      rcases prepare_cases (o := o) (Shaped.only (b := b) hs) with ⟨b₁, -, hp'⟩ | ⟨hzero', -⟩
      · rw [hp']
        exact abort_only s o b
      · exact absurd ⟨rfl, by simpa using hzero' b⟩ hcounts
  · have hnone : ¬ ((s.prepare o).2.raised.isSome = true ∧ (s.entry b).uncommitted = 0) := by
      rw [hp]
      simp
    rw [if_neg hnone, hp]
    rcases prepare_cases (o := o) (Shaped.only (b := b) hs) with ⟨b₁, hcounts, -⟩ | ⟨-, hp'⟩
    · -- only the broker's own entry could count a message
      have hz : ((s.only b).entry b₁).uncommitted = 0 := by
        by_cases hb : b₁ = b
        · rw [hb, only_entry]
          exact hzero b
        · rw [only_entry_other hb]
          rfl
      omega
    · rw [hp']
      exact .leave ended (fun _ => only_ended) (sweep_only prepare_keepsAround s o b)

end Session

end Callbacks

/-- A call moves the counters of the backend and nothing else of it. -/
theorem Lasts.counted {s : Session} {b : Int} {c : Cell} (h : Lasts (s.cell b) c) :
    c.backend = { s.backend with nextConn := c.backend.nextConn, nextCall := c.backend.nextCall } := by
  have hgucs : c.backend.gucs = s.backend.gucs := h.gucs
  have hpid : c.backend.myProcPid = s.backend.myProcPid := h.pid
  have hhold : c.backend.holdoff = s.backend.holdoff := h.holdoff
  rw [Backend.mk.injEq]
  exact ⟨hgucs, hpid, rfl, rfl, hhold⟩

namespace Session

section Calls

variable {s : Session} {o : Int → Outcomes} {b b' : Int} {x : Outcomes → M Bool}

/-- A call on the broker. -/
theorem call_only (hx : wp (x (o b)) (fun _ c => c.bs.brokerId = b) (fun _ c => c.bs.brokerId = b) (s.cell b)) :
    Answers b (s.call o b x) ((s.only b).call o b x) := by
  unfold wp at hx
  cases hrun : x (o b) (s.cell b) with
  | ok v c =>
    rw [hrun] at hx
    have hrun' : x (o b) ((s.only b).cell b) = .ok v c := by rw [only_cell, hrun]
    rw [call_ok hrun, call_ok hrun']
    exact ⟨⟨only_store hx, rfl⟩, rfl, rfl⟩
  | error e c =>
    rw [hrun] at hx
    have hrun' : x (o b) ((s.only b).cell b) = .error e c := by rw [only_cell, hrun]
    rw [call_error hrun, call_error hrun']
    obtain ⟨hstate, hlog⟩ := abortCurrent_only (s.store c) o b
    rw [only_store hx] at hstate hlog
    exact ⟨⟨hstate, by rw [logOf_append, logOf_append, hlog]⟩, rfl, rfl⟩

theorem call_elsewhere (hb : b' ≠ b)
    (hx : wp (x (o b')) (fun _ => Lasts (s.cell b')) (fun _ => Lasts (s.cell b')) (s.cell b')) :
    run Solo.next (s.elsewhere o (s.call o b' x)) (s.only b) = (s.call o b' x).1.only b ∧
      gathered Solo.next (Solo.shows b) (s.elsewhere o (s.call o b' x)) (s.only b) =
        (logOf b (s.call o b' x).2.log).map .event := by
  have hstored : ∀ c : Cell, Lasts (s.cell b') c →
      (s.store c).only b = (Solo.elsewhere c.backend.nextConn c.backend.nextCall).next (s.only b) := by
    intro c hc
    have hid : c.bs.brokerId = b' := hc.brokerId.trans (s.entry_brokerId b')
    rw [only_store_other (hid ▸ hb)]
    show _ = { s.only b with
      backend := { s.backend with nextConn := c.backend.nextConn, nextCall := c.backend.nextCall } }
    rw [← hc.counted]
  unfold wp at hx
  unfold elsewhere
  cases hrun : x (o b') (s.cell b') with
  | ok v c =>
    rw [hrun] at hx
    rw [call_ok hrun]
    exact ⟨(hstored c hx).symm, by rw [logOf_other hb]; rfl⟩
  | error e c =>
    rw [hrun] at hx
    rw [call_error hrun]
    obtain ⟨hstate, hlog⟩ := abortCurrent_only (s.store c) o b
    rw [hstored c hx] at hstate hlog
    rw [abortCurrent_backend]
    let s' := (Solo.elsewhere c.backend.nextConn c.backend.nextCall).next (s.only b)
    have hfail : exec ⟨s.failing, o⟩ s' = ((s'.abortCurrent o).1, ⟨none, none, (s'.abortCurrent o).2⟩) :=
      exec_failing s' o
    constructor
    · exact (congrArg Prod.fst hfail).trans hstate.symm
    · have hshows : Step.shows ⟨s.failing, o⟩ b s' = (logOf b (s'.abortCurrent o).2).map .event := by
        rw [Step.shows_other (by simp [failing_target])]
        unfold trace
        rw [hfail]
      rw [logOf_append, logOf_other hb, List.nil_append, hlog]
      exact (List.append_nil _).trans hshows

theorem note_only {m : Msg} {r r' : Session × Trace} (h : Answers b r r') :
    Answers b (s.note b m r) ((s.only b).note b m r') := by
  have hstate : r.1.only b = r'.1 := h.shows.state
  refine ⟨⟨?_, ?_⟩, ?_, ?_⟩
  · unfold note
    rw [← h.result]
    split
    · dsimp only
      rw [← hstate]
      unfold only
      simp
    · exact hstate
  · rw [note_log, note_log]
    exact h.shows.log
  · rw [note_log, note_log]
    exact h.result
  · rw [note_log, note_log]
    exact h.raised

end Calls

end Session

section Steps

variable {s : Session} {st : Step} {b : Int}

theorem calls_keep (ha : ∀ b, Anchored (s.entry b)) {x : M Bool} (hx : st.Calls b x) :
    wp x (fun _ => Lasts (s.cell b)) (fun _ => Lasts (s.cell b)) (s.cell b) :=
  wp_mono (calls_called ha hx) (fun _ _ hc => hc.chain.lasts) fun _ _ hc => hc.chain.lasts

/-- A step on the broker, or on all, is the same without the others; only `PREPARE TRANSACTION`
can be refused for them. -/
theorem exec_only (ha : ∀ b, Anchored (s.entry b)) (h : ∀ b', st.action.target = some b' → b' = b)
    (hp : st.action ≠ .prepare) : Answers b (exec st s) (exec st (s.only b)) := by
  have hcall : ∀ x : Outcomes → M Bool, st.Calls b (x (st.outcomes b)) →
      Answers b (s.call st.outcomes b x) ((s.only b).call st.outcomes b x) := by
    intro x hx
    have hid : ∀ c : Cell, Lasts (s.cell b) c → c.bs.brokerId = b :=
      fun c hc => hc.brokerId.trans (s.entry_brokerId b)
    exact Session.call_only (wp_mono (calls_keep ha hx) (fun _ => hid) fun _ => hid)
  unfold exec
  cases hact : st.action with
  | publish a =>
    dsimp only
    unfold Session.publish
    cases hb : a.brokerId with
    | none => exact ⟨⟨rfl, rfl⟩, rfl, rfl⟩
    | some b' =>
      obtain rfl := h b' (by rw [hact]; exact hb)
      exact Session.note_only (hcall (fun o => pgAmqpPublishOpt o b' a 2) (.publish hact hb))
  | autonomousPublish a =>
    dsimp only
    unfold Session.autonomousPublish
    cases hb : a.brokerId with
    | none => exact ⟨⟨rfl, rfl⟩, rfl, rfl⟩
    | some b' =>
      obtain rfl := h b' (by rw [hact]; exact hb)
      exact hcall (fun o => pgAmqpPublishOpt o b' a 1) (.autonomousPublish hact hb)
  | exchangeDeclare a =>
    dsimp only
    unfold Session.exchangeDeclare
    cases hb : a.brokerId with
    | none => exact ⟨⟨rfl, rfl⟩, rfl, rfl⟩
    | some b' =>
      obtain rfl := h b' (by rw [hact]; exact hb)
      exact hcall (fun o => pgAmqpExchangeDeclare o b' a) (.exchangeDeclare hact hb)
  | disconnect b? =>
    cases b? with
    | none => exact ⟨⟨rfl, rfl⟩, rfl, rfl⟩
    | some b' =>
      obtain rfl := h b' (by rw [hact]; rfl)
      obtain ⟨hshows, -, hraised⟩ := hcall (fun _ => do localAmqpDisconnect; return true) (.disconnect hact)
      exact ⟨hshows, rfl, hraised⟩
  | set g => exact ⟨⟨rfl, rfl⟩, rfl, rfl⟩
  | startSub => exact ⟨⟨rfl, rfl⟩, rfl, rfl⟩
  | commitSub =>
    dsimp only
    by_cases hd : 0 < s.depth
    · rw [if_pos hd, if_pos (show 0 < (s.only b).depth from hd)]
      exact ⟨⟨Session.only_release, rfl⟩, rfl, rfl⟩
    · rw [if_neg hd, if_neg (show ¬ 0 < (s.only b).depth from hd)]
      exact ⟨⟨rfl, rfl⟩, rfl, rfl⟩
  | abortSub =>
    dsimp only
    by_cases hd : 0 < s.depth
    · rw [if_pos hd, if_pos (show 0 < (s.only b).depth from hd)]
      exact ⟨Session.abortSub_only s st.outcomes b, rfl, rfl⟩
    · rw [if_neg hd, if_neg (show ¬ 0 < (s.only b).depth from hd)]
      exact ⟨⟨rfl, rfl⟩, rfl, rfl⟩
  | commit => exact ⟨Session.commit_only s st.outcomes b, rfl, rfl⟩
  | abort => exact ⟨Session.abort_only s st.outcomes b, rfl, rfl⟩
  | prepare => exact absurd hact hp

theorem shows_own (h : Shows b (next st s, (trace st s).log) (next st (s.only b), (trace st (s.only b)).log))
    (hanswer : st.action.target = some b → Answers b (exec st s) (exec st (s.only b))) :
    run Solo.next [.own st] (s.only b) = (next st s).only b ∧
      gathered Solo.next (Solo.shows b) [.own st] (s.only b) = st.shows b s := by
  refine ⟨h.state.symm, (List.append_nil _).trans ?_⟩
  have hlog : logOf b (trace st s).log = logOf b (trace st (s.only b)).log := h.log
  show st.shows b (s.only b) = st.shows b s
  unfold Step.shows
  rw [hlog]
  split
  · rename_i htarget
    have hresult : (trace st s).result = (trace st (s.only b)).result := (hanswer htarget).result
    have hraised : (trace st s).raised = (trace st (s.only b)).raised := (hanswer htarget).raised
    rw [hresult, hraised]
  · rfl

/-- A step is for a broker what `Session.solo` says. -/
theorem solo_step (hs : s.Shaped) (ha : ∀ b, Anchored (s.entry b)) :
    run Solo.next (s.solo b st) (s.only b) = (next st s).only b ∧
      gathered Solo.next (Solo.shows b) (s.solo b st) (s.only b) = st.shows b s := by
  unfold Session.solo
  cases htarget : st.action.target with
  | some b' =>
    dsimp only
    by_cases hb : b' = b
    · subst hb
      rw [if_pos rfl]
      have hown : Answers b' (exec st s) (exec st (s.only b')) :=
        exec_only ha (fun _ h => Option.some.inj (h.symm.trans htarget)) fun h => by simp [h, Action.target] at htarget
      exact shows_own hown.shows fun _ => hown
    · rw [if_neg hb]
      obtain ⟨x, hx, hcall⟩ := exec_calls s htarget
      have helsewhere : s.elsewhere st.outcomes (exec st s) =
          s.elsewhere st.outcomes (s.call st.outcomes b' x) := by
        unfold Session.elsewhere
        rw [hcall.raised, hcall.backend]
      have honly : (exec st s).1.only b = (s.call st.outcomes b' x).1.only b := by
        unfold Session.only
        rw [hcall.acks b hb, hcall.state]
      rw [Step.shows_other fun h => hb (Option.some.inj (htarget.symm.trans h))]
      unfold next trace
      rw [helsewhere, honly, hcall.log]
      exact Session.call_elsewhere hb (calls_keep ha hx)
  | none =>
    dsimp only
    have hnone : st.action.target = some b → Answers b (exec st s) (exec st (s.only b)) :=
      fun h => nomatch htarget.symm.trans h
    by_cases hp : st.action = .prepare
    · have hexec : ∀ s : Session, exec st s = s.prepare st.outcomes := by
        intro s
        unfold exec
        rw [hp]
      have hprepare : Shows b (next st s, (trace st s).log)
          (if (trace st s).raised.isSome ∧ (s.entry b).uncommitted = 0 then (s.only b).abort st.outcomes
            else (next st (s.only b), (trace st (s.only b)).log)) := by
        have h := Session.prepare_only hs st.outcomes b
        rw [← hexec, ← hexec] at h
        exact h
      by_cases hrefused : (trace st s).raised.isSome = true ∧ (s.entry b).uncommitted = 0
      · rw [if_pos ⟨hp, hrefused⟩, Step.shows_other (by simp [htarget])]
        rw [if_pos hrefused] at hprepare
        have habort : Step.shows ⟨.abort, st.outcomes⟩ b (s.only b) =
            (logOf b ((s.only b).abort st.outcomes).2).map .event := Step.shows_other (by simp [Action.target]) _
        refine ⟨hprepare.state.symm, (List.append_nil _).trans (habort.trans ?_)⟩
        exact congrArg (List.map Sight.event) hprepare.log.symm
      · rw [if_neg fun h => hrefused h.2]
        rw [if_neg hrefused] at hprepare
        exact shows_own hprepare hnone
    · rw [if_neg fun h => hp h.1]
      exact shows_own (exec_only ha (fun _ h => nomatch htarget.symm.trans h) hp).shows hnone

end Steps

/-- Of each broker a backend shows what a backend shows that knows no other: which is given the
steps on this broker and on all, the counters that calls elsewhere have moved, and an abort
for each of those that raised. -/
theorem brokers_isolated (gucs : Gucs) (myProcPid : Nat) (steps : List Step) (b : Int) :
    let s := Session.loaded gucs myProcPid
    let solo := gathered next (fun st s => s.solo b st) steps s
    run Solo.next solo (s.only b) = (run next steps s).only b ∧
      gathered Solo.next (Solo.shows b) solo (s.only b) = gathered next (fun st s => st.shows b s) steps s := by
  have hprojects : Projects next Solo.next (Runs fun _ _ => True) (·.only b) (fun st s => s.solo b st)
      (fun st s => st.shows b s) (Solo.shows b) := {
    inv := fun _ i hs => hs.step i trivial
    state := fun _ _ hs => (solo_step (Runs.shaped hs) (Runs.anchored hs)).1
    given := fun _ _ hs => (solo_step (Runs.shaped hs) (Runs.anchored hs)).2 }
  exact hprojects.run steps (.init (Session.loaded_initial gucs myProcPid))

end PgAmqp
