import Mathlib.Algebra.BigOperators.Group.List.Basic
import Mathlib.Algebra.Order.Monoid.Prod
import Mathlib.Data.ENat.Basic
import PgAmqp.Sends
import PgAmqp.Trails

/-!
# What the broker may hold a backend up for

Every call that waits for the broker is made under a timeout of the extension's choosing: the
connect timeout for the socket, and the rpc timeout of the connection for everything else.
The charge of a record adds these up, and counts the messages that were written beside them.

The transaction callbacks run with locks held. They are charged one commit timeout for each
entry that has something to end on its connection, and nothing else: they open no socket,
write no message, and ask nothing for an entry that is idle, in error or unconnected.
-/
namespace PgAmqp

open ProgramLogic

/-- How long an rpc may wait on the connection; no timeout is no bound. -/
def Connection.patience (k : Connection) : ℕ∞ :=
  match k.rpcTimeout with
  | none => ⊤
  | some ms => ms

/-- A charge of time only. -/
def waiting (ms : ℕ∞) : ℕ∞ × ℕ := (ms, 0)

@[simp] theorem waiting_zero : waiting 0 = 0 := rfl

theorem waiting_add (a b : ℕ∞) : waiting a + waiting b = waiting (a + b) := rfl

theorem waiting_mono {a b : ℕ∞} (h : a ≤ b) : waiting a ≤ waiting b := Prod.mk_le_mk.mpr ⟨h, le_rfl⟩

/-- The time an event may have waited, and the number of messages it wrote. -/
def Event.charge : Event → ℕ∞ × ℕ
  | .socketOpen _ ms _ => waiting ms
  | .rpc _ k _ => waiting k.patience
  | .basicPublish .. => (0, 1)
  | _ => 0

def charged (log : List Event) : ℕ∞ × ℕ := (log.map Event.charge).sum

@[simp] theorem charged_nil : charged [] = 0 := rfl

@[simp] theorem charged_append (l l' : List Event) : charged (l ++ l') = charged l + charged l' := by
  simp [charged]

@[simp] theorem charged_singleton (e : Event) : charged [e] = e.charge := by simp [charged]

/-- A record that is charged for no message has none written. -/
theorem charged_unwritten {log : List Event} (h : (charged log).2 = 0) {e : Event} (he : e ∈ log) (k : Connection)
    (channel : Nat) (m : Msg) (w : Write) : e ≠ .basicPublish k channel m w := by
  rintro rfl
  obtain ⟨before, after, rfl⟩ := List.append_of_mem he
  rw [charged_append, ← List.singleton_append, charged_append, charged_singleton] at h
  simp only [Prod.snd_add, Event.charge] at h
  omega

/-- The meter of a call. -/
def Cell.spent (c : Cell) : ℕ∞ × ℕ := charged c.log

section Meter

variable (c : Cell)

@[simp] theorem Cell.ticked_spent (k : Call) : (c.ticked k).spent = c.spent := rfl

@[simp] theorem Cell.modified_spent (f : BrokerState → BrokerState) : (c.modified f).spent = c.spent := rfl

@[simp] theorem Cell.recorded_spent (e : Event) : (c.recorded e).spent = c.spent + e.charge := by
  simp [Cell.spent]

@[simp] theorem Cell.warned_spent (r : Report) : (c.warned r).spent = c.spent := by
  simp [Cell.warned, Event.charge]

@[simp] theorem Cell.timed_spent (ms : Nat) : (c.timed ms).spent = c.spent := rfl

@[simp] theorem Cell.taken_spent (f : Frame) (rest : List Frame) : (c.taken f rest).spent = c.spent := rfl

@[simp] theorem Cell.dropped_spent (k : Connection) : (c.dropped k).spent = c.spent := by
  simp [Cell.dropped, Event.charge]

@[simp] theorem Cell.asked_spent (kind : Rpc) (a : Answer) (k : Connection) :
    (c.asked kind a k).spent = c.spent + waiting k.patience := by
  simp [Cell.asked, Event.charge]

end Meter

/-- A call on the entry's connection that waits no longer than this. -/
def Cell.waits (c : Cell) (ms : ℕ∞) : Prop := ∃ k, c.bs.conn = some k ∧ k.patience = ms

theorem Cell.timed_waits {c : Cell} (hk : c.bs.conn.isSome = true) (ms : Nat) : (c.timed ms).waits ms := by
  obtain ⟨k, hk⟩ := Option.isSome_iff_exists.mp hk
  exact ⟨k.setTimeout c.bs.sockfd ms, by simp [Cell.timed, hk], rfl⟩

section Callbacks

variable {o : Outcomes} {c : Cell}

/-- What reading pushed frames leaves alone. -/
structure Unspent (c c' : Cell) : Prop where
  spent : c'.spent = c.spent
  backend : c'.backend = c.backend

theorem Unspent.refl (c : Cell) : Unspent c c := ⟨rfl, rfl⟩

theorem Unspent.trans {c c' c'' : Cell} (h : Unspent c c') (h' : Unspent c' c'') : Unspent c c'' :=
  ⟨h'.spent.trans h.spent, h'.backend.trans h.backend⟩

theorem localAmqpDrainReturns_unspent (o : Outcomes) {c₀ : Cell} {ms : ℕ∞} :
    Preserves (fun c => Unspent c₀ c ∧ c.waits ms) (localAmqpDrainReturns o) :=
  KeptByDrain.preserves (G := fun _ => True) {
    arrived := fun _ _ _ _ => trivial
    polled := fun _ h => ⟨h.1.trans ⟨rfl, rfl⟩, h.2⟩
    taken := fun c f rest _ h => by
      obtain ⟨k, hk, hms⟩ := h.2
      exact ⟨h.1.trans ⟨rfl, rfl⟩, { k with queue := rest, consumed := k.consumed ++ [f] },
        by simp [Cell.taken, hk], hms⟩
    returned := fun c r _ h => ⟨h.1.trans ⟨by simp, rfl⟩, h.2⟩
    noted := fun c h => ⟨h.1.trans ⟨by simp, rfl⟩, h.2⟩
    blocked := fun _ _ h => ⟨h.1.trans ⟨rfl, rfl⟩, h.2⟩ }

/-- Giving the connection up asks nothing. -/
theorem localAmqpDisconnectBs_unspent (c : Cell) :
    wp (localAmqpDisconnectBs false) (fun _ c' => Unspent c c' ∧ c'.bs.conn = none) (fun _ _ => False) c := by
  cases hk : c.bs.conn with
  | none =>
    rw [wp_localAmqpDisconnectBs_none false hk]
    exact ⟨.refl c, hk⟩
  | some k =>
    rw [wp_localAmqpDisconnectBs_some hk]
    exact ⟨⟨c.dropped_spent k, rfl⟩, rfl⟩

theorem closeTx_unspent (hh : c.backend.holdoff = true) (report : Reply → BrokerState → Report) (reply : Reply) :
    wp (closeTx o report reply) (fun _ => Unspent c) (fun _ _ => False) c := by
  unfold closeTx
  rw [wp_ite]
  split
  · rw [wp_bind, wp_getBs, wp_bind, wp_elog_held o _ hh]
    refine wp_mono (localAmqpDisconnectBs_unspent (c.warned _)) (fun _ c' h => ?_) fun _ _ h => h
    exact .trans ⟨c.warned_spent _, rfl⟩ h.1
  · rw [wp_bind, wp_getGucs, wp_localAmqpSetTimeout]
    exact ⟨rfl, rfl⟩

/-- The entry has a transaction to end on its connection. -/
def BrokerState.owes (bs : BrokerState) : Bool := bs.conn.isSome && bs.uncommitted ≠ 0 && !bs.inerror

/-- What ending the transaction of an entry is charged. -/
def BrokerState.due (bs : BrokerState) (g : Gucs) : ℕ∞ × ℕ := if bs.owes = true then waiting g.commitTimeoutMs else 0

/-- The cell has been charged `n`. -/
structure Charged (n : ℕ∞ × ℕ) (c c' : Cell) : Prop where
  spent : c'.spent = c.spent + n
  backend : c'.backend = c.backend

theorem Unspent.charged {c c' c'' : Cell} {n : ℕ∞ × ℕ} (h : Unspent c c') (h' : Charged n c' c'') : Charged n c c'' :=
  ⟨h'.spent.trans (by rw [h.spent]), h'.backend.trans h.backend⟩

theorem Charged.unspent {c c' c'' : Cell} {n : ℕ∞ × ℕ} (h : Charged n c c') (h' : Unspent c' c'') : Charged n c c'' :=
  ⟨h'.spent.trans h.spent, h'.backend.trans h.backend⟩

/-- The rpc that ends a transaction, with what its reply means. -/
theorem endTx_charged {kind : Rpc} {a : Answer} {ms : ℕ∞} (report : Reply → BrokerState → Report)
    (hh : c.backend.holdoff = true) (hw : c.waits ms) :
    wp (rpc kind a >>= closeTx o report) (fun _ => Charged (waiting ms) c) (fun _ _ => False) c := by
  obtain ⟨k, hk, rfl⟩ := hw
  rw [wp_bind, wp_rpc hk]
  refine wp_mono (closeTx_unspent (c := c.asked kind a k) hh report _) (fun _ c' h => ?_) fun _ _ h => h
  exact .unspent ⟨c.asked_spent kind a k, rfl⟩ h

theorem amqpLocalFlush_charged (hh : c.backend.holdoff = true) (hk : c.bs.conn.isSome = true) :
    wp (amqpLocalFlush o) (fun _ => Charged (waiting c.backend.gucs.commitTimeoutMs) c) (fun _ _ => False) c := by
  have hw : (c.timed c.backend.gucs.commitTimeoutMs).waits c.backend.gucs.commitTimeoutMs := Cell.timed_waits hk _
  obtain ⟨k, hk', -⟩ := hw
  unfold amqpLocalFlush
  rw [wp_bind, wp_getGucs, wp_bind, wp_localAmqpSetTimeout]
  refine wp_seq (wp_mono (wp_and (localAmqpDrainReturns_unspent o _ ⟨.refl _, Cell.timed_waits hk _⟩)
    (localAmqpDrainReturns_reads o (by simp [hk']))) (fun _ _ h => h.1) fun _ c' h => ?_) fun _ c₁ h => ?_
  · exact reads_ne_unwound (c := (c.timed _).ticked .poll) o _ hh h.2.1
  · unfold amqpTxCommit
    rw [bind_assoc, wp_bind, wp_tick]
    refine wp_mono (endTx_charged (c := c₁.ticked .txCommit) commitFailed ?_ h.2) (fun _ c' h' => ?_) fun _ _ h => h
    · show c₁.backend.holdoff = true
      rw [h.1.backend]
      exact hh
    · have hc : Unspent c (c₁.ticked .txCommit) := ⟨h.1.spent, h.1.backend⟩
      exact hc.charged h'

theorem amqpLocalRollback_charged (hh : c.backend.holdoff = true) (hk : c.bs.conn.isSome = true) :
    wp (amqpLocalRollback o) (fun _ => Charged (waiting c.backend.gucs.commitTimeoutMs) c) (fun _ _ => False) c := by
  unfold amqpLocalRollback amqpTxRollback
  rw [wp_bind, wp_getGucs, wp_bind, wp_localAmqpSetTimeout, bind_assoc, wp_bind, wp_tick]
  have ht : Unspent c ((c.timed c.backend.gucs.commitTimeoutMs).ticked .txRollback) := ⟨rfl, rfl⟩
  refine wp_mono (endTx_charged (c := (c.timed _).ticked .txRollback) rollbackFailed hh (Cell.timed_waits hk _))
    (fun _ c' h => ht.charged h) fun _ _ h => h

/-- What the two callbacks share. -/
theorem turn_charged {act : M Unit} (hact : c.bs.conn.isSome = true →
      wp act (fun _ => Charged (waiting c.backend.gucs.commitTimeoutMs) c) (fun _ _ => False) c) :
    wp (do dropErrored; clearInerror; settleWith act) (fun _ => Charged (c.bs.due c.backend.gucs) c)
      (fun _ _ => False) c := by
  have vacant : ∀ c', Unspent c c' → c'.bs.conn = none → c.bs.owes = false →
      wp (settleWith act) (fun _ => Charged (c.bs.due c.backend.gucs) c) (fun _ _ => False) c' := by
    intro c' h hnone howes
    have hdone : Charged (c.bs.due c.backend.gucs) c c' :=
      ⟨by rw [h.spent, BrokerState.due, howes]; simp, h.backend⟩
    unfold settleWith withConn
    rw [wp_bind, wp_getBs, wp_ite]
    split
    · rw [wp_bind, wp_bind, wp_getBs, wp_ite, if_neg (by simp [hnone])]
      exact hdone.unspent ⟨rfl, rfl⟩
    · exact hdone
  unfold dropErrored
  rw [wp_bind, wp_bind, wp_getBs, wp_ite]
  cases he : c.bs.inerror with
  | true =>
    rw [if_pos rfl]
    refine wp_mono (localAmqpDisconnectBs_unspent c) (fun _ c' h => ?_) fun _ _ h => h
    rw [wp_bind, wp_clearInerror]
    exact vacant _ (h.1.trans ⟨rfl, rfl⟩) h.2 (by simp [BrokerState.owes, he])
  | false =>
    have hc : c.modified (fun bs => { bs with inerror := false }) = c := by
      unfold Cell.modified
      rw [← he]
    rw [if_neg (by simp), wp_pure, wp_bind, wp_clearInerror, hc]
    cases hk : c.bs.conn with
    | none => exact vacant c (.refl c) hk (by simp [BrokerState.owes, hk])
    | some k =>
      unfold settleWith withConn
      rw [wp_bind, wp_getBs, wp_ite]
      split
      · rename_i hu
        have hdue : c.bs.due c.backend.gucs = waiting c.backend.gucs.commitTimeoutMs := by
          simp [BrokerState.due, BrokerState.owes, hk, hu, he]
        rw [wp_bind, wp_bind, wp_getBs, wp_ite, if_pos (by simp [hk]), hdue]
        refine wp_mono (hact (by simp [hk])) (fun _ c' h => ?_) fun _ _ h => h
        exact h.unspent ⟨rfl, rfl⟩
      · rename_i hz
        have hdue : c.bs.due c.backend.gucs = 0 := by
          simp [BrokerState.due, BrokerState.owes, Decidable.not_not.mp hz]
        exact ⟨by rw [hdue, add_zero], rfl⟩

theorem amqpLocalAbort_charged (hh : c.backend.holdoff = true) :
    wp (amqpLocalAbort o) (fun _ => Charged (c.bs.due c.backend.gucs) c) (fun _ _ => False) c :=
  turn_charged fun hk => amqpLocalRollback_charged hh hk

theorem amqpLocalCommit_charged (hh : c.backend.holdoff = true) :
    wp (amqpLocalCommit o) (fun _ => Charged (c.bs.due c.backend.gucs) c) (fun _ _ => False) c := by
  unfold amqpLocalCommit
  rw [wp_bind, wp_getBs, wp_ite]
  split
  · rename_i hlost
    have howes : c.bs.owes = false := by
      unfold BrokerState.owes
      rcases hlost.2 with he | hk
      · simp [he]
      · simp [Option.isNone_iff_eq_none.mp hk]
    have hdue : c.bs.due c.backend.gucs = 0 := by simp [BrokerState.due, howes]
    rw [wp_bind, wp_elog_held o _ hh, wp_bind, hdue]
    refine wp_mono (localAmqpDisconnectBs_unspent (c.warned _)) (fun _ c' h => ?_) fun _ _ h => h
    rw [wp_modifyBs]
    exact ⟨by rw [Cell.modified_spent, h.1.spent, c.warned_spent, add_zero], h.1.backend⟩
  · exact turn_charged fun hk => amqpLocalFlush_charged hh hk

theorem amqpLocalSubxact_unspent (hh : c.backend.holdoff = true) :
    wp (amqpLocalSubxact o) (fun _ => Charged 0 c) (fun _ _ => False) c := by
  unfold amqpLocalSubxact
  rw [wp_bind, wp_getBs, wp_ite]
  split
  · rw [wp_bind, wp_elog_held o _ hh, wp_modifyBs]
    exact ⟨by simp, rfl⟩
  · exact ⟨(add_zero _).symm, rfl⟩

end Callbacks

section Sweeps

variable {o : Int → Outcomes} {s : Session}

/-- A callback that charges each entry what is due from it charges the sum. -/
theorem forEachBs_charged {f : Outcomes → M Unit} (due : BrokerState → Gucs → ℕ∞ × ℕ)
    (hf : ∀ o c, c.backend.holdoff = true → wp (f o) (fun _ => Charged (due c.bs c.backend.gucs) c)
      (fun _ _ => False) c) (head : List BrokerState) (k : Backend) (hk : k.holdoff = true) :
    charged ((forEachBs f o head k).log.map Prod.snd) = (head.map (due · k.gucs)).sum := by
  induction head generalizing k with
  | nil => rfl
  | cons e rest ih =>
    obtain ⟨u, c, hrun, hc⟩ := wp_ok (hf (o e.brokerId) (Session.start e true k) hk)
    have hspent : charged c.log = due e k.gucs := by
      have h : charged c.log = charged [] + due e k.gucs := hc.spent
      simpa using h
    have hback : c.backend = k := hc.backend
    have ih := ih c.backend (hback ▸ hk)
    unfold forEachBs
    rw [hrun]
    have hmap : (c.log.map (e.brokerId, ·)).map Prod.snd = c.log := by simp [Function.comp_def]
    show charged ((c.log.map (e.brokerId, ·) ++ (forEachBs f o rest c.backend).log).map Prod.snd) = _
    rw [List.map_append, hmap, charged_append, hspent, ih, hback, List.map_cons, List.sum_cons]

/-- What the end of the transaction is charged over all entries. -/
def Session.due (s : Session) : ℕ∞ × ℕ := (s.head.map (·.due s.backend.gucs)).sum

/-- One commit timeout for each entry that has something to end. -/
theorem Session.due_eq (s : Session) :
    s.due = waiting (s.head.countP BrokerState.owes * s.backend.gucs.commitTimeoutMs) := by
  unfold Session.due
  induction s.head with
  | nil => simp
  | cons e rest ih =>
    rw [List.map_cons, List.sum_cons, ih, List.countP_cons]
    cases h : e.owes with
    | true => simp [BrokerState.due, h, waiting_add, add_mul, add_comm]
    | false => simp [BrokerState.due, h]

theorem Session.abort_charged (s : Session) (o : Int → Outcomes) : charged ((s.abort o).2.map Prod.snd) = s.due :=
  forEachBs_charged BrokerState.due (fun _ _ => amqpLocalAbort_charged) s.head { s.backend with holdoff := true } rfl

/-- A callback that asks nothing of any entry. -/
theorem forEachBs_uncharged {f : Outcomes → M Unit} (hf : ∀ o c, c.backend.holdoff = true →
      wp (f o) (fun _ => Charged 0 c) (fun _ _ => False) c) (head : List BrokerState) (k : Backend)
    (hk : k.holdoff = true) : charged ((forEachBs f o head k).log.map Prod.snd) = 0 := by
  rw [forEachBs_charged (fun _ _ => 0) hf head k hk]
  simp

theorem Session.abortSub_charged (s : Session) (o : Int → Outcomes) : charged ((s.abortSub o).2.map Prod.snd) = 0 :=
  forEachBs_uncharged (fun _ _ => amqpLocalSubxact_unspent) s.head { s.backend with holdoff := true } rfl

theorem Session.commit_charged (s : Session) (o : Int → Outcomes) :
    charged ((s.commit o).2.log.map Prod.snd) = s.due :=
  forEachBs_charged BrokerState.due (fun _ _ => amqpLocalCommit_charged) s.head { s.backend with holdoff := true } rfl

/-- A refused `PREPARE TRANSACTION` is charged for the abort, and one that goes through
leaves nothing to end. -/
theorem Session.prepare_charged (hs : s.Shaped) (o : Int → Outcomes) :
    charged ((s.prepare o).2.log.map Prod.snd) = s.due := by
  rcases Session.prepare_cases (o := o) hs with ⟨b, -, hp⟩ | ⟨hzero, hp⟩
  · rw [hp]
    exact s.abort_charged o
  · have hidle : ∀ e ∈ s.head, ¬ e.owes = true := by
      intro e he
      have hz := hzero e.brokerId
      rw [Session.entry_mem hs.ids he] at hz
      simp [BrokerState.owes, hz]
    have hsweep : charged ((s.sweep (amqpLocalPhase2 .prepare) o).2.log.map Prod.snd) = 0 :=
      forEachBs_uncharged (f := amqpLocalPhase2 .prepare) (fun _ _ _ => ⟨(add_zero _).symm, rfl⟩) s.head
        { s.backend with holdoff := true } rfl
    rw [hp, s.due_eq, List.countP_eq_zero.mpr hidle, Nat.cast_zero, zero_mul, waiting_zero]
    exact hsweep

end Sweeps

/-- The steps that run a callback only. -/
def Action.runsCallback (a : Action) : Prop := a = .commit ∨ a = .abort ∨ a = .prepare ∨ a = .abortSub

/-- The callbacks open no socket. -/
theorem callbacks_unopened {s : Session} (hs : Runs (fun _ _ => True) s) {a : Action} (ha : a.runsCallback)
    (o : Int → Outcomes) {b : Int} {e : Event} (he : (b, e) ∈ (trace ⟨a, o⟩ s).log) : e.opened = none := by
  have hspared : Trail Between s.backend (s.entry b) (logOf b (trace ⟨a, o⟩ s).log) (next ⟨a, o⟩ s).backend
      ((next ⟨a, o⟩ s).entry b) := by
    refine exec_spared (Runs.shaped hs) (Runs.anchored hs) (fun g hg => ?_) ?_
    · rcases ha with rfl | rfl | rfl | rfl <;> cases hg
    · rcases ha with rfl | rfl | rfl | rfl <;> exact nofun
  exact hspared.unopened e (mem_logOf.mpr he)

/-- The end of a transaction asks the broker once for each entry that buffers messages on a
connection in good order, under the commit timeout of the moment. It opens no socket and
writes nothing, and the abort of a subtransaction asks nothing at all. -/
theorem callbacks_charged (gucs : Gucs) (myProcPid : Nat) (steps : List Step) (o : Int → Outcomes) :
    let s := Transition.run next steps (.loaded gucs myProcPid)
    let due := waiting (s.head.countP BrokerState.owes * s.backend.gucs.commitTimeoutMs)
    charged ((trace ⟨.commit, o⟩ s).log.map Prod.snd) = due ∧
      charged ((trace ⟨.abort, o⟩ s).log.map Prod.snd) = due ∧
      charged ((trace ⟨.prepare, o⟩ s).log.map Prod.snd) = due ∧
      charged ((trace ⟨.abortSub, o⟩ s).log.map Prod.snd) = 0 ∧
      ∀ a : Action, a.runsCallback → ∀ b e, (b, e) ∈ (trace ⟨a, o⟩ s).log →
        (∀ h ms ok, e ≠ .socketOpen h ms ok) ∧ ∀ k channel m w, e ≠ .basicPublish k channel m w := by
  intro s due
  have hruns : Runs (fun _ _ => True) s :=
    Transition.Reach.run (.init (Session.loaded_initial gucs myProcPid)) steps (Transition.Admits.always _ _)
  have hcommit : charged ((trace ⟨.commit, o⟩ s).log.map Prod.snd) = due := (s.commit_charged o).trans s.due_eq
  have habort : charged ((trace ⟨.abort, o⟩ s).log.map Prod.snd) = due := (s.abort_charged o).trans s.due_eq
  have hprepare : charged ((trace ⟨.prepare, o⟩ s).log.map Prod.snd) = due :=
    (Session.prepare_charged hruns.shaped o).trans s.due_eq
  have habortSub : charged ((trace ⟨.abortSub, o⟩ s).log.map Prod.snd) = 0 := by
    unfold trace exec
    dsimp only
    split
    · exact s.abortSub_charged o
    · rfl
  refine ⟨hcommit, habort, hprepare, habortSub, fun a ha b e he => ⟨?_, ?_⟩⟩
  · rintro h ms ok rfl
    cases callbacks_unopened hruns ha o he
  · have hzero : (charged ((trace ⟨a, o⟩ s).log.map Prod.snd)).2 = 0 := by
      rcases ha with rfl | rfl | rfl | rfl
      · rw [hcommit]; rfl
      · rw [habort]; rfl
      · rw [hprepare]; rfl
      · rw [habortSub]; rfl
    exact charged_unwritten hzero (List.mem_map_of_mem he)

end PgAmqp
