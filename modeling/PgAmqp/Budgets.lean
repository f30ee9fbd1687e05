import PgAmqp.Backoff
import PgAmqp.Limits

/-!
# The bound of every step

Between two steps no connection has a longer timeout than the settings allow, whatever the
broker answers and wherever a cancel unwinds, as long as none unwinds from a socket that
could not be opened. Every step is then charged within its allowance.
-/
namespace PgAmqp

open ProgramLogic Transition

/-- A step under the limits. -/
structure Step.Within (st : Step) (l : Limits) : Prop where
  set : ∀ g, st.action = .set g → g.Within l.gucs
  outcomes : ∀ b, (st.outcomes b).Within l

/-- The sessions of runs under the limits. -/
abbrev RunsWithin (l : Limits) : Session → Prop :=
  Reach (fun s => s.Initial ∧ s.backend.gucs.Within l.gucs) next fun _ st => st.Within l

/-- No entry waits longer than the limits allow. -/
def Session.Patient (l : Limits) (s : Session) : Prop := ∀ b, l.Patient l.steady (s.cell b)

section Entries

variable {l : Limits} {p q : Stage × Cell} {c c' : Cell}

/-- What holds of an entry in use: its timeout is bounded but while a transaction is ended. -/
def Limits.Using (l : Limits) : Stage × Cell → Prop
  | (.rest, c) => l.Patient l.steady c
  | (_, c) => l.Bounded c

theorem Limits.Using.bounded {g : Stage} (h : l.Using (g, c)) : l.Bounded c := by
  cases g with
  | rest => exact Limits.Patient.toBounded h
  | _ => exact h

/-- A change that keeps the timeout of the connection and the stage. -/
theorem Limits.Using.keep {g : Stage} (h : l.Using (g, c)) (hg : c'.backend.gucs = c.backend.gucs)
    (hn : c'.bs.nhosts = c.bs.nhosts) (hc : ∀ k', c'.bs.conn = some k' → ∃ k, c.bs.conn = some k ∧
      k'.rpcTimeout = k.rpcTimeout) : l.Using (g, c') := by
  have hb : l.Bounded c' := ⟨hg ▸ h.bounded.gucs, hn ▸ h.bounded.hosts⟩
  cases g with
  | rest =>
    refine ⟨hb, fun k' hk' => ?_⟩
    obtain ⟨k, hk, hr⟩ := hc k' hk'
    unfold Connection.patience
    rw [hr]
    exact Limits.Patient.patience h k hk
  | _ => exact hb

theorem Limits.Using.same {g : Stage} (h : l.Using (g, c)) (hg : c'.backend.gucs = c.backend.gucs)
    (hn : c'.bs.nhosts = c.bs.nhosts) (hc : c'.bs.conn = c.bs.conn) : l.Using (g, c') :=
  h.keep hg hn fun k hk => ⟨k, hc ▸ hk, rfl⟩

theorem Limits.Using.asked {g : Stage} {k : Connection} (h : l.Using (g, c)) (hk : c.bs.conn = some k) (kind : Rpc)
    (a : Answer) : l.Using (g, c.asked kind a k) := by
  refine h.keep rfl rfl fun k' hk' => ⟨k, hk, ?_⟩
  obtain rfl : k.answered kind a = k' := Option.some.inj hk'
  exact (k.answered_timeouts kind a).1

theorem Serve.using (h : Serve .none p q) (hp : l.Using p) : l.Using q := by
  cases h with
  | @hear g c f rest hc hg =>
    refine hp.keep ?_ ?_ fun k' hk' => ?_
    · rw [Cell.heard_backend]
    · rw [Cell.heard_bs]
      rfl
    · rw [Cell.heard_bs] at hk'
      obtain ⟨k, hk, rfl⟩ := Option.map_eq_some_iff.mp (show c.bs.conn.map _ = some k' from hk')
      exact ⟨k, hk, rfl⟩
  | mishear _ _ _ hu => exact hu.elim
  | declare k d a hk => exact hp.asked hk _ a
  | finish k kind a hk _ => exact hp.asked hk kind a
  | write k channel m w hk _ =>
    refine hp.keep rfl rfl fun k' hk' => ⟨k, hk, ?_⟩
    obtain rfl : k.written channel m w = k' := Option.some.inj hk'
    exact (k.written_timeouts ..).1
  | drop k hk => exact ⟨⟨hp.bounded.gucs, hp.bounded.hosts⟩, fun k' hk' => by simp [Cell.dropped] at hk'⟩
  | flush => exact ⟨hp.bounded.gucs, hp.bounded.hosts⟩
  | @restore c =>
    refine ⟨⟨hp.bounded.gucs, hp.bounded.hosts⟩, fun k hk => ?_⟩
    obtain ⟨k₀, -, rfl⟩ := Option.map_eq_some_iff.mp (show c.bs.conn.map _ = some k from hk)
    exact Nat.cast_le.mpr (le_max_of_le_left hp.bounded.gucs.operation)
  | _ => exact hp.same rfl rfl rfl

theorem Served.using (h : Served .none p q) (hp : l.Using p) : l.Using q := by
  induction h with
  | refl => exact hp
  | tail _ hs ih => exact hs.using ih

end Entries

section Steps

variable {l : Limits} {s : Session} {st : Step} {o : Int → Outcomes}

/-- The work on an entry leaves it within the limits. -/
def Limits.Keeps (l : Limits) (_ : Int) (c c' : Cell) : Prop := l.Patient l.steady c → l.Patient l.steady c'

theorem Trail.patient {b : Int} {k k' : Backend} {bs bs' : BrokerState} {evs : List Event}
    (h : Trail (l.Keeps b) k bs evs k' bs') (hp : l.Patient l.steady (Session.start bs true k)) :
    l.Patient l.steady (Session.start bs' true k') := by
  induction h with
  | @still k k' bs hg => exact .ofEntry (Session.start bs true k) _ rfl hg.gucs hp
  | @work k bs linked c h => exact .ofEntry c _ rfl rfl (h (.ofEntry (Session.start bs true k) _ rfl rfl hp))
  | trans _ _ ih ih' => exact ih' (ih hp)

/-- What a call of a step is charged, and how it leaves its entry. -/
theorem Step.Calls.spends (hst : st.Within l) {b : Int} {x : M Bool} (hx : st.Calls b x) {c : Cell}
    (hc : l.Patient l.steady c) :
    wp x (fun _ => l.Patient l.steady) (fun _ => l.Patient l.steady) c := by
  have ho := hst.outcomes b
  cases hx with
  | publish _ _ => exact wp_mono (pgAmqpPublishOpt_spends ho b _ 2 hc) (fun _ _ h => h.1) fun _ _ h => h.1
  | autonomousPublish _ _ => exact wp_mono (pgAmqpPublishOpt_spends ho b _ 1 hc) (fun _ _ h => h.1) fun _ _ h => h.1
  | exchangeDeclare _ _ => exact wp_mono (pgAmqpExchangeDeclare_spends ho b _ hc) (fun _ _ h => h.1) fun _ _ h => h.1
  | disconnect _ =>
    exact wp_seq (wp_mono (localAmqpDisconnect_spends hc.toBounded) (fun _ _ h => h.1) fun _ _ h => h.elim)
      fun _ _ h => h

theorem next_patient (hs : s.Shaped) (ha : ∀ b, Anchored (s.entry b)) (hst : st.Within l) (hp : s.Patient l) :
    (next st s).Patient l := by
  have entry : ∀ b, l.Patient l.steady (Session.start (s.entry b) true s.backend) := fun b =>
    .ofEntry (s.cell b) _ rfl rfl (hp b)
  intro b
  by_cases hset : ∃ g, st.action = .set g
  · obtain ⟨g, hg⟩ := hset
    unfold next exec
    rw [hg]
    exact ⟨⟨hst.set g hg, (hp b).hosts⟩, (hp b).patience⟩
  · have htrails : Trails (l.Keeps) s (next st s) (trace st s).log := by
      refine exec_works hs (fun g hg => hset ⟨g, hg⟩) (.between fun _ _ _ h hc => h.using hc) fun b x hx => ?_
      exact wp_mono (wp_and (calls_called ha hx) (hx.spends hst (hp b)))
        (fun _ _ h => h.1.landed fun _ => h.2) fun _ _ h => h.1.landed fun _ => h.2
    exact .ofEntry (Session.start ((next st s).entry b) true (next st s).backend) _ rfl rfl
      ((htrails b).patient (entry b))

theorem RunsWithin.runs (h : RunsWithin l s) : Runs (fun _ _ => True) s := by
  induction h with
  | init h => exact .init h.1
  | step st _ _ ih => exact .step st ih trivial

theorem RunsWithin.patient (h : RunsWithin l s) : s.Patient l := by
  refine h.invariant (I := Session.Patient l) (fun s hi b => ?_) fun s st hr hp hst =>
    next_patient (RunsWithin.runs hr).shaped (RunsWithin.runs hr).anchored hst hp
  have hentry : s.entry b = .fresh b := entry_initial hi.1 b
  refine ⟨⟨hi.2, ?_⟩, fun k hk => ?_⟩
  · show (s.entry b).nhosts ≤ _
    rw [hentry]
    exact Nat.zero_le _
  · have hk : (s.entry b).conn = some k := hk
    rw [hentry] at hk
    cases hk

/-- What ending the transaction may be charged, at most. -/
theorem Session.due_le (hg : s.backend.gucs.Within l.gucs) :
    s.due ≤ waiting (s.head.length * l.gucs.commitTimeoutMs) := by
  rw [s.due_eq]
  have hlen : (s.head.countP BrokerState.owes : ℕ∞) ≤ s.head.length := Nat.cast_le.mpr List.countP_le_length
  have hms : (s.backend.gucs.commitTimeoutMs : ℕ∞) ≤ l.gucs.commitTimeoutMs := Nat.cast_le.mpr hg.commit
  exact waiting_mono (mul_le_mul' hlen hms)

theorem Session.abortCurrent_charged (hg : s.backend.gucs.Within l.gucs) :
    charged ((s.abortCurrent o).2.map Prod.snd) ≤ waiting (s.head.length * l.gucs.commitTimeoutMs) := by
  unfold Session.abortCurrent
  split
  · rw [s.abortSub_charged o]
    exact zero_le
  · rw [s.abort_charged o]
    exact s.due_le hg

theorem replaceBs_length (bs : BrokerState) (head : List BrokerState) : (replaceBs bs head).length = head.length := by
  induction head with
  | nil => rfl
  | cons e rest ih =>
    unfold replaceBs
    split
    · rfl
    · simp [ih]

/-- A call links one entry at most. -/
theorem Session.store_length (s : Session) (c : Cell) : (s.store c).head.length ≤ s.head.length + 1 := by
  show (if c.linked then putBs c.bs s.head else s.head).length ≤ _
  unfold putBs
  split
  · split
    · rw [replaceBs_length]
      omega
    · simp
  · omega

/-- What may come on top of a call that raises: the abort callback, over all entries and the
one that the call has linked. -/
def Session.aborting (l : Limits) (s : Session) (raised : Option Raised) : ℕ∞ × ℕ :=
  if raised.isSome = true then waiting ((s.head.length + 1 : Nat) * l.gucs.commitTimeoutMs) else 0

theorem call_charged {b : Int} {x : Outcomes → M Bool} {n : ℕ∞ × ℕ}
    (hx : wp (x (o b)) (fun _ c => l.Patient l.steady c ∧ c.spent ≤ n) (fun _ c => l.Patient l.steady c ∧ c.spent ≤ n)
      (s.cell b)) :
    charged ((s.call o b x).2.log.map Prod.snd) ≤ n + s.aborting l (s.call o b x).2.raised := by
  have hmap : ∀ c : Cell, (c.log.map (b, ·)).map Prod.snd = c.log := fun c => by simp [Function.comp_def]
  unfold wp at hx
  cases hrun : x (o b) (s.cell b) with
  | ok v c =>
    rw [hrun] at hx
    rw [Session.call_ok hrun, hmap]
    exact hx.2.trans le_self_add
  | error e c =>
    rw [hrun] at hx
    rw [Session.call_error hrun, List.map_append, hmap, charged_append]
    refine add_le_add hx.2 ((Session.abortCurrent_charged (s := s.store c) hx.1.gucs).trans (waiting_mono ?_))
    gcongr
    exact s.store_length c

/-- What a step is allowed, from the state it is taken in. -/
def Session.allowance (l : Limits) (s : Session) : Action → ℕ∞ × ℕ
  | .publish a => a.brokerId.elim 0 fun b => l.publishing (s.entry b).conn.isSome
  | .autonomousPublish a => a.brokerId.elim 0 fun b => l.publishing (s.entry b).conn.isSome
  | .exchangeDeclare a => a.brokerId.elim 0 fun b => l.declaring (s.entry b).conn.isSome
  | .disconnect b => b.elim 0 fun b => closing (s.entry b).conn.isSome
  | .commit => waiting (s.head.length * l.gucs.commitTimeoutMs)
  | .abort => waiting (s.head.length * l.gucs.commitTimeoutMs)
  | .prepare => waiting (s.head.length * l.gucs.commitTimeoutMs)
  | _ => 0

end Steps

/-- In every run under the limits, every step is charged within its allowance, and one that
raises no more than the abort callback on top of it. -/
theorem steps_within_allowance {l : Limits} {s : Session} (h : RunsWithin l s) {st : Step} (hst : st.Within l) :
    charged ((trace st s).log.map Prod.snd) ≤ s.allowance l st.action + s.aborting l (trace st s).raised := by
  have hp : ∀ b, l.Patient l.steady (s.cell b) := h.patient
  have hg : s.backend.gucs.Within l.gucs := (hp 0).gucs
  have ho : ∀ b, (st.outcomes b).Within l := hst.outcomes
  have spent : ∀ b, (s.cell b).spent = 0 := fun _ => rfl
  unfold trace exec Session.allowance
  cases hact : st.action with
  | publish a =>
    dsimp only
    unfold Session.publish
    cases a.brokerId with
    | none => exact zero_le
    | some b =>
      rw [note_log]
      refine call_charged (n := l.publishing (s.cell b).bs.conn.isSome) (x := fun o => pgAmqpPublishOpt o b a 2) ?_
      have hx := pgAmqpPublishOpt_spends (ho b) b a 2 (hp b)
      simpa only [spent, zero_add] using hx
  | autonomousPublish a =>
    dsimp only
    unfold Session.autonomousPublish
    cases a.brokerId with
    | none => exact zero_le
    | some b =>
      refine call_charged (n := l.publishing (s.cell b).bs.conn.isSome) (x := fun o => pgAmqpPublishOpt o b a 1) ?_
      have hx := pgAmqpPublishOpt_spends (ho b) b a 1 (hp b)
      simpa only [spent, zero_add] using hx
  | exchangeDeclare a =>
    dsimp only
    unfold Session.exchangeDeclare
    cases a.brokerId with
    | none => exact zero_le
    | some b =>
      refine call_charged (n := l.declaring (s.cell b).bs.conn.isSome) (x := fun o => pgAmqpExchangeDeclare o b a) ?_
      have hx := pgAmqpExchangeDeclare_spends (ho b) b a (hp b)
      simpa only [spent, zero_add] using hx
  | disconnect b? =>
    cases b? with
    | none => exact zero_le
    | some b =>
      refine call_charged (x := fun _ => do localAmqpDisconnect; return true) ?_
      refine wp_seq (wp_mono (localAmqpDisconnect_spends (hp b).toBounded) (fun _ _ h => h) fun _ _ h => h.elim)
        fun _ c h => ⟨h.1, ?_⟩
      rw [h.2, spent, zero_add]
      rfl
  | set g => exact zero_le
  | startSub => exact zero_le
  | commitSub =>
    dsimp only
    split <;> exact zero_le
  | abortSub =>
    dsimp only
    split
    · exact (s.abortSub_charged _).trans_le zero_le
    · exact zero_le
  | commit => exact ((s.commit_charged _).trans_le (s.due_le hg)).trans le_self_add
  | abort => exact ((s.abort_charged _).trans_le (s.due_le hg)).trans le_self_add
  | prepare =>
    exact ((Session.prepare_charged (RunsWithin.runs h).shaped _).trans_le (s.due_le hg)).trans le_self_add

theorem unreachablePublish_within : unreachablePublish.Within ⟨{}, 1⟩ := by
  refine ⟨fun g hg => Action.noConfusion hg, fun b => ⟨fun n rows h => ?_, fun n r h => Bool.noConfusion h⟩⟩
  obtain rfl := Spi.rows.inj h
  exact Nat.le_refl 1

/-- One host that does not answer: the publish waits for its socket, once. -/
theorem unreachablePublish_charged :
    charged ((trace unreachablePublish (.loaded {} 0)).log.map Prod.snd) = waiting 2000 ∧
    charged ((trace unreachablePublish (.loaded {} 0)).log.map Prod.snd) ≤
      (Session.loaded {} 0).allowance ⟨{}, 1⟩ unreachablePublish.action +
        (Session.loaded {} 0).aborting ⟨{}, 1⟩ (trace unreachablePublish (.loaded {} 0)).raised :=
  ⟨by decide +kernel, steps_within_allowance (.init ⟨Session.loaded_initial {} 0, ⟨le_rfl, le_rfl, le_rfl, le_rfl⟩⟩)
    unreachablePublish_within⟩

end PgAmqp
