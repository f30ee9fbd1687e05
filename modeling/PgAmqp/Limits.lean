import Mathlib.Algebra.Ring.Defs
import Mathlib.Algebra.Order.Monoid.Unbundled.Pow
import Mathlib.Data.ENat.Lattice
import Mathlib.Order.CompletePartialOrder
import PgAmqp.Charges
import PgAmqp.Metered
import PgAmqp.Timeouts

/-!
# What one call may wait for

A call that has to connect goes through the cached hosts, and a publish may do so twice: once
because there is no connection, and once more because the new one turns out dead. Each host
is one socket and four rpcs of the handshake. The bound of a call adds this up, under the
largest settings of the run and the largest number of hosts that the lookup returned.
-/
namespace PgAmqp

open ProgramLogic Transition Metered

/-- A setting is at most this one. -/
structure Gucs.Within (g l : Gucs) : Prop where
  connect : g.connectTimeoutMs ≤ l.connectTimeoutMs
  handshake : g.handshakeTimeoutMs ≤ l.handshakeTimeoutMs
  operation : g.operationTimeoutMs ≤ l.operationTimeoutMs
  commit : g.commitTimeoutMs ≤ l.commitTimeoutMs

/-- The largest settings of a run, and the largest number of rows of one broker. -/
structure Limits where
  gucs : Gucs
  hosts : Nat

/-- The warnings about a socket that could not be made or opened. -/
def Report.opensSocket : Report → Bool
  | .tlsSocketFailed _ _ => true
  | .tcpSocketFailed _ _ => true
  | .connectFailed _ _ => true
  | _ => false

/-- The lookup returns at most so many rows, and no cancel unwinds before the timeouts of a
new connection are set. -/
structure Outcomes.Within (o : Outcomes) (l : Limits) : Prop where
  rows : ∀ n rows, o.spi n = .rows rows → rows.length ≤ l.hosts
  settled : ∀ n r, o.unwind n r = true → r.opensSocket = false

namespace Limits

variable (l : Limits)

/-- What an rpc may wait for between two calls. A cancel in the handshake leaves its timeout. -/
def steady : ℕ∞ := (max l.gucs.operationTimeoutMs l.gucs.handshakeTimeoutMs : Nat)

/-- One host: its socket, login, two channels and `tx.select`. -/
def host : ℕ∞ × ℕ := waiting (l.gucs.connectTimeoutMs + 4 * l.gucs.handshakeTimeoutMs)

/-- All hosts. -/
def round : ℕ∞ × ℕ := l.hosts • l.host

/-- The settings and the cached hosts of a cell. -/
structure Bounded (c : Cell) : Prop where
  gucs : c.backend.gucs.Within l.gucs
  hosts : c.bs.nhosts ≤ l.hosts

/-- No rpc on the entry's connection waits longer than this. -/
structure Patient (ms : ℕ∞) (c : Cell) : Prop extends l.Bounded c where
  patience : ∀ k, c.bs.conn = some k → k.patience ≤ ms

/-- The entry has no connection. -/
structure Vacant (c : Cell) : Prop extends l.Bounded c where
  conn : c.bs.conn = none

end Limits

/-- A fact about the entry and the settings only. -/
def OfEntry (P : Cell → Prop) : Prop := ∀ c c', c'.bs = c.bs → c'.backend.gucs = c.backend.gucs → P c → P c'

section Calls

variable {l : Limits} {o : Outcomes} {ms : ℕ∞} {P E : Cell → Prop}

theorem Limits.Bounded.ofEntry : OfEntry l.Bounded := by
  intro c c' hb hg h
  exact ⟨hg ▸ h.gucs, hb ▸ h.hosts⟩

theorem Limits.Patient.ofEntry : OfEntry (l.Patient ms) := by
  intro c c' hb hg h
  exact ⟨.ofEntry c c' hb hg h.toBounded, fun k hk => h.patience k (hb ▸ hk)⟩

theorem Limits.Vacant.ofEntry : OfEntry l.Vacant := by
  intro c c' hb hg h
  exact ⟨.ofEntry c c' hb hg h.toBounded, hb ▸ h.conn⟩

theorem Limits.Patient.mono {ms' : ℕ∞} {c : Cell} (h : l.Patient ms c) (hle : ms ≤ ms') : l.Patient ms' c :=
  ⟨h.toBounded, fun k hk => (h.patience k hk).trans hle⟩

theorem Limits.Vacant.patient {c : Cell} (h : l.Vacant c) : l.Patient ms c :=
  ⟨h.toBounded, fun k hk => by simp [h.conn] at hk⟩

theorem tick_spends (hP : OfEntry P) (k : Call) : Spends Cell.spent P (tick k) 0 (fun _ => P) E :=
  .free fun c h => ⟨hP c _ rfl rfl h, rfl⟩

theorem getBs_spends : Spends Cell.spent P getBs 0 (fun _ => P) E := .free fun _ h => ⟨h, rfl⟩

theorem modifyBs_spends {f : BrokerState → BrokerState} {Q : Cell → Prop} (h : ∀ c, P c → Q (c.modified f)) :
    Spends Cell.spent P (modifyBs f) 0 (fun _ => Q) E := .free fun c hc => ⟨h c hc, rfl⟩

theorem elog_spends (hP : OfEntry P) (r : Report) : Spends Cell.spent P (elog o r) 0 (fun _ => P) P := by
  refine .free fun c h => ?_
  have hw : P (c.warned r) := hP c _ rfl rfl h
  rw [wp_elog]
  split <;> exact ⟨hw, c.warned_spent r⟩

/-- A warning at which no cancel unwinds. -/
theorem elog_settled (ho : o.Within l) (hP : OfEntry P) {r : Report} (hr : r.opensSocket = true) :
    Spends Cell.spent P (elog o r) 0 (fun _ => P) E := by
  refine .free fun c h => ?_
  have hnot : ¬ c.unwinds o r = true := by
    intro hu
    simp only [Cell.unwinds, Bool.and_eq_true] at hu
    simp [ho.settled _ _ hu.2] at hr
  rw [wp_elog, if_neg hnot]
  exact ⟨hP c _ rfl rfl h, c.warned_spent r⟩

/-- A warning after which the call returns. -/
theorem elog_return_spends {α : Type} {a : α} (hP : OfEntry P) (r : Report) :
    Spends Cell.spent P (do elog o r; return a) 0 (fun _ => P) P :=
  .after (elog_spends hP r) fun _ => .pure fun _ h => h

theorem rpc_spends (kind : Rpc) (a : Answer) :
    Spends Cell.spent (l.Patient ms) (rpc kind a) (waiting ms) (fun _ => l.Patient ms) E := by
  intro c h
  cases hk : c.bs.conn with
  | none =>
    unfold rpc
    rw [wp_bind, wp_getBs, hk]
    exact ⟨h, le_self_add⟩
  | some k =>
    have hle : c.spent + waiting k.patience ≤ c.spent + waiting ms := by
      gcongr
      exact waiting_mono (h.patience k hk)
    rw [wp_rpc hk]
    refine ⟨⟨⟨h.gucs, h.hosts⟩, fun k' hk' => ?_⟩, (c.asked_spent kind a k).trans_le hle⟩
    obtain rfl : k.answered kind a = k' := Option.some.inj hk'
    have hsame : (k.answered kind a).patience = k.patience := by
      unfold Connection.patience
      rw [(k.answered_timeouts kind a).1]
    exact hsame.trans_le (h.patience k hk)

/-- An rpc that the library is counted for. -/
theorem ask_spends (kind : Rpc) (k : Call) (f : Nat → Answer) :
    Spends Cell.spent (l.Patient ms) (do rpc kind (f (← tick k))) (waiting ms) (fun _ => l.Patient ms) E :=
  .after (tick_spends Limits.Patient.ofEntry k) fun _ => rpc_spends kind _

/-- A stage of the handshake: the rpc, and what its reply means. -/
theorem stage_spends {ask : M Reply} {r : Report} {rest : M Bool} {n : ℕ∞ × ℕ}
    (hask : Spends Cell.spent (l.Patient ms) ask (waiting ms) (fun _ => l.Patient ms) (l.Patient ms))
    (hrest : Spends Cell.spent (l.Patient ms) rest n (fun _ => l.Patient ms) (l.Patient ms)) :
    Spends Cell.spent (l.Patient ms) (do
      if (← ask) ≠ .normal then
        elog o r
        return false
      rest) (waiting ms + n) (fun _ => l.Patient ms) (l.Patient ms) := by
  refine .bind hask fun reply => .ite (fun _ => ?_) fun _ => hrest
  exact (elog_return_spends Limits.Patient.ofEntry r).within zero_le

theorem localAmqpHandshake_spends (host : BrokerHost) (hostCopy : String) (brokerId : Int) :
    Spends Cell.spent (l.Patient ms) (localAmqpHandshake o host hostCopy brokerId) (waiting (4 * ms))
      (fun _ => l.Patient ms) (l.Patient ms) := by
  have h : Spends Cell.spent (l.Patient ms) (localAmqpHandshake o host hostCopy brokerId)
      (waiting ms + (waiting ms + (waiting ms + (waiting ms + 0)))) (fun _ => l.Patient ms) (l.Patient ms) :=
    stage_spends (ask_spends _ _ _) (stage_spends (ask_spends _ _ _) (stage_spends (ask_spends _ _ _)
      (stage_spends (ask_spends _ _ _) (.pure fun _ h => h))))
  refine h.within (le_of_eq ?_)
  rw [add_zero, waiting_add, ← two_mul, waiting_add, waiting_add, ← add_assoc, ← two_mul, ← add_mul]
  rfl

theorem localAmqpOpenSocket_spends (ho : o.Within l) (h : BrokerHost) (hostCopy : String) :
    Spends Cell.spent l.Bounded (localAmqpOpenSocket o h hostCopy) (waiting l.gucs.connectTimeoutMs)
      (fun _ => l.Bounded) E := by
  have refused : ∀ {r : Report}, r.opensSocket = true →
      Spends Cell.spent l.Bounded (do elog o r; return false) 0 (fun _ => l.Bounded) E := fun hr =>
    .after (elog_settled ho Limits.Bounded.ofEntry hr) fun _ => .pure fun _ h => h
  have opened : ∀ (g : Gucs) (ok : Bool), Spends Cell.spent (fun c => l.Bounded c ∧ c.backend.gucs = g)
      (record (.socketOpen h g.connectTimeoutMs ok)) (waiting l.gucs.connectTimeoutMs) (fun _ => l.Bounded) E := by
    rintro g ok c ⟨hc, rfl⟩
    refine ⟨.ofEntry c _ rfl rfl hc, (c.recorded_spent _).trans_le ?_⟩
    gcongr
    exact waiting_mono (Nat.cast_le.mpr hc.gucs.connect)
  unfold localAmqpOpenSocket
  refine .after getBs_spends fun bs => .after (tick_spends Limits.Bounded.ofEntry _) fun n => .ite (fun _ => ?_)
    fun _ => .after (tick_spends Limits.Bounded.ofEntry _) fun n => ?_
  · exact (refused (by split <;> rfl)).within zero_le
  · refine .after (R := fun g c => l.Bounded c ∧ c.backend.gucs = g) (.free fun c hc => ⟨⟨hc, rfl⟩, rfl⟩) fun g => ?_
    refine Spends.within (.bind (n := 0) (opened g _) fun _ => .ite (fun _ => refused rfl) fun _ => .pure fun _ h => h)
      (add_zero _).le

/-- Setting a timeout that is within the limits, and what comes after it. -/
theorem setTimeout_spends {α : Type} (t : Gucs → Nat) {rest : M α} {n : ℕ∞ × ℕ} {Q : α → Cell → Prop}
    (ht : ∀ g : Gucs, g.Within l.gucs → (t g : ℕ∞) ≤ ms) (hrest : Spends Cell.spent (l.Patient ms) rest n Q E) :
    Spends Cell.spent l.Bounded (do localAmqpSetTimeout (t (← getGucs)); rest) n Q E := by
  intro c h
  rw [wp_bind, wp_getGucs, wp_bind, wp_localAmqpSetTimeout]
  refine hrest _ ⟨⟨h.gucs, h.hosts⟩, fun k hk => ?_⟩
  obtain ⟨k₀, -, rfl⟩ := Option.map_eq_some_iff.mp (show c.bs.conn.map _ = some k from hk)
  exact ht _ h.gucs

/-- What a host attempt leaves behind. -/
def Limits.Tried (l : Limits) (r : Bool) (c : Cell) : Prop := if r = true then l.Patient l.steady c else l.Bounded c

theorem localAmqpTryHost_spends (ho : o.Within l) (h : BrokerHost) (hostCopy : String) (brokerId : Int) :
    Spends Cell.spent l.Bounded (localAmqpTryHost o h hostCopy brokerId) l.host l.Tried (l.Patient l.steady) := by
  have hshake : (l.gucs.handshakeTimeoutMs : ℕ∞) ≤ l.steady := Nat.cast_le.mpr (le_max_right ..)
  have hrest : (l.gucs.operationTimeoutMs : ℕ∞) ≤ l.steady := Nat.cast_le.mpr (le_max_left ..)
  have raised : ∀ c, l.Patient l.gucs.handshakeTimeoutMs c → l.Patient l.steady c := fun _ hc => hc.mono hshake
  unfold localAmqpTryHost
  refine Spends.within (.bind (localAmqpOpenSocket_spends ho h hostCopy) fun r => .ite (fun _ => ?_) fun _ => ?_)
    (waiting_add _ _).le
  · exact Spends.within (.pure fun c hc => hc) zero_le
  · refine .after (tick_spends Limits.Bounded.ofEntry _) fun n =>
      .after (modifyBs_spends (Q := l.Bounded) fun c hc => ⟨hc.gucs, hc.hosts⟩) fun _ => ?_
    refine setTimeout_spends Gucs.handshakeTimeoutMs
      (fun (g : Gucs) hg => (Nat.cast_le.mpr hg.handshake : (_ : ℕ∞) ≤ l.gucs.handshakeTimeoutMs)) ?_
    refine Spends.within (.bind (n := 0) ((localAmqpHandshake_spends h hostCopy brokerId).mono le_rfl (fun _ h => h)
      (fun _ _ h => h) raised) fun r => .ite (fun _ => .pure fun c hc => hc.toBounded) fun _ => ?_) (add_zero _).le
    refine Spends.mono (setTimeout_spends Gucs.operationTimeoutMs
      (fun g hg => (Nat.cast_le.mpr hg.operation).trans hrest) (.after (modifyBs_spends (Q := l.Patient l.steady)
        fun c hc => ⟨⟨hc.gucs, hc.hosts⟩, hc.patience⟩) fun _ => .pure fun c hc => hc)) le_rfl
      (fun c hc => hc.toBounded) (fun _ _ h => h) fun _ h => h

/-- Giving up a connection asks nothing. -/
theorem localAmqpDisconnectBs_spends : Spends Cell.spent l.Bounded (localAmqpDisconnectBs false) 0
    (fun _ => l.Vacant) E := by
  intro c h
  cases hk : c.bs.conn with
  | none =>
    rw [wp_localAmqpDisconnectBs_none false hk]
    exact ⟨⟨h, hk⟩, (add_zero _).ge⟩
  | some k =>
    rw [wp_localAmqpDisconnectBs_some hk]
    exact ⟨⟨⟨h.gucs, h.hosts⟩, rfl⟩, (c.dropped_spent k).trans_le (add_zero _).ge⟩

theorem amqpNewConnection_spends :
    Spends Cell.spent l.Vacant (amqpNewConnection o) 0 (fun _ => l.Vacant) E := by
  refine .free fun c h => ?_
  rw [wp_amqpNewConnection]
  split <;> exact ⟨⟨⟨h.gucs, h.hosts⟩, h.conn⟩, rfl⟩

/-- The failover loop tries each host at most once. -/
theorem localAmqpFailover_spends (ho : o.Within l) (brokerId deadline : Int) (tries : Nat) :
    Spends Cell.spent l.Vacant (localAmqpFailover o brokerId deadline tries) (tries • l.host)
      (fun _ => l.Patient l.steady) (l.Patient l.steady) := by
  have gone : ∀ c, l.Vacant c → l.Patient l.steady c := fun _ h => h.patient
  have warned : ∀ r, Spends Cell.spent l.Vacant (elog o r) 0 (fun _ => l.Vacant) (l.Patient l.steady) := fun r =>
    (elog_spends Limits.Vacant.ofEntry r).mono le_rfl (fun _ h => h) (fun _ _ h => h) gone
  induction tries with
  | zero => exact Spends.within (.pure gone) zero_le
  | succ tries ih =>
    have next : ∀ h : BrokerHost, Spends Cell.spent l.Vacant (do
        if 0 < tries then
          elog o (.tryingNextHost h.hostCopy)
        localAmqpFailover o brokerId deadline tries) (tries • l.host) (fun _ => l.Patient l.steady)
        (l.Patient l.steady) := fun h =>
      .ite (fun _ => .after (warned _) fun _ => ih) fun _ => ih
    unfold localAmqpFailover
    refine .after (modifyBs_spends (Q := l.Vacant) fun c hc => ⟨⟨hc.gucs, hc.hosts⟩, hc.conn⟩) fun _ =>
      .after getBs_spends fun bs => .after amqpNewConnection_spends fun conn => ?_
    cases conn with
    | none =>
      refine .after (modifyBs_spends (Q := l.Vacant) fun c hc => ⟨⟨hc.gucs, hc.hosts⟩, rfl⟩) fun _ => ?_
      exact Spends.within (.pure gone) zero_le
    | some k =>
      refine .after (modifyBs_spends (Q := l.Bounded) fun c hc => ⟨hc.gucs, hc.hosts⟩) fun _ => ?_
      rw [succ_nsmul']
      refine .bind (localAmqpTryHost_spends ho _ _ brokerId) fun r => ?_
      cases r with
      | true => exact Spends.within (.pure fun _ hc => hc) zero_le
      | false =>
        refine .after localAmqpDisconnectBs_spends fun _ => .ite (fun _ => ?_) fun _ => next _
        refine .after (tick_spends Limits.Vacant.ofEntry _) fun n => .ite (fun _ => ?_) fun _ => next _
        refine .after (R := fun _ => l.Vacant) (.free fun c hc => ⟨hc, rfl⟩) fun g => ?_
        exact .after (warned _) fun _ => Spends.within (.pure gone) zero_le

/-- The fill loop changes neither the number of hosts nor the connection. -/
theorem localAmqpFillHosts_spends (brokerId : Int) (i : Nat) (rows : List BrokerRow) :
    Spends Cell.spent l.Vacant (localAmqpFillHosts o brokerId i rows) 0 (fun _ => l.Vacant) l.Vacant := by
  have host : ∀ i f, Spends Cell.spent l.Vacant (modifyHost i f) 0 (fun _ => l.Vacant) l.Vacant := fun _ _ =>
    modifyBs_spends fun c hc => ⟨⟨hc.gucs, hc.hosts⟩, hc.conn⟩
  have warned : ∀ r, Spends Cell.spent l.Vacant (elog o r) 0 (fun _ => l.Vacant) l.Vacant :=
    elog_spends Limits.Vacant.ofEntry
  induction rows generalizing i with
  | nil => exact .pure fun _ h => h
  | cons row rows ih =>
    have rest : ∀ {port : BrokerHost → BrokerHost}, Spends Cell.spent l.Vacant (do
        modifyHost i port
        if row.ssl.getD false && !row.sslVerify.getD true then
          elog o (.insecureTls brokerId (some (row.host.getD "localhost")))) 0 (fun _ => l.Vacant) l.Vacant :=
      .after (host _ _) fun _ => .ite (fun _ => warned _) fun _ => .pure fun _ h => h
    refine .after (.after (host _ _) fun _ => .ite (fun _ => ?_) fun _ => rest) fun _ => ih (i + 1)
    exact .after (warned _) fun _ => .after (host _ _) fun _ => rest

theorem localAmqpLoadHosts_spends (ho : o.Within l) :
    Spends Cell.spent l.Vacant (localAmqpLoadHosts o) 0 (fun _ => l.Vacant) l.Vacant := by
  have warned : ∀ r, Spends Cell.spent l.Vacant (elog o r) 0 (fun _ => l.Vacant) l.Vacant :=
    elog_spends Limits.Vacant.ofEntry
  have count : Spends Cell.spent l.Vacant (do return ((← getBs).nhosts : Int)) 0 (fun _ => l.Vacant) l.Vacant :=
    .after getBs_spends fun _ => .pure fun _ h => h
  unfold localAmqpLoadHosts
  refine .after getBs_spends fun bs => .ite (fun _ => .pure fun _ h => h) fun _ =>
    .after (tick_spends Limits.Vacant.ofEntry _) fun n => ?_
  cases hspi : o.spi n with
  | connectError => exact .pure fun _ h => h
  | raised => exact .free fun c h => ⟨h, rfl⟩
  | executeError => exact .after (warned _) fun _ => count
  | rows rows =>
    cases rows with
    | nil => exact .after (warned _) fun _ => count
    | cons row rows =>
      have hle : (row :: rows).length ≤ l.hosts := ho.rows n _ hspi
      refine .after (modifyBs_spends (Q := l.Vacant) fun c hc => ⟨⟨hc.gucs, hle⟩, hc.conn⟩) fun _ =>
        .after (localAmqpFillHosts_spends _ _ _) fun _ => .after (R := fun _ => l.Vacant) (.free ?_) fun _ => count
      exact fun c h => ⟨⟨⟨h.gucs, h.hosts⟩, h.conn⟩, rfl⟩

theorem localAmqpConnectFailed_spends :
    Spends Cell.spent (l.Patient ms) (localAmqpConnectFailed o) 0 (fun _ => l.Patient ms) E :=
  .after (tick_spends Limits.Patient.ofEntry _) fun _ =>
    modifyBs_spends fun _ hc => ⟨⟨hc.gucs, hc.hosts⟩, hc.patience⟩

/-- Connecting an entry that has no connection costs one round over its hosts. -/
theorem localAmqpGetBs_spends (ho : o.Within l) (brokerId : Int) :
    Spends Cell.spent l.Vacant (localAmqpGetBs o brokerId) l.round (fun _ => l.Patient l.steady)
      (l.Patient l.steady) := by
  have gone : ∀ c, l.Vacant c → l.Patient l.steady c := fun _ h => h.patient
  have failed : Spends Cell.spent (l.Patient l.steady) (localAmqpConnectFailed o) 0 (fun _ => l.Patient l.steady)
      (l.Patient l.steady) := localAmqpConnectFailed_spends
  have dial : ∀ deadline, Spends Cell.spent l.Vacant (do
      if !(← localAmqpFailover o brokerId deadline (← getBs).nhosts) then
        localAmqpConnectFailed o) l.round (fun _ => l.Patient l.steady) (l.Patient l.steady) := by
    intro deadline c hc
    rw [wp_bind, wp_getBs]
    have hround : c.bs.nhosts • l.host ≤ l.round := nsmul_le_nsmul_left zero_le hc.hosts
    refine Spends.within (.bind (n := 0) (localAmqpFailover_spends ho brokerId deadline _) fun r => ?_)
      ((add_zero _).trans_le hround) c hc
    exact .ite (fun _ => failed) fun _ => .pure fun _ h => h
  unfold localAmqpGetBs
  refine .after (R := fun _ => l.Vacant) (.free fun c hc => ⟨⟨⟨hc.gucs, hc.hosts⟩, hc.conn⟩, rfl⟩) fun _ =>
    .after getBs_spends fun bs => .ite (fun _ => Spends.within (.pure gone) zero_le) fun _ => ?_
  refine .after (R := fun _ => l.Vacant) (.free fun c hc => ?_) fun _ =>
    .ite (fun _ => Spends.within (.pure gone) zero_le) fun _ => ?_
  · rw [wp_localAmqpSuppressed]
    refine ⟨.ofEntry c _ (by simp) (by simp) hc, ?_⟩
    unfold Cell.checked
    split <;> rfl
  · refine .after ((localAmqpLoadHosts_spends ho).mono le_rfl (fun _ h => h) (fun _ _ h => h) gone) fun n =>
      .ite (fun _ => ?_) fun _ => ?_
    · exact failed.mono zero_le gone (fun _ _ h => h) fun _ h => h
    · refine .after (R := fun _ => l.Vacant) (.free fun c hc => ⟨hc, rfl⟩) fun g => .ite (fun _ => ?_) fun _ => dial _
      exact .after (tick_spends Limits.Vacant.ofEntry _) fun n => dial _

/-- An entry that has a connection is left as it is. -/
theorem localAmqpGetBs_live_spends (brokerId : Int) :
    Spends Cell.spent (fun c => l.Patient l.steady c ∧ c.bs.conn.isSome = true) (localAmqpGetBs o brokerId) 0
      (fun _ => l.Patient l.steady) E := by
  refine .free fun c hc => ?_
  obtain ⟨k, hk⟩ := Option.isSome_iff_exists.mp hc.2
  rw [localAmqpGetBs_live o brokerId hk]
  exact ⟨⟨⟨hc.1.gucs, hc.1.hosts⟩, hc.1.patience⟩, rfl⟩

theorem localAmqpDrainReturns_spends :
    Spends Cell.spent (l.Patient ms) (localAmqpDrainReturns o) 0 (fun _ => l.Patient ms) (l.Patient ms) := by
  refine .free fun c hc => ?_
  have kept : KeptByDrain o (fun _ => True) fun c' => l.Patient ms c' ∧ c'.spent = c.spent := {
    arrived := fun _ _ _ _ => trivial
    polled := fun c' h => ⟨.ofEntry c' _ rfl rfl h.1, h.2⟩
    taken := fun c' f rest _ h => by
      refine ⟨⟨⟨h.1.gucs, h.1.hosts⟩, fun k hk => ?_⟩, h.2⟩
      obtain ⟨k₀, hk₀, rfl⟩ := Option.map_eq_some_iff.mp (show c'.bs.conn.map _ = some k from hk)
      exact h.1.patience k₀ hk₀
    returned := fun c' r _ h => ⟨.ofEntry c' _ rfl rfl h.1, (c'.warned_spent _).trans h.2⟩
    noted := fun c' h => ⟨.ofEntry c' _ rfl rfl h.1, (c'.warned_spent _).trans h.2⟩
    blocked := fun _ _ h => ⟨⟨⟨h.1.gucs, h.1.hosts⟩, h.1.patience⟩, h.2⟩ }
  exact kept.preserves c ⟨hc, rfl⟩

/-- The charge of one message. -/
def oneWrite : ℕ∞ × ℕ := (0, 1)

/-- What a call between two rests may be charged. -/
abbrev Limits.Works {α : Type} (l : Limits) (x : M α) (n : ℕ∞ × ℕ) : Prop :=
  Spends Cell.spent (l.Patient l.steady) x n (fun _ => l.Patient l.steady) (l.Patient l.steady)

/-- The same from an entry that has no connection. -/
abbrev Limits.Connects {α : Type} (l : Limits) (x : M α) (n : ℕ∞ × ℕ) : Prop :=
  Spends Cell.spent l.Vacant x n (fun _ => l.Patient l.steady) (l.Patient l.steady)

section Publish

variable {m : Msg} {channel : Nat} {redo : M Bool} {onceMore : Bool} {n : ℕ∞ × ℕ}

theorem works_return {α : Type} (a : α) : l.Works (return a) 0 := .pure fun _ h => h

theorem works_elog (r : Report) : l.Works (elog o r) 0 := elog_spends Limits.Patient.ofEntry r

/-- A note about a refused publish is charged nothing. -/
theorem works_record {e : Event} (he : e.charge = 0) : l.Works (record e) 0 :=
  .free fun c h => ⟨⟨⟨h.gucs, h.hosts⟩, h.patience⟩, (c.recorded_spent e).trans (by rw [he, add_zero])⟩

theorem works_setInerror : l.Works setInerror 0 := modifyBs_spends fun _ hc => ⟨⟨hc.gucs, hc.hosts⟩, hc.patience⟩

/-- The jump back is taken from an entry without a connection. -/
theorem orRedo_spends {giveUp : M Bool} (hredo : l.Connects redo n) (hgive : l.Works giveUp 0) :
    l.Works (orRedo channel onceMore redo giveUp) n := by
  unfold orRedo
  refine .after getBs_spends fun bs => .ite (fun _ => ?_) fun _ => hgive.within zero_le
  exact .after (localAmqpDisconnectBs_spends.mono le_rfl (fun _ h => h.toBounded) (fun _ _ h => h) fun _ h => h)
    fun _ => hredo

theorem publishWritten_spends (hredo : l.Connects redo n) (k : Connection) (rv : Write) :
    l.Works (publishWritten m channel onceMore redo k rv) n := by
  unfold publishWritten
  refine .ite (fun _ => orRedo_spends hredo (.after works_setInerror fun _ => works_return false)) fun _ => ?_
  refine .after (R := fun _ => l.Patient l.steady) (.free fun c hc => ?_) fun _ =>
    .after (modifyBs_spends (Q := l.Patient l.steady) fun c hc => ⟨⟨hc.gucs, hc.hosts⟩, hc.patience⟩) fun _ =>
      (works_return true).within zero_le
  exact ⟨.ofEntry c _ rfl rfl hc, (c.recorded_spent _).trans (add_zero _)⟩

theorem amqpBasicPublish_spends {k : Connection} (hk : k.patience ≤ l.steady) :
    l.Works (amqpBasicPublish o k channel m) oneWrite := by
  intro c hc
  rw [wp_amqpBasicPublish]
  refine ⟨⟨⟨hc.gucs, hc.hosts⟩, fun k' hk' => ?_⟩, le_of_eq ?_⟩
  · obtain rfl : k.written channel m _ = k' := Option.some.inj hk'
    have hsame : (k.written channel m (c.written o)).patience = k.patience := by
      unfold Connection.patience
      rw [(k.written_timeouts ..).1]
    exact hsame.trans_le hk
  · exact (c.ticked .basicPublish).recorded_spent _

theorem publishPoll_spends : l.Works (publishPoll o m channel) 0 :=
  .ite (fun _ => .after localAmqpDrainReturns_spends fun _ => works_return ()) fun _ => works_return ()

/-- One message, and what the jump back costs. -/
theorem publishWrite_spends (hredo : l.Connects redo n) :
    l.Works (publishWrite o m channel onceMore redo) (oneWrite + n) := by
  intro c hc
  unfold publishWrite
  rw [wp_bind, wp_getBs]
  cases hk : c.bs.conn with
  | none => exact ⟨hc, le_self_add⟩
  | some k =>
    have h : l.Works (do
        let rv ← amqpBasicPublish o k channel m
        publishPoll o m channel
        publishWritten m channel onceMore redo k rv) (oneWrite + n) :=
      .bind (amqpBasicPublish_spends (hc.patience k hk)) fun rv => .after publishPoll_spends fun _ =>
        publishWritten_spends hredo k rv
    exact h c hc

theorem publishConnected_spends (hredo : l.Connects redo n) (brokerId : Int) (badMode : Option Int) :
    l.Works (publishConnected o brokerId m badMode channel onceMore redo) (oneWrite + n) := by
  have refused : l.Works (return false) 0 := works_return false
  have drained : l.Works (publishDrained o brokerId m badMode channel onceMore redo) (oneWrite + n) := by
    unfold publishDrained
    refine .after getBs_spends fun bs => .ite (fun _ => ?_) fun _ => ?_
    · exact .after (works_record rfl) fun _ => .after (works_elog _) fun _ => refused.within zero_le
    · refine .after (R := fun _ => l.Patient l.steady) ?_ fun _ => publishWrite_spends hredo
      cases badMode with
      | none => exact works_return ()
      | some mode => exact works_elog _
  unfold publishConnected
  refine .after getBs_spends fun bs => .ite (fun _ => .after localAmqpDrainReturns_spends fun r =>
    .ite (fun _ => ?_) fun _ => drained) fun _ => refused.within zero_le
  refine (orRedo_spends hredo (.ite (fun _ => .after works_setInerror fun _ => refused) fun _ => refused)).within ?_
  exact le_add_self

/-- The second pass does not jump back. -/
theorem lastPass_spends (ho : o.Within l) (brokerId : Int) (badMode : Option Int) :
    l.Connects (publishPass o brokerId m badMode channel false (return false)) (l.round + oneWrite) :=
  .bind (localAmqpGetBs_spends ho brokerId) fun _ =>
    (publishConnected_spends ((works_return false).mono le_rfl (fun _ h => h.patient) (fun _ _ h => h) fun _ h => h)
      brokerId badMode).within (add_zero _).le

/-- What a publish may be charged: two messages, and a round for each time it has to connect. -/
def Limits.publishing (l : Limits) (connected : Bool) : ℕ∞ × ℕ :=
  (if connected = true then 1 else 2) • l.round + 2 • oneWrite

theorem pgAmqpPublishOpt_spends (ho : o.Within l) (brokerId : Int) (a : PublishArgs) (channel : Nat)
    {c : Cell} (hc : l.Patient l.steady c) :
    wp (pgAmqpPublishOpt o brokerId a channel)
      (fun _ c' => l.Patient l.steady c' ∧ c'.spent ≤ c.spent + l.publishing c.bs.conn.isSome)
      (fun _ c' => l.Patient l.steady c' ∧ c'.spent ≤ c.spent + l.publishing c.bs.conn.isSome) c := by
  have pass : ∀ msg, l.Works (publishConnected o brokerId msg a.badDeliveryMode channel true
      (publishPass o brokerId msg a.badDeliveryMode channel false (return false))) (oneWrite + (l.round + oneWrite)) :=
    fun msg => publishConnected_spends (lastPass_spends ho brokerId a.badDeliveryMode) brokerId a.badDeliveryMode
  unfold pgAmqpPublishOpt
  rw [wp_bind, wp_getGucs, wp_ite]
  split
  · have h : l.Works (do elog o (.bodyTooLarge (a.message.getD "").utf8ByteSize c.backend.gucs.maxBodyBytes)
                         return false) (l.publishing c.bs.conn.isSome) :=
      (elog_return_spends Limits.Patient.ofEntry _).within zero_le
    exact h c hc
  · rw [wp_bind, wp_newMsg]
    cases hk : c.bs.conn.isSome with
    | true =>
      refine Spends.within (.after (localAmqpGetBs_live_spends brokerId) fun _ => pass _) ?_
        c.numbered ⟨⟨⟨hc.gucs, hc.hosts⟩, hc.patience⟩, hk⟩
      rw [Limits.publishing, if_pos rfl, one_nsmul, two_nsmul, add_left_comm]
    | false =>
      have hnone : c.bs.conn = none := Option.not_isSome_iff_eq_none.mp (by simp [hk])
      refine Spends.within (.bind (localAmqpGetBs_spends ho brokerId) fun _ => pass _) ?_ c.numbered
        ⟨⟨hc.gucs, hc.hosts⟩, hnone⟩
      rw [Limits.publishing, if_neg (by simp), two_nsmul, two_nsmul, add_left_comm oneWrite, add_assoc]

/-- What a declaration may be charged. -/
def Limits.declaring (l : Limits) (connected : Bool) : ℕ∞ × ℕ :=
  (if connected = true then 0 else 1) • l.round + waiting l.steady

theorem pgAmqpExchangeDeclare_spends (ho : o.Within l) (brokerId : Int) (a : DeclareArgs) {c : Cell}
    (hc : l.Patient l.steady c) :
    wp (pgAmqpExchangeDeclare o brokerId a)
      (fun _ c' => l.Patient l.steady c' ∧ c'.spent ≤ c.spent + l.declaring c.bs.conn.isSome)
      (fun _ c' => l.Patient l.steady c' ∧ c'.spent ≤ c.spent + l.declaring c.bs.conn.isSome) c := by
  have ask : l.Works (do
      if (← getBs).conn.isSome then
        if (← amqpExchangeDeclare o a.declaration) = .normal then
          return true
        else
          localAmqpDisconnectBs false
          return false
      else
        return false) (waiting l.steady) := by
    refine .after getBs_spends fun bs => .ite (fun _ => ?_) fun _ => (works_return false).within zero_le
    refine Spends.within (.bind (n := 0) (ask_spends _ _ _) fun r => .ite (fun _ => works_return true) fun _ => ?_)
      (add_zero _).le
    exact .after (localAmqpDisconnectBs_spends.mono le_rfl (fun _ h => h.toBounded) (fun _ _ h => h) fun _ h => h)
      fun _ => .pure fun _ h => h.patient
  unfold pgAmqpExchangeDeclare
  cases hk : c.bs.conn.isSome with
  | true =>
    refine Spends.within (.after (localAmqpGetBs_live_spends brokerId) fun _ => ask) ?_
      c ⟨hc, hk⟩
    rw [Limits.declaring, if_pos rfl, zero_nsmul, zero_add]
  | false =>
    have hnone : c.bs.conn = none := Option.not_isSome_iff_eq_none.mp (by simp [hk])
    refine Spends.within (.bind (localAmqpGetBs_spends ho brokerId) fun _ => ask) ?_ c ⟨hc.toBounded, hnone⟩
    rw [Limits.declaring, if_neg (by simp), one_nsmul]

/-- The bounded `Connection.Close` of a connection that is given up by request. -/
def closing (connected : Bool) : ℕ∞ × ℕ := if connected = true then waiting amqpGracefulCloseMs else 0

theorem localAmqpDisconnect_spends {c : Cell} (hc : l.Bounded c) :
    wp localAmqpDisconnect (fun _ c' => l.Patient ms c' ∧ c'.spent = c.spent + closing c.bs.conn.isSome)
      (fun _ _ => False) c := by
  -- what is left to reset when the connection is gone
  have rest : ∀ {c' : Cell}, l.Vacant c' → l.Patient ms c'.reset.freed ∧ c'.reset.freed.spent = c'.spent := by
    intro c' h
    have hv : c'.reset.freed.bs.conn = none := (c'.reset.freed_conn).trans h.conn
    refine ⟨⟨⟨h.gucs, ?_⟩, fun k hk => by rw [hv] at hk; cases hk⟩, rfl⟩
    simp only [Cell.freed, Cell.modified_bs]
    split
    · exact Nat.zero_le _
    · exact h.hosts
  unfold localAmqpDisconnect
  rw [wp_bind, wp_localAmqpGetABs, wp_bind]
  cases hk : c.link.bs.conn with
  | none =>
    rw [wp_localAmqpDisconnectBs_none true hk]
    have h := @rest c.link ⟨⟨hc.gucs, hc.hosts⟩, hk⟩
    have hk : c.bs.conn = none := hk
    exact ⟨h.1, by rw [hk]; exact h.2.trans (add_zero _).symm⟩
  | some k =>
    have hk : c.bs.conn = some k := hk
    rw [wp_localAmqpDisconnectBs_closed (c := c.link) hk]
    have closed : l.Vacant (c.link.closed k) := ⟨⟨hc.gucs, hc.hosts⟩, rfl⟩
    refine ⟨(rest closed).1, (rest closed).2.trans ?_⟩
    unfold Cell.closed Cell.dropped
    rw [Cell.modified_spent, Cell.recorded_spent, Cell.recorded_spent, hk]
    exact add_zero _

end Publish

end Calls

end PgAmqp
