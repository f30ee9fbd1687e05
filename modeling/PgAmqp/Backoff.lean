import PgAmqp.Passes

/-!
# Reconnect backoff

The failed rounds of a run are counted beside it, since the last success or the last
`amqp.disconnect`, with the time at which the last one ended. The entry encodes that
recall. While the window behind a failure is open a call of `local_amqp_get_bs` only reads
the clock, and after it every call makes an attempt.
-/
namespace PgAmqp

open ProgramLogic Transition

/-- The seconds after the `k`-th failure in which no attempt is made. -/
def window (k myProcPid : Nat) : Nat := min (2 * 2 ^ min k 4) 30 + myProcPid % 3

theorem reconnectBackoff_eq (k myProcPid : Nat) : reconnectBackoff k myProcPid = window k myProcPid := by
  have hshift : (if k > 4 then 4 else k) = min k 4 := by
    rw [Nat.min_def]
    split <;> split <;> omega
  have hcap : ∀ n : Nat, (if n > 30 then 30 else n) = min n 30 := by
    intro n
    rw [Nat.min_def]
    split <;> split <;> omega
  unfold reconnectBackoff window amqpReconnectBackoffBaseSec amqpReconnectBackoffCapSec
  simp only [hshift, Nat.shiftLeft_eq, hcap]

theorem window_mono {k k' : Nat} (h : k ≤ k') (myProcPid : Nat) :
    window k myProcPid ≤ window k' myProcPid := by
  have hpow : 2 ^ min k 4 ≤ 2 ^ min k' 4 := Nat.pow_le_pow_right (by decide) (by omega)
  unfold window
  omega

theorem window_bounds {k : Nat} (h : 0 < k) (myProcPid : Nat) :
    4 ≤ window k myProcPid ∧ window k myProcPid ≤ 32 := by
  have hpow : 2 ^ 1 ≤ 2 ^ min k 4 := Nat.pow_le_pow_right (by decide) (by omega)
  have hjitter : myProcPid % 3 < 3 := Nat.mod_lt _ (by decide)
  unfold window
  omega

/-- The failed rounds and host lookups since the last success, and when the last one ended. -/
structure Recall where
  failures : Nat
  last : Int
  deriving DecidableEq, Repr

/-- Nothing has failed. -/
def Recall.zero : Recall := ⟨0, 0⟩

/-- What a call of `local_amqp_get_bs` adds. -/
def Dialed.recall : Dialed → Recall → Recall
  | .live, r => r
  | .suppressed, r => r
  | .unlisted now, r => ⟨r.failures + 1, now⟩
  | .failed _ _ now, r => ⟨r.failures + 1, now⟩
  | .connected _ _, _ => .zero

/-- The call looked the hosts up or tried to connect. -/
def Dialed.attempts : Dialed → Bool
  | .live => false
  | .suppressed => false
  | _ => true

def Recall.after (r : Recall) (ds : List Dialed) : Recall := ds.foldl (fun r d => d.recall r) r

@[simp] theorem Recall.after_append (r : Recall) (ds ds' : List Dialed) :
    r.after (ds ++ ds') = (r.after ds).after ds' := List.foldl_append

/-- What a step adds: `amqp.disconnect` forgets, and every other step makes its calls. -/
def Session.recall (s : Session) (st : Step) (b : Int) (r : Recall) : Recall :=
  if st.action = .disconnect (some b) then .zero else r.after (s.accounts st b)

/-- What a run adds. -/
def recalled (b : Int) : List Step → Session → Recall → Recall
  | [], _, r => r
  | st :: rest, s, r => recalled b rest (next st s) (s.recall st b r)

/-- The entry encodes the recall. -/
structure Encodes (r : Recall) (bs : BrokerState) : Prop where
  failures : bs.consecutiveFailures = r.failures
  last : bs.lastFailedConnect ≠ 0 ↔ 0 < r.failures
  time : 0 < r.failures → bs.lastFailedConnect = r.last

theorem Encodes.zero {bs : BrokerState} (hcf : bs.consecutiveFailures = 0)
    (hlf : bs.lastFailedConnect = 0) : Encodes .zero bs :=
  ⟨hcf, by simp [hlf, Recall.zero], fun h => absurd h (Nat.lt_irrefl 0)⟩

theorem Encodes.congr {r : Recall} {bs bs' : BrokerState} (h : Encodes r bs)
    (hcf : bs'.consecutiveFailures = bs.consecutiveFailures)
    (hlf : bs'.lastFailedConnect = bs.lastFailedConnect) : Encodes r bs' :=
  ⟨hcf.trans h.failures, by rw [hlf]; exact h.last, fun hr => hlf.trans (h.time hr)⟩

/-- One more failure, at a time after the epoch. -/
theorem Encodes.fail {r : Recall} {bs bs' : BrokerState} {now : Int} (h : Encodes r bs) (hnow : 0 < now)
    (hcf : bs'.consecutiveFailures = bs.consecutiveFailures + 1) (hlf : bs'.lastFailedConnect = now) :
    Encodes ⟨r.failures + 1, now⟩ bs' :=
  ⟨by rw [hcf, h.failures], ⟨fun _ => Nat.succ_pos _, fun _ => by omega⟩, fun _ => hlf⟩

/-- No cancel is taken and no lookup raises in the calls for `b`, and its clock has left
the epoch behind. -/
structure Steady (b : Int) (s : Session) (st : Step) : Prop where
  calm : (st.outcomes b).Calm
  spi : ∀ n, (st.outcomes b).spi n ≠ .raised
  time : ∀ n, 0 < (st.outcomes b).time n

section Call

variable {o : Outcomes} {b : Int} {c c' : Cell} {d : Dialed} {r : Recall}

theorem Loaded.sameFailures {n : Int} (h : Loaded o c n c') :
    c'.bs.consecutiveFailures = c.bs.consecutiveFailures ∧
      c'.bs.lastFailedConnect = c.bs.lastFailedConnect := by
  cases h <;> simp [Cell.filled]

/-- Every path through `local_amqp_get_bs` keeps the encoding. -/
theorem Dials.encodes (h : Dials o c d c') (htime : ∀ n, 0 < o.time n) (he : Encodes r c.bs) :
    Encodes (d.recall r) c'.bs := by
  have looked : ∀ {n : Int} {c₁ : Cell}, Loaded o c.link.checked n c₁ → Encodes r c₁.bs := by
    intro n c₁ h₁
    obtain ⟨hcf, hlf⟩ := h₁.sameFailures
    rw [Cell.checked_bs] at hcf hlf
    exact he.congr hcf hlf
  cases h with
  | live _ => exact he
  | suppressed _ _ => exact he.congr (by simp) (by simp)
  | unlisted _ _ h₁ _ => exact (looked h₁).fail (htime _) rfl rfl
  | failed _ _ h₁ _ hv =>
    obtain ⟨-, hcf, -⟩ := hv.failed rfl
    rw [Cell.budgeted_bs] at hcf
    exact (looked h₁).fail (htime _) (congrArg Nat.succ hcf) rfl
  | connected _ _ _ _ hv =>
    obtain ⟨-, hcf, hlf, -⟩ := hv.connected rfl
    exact .zero hcf hlf

/-- Inside the window the call returns behind the clock. -/
theorem localAmqpGetBs_early (he : Encodes r c.bs) (hl : c.linked = true) (hr : 0 < r.failures)
    (hc : c.bs.conn = none)
    (hearly : o.time (c.counts .time) < r.last + window r.failures c.backend.myProcPid) :
    localAmqpGetBs o b c = .ok () (c.ticked .time) := by
  have hlast : c.bs.lastFailedConnect ≠ 0 := he.last.mpr hr
  have hlink : c.link = c := by
    unfold Cell.link
    rw [← hl]
  have hsup : c.suppressed o = true := by
    unfold Cell.suppressed
    rw [reconnectBackoff_eq, he.failures]
    have htime := he.time hr
    simp only [Bool.and_eq_true, decide_eq_true_eq]
    exact ⟨hlast, by omega⟩
  have hrun : wp (localAmqpGetBs o b) (fun _ c' => c' = c.ticked .time) (fun _ _ => False) c := by
    unfold localAmqpGetBs
    rw [wp_bind, wp_localAmqpGetABs, wp_bind, wp_getBs, wp_ite, hlink, if_neg (by simp [hc]), wp_bind,
      wp_localAmqpSuppressed, hsup, wp_ite, if_pos rfl, wp_pure]
    unfold Cell.checked
    rw [if_neg hlast]
  unfold wp at hrun
  cases hx : localAmqpGetBs o b c with
  | ok _ c' => rw [hx] at hrun; exact congrArg _ hrun
  | error e c' => rw [hx] at hrun; exact hrun.elim

/-- Behind the window the call makes an attempt. -/
theorem Dials.late (h : Dials o c d c') (he : Encodes r c.bs) (hr : 0 < r.failures)
    (hc : c.bs.conn = none)
    (hlate : r.last + window r.failures c.backend.myProcPid ≤ o.time (c.counts .time)) :
    d.attempts = true := by
  cases h with
  | live hlive => simp [hc] at hlive
  | suppressed _ hsup =>
    unfold Cell.suppressed at hsup
    rw [reconnectBackoff_eq, he.failures, he.time hr] at hsup
    simp only [Bool.and_eq_true, decide_eq_true_eq] at hsup
    omega
  | _ => rfl

end Call

/-- What holds in every cell of a step: the calls so far have added `ds` to the recall. -/
structure Backing (r : Recall) (pid : Nat) (ds : List Dialed) (c : Cell) : Prop where
  encodes : Encodes (r.after ds) c.bs
  indexed : Indexed c.bs
  pid : c.backend.myProcPid = pid
  linked : c.linked = true ∨ c.bs.lastFailedConnect = 0

/-- What the recall tells of the next call of `local_amqp_get_bs`, when there is no connection. -/
structure BacksOff (o : Outcomes) (b : Int) (pid : Nat) (r : Recall) (c : Cell) : Prop where
  encodes : Encodes r c.bs
  /-- Before the window is over it does nothing but read the clock. -/
  early : 0 < r.failures → c.bs.conn = none →
    o.time (c.counts .time) < r.last + window r.failures pid →
    localAmqpGetBs o b c = .ok () (c.ticked .time)
  /-- After it the call makes an attempt, and the recall goes on with what that comes to. -/
  late : 0 < r.failures → c.bs.conn = none →
    r.last + window r.failures pid ≤ o.time (c.counts .time) →
    ∃ d c', localAmqpDial o b c = .ok d c' ∧ localAmqpGetBs o b c = .ok () c' ∧
      d.attempts = true ∧ Encodes (d.recall r) c'.bs

section Step

variable {o : Outcomes} {b : Int} {c c' : Cell} {d : Dialed} {r : Recall} {pid : Nat} {ds : List Dialed}

theorem Backing.between (h : Backing r pid ds c) (hb : Between c c') : Backing r pid ds c' where
  encodes := h.encodes.congr hb.sameList.consecutiveFailures hb.sameList.lastFailedConnect
  indexed := h.indexed.congr hb.sameList.hosts hb.sameList.nhosts hb.sameList.idx
  pid := hb.sameList.pid.trans h.pid
  linked := h.linked.imp hb.sameList.linked hb.sameList.lastFailedConnect.trans

theorem Backing.dial (ho : o.Calm) (hspi : ∀ n, o.spi n ≠ .raised) (htime : ∀ n, 0 < o.time n)
    (h : Backing r pid ds c) (hd : localAmqpDial o b c = .ok d c') : Backing r pid (ds ++ [d]) c' where
  encodes := by
    rw [Recall.after_append]
    exact (localAmqpDial_inv ho (.inr hspi) h.indexed hd).encodes htime h.encodes
  indexed := (localAmqpDial_chain hd).indexed h.indexed
  pid := (localAmqpDial_chain hd).lasts.pid.trans h.pid
  linked := .inl ((localAmqpDial_chain hd).linked rfl)

theorem Backing.backsOff (ho : o.Calm) (hspi : ∀ n, o.spi n ≠ .raised) (htime : ∀ n, 0 < o.time n)
    (h : Backing r pid ds c) : BacksOff o b pid (r.after ds) c where
  encodes := h.encodes
  early := fun hr hc hearly => by
    have hlast := h.encodes.last.mpr hr
    refine localAmqpGetBs_early h.encodes (h.linked.resolve_right hlast) hr hc ?_
    rw [h.pid]
    exact hearly
  late := fun hr hc hlate => by
    obtain ⟨d, c', hrun, hd⟩ := localAmqpDial_dials (b := b) ho (.inr hspi) h.indexed
    rw [← h.pid] at hlate
    exact ⟨d, c', hrun, localAmqpGetBs_ok hrun, hd.late h.encodes hr hc hlate, hd.encodes htime h.encodes⟩

variable {s : Session} {st : Step}

theorem Encodes.backing (he : Encodes r (s.entry b)) (hi : Indexed (s.entry b)) :
    Backing r s.backend.myProcPid [] (s.cell b) where
  encodes := he
  indexed := hi
  pid := rfl
  linked := by
    cases h : lookup s.head b with
    | none =>
      right
      show (s.entry b).lastFailedConnect = 0
      simp [Session.entry, h, BrokerState.fresh]
    | some e =>
      left
      simp [Session.cell, Session.start, h]

/-- One step keeps the encoding. -/
theorem Encodes.next {ok : Session → Step → Prop} (hs : Runs ok s) (hst : Steady b s st)
    (he : Encodes r (s.entry b)) : Encodes (s.recall st b r) ((next st s).entry b) := by
  unfold Session.recall
  split
  · rename_i hd
    obtain ⟨hcf, hlf⟩ := next_disconnect (s := s) hd
    exact .zero hcf hlf
  · rename_i hd
    obtain ⟨c', hf, hsame, -⟩ :=
      next_follows (Runs.shaped hs) (Runs.anchored hs) hst.calm (.inr hst.spi) (Runs.indexed hs b) hd
    have hback : Backing r s.backend.myProcPid
        ([] ++ (s.dials st b).filterMap (·.account (st.outcomes b) b)) c' :=
      hf.keeps (fun _ _ _ hb h => h.between hb)
        (fun _ _ _ _ hd h => h.dial hst.calm hst.spi hst.time hd) (he.backing (Runs.indexed hs b))
    rw [List.nil_append] at hback
    exact hback.encodes.congr hsame.consecutiveFailures hsame.lastFailedConnect

/-- In a run the entry encodes what the run recalls. -/
theorem Encodes.run (hs : Runs (fun _ _ => True) s) (he : Encodes r (s.entry b))
    {steps : List Step} (ha : Admits PgAmqp.next (Steady b) steps s) :
    Encodes (recalled b steps s r) ((run PgAmqp.next steps s).entry b) := by
  induction steps generalizing s r with
  | nil => exact he
  | cons st rest ih =>
    exact ih (.step st hs trivial) (he.next hs ha.1) ha.2

/-- After every run, and before every call of `local_amqp_get_bs` of its next step, the entry
encodes the failures since the last success or `amqp.disconnect`: while the window behind
the last one is open the call only reads the clock, and after it it makes an attempt. -/
theorem backoff_spaces_attempts (s : Session) (hs : s.Initial) (b : Int) (steps : List Step)
    (ha : Admits PgAmqp.next (Steady b) steps s) :
    Encodes (recalled b steps s .zero) ((run PgAmqp.next steps s).entry b) ∧
    (∀ st, Steady b (run PgAmqp.next steps s) st →
      ∀ pre c post, (run PgAmqp.next steps s).dials st b = pre ++ c :: post →
        BacksOff (st.outcomes b) b (run PgAmqp.next steps s).backend.myProcPid
          ((recalled b steps s .zero).after (pre.filterMap (·.account (st.outcomes b) b))) c) ∧
    (∀ k k' pid, k ≤ k' → window k pid ≤ window k' pid) ∧
    ∀ k pid, 0 < k → 4 ≤ window k pid ∧ window k pid ≤ 32 := by
  have hinit : Runs (fun _ _ => True) s := .init hs
  have hzero : Encodes .zero (s.entry b) := by
    rw [entry_initial hs]
    exact .zero rfl rfl
  have he := hzero.run hinit ha
  refine ⟨he, fun st hst pre c post hcells => ?_, fun _ _ _ h => window_mono h _,
    fun _ _ h => window_bounds h _⟩
  have hreached : Runs (fun _ _ => True) (run PgAmqp.next steps s) := hinit.run steps (Admits.always _ _)
  have hd : st.action ≠ .disconnect (some b) := by
    intro h
    simp [Session.dials, h] at hcells
  obtain ⟨c', hf, -⟩ :=
    next_follows (Runs.shaped hreached) (Runs.anchored hreached) hst.calm (.inr hst.spi) (Runs.indexed hreached b) hd
  have hback : Backing (recalled b steps s .zero) (run PgAmqp.next steps s).backend.myProcPid
      ([] ++ pre.filterMap (·.account (st.outcomes b) b)) c :=
    hf.before (fun _ _ _ hb h => h.between hb)
      (fun _ _ _ _ hd h => h.dial hst.calm hst.spi hst.time hd) (he.backing (Runs.indexed hreached b)) hcells
  rw [List.nil_append] at hback
  exact hback.backsOff hst.calm hst.spi hst.time

end Step

/-- No host can be reached. -/
def Outcomes.unreachable : Outcomes := { Outcomes.good with socketOpen := fun _ => false }

def unreachablePublish : Step := ⟨.publish (.to1 "a"), fun _ => .unreachable⟩

theorem unreachablePublish_steady (s : Session) : Steady 1 s unreachablePublish :=
  ⟨fun _ _ => rfl, fun _ => Spi.noConfusion, fun _ => (by decide : (0 : Int) < 1000)⟩

theorem unreachablePublish_recalled :
    recalled 1 [unreachablePublish] (Session.loaded {} 0) .zero = ⟨1, 1000⟩ := by
  decide +kernel

theorem unreachable_spaces_attempts :
    Encodes ⟨1, 1000⟩ ((run next [unreachablePublish] (Session.loaded {} 0)).entry 1) ∧
    ∀ st, Steady 1 (run next [unreachablePublish] (Session.loaded {} 0)) st →
      ∀ pre c post, (run next [unreachablePublish] (Session.loaded {} 0)).dials st 1 = pre ++ c :: post →
        BacksOff (st.outcomes 1) 1 (run next [unreachablePublish] (Session.loaded {} 0)).backend.myProcPid
          (Recall.after ⟨1, 1000⟩ (pre.filterMap (·.account (st.outcomes 1) 1))) c := by
  have h := backoff_spaces_attempts (Session.loaded {} 0) (Session.loaded_initial _ _) 1
    [unreachablePublish] ⟨unreachablePublish_steady _, trivial⟩
  rw [unreachablePublish_recalled] at h
  exact ⟨h.1, h.2.1⟩

end PgAmqp
