import PgAmqp.Moves

/-!
# Connecting, as moves

Whatever the hosts, the clock and the cancel do, `local_amqp_get_bs` leaves an
entry that has no connection either as it was or with one new connection, which
has been set up completely unless a cancel unwound from a failed host attempt.
-/
namespace PgAmqp

open ProgramLogic

namespace Cell

/-- The cell after one more use of `k`. -/
def ticked (c : Cell) (k : Call) : Cell := { c with counts := bump c.counts k }

def recorded (c : Cell) (e : Event) : Cell := { c with log := c.log ++ [e] }

def modified (c : Cell) (f : BrokerState → BrokerState) : Cell := { c with bs := f c.bs }

/-- The cell after a warning has been recorded. -/
def warned (c : Cell) (r : Report) : Cell := (c.ticked .elog).recorded (.warning r)

/-- The warning unwinds. -/
def unwinds (c : Cell) (o : Outcomes) (r : Report) : Bool :=
  !c.backend.holdoff && o.unwind (c.counts .elog) r

@[simp] theorem ticked_bs (c : Cell) (k : Call) : (c.ticked k).bs = c.bs := rfl
@[simp] theorem ticked_linked (c : Cell) (k : Call) : (c.ticked k).linked = c.linked := rfl
@[simp] theorem ticked_backend (c : Cell) (k : Call) : (c.ticked k).backend = c.backend := rfl
@[simp] theorem ticked_log (c : Cell) (k : Call) : (c.ticked k).log = c.log := rfl
@[simp] theorem recorded_bs (c : Cell) (e : Event) : (c.recorded e).bs = c.bs := rfl
@[simp] theorem recorded_linked (c : Cell) (e : Event) : (c.recorded e).linked = c.linked := rfl
@[simp] theorem recorded_backend (c : Cell) (e : Event) : (c.recorded e).backend = c.backend := rfl
@[simp] theorem recorded_counts (c : Cell) (e : Event) : (c.recorded e).counts = c.counts := rfl
@[simp] theorem recorded_log (c : Cell) (e : Event) : (c.recorded e).log = c.log ++ [e] := rfl
@[simp] theorem modified_bs (c : Cell) (f : BrokerState → BrokerState) :
    (c.modified f).bs = f c.bs := rfl
@[simp] theorem modified_linked (c : Cell) (f : BrokerState → BrokerState) :
    (c.modified f).linked = c.linked := rfl
@[simp] theorem modified_backend (c : Cell) (f : BrokerState → BrokerState) :
    (c.modified f).backend = c.backend := rfl
@[simp] theorem modified_counts (c : Cell) (f : BrokerState → BrokerState) :
    (c.modified f).counts = c.counts := rfl
@[simp] theorem modified_log (c : Cell) (f : BrokerState → BrokerState) :
    (c.modified f).log = c.log := rfl
@[simp] theorem warned_bs (c : Cell) (r : Report) : (c.warned r).bs = c.bs := rfl
@[simp] theorem warned_backend (c : Cell) (r : Report) : (c.warned r).backend = c.backend := rfl

theorem ticked_same (c : Cell) (k : Call) : (c.ticked k).counts k = c.counts k + 1 := by
  simp [ticked, bump]

theorem ticked_other (c : Cell) {j k : Call} (h : j ≠ k) : (c.ticked k).counts j = c.counts j := by
  simp [ticked, bump, h]

end Cell

section Primitives

variable {E : Raised → Cell → Prop} {c : Cell}

@[simp] theorem wp_tick (k : Call) {Q : Nat → Cell → Prop} :
    wp (tick k) Q E c = Q (c.counts k) (c.ticked k) := rfl

@[simp] theorem wp_getBs {Q : BrokerState → Cell → Prop} : wp getBs Q E c = Q c.bs c := rfl

@[simp] theorem wp_getGucs {Q : Gucs → Cell → Prop} : wp getGucs Q E c = Q c.backend.gucs c := rfl

@[simp] theorem wp_modifyBs (f : BrokerState → BrokerState) {Q : Unit → Cell → Prop} :
    wp (modifyBs f) Q E c = Q () (c.modified f) := rfl

@[simp] theorem wp_record (e : Event) {Q : Unit → Cell → Prop} :
    wp (record e) Q E c = Q () (c.recorded e) := rfl

@[simp] theorem wp_setConn (k : Option Connection) {Q : Unit → Cell → Prop} :
    wp (setConn k) Q E c = Q () (c.modified fun bs => { bs with conn := k }) := rfl

@[simp] theorem wp_elog (o : Outcomes) (r : Report) {Q : Unit → Cell → Prop} :
    wp (elog o r) Q E c =
      if c.unwinds o r = true then E .canceled (c.warned r) else Q () (c.warned r) := by
  unfold wp elog Cell.unwinds Cell.warned
  cases (!c.backend.holdoff && o.unwind (c.counts .elog) r) <;> rfl

theorem getBs_preserves (P : Cell → Prop) : Preserves P getBs := fun _ h => h

end Primitives

/-- The record grew by events that are neither writes nor acknowledgements. -/
def Quiet (c c' : Cell) : Prop := ∃ evs, c'.log = c.log ++ evs ∧ ∀ e ∈ evs, e.neutral = true

theorem Quiet.refl (c : Cell) : Quiet c c := ⟨[], by simp, by simp⟩

theorem Quiet.trans {c c' c'' : Cell} (h : Quiet c c') (h' : Quiet c' c'') : Quiet c c'' := by
  obtain ⟨evs, he, hn⟩ := h
  obtain ⟨evs', he', hn'⟩ := h'
  refine ⟨evs ++ evs', by rw [he', he, List.append_assoc], ?_⟩
  intro e hm
  exact (List.mem_append.mp hm).elim (hn e) (hn' e)

theorem Quiet.log_eq {c c' c'' : Cell} (h : Quiet c c') (hl : c''.log = c'.log) : Quiet c c'' := by
  unfold Quiet
  rw [hl]
  exact h

theorem Quiet.snoc {c c' c'' : Cell} (h : Quiet c c') {e : Event} (hl : c''.log = c'.log ++ [e])
    (he : e.neutral = true) : Quiet c c'' :=
  h.trans ⟨[e], hl, by simpa using he⟩

theorem Quiet.ackedIn {c c' : Cell} (h : Quiet c c') : ackedIn c'.log = ackedIn c.log := by
  obtain ⟨evs, he, hn⟩ := h
  rw [he, ackedIn_append, ackedIn_neutral hn, List.append_nil]

/-- No frame was read and no message was written. -/
def Untouched (c c' : Cell) : Prop :=
  c'.counts .poll = c.counts .poll ∧ c'.counts .basicPublish = c.counts .basicPublish

theorem Untouched.trans {c c' c'' : Cell} (h : Untouched c c') (h' : Untouched c' c'') :
    Untouched c c'' :=
  ⟨h'.1.trans h.1, h'.2.trans h.2⟩

theorem Untouched.ticked (c : Cell) {k : Call} (hk : k ≠ .poll ∧ k ≠ .basicPublish) :
    Untouched c (c.ticked k) :=
  ⟨c.ticked_other hk.1.symm, c.ticked_other hk.2.symm⟩

/-- Nothing happened to the connection, the count and the error flag. -/
structure Still (c c' : Cell) : Prop where
  frame : SameEntry c c'
  quiet : Quiet c c'
  counts : Untouched c c'
  conn : c'.bs.conn = c.bs.conn
  uncommitted : c'.bs.uncommitted = c.bs.uncommitted
  inerror : c'.bs.inerror = c.bs.inerror

/-- The entry has a connection with `p` on which channel 2 was not used. -/
structure Setting (p : Connection → Prop) (c c' : Cell) : Prop where
  frame : SameEntry c c'
  quiet : Quiet c c'
  counts : Untouched c c'
  conn : ∃ k, c'.bs.conn = some k ∧ k.Blank ∧ p k
  uncommitted : c'.bs.uncommitted = c.bs.uncommitted
  inerror : c'.bs.inerror = c.bs.inerror

theorem Still.refl (c : Cell) : Still c c := ⟨.refl c, .refl c, ⟨rfl, rfl⟩, rfl, rfl, rfl⟩

theorem Still.trans {c c' c'' : Cell} (h : Still c c') (h' : Still c' c'') : Still c c'' :=
  ⟨h.frame.trans h'.frame, h.quiet.trans h'.quiet, h.counts.trans h'.counts,
    h'.conn.trans h.conn, h'.uncommitted.trans h.uncommitted, h'.inerror.trans h.inerror⟩

theorem Still.path {F : Faults} {c c' : Cell} (h : Still c c') : Path F c c' := by
  obtain ⟨evs, he, hn⟩ := h.quiet
  exact .single ⟨h.frame, evs, he, .silent evs hn h.conn h.uncommitted h.inerror⟩

theorem Setting.path {F : Faults} {p : Connection → Prop} {c c' : Cell} (h : Setting p c c')
    (hc : c.bs.conn = none) (hp : ∀ k, p k → k.ready = true ∨ F.halfOpen) : Path F c c' := by
  obtain ⟨evs, he, hn⟩ := h.quiet
  obtain ⟨k, hk, hb, hpk⟩ := h.conn
  exact .single ⟨h.frame, evs, he, .connect k evs hn hc hk hb (hp k hpk) h.uncommitted h.inerror⟩

theorem Still.ticked (c : Cell) (k : Call) (hk : k ≠ .poll ∧ k ≠ .basicPublish) :
    Still c (c.ticked k) :=
  ⟨⟨rfl, rfl, Nat.le_refl _, id⟩, (Quiet.refl c).log_eq rfl, .ticked c hk, rfl, rfl, rfl⟩

theorem Still.recorded (c : Cell) {e : Event} (he : e.neutral = true) : Still c (c.recorded e) :=
  ⟨⟨rfl, rfl, Nat.le_refl _, id⟩, (Quiet.refl c).snoc rfl he, ⟨rfl, rfl⟩, rfl, rfl, rfl⟩

theorem Still.warned (c : Cell) (r : Report) (hr : r.isLoss = false) : Still c (c.warned r) :=
  (Still.ticked c .elog (by decide)).trans (.recorded _ (by rw [Event.neutral, hr]; rfl))

/-- A change of the entry that the moves do not see. -/
theorem Still.modified (c : Cell) {f : BrokerState → BrokerState}
    (hb : (f c.bs).brokerId = c.bs.brokerId) (hc : (f c.bs).conn = c.bs.conn)
    (hu : (f c.bs).uncommitted = c.bs.uncommitted) (he : (f c.bs).inerror = c.bs.inerror) :
    Still c (c.modified f) :=
  ⟨⟨hb, rfl, Nat.le_refl _, id⟩, (Quiet.refl c).log_eq rfl, ⟨rfl, rfl⟩, hc, hu, he⟩

section Steps

variable {p : Connection → Prop} {c c' c'' : Cell}

theorem Setting.still (h : Setting p c c') (h' : Still c' c'') : Setting p c c'' := by
  obtain ⟨k, hk, hb, hp⟩ := h.conn
  exact ⟨h.frame.trans h'.frame, h.quiet.trans h'.quiet, h.counts.trans h'.counts,
    ⟨k, h'.conn.trans hk, hb, hp⟩, h'.uncommitted.trans h.uncommitted,
    h'.inerror.trans h.inerror⟩

theorem Setting.mono {q : Connection → Prop} (h : Setting p c c') (hq : ∀ k, p k → q k) :
    Setting q c c' := by
  obtain ⟨k, hk, hb, hp⟩ := h.conn
  exact ⟨h.frame, h.quiet, h.counts, ⟨k, hk, hb, hq k hp⟩, h.uncommitted, h.inerror⟩

end Steps

/-- What the parts of a connect call keep that leave the connection alone. -/
structure KeptAside (P : Cell → Prop) : Prop where
  ticked : ∀ c k, k ∈ [Call.spi, .time, .nowMs] → P c → P (c.ticked k)
  warned : ∀ c r, r.isLoss = false → P c → P (c.warned r)
  modified : ∀ c f, (f c.bs).brokerId = c.bs.brokerId → (f c.bs).conn = c.bs.conn →
    (f c.bs).uncommitted = c.bs.uncommitted → (f c.bs).inerror = c.bs.inerror → P c → P (c.modified f)

theorem Still.aside (c₀ : Cell) : KeptAside (Still c₀) where
  ticked := fun c k hk h => h.trans (.ticked c k (by
    simp only [List.mem_cons, List.not_mem_nil, or_false] at hk
    rcases hk with rfl | rfl | rfl <;> decide))
  warned := fun c r hr h => h.trans (.warned c r hr)
  modified := fun c _ hb hc hu he h => h.trans (.modified c hb hc hu he)

section Aside

variable {P : Cell → Prop} (h : KeptAside P)

include h

theorem KeptAside.changed {f : BrokerState → BrokerState}
    (hb : ∀ bs, (f bs).brokerId = bs.brokerId) (hc : ∀ bs, (f bs).conn = bs.conn)
    (hu : ∀ bs, (f bs).uncommitted = bs.uncommitted) (he : ∀ bs, (f bs).inerror = bs.inerror) :
    Preserves P (modifyBs f) :=
  fun c hp => h.modified c f (hb _) (hc _) (hu _) (he _) hp

theorem KeptAside.hostChanged (i : Nat) (f : BrokerHost → BrokerHost) : Preserves P (modifyHost i f) :=
  h.changed (fun _ => rfl) (fun _ => rfl) (fun _ => rfl) (fun _ => rfl)

theorem KeptAside.hostsFreed : Preserves P localAmqpFreeHosts := by
  refine h.changed ?_ ?_ ?_ ?_
  all_goals exact fun bs => by split <;> rfl

theorem KeptAside.reported (o : Outcomes) {r : Report} (hr : r.isLoss = false) : Preserves P (elog o r) := by
  intro c hp
  rw [wp_elog]
  split <;> exact h.warned c r hr hp

theorem KeptAside.counted {k : Call} (hk : k ∈ [Call.spi, .time, .nowMs]) : Preserves P (tick k) :=
  fun c => h.ticked c k hk

theorem KeptAside.hostFilled (o : Outcomes) (brokerId : Int) (i : Nat) (row : BrokerRow) :
    Preserves P (localAmqpFillHost o brokerId i row) := by
  unfold localAmqpFillHost
  have hm := fun f => h.hostChanged i f
  refine .bind (hm _) fun _ => .ite (fun _ => ?_) (fun _ => ?_)
  · refine .bind (h.reported o rfl) fun _ => .bind (hm _) fun _ => .bind (hm _) fun _ => ?_
    exact .ite (fun _ => h.reported o rfl) (fun _ => .pure _ _)
  · refine .bind (hm _) fun _ => ?_
    exact .ite (fun _ => h.reported o rfl) (fun _ => .pure _ _)

theorem KeptAside.hostsFilled (o : Outcomes) (brokerId : Int) (i : Nat) (rows : List BrokerRow) :
    Preserves P (localAmqpFillHosts o brokerId i rows) := by
  induction rows generalizing i with
  | nil => exact .pure _ _
  | cons row rows ih =>
    exact .bind (h.hostFilled o brokerId i row) fun _ => ih (i + 1)

theorem KeptAside.hostsLoaded (o : Outcomes) : Preserves P (localAmqpLoadHosts o) := by
  unfold localAmqpLoadHosts
  refine .bind (getBs_preserves _) fun bs => .ite (fun _ => .pure _ _) fun _ => ?_
  refine .bind (h.counted (by simp)) fun n => ?_
  have hret : Preserves P (do return ((← getBs).nhosts : Int)) :=
    .bind (getBs_preserves _) fun _ => .pure _ _
  cases o.spi n with
  | connectError => exact .pure _ _
  | raised => exact .throw _ _
  | executeError => exact .bind (h.reported o rfl) fun _ => hret
  | rows rows =>
    cases rows with
    | nil => exact .bind (h.reported o rfl) fun _ => hret
    | cons row rows =>
      refine .bind (h.changed ?_ ?_ ?_ ?_) fun _ => ?_
      iterate 4 exact fun _ => rfl
      refine .bind (h.hostsFilled o _ _ _) fun _ => .bind ?_ fun _ => hret
      exact fun c => h.modified c (fun bs => { bs with idx := c.backend.myProcPid % (row :: rows).length })
        rfl rfl rfl rfl

theorem KeptAside.suppressed (o : Outcomes) : Preserves P (localAmqpSuppressed o) := by
  intro c hp
  unfold localAmqpSuppressed
  rw [wp_bind, wp_getBs, wp_ite]
  split
  · exact hp
  · exact h.ticked c .time (by simp) hp

theorem KeptAside.connectFailed (o : Outcomes) : Preserves P (localAmqpConnectFailed o) :=
  .bind (h.counted (by simp)) fun _ => h.changed (fun _ => rfl) (fun _ => rfl) (fun _ => rfl) fun _ => rfl

/-- The end of a failed turn of the loop, from `next_host` on. -/
theorem KeptAside.nextHost (o : Outcomes) (deadline : Int) (tries : Nat) (brokerId : Int)
    (hostCopy : String) {rest : M Bool} {Q : Bool → Cell → Prop} {E : Raised → Cell → Prop} {c : Cell}
    (hp : P c) (hstop : ∀ c', P c' → Q false c') (hrest : ∀ c', P c' → wp rest Q E c')
    (hraise : ∀ e c', P c' → E e c') :
    wp (do
      if deadline ≠ 0 then
        if deadline ≤ o.nowMs (← tick .nowMs) then
          elog o (.budgetExhausted (← getGucs).connectBudgetMs brokerId)
          return false
      if 0 < tries then
        elog o (.tryingNextHost hostCopy)
      rest) Q E c := by
  have next : ∀ c', P c' → wp (do
      if 0 < tries then elog o (.tryingNextHost hostCopy)
      rest) Q E c' := by
    intro c' hp
    rw [wp_ite]
    split
    · rw [wp_bind, wp_elog]
      split
      · exact hraise _ _ (h.warned _ _ rfl hp)
      · exact hrest _ (h.warned _ _ rfl hp)
    · exact hrest _ hp
  rw [wp_ite]
  split
  · rw [wp_bind, wp_tick, wp_ite]
    have hp := h.ticked c .nowMs (by simp) hp
    split
    · rw [wp_bind, wp_getGucs, wp_bind, wp_elog]
      split
      · exact hraise _ _ (h.warned _ _ rfl hp)
      · exact hstop _ (h.warned _ _ rfl hp)
    · exact next _ hp
  · exact next _ hp

end Aside

/-- A cancel is pending at the warning of a failed host attempt. -/
def Outcomes.HalfOpen (o : Outcomes) : Prop :=
  ∃ n r, Report.isHostFailure r = true ∧ o.unwind n r = true

theorem Rpc.effect_blank (kind : Rpc) {k : Connection} (h : k.Blank) : (kind.effect k).Blank := by
  unfold Rpc.effect
  split <;> first | exact h | exact ⟨h.buffer, h.closeSeen⟩ | exact ⟨rfl, h.closeSeen⟩

/-- The connection after an rpc with this answer. -/
def Connection.answered (k : Connection) (kind : Rpc) (a : Answer) : Connection :=
  if kind.answer k a.reply = .normal then kind.effect { k with queue := k.queue ++ a.arrivals }
  else { k with queue := k.queue ++ a.arrivals }

/-- The cell after an rpc on its connection. -/
def Cell.asked (c : Cell) (kind : Rpc) (a : Answer) (k : Connection) : Cell :=
  (c.recorded (.rpc kind k (kind.answer k a.reply))).modified fun bs =>
    { bs with conn := some (k.answered kind a) }

theorem wp_rpc {kind : Rpc} {a : Answer} {c : Cell} {k : Connection} (h : c.bs.conn = some k)
    {Q : Reply → Cell → Prop} {E : Raised → Cell → Prop} :
    wp (rpc kind a) Q E c = Q (kind.answer k a.reply) (c.asked kind a k) := by
  unfold rpc
  rw [wp_bind, wp_getBs, h]
  rfl

theorem rpc_setting {p q : Connection → Prop} {kind : Rpc} (hkind : kind ≠ .txCommit) (a : Answer)
    (hp : ∀ k, p k → p { k with queue := k.queue ++ a.arrivals })
    (hq : ∀ k, p k → q (kind.effect k)) {c₀ c : Cell} (h : Setting p c₀ c) :
    wp (rpc kind a) (fun r c' => if r = .normal then Setting q c₀ c' else Setting p c₀ c')
      (fun _ _ => False) c := by
  obtain ⟨k, hk, hb, hpk⟩ := h.conn
  rw [wp_rpc hk]
  have hb' : { k with queue := k.queue ++ a.arrivals }.Blank := ⟨hb.buffer, hb.closeSeen⟩
  have hn : (Event.rpc kind k (kind.answer k a.reply)).neutral = true := by
    cases kind <;> simp_all [Event.neutral]
  have hf : SameEntry c₀ c := h.frame
  unfold Cell.asked Connection.answered
  split
  · exact ⟨hf.trans ⟨rfl, rfl, Nat.le_refl _, id⟩, h.quiet.snoc rfl hn, h.counts,
      ⟨_, rfl, Rpc.effect_blank kind hb', hq _ (hp k hpk)⟩, h.uncommitted, h.inerror⟩
  · exact ⟨hf.trans ⟨rfl, rfl, Nat.le_refl _, id⟩, h.quiet.snoc rfl hn, h.counts,
      ⟨_, rfl, hb', hp k hpk⟩, h.uncommitted, h.inerror⟩

theorem elog_setting {p : Connection → Prop} {o : Outcomes} {r : Report}
    (hr : r.isHostFailure = true) {c₀ c : Cell} (h : Setting p c₀ c) :
    wp (elog o r) (fun _ => Setting p c₀) (fun _ c' => Setting p c₀ c' ∧ o.HalfOpen) c := by
  have hloss : r.isLoss = false := by cases r <;> first | rfl | cases hr
  rw [wp_elog]
  split
  · rename_i hu
    simp only [Cell.unwinds, Bool.and_eq_true] at hu
    exact ⟨h.still (.warned c r hloss), _, r, hr, hu.2⟩
  · exact h.still (.warned c r hloss)

/-- How the handshake returns: set up on success, and otherwise with the connection
still in place for `next_host` to drop. -/
def Shaken (c₀ : Cell) (ok : Bool) (c : Cell) : Prop :=
  if ok = true then Setting (fun k => k.ready = true) c₀ c else Setting (fun _ => True) c₀ c

/-- How the handshake raises: the connection stays as far as it was set up. -/
def Unwound (o : Outcomes) (c₀ : Cell) (_ : Raised) (c : Cell) : Prop :=
  Setting (fun _ => True) c₀ c ∧ o.HalfOpen

/-- A failed stage of the handshake: its warning, and the jump to `next_host`. -/
theorem failed_shaken {p : Connection → Prop} {o : Outcomes} {r : Report}
    (hr : r.isHostFailure = true) {c₀ c : Cell} (h : Setting p c₀ c) :
    wp (do elog o r; return false) (Shaken c₀) (Unwound o c₀) c := by
  rw [wp_bind]
  refine wp_mono (elog_setting hr h) (fun _ c' h' => ?_) (fun _ c' h' => ?_)
  · exact h'.mono fun _ _ => trivial
  · exact ⟨h'.1.mono fun _ _ => trivial, h'.2⟩

/-- One stage: the rpc fails into `next_host`, or adds a fact about the connection. -/
theorem stage_shaken {p : Connection → Prop} (q : Connection → Prop) {kind : Rpc} {r : Report}
    {a : Answer} {o : Outcomes} {rest : M Bool} {c₀ c : Cell} (hkind : kind ≠ .txCommit)
    (hp : ∀ k fs, p k → p { k with queue := fs }) (hq : ∀ k, p k → q (kind.effect k))
    (hr : r.isHostFailure = true) (h : Setting p c₀ c)
    (hrest : ∀ c', Setting q c₀ c' → wp rest (Shaken c₀) (Unwound o c₀) c') :
    wp (do if (← rpc kind a) ≠ .normal then do elog o r; return false else rest)
      (Shaken c₀) (Unwound o c₀) c := by
  rw [wp_bind]
  refine wp_mono (rpc_setting hkind a (fun k hk => hp k _ hk) hq h) (fun reply c' h' => ?_)
    (fun _ _ h' => h'.elim)
  rw [wp_ite]
  split
  · rename_i hne
    rw [if_neg hne] at h'
    exact failed_shaken hr h'
  · rename_i hne
    rw [if_pos (Decidable.not_not.mp hne)] at h'
    exact hrest c' h'

theorem localAmqpHandshake_shaken (o : Outcomes) (host : BrokerHost) (hostCopy : String) (brokerId : Int) {c₀ c : Cell}
    (h : Setting (fun _ => True) c₀ c) :
    wp (localAmqpHandshake o host hostCopy brokerId) (Shaken c₀) (Unwound o c₀) c := by
  unfold localAmqpHandshake localAmqpLogin amqpLoginWithProperties amqpChannelOpen amqpTxSelect
  simp only [bind_assoc, wp_bind, wp_tick]
  rw [← wp_bind]
  refine stage_shaken (fun k => k.loggedIn = true) (by simp) (by simp)
    (by simp [Rpc.effect]) rfl (h.still (.ticked _ _ (by decide))) fun c₁ h₁ => ?_
  simp only [wp_bind, wp_tick]
  rw [← wp_bind]
  refine stage_shaken (fun k => k.loggedIn = true ∧ k.channel1 = true) (by simp) (by simp)
    (by simp [Rpc.effect]) rfl (h₁.still (.ticked _ _ (by decide))) fun c₂ h₂ => ?_
  simp only [wp_bind, wp_tick]
  rw [← wp_bind]
  refine stage_shaken (fun k => k.loggedIn = true ∧ k.channel1 = true ∧ k.channel2 = true)
    (by simp) (by simp) (by simp +contextual [Rpc.effect]) rfl
    (h₂.still (.ticked _ _ (by decide))) fun c₃ h₃ => ?_
  simp only [wp_bind, wp_tick]
  rw [← wp_bind]
  refine stage_shaken (fun k => k.ready = true) (by simp) (by simp)
    (by simp +contextual [Rpc.effect, Connection.ready]) rfl
    (h₃.still (.ticked _ _ (by decide))) fun c₄ h₄ => h₄

/-- The cell after the timeout of its connection was set. -/
def Cell.timed (c : Cell) (ms : Nat) : Cell :=
  c.modified fun bs => { bs with conn := bs.conn.map fun k => k.setTimeout bs.sockfd ms }

@[simp] theorem wp_localAmqpSetTimeout (ms : Nat) {Q : Unit → Cell → Prop}
    {E : Raised → Cell → Prop} {c : Cell} :
    wp (localAmqpSetTimeout ms) Q E c = Q () (c.timed ms) := rfl

theorem Setting.timed {p : Connection → Prop} (hp : ∀ k s ms, p k → p (k.setTimeout s ms))
    {c₀ c : Cell} (h : Setting p c₀ c) (ms : Nat) : Setting p c₀ (c.timed ms) := by
  obtain ⟨k, hk, hb, hpk⟩ := h.conn
  refine ⟨h.frame.trans ⟨rfl, rfl, Nat.le_refl _, id⟩, h.quiet.log_eq rfl, h.counts,
    ⟨k.setTimeout c.bs.sockfd ms, ?_, ⟨hb.buffer, hb.closeSeen⟩, hp k _ _ hpk⟩, h.uncommitted,
    h.inerror⟩
  simp [Cell.timed, hk]

theorem localAmqpOpenSocket_setting (o : Outcomes) (h : BrokerHost) (hostCopy : String)
    {c₀ c : Cell} (hs : Setting (fun _ => True) c₀ c) :
    wp (localAmqpOpenSocket o h hostCopy) (fun _ => Setting (fun _ => True) c₀)
      (Unwound o c₀) c := by
  unfold localAmqpOpenSocket
  rw [wp_bind, wp_getBs, wp_bind, wp_tick, wp_ite]
  have h₁ := hs.still (.ticked _ .socketNew (by decide))
  split
  · rw [wp_bind]
    refine wp_mono (elog_setting ?_ h₁) (fun _ _ h => h) fun _ _ h => h
    split <;> rfl
  rw [wp_bind, wp_tick, wp_bind, wp_getGucs, wp_bind, wp_record, wp_ite]
  have h₂ := (h₁.still (.ticked _ .socketOpen (by decide))).still (.recorded _
    (e := .socketOpen h c.backend.gucs.connectTimeoutMs (o.socketOpen (c.counts .socketOpen))) rfl)
  split
  · rw [wp_bind]
    exact wp_mono (elog_setting rfl h₂) (fun _ _ h => h) fun _ _ h => h
  · exact h₂

theorem localAmqpTryHost_shaken (o : Outcomes) (h : BrokerHost) (hostCopy : String) (brokerId : Int)
    {c₀ c : Cell} (hs : Setting (fun _ => True) c₀ c) :
    wp (localAmqpTryHost o h hostCopy brokerId) (Shaken c₀) (Unwound o c₀) c := by
  unfold localAmqpTryHost
  refine wp_seq (localAmqpOpenSocket_setting o h hostCopy hs) fun opened c₁ h₁ => ?_
  rw [wp_ite]
  split
  · exact h₁.mono fun _ _ => trivial
  rw [wp_bind, wp_tick, wp_bind, wp_modifyBs, wp_bind, wp_getGucs, wp_bind, wp_localAmqpSetTimeout]
  have h₂ := (h₁.still (.ticked _ .sockfd (by decide))).still (.modified _ rfl rfl rfl rfl
    (f := fun bs => { bs with sockfd := o.sockfd (c₁.counts .sockfd) }))
  refine wp_seq (localAmqpHandshake_shaken o h hostCopy brokerId (h₂.timed (fun _ _ _ h => h) _))
    fun ok c₃ h₃ => ?_
  rw [wp_ite]
  cases ok with
  | false => exact h₃
  | true =>
    rw [if_neg (by simp), wp_bind, wp_getGucs, wp_bind, wp_localAmqpSetTimeout, wp_bind, wp_modifyBs]
    have h₄ : Setting (fun k => k.ready = true) c₀ c₃ := h₃
    exact (h₄.timed (fun _ _ _ h => h) _).still (.modified _ rfl rfl rfl rfl)

/-- The connection was given up, with everything that was counted on it. -/
structure Dropped (c c' : Cell) : Prop where
  frame : SameEntry c c'
  quiet : Quiet c c'
  counts : c'.counts = c.counts
  conn : c'.bs.conn = none
  uncommitted : c'.bs.uncommitted = 0
  inerror : c'.bs.inerror = c.bs.inerror

/-- The cell after its connection was dropped without a handshake. -/
def Cell.dropped (c : Cell) (k : Connection) : Cell :=
  (c.recorded (.destroyed k)).modified fun bs =>
    { bs with conn := none, sockfd := -1, uncommitted := 0, blocked := false }

theorem wp_localAmqpDisconnectBs_some {c : Cell} {k : Connection} (h : c.bs.conn = some k)
    {Q : Unit → Cell → Prop} {E : Raised → Cell → Prop} :
    wp (localAmqpDisconnectBs false) Q E c = Q () (c.dropped k) := by
  unfold localAmqpDisconnectBs amqpDestroyConnection
  rw [wp_bind, wp_getBs, h]
  rfl

/-- The cell after its connection was closed and dropped. -/
def Cell.closed (c : Cell) (k : Connection) : Cell :=
  (c.recorded (.rpc .connectionClose k.closing .none)).dropped k.closing

theorem wp_localAmqpDisconnectBs_closed {c : Cell} {k : Connection} (h : c.bs.conn = some k)
    {Q : Unit → Cell → Prop} {E : Raised → Cell → Prop} :
    wp (localAmqpDisconnectBs true) Q E c = Q () (c.closed k) := by
  unfold localAmqpDisconnectBs amqpDestroyConnection
  rw [wp_bind, wp_getBs, h]
  rfl

theorem localAmqpDisconnectBs_dropped (graceful : Bool) {c : Cell} {k : Connection}
    (h : c.bs.conn = some k) :
    wp (localAmqpDisconnectBs graceful) (fun _ => Dropped c) (fun _ _ => False) c := by
  cases graceful with
  | false =>
    rw [wp_localAmqpDisconnectBs_some h]
    exact ⟨⟨rfl, rfl, Nat.le_refl _, id⟩, ⟨[.destroyed k], rfl, by simp [Event.neutral]⟩, rfl, rfl, rfl, rfl⟩
  | true =>
    rw [wp_localAmqpDisconnectBs_closed h]
    refine ⟨⟨rfl, rfl, Nat.le_refl _, id⟩, ?_, rfl, rfl, rfl, rfl⟩
    have hclose : Quiet c (c.recorded (.rpc .connectionClose k.closing .none)) := (Quiet.refl c).snoc rfl rfl
    exact hclose.snoc rfl rfl

theorem wp_localAmqpDisconnectBs_none (graceful : Bool) {c : Cell} (h : c.bs.conn = none)
    {Q : Unit → Cell → Prop} {E : Raised → Cell → Prop} :
    wp (localAmqpDisconnectBs graceful) Q E c = Q () c := by
  unfold localAmqpDisconnectBs
  rw [wp_bind, wp_getBs, h]
  rfl

theorem Dropped.path {F : Faults} {c c' : Cell} {k : Connection} (h : Dropped c c')
    (hc : c.bs.conn = some k) (hl : c.bs.uncommitted = 0 ∨ F.lossy) : Path F c c' := by
  obtain ⟨evs, he, hn⟩ := h.quiet
  exact .single ⟨h.frame, evs, he, .drop k evs hn hc h.conn hl h.uncommitted h.inerror⟩

/-- A host that was tried and dropped again leaves the entry as it was. -/
theorem Setting.dropped {p : Connection → Prop} {c₀ c c' : Cell} (h : Setting p c₀ c)
    (hd : Dropped c c') (hc : c₀.bs.conn = none) (hz : c₀.bs.uncommitted = 0) : Still c₀ c' :=
  ⟨h.frame.trans hd.frame, h.quiet.trans hd.quiet, h.counts.trans ⟨congrFun hd.counts _, congrFun hd.counts _⟩,
    hd.conn.trans hc.symm, hd.uncommitted.trans hz.symm, hd.inerror.trans h.inerror⟩

/-- What the failover loop, and so the whole connect attempt, returns with. -/
def Connected (c₀ : Cell) (ok : Bool) (c : Cell) : Prop :=
  if ok = true then Setting (fun k => k.ready = true) c₀ c else Still c₀ c

/-- The cell after the identity of one more connection was handed out. -/
def Cell.allocated (c : Cell) : Cell :=
  { c with backend := { c.backend with nextConn := c.backend.nextConn + 1 } }

@[simp] theorem wp_allocate {c : Cell} {Q : Nat → Cell → Prop} {E : Raised → Cell → Prop} :
    wp allocate Q E c = Q c.backend.nextConn c.allocated := rfl

theorem wp_amqpNewConnection (o : Outcomes) {c : Cell} {Q : Option Connection → Cell → Prop}
    {E : Raised → Cell → Prop} :
    wp (amqpNewConnection o) Q E c =
      if o.newConnection (c.counts .newConnection) = true then
        Q (some (.new c.backend.nextConn)) (c.ticked .newConnection).allocated
      else Q none (c.ticked .newConnection) := by
  unfold amqpNewConnection
  rw [wp_bind, wp_tick, wp_ite]
  rfl

theorem Still.allocated {c₀ c : Cell} (h : Still c₀ c) :
    Setting (fun _ => True) c₀ (c.allocated.modified fun bs =>
      { bs with conn := some (.new c.backend.nextConn) }) :=
  ⟨h.frame.trans ⟨rfl, rfl, Nat.le_refl _, id⟩, h.quiet.log_eq rfl, h.counts,
    ⟨_, rfl, .new _, trivial⟩, h.uncommitted, h.inerror⟩

theorem localAmqpFailover_connected (o : Outcomes) (brokerId deadline : Int) (c₀ : Cell)
    (hc : c₀.bs.conn = none) (hz : c₀.bs.uncommitted = 0) (tries : Nat) {c : Cell}
    (h : Still c₀ c) :
    wp (localAmqpFailover o brokerId deadline tries) (Connected c₀)
      (fun e c' => Still c₀ c' ∨ Unwound o c₀ e c') c := by
  induction tries generalizing c with
  | zero => exact h
  | succ tries ih =>
    unfold localAmqpFailover
    rw [wp_bind, wp_modifyBs, wp_bind, wp_getBs]
    have h₁ := h.trans (.modified c rfl rfl rfl rfl
      (f := fun bs => { bs with idx := (bs.idx + 1) % bs.nhosts }))
    generalize (c.modified _).bs.currentHost = host
    rw [wp_bind, wp_amqpNewConnection]
    have h₂ := h₁.trans (.ticked _ .newConnection (by decide))
    split
    · rw [wp_bind, wp_setConn, wp_ite, if_neg (by simp)]
      refine wp_seq (wp_mono (localAmqpTryHost_shaken o host host.hostCopy brokerId h₂.allocated)
        (fun _ _ h => h) (fun _ _ h => .inr h)) fun ok c₃ h₃ => ?_
      rw [wp_ite]
      cases ok with
      | true => exact h₃
      | false =>
        rw [if_neg (by simp)]
        have h₃ : Setting (fun _ => True) c₀ c₃ := h₃
        obtain ⟨k, hk, -⟩ := h₃.conn
        refine wp_seq (wp_mono (localAmqpDisconnectBs_dropped false hk) (fun _ _ h => h)
          (fun _ _ h => h.elim)) fun _ c₄ h₄ => ?_
        refine (Still.aside c₀).nextHost o deadline tries brokerId host.hostCopy (h₃.dropped h₄ hc hz)
          (fun _ h => h) (fun _ h => ih h) (fun _ _ h => .inl h)
    · rw [wp_bind, wp_setConn, wp_ite, if_pos (by simp)]
      exact h₂.trans ⟨⟨rfl, rfl, Nat.le_refl _, id⟩, (Quiet.refl _).log_eq rfl, ⟨rfl, rfl⟩,
        (h₂.conn.trans hc).symm, rfl, rfl⟩

/-- The cell after the entry was found in, or linked into, `HEAD_BS`. -/
def Cell.link (c : Cell) : Cell := { c with linked := true }

@[simp] theorem wp_localAmqpGetABs {c : Cell} {Q : Unit → Cell → Prop} {E : Raised → Cell → Prop} :
    wp localAmqpGetABs Q E c = Q () c.link := rfl

theorem Still.link (c : Cell) : Still c c.link :=
  ⟨⟨rfl, rfl, Nat.le_refl _, fun _ => rfl⟩, (Quiet.refl c).log_eq rfl, ⟨rfl, rfl⟩, rfl, rfl, rfl⟩

theorem localAmqpGetBs_live (o : Outcomes) (brokerId : Int) {c : Cell} {k : Connection}
    (hk : c.bs.conn = some k) {Q : Unit → Cell → Prop} {E : Raised → Cell → Prop} :
    wp (localAmqpGetBs o brokerId) Q E c = Q () c.link := by
  unfold localAmqpGetBs
  have hs : c.link.bs.conn.isSome = true := by simp [Cell.link, hk]
  rw [wp_bind, wp_localAmqpGetABs, wp_bind, wp_getBs, wp_ite, if_pos hs, wp_pure]

/-- The way of `local_amqp_get_bs` through an entry without a connection: what holds before
the failover loop, what the loop makes of it, and what its failure leaves. -/
theorem localAmqpGetBs_goes {P Q R : Cell → Prop} {E : Raised → Cell → Prop} {o : Outcomes} {brokerId : Int}
    {c : Cell} (hP : KeptAside P) (hR : KeptAside R) (hPR : ∀ c', P c' → R c') (hc : c.bs.conn = none)
    (hp : P c.link) (hloop : ∀ deadline tries c', P c' →
      wp (localAmqpFailover o brokerId deadline tries) (fun ok c' => if ok = true then Q c' else R c') E c')
    (hraise : ∀ e c', R c' → E e c') :
    wp (localAmqpGetBs o brokerId) (fun _ c' => R c' ∨ Q c') E c := by
  unfold localAmqpGetBs
  have hn : ¬ c.link.bs.conn.isSome = true := by simp [Cell.link, hc]
  have keeps : ∀ {α : Type} {x : M α} {c₁ : Cell}, Preserves P x → P c₁ → wp x (fun _ => P) E c₁ := fun hx h =>
    wp_mono (hx _ h) (fun _ _ h => h) fun e c' h => hraise e c' (hPR c' h)
  have failed : ∀ {c₁ : Cell}, R c₁ → wp (localAmqpConnectFailed o) (fun _ c' => R c' ∨ Q c') E c₁ := fun h =>
    wp_mono (hR.connectFailed o _ h) (fun _ _ h => .inl h) hraise
  rw [wp_bind, wp_localAmqpGetABs, wp_bind, wp_getBs, wp_ite, if_neg hn]
  refine wp_seq (keeps (hP.suppressed o) hp) fun suppressed c₁ h₁ => ?_
  rw [wp_ite]
  split
  · exact .inl (hPR c₁ h₁)
  refine wp_seq (keeps (hP.hostsLoaded o) h₁) fun nhosts c₂ h₂ => ?_
  rw [wp_ite]
  split
  · rw [wp_bind]
    exact failed (hPR c₂ h₂)
  have loop : ∀ {deadline : Int} {c₃ : Cell}, P c₃ → wp (do
      if !(← localAmqpFailover o brokerId deadline (← getBs).nhosts) then localAmqpConnectFailed o)
      (fun _ c' => R c' ∨ Q c') E c₃ := by
    intro deadline c₃ h₃
    rw [wp_bind, wp_getBs]
    refine wp_seq (hloop deadline _ c₃ h₃) fun ok c₄ h₄ => ?_
    rw [wp_ite]
    cases ok with
    | true => exact .inr h₄
    | false => exact failed h₄
  rw [wp_bind, wp_getGucs]
  dsimp only
  rw [wp_ite]
  split
  · rw [wp_bind, wp_tick, wp_bind, wp_pure]
    exact loop (hP.ticked _ .nowMs (by simp) h₂)
  · rw [wp_bind, wp_pure]
    exact loop h₂

/-- An entry without a connection stays as it is or gets one that is set up. A
raise may leave the connection of a failed host attempt behind. -/
theorem localAmqpGetBs_connected (o : Outcomes) (brokerId : Int) {c : Cell}
    (hc : c.bs.conn = none) (hz : c.bs.uncommitted = 0) :
    wp (localAmqpGetBs o brokerId)
      (fun _ c' => Still c.link c' ∨ Setting (fun k => k.ready = true) c.link c')
      (fun e c' => Still c.link c' ∨ Unwound o c.link e c') c :=
  localAmqpGetBs_goes (Still.aside _) (Still.aside _) (fun _ h => h) hc (.refl _)
    (fun deadline tries _ h => localAmqpFailover_connected o brokerId deadline c.link hc hz tries h)
    fun _ _ h => .inl h

end PgAmqp
