import PgAmqp.Passes
import PgAmqp.CleanSlate

/-!
# A dead connection is replaced

A publish call that finds its connection dead, with nothing at stake on it, gives it up and
connects once more. The backoff does not stand in the way, since a held connection means
that the last attempt succeeded, and the host list is still cached. So the call returns
true when one of the hosts lets it in and takes the message.
-/
namespace PgAmqp

open ProgramLogic Transition

/-- While the entry is in use its connection comes from an attempt that succeeded. -/
def Unfailed (p : Stage × Cell) : Prop :=
  p.1 = .rest ∨ p.1 = .flush → p.2.bs.conn.isSome = true → p.2.bs.lastFailedConnect = 0

section Unfailed

variable {L : Lapses} {o : Outcomes} {p q : Stage × Cell}

theorem Serve.unfailed (h : Serve L p q) (hu : Unfailed p) : Unfailed q := by
  intro hg hc
  rw [h.sameList.lastFailedConnect]
  have hc' := h.isSome hc
  cases h with
  | drop k hk => exact absurd hc (by simp [Cell.dropped])
  | number => exact hu (.inl rfl) hc'
  | declare _ _ _ _ => exact hu (.inl rfl) hc'
  | write _ _ _ _ _ _ => exact hu (.inl rfl) hc'
  | accept _ _ _ _ => exact hu (.inl rfl) hc'
  | settle => exact hu (.inl rfl) hc'
  | flush => exact hu (.inl rfl) hc'
  | finish _ _ _ _ _ => exact hu (.inr rfl) hc'
  | restore => exact hu (.inr rfl) hc'
  | _ => exact hu hg hc'

theorem Change.unfailed (hL : ¬ L.halfOpen) (h : Change L o p q) (hu : Unfailed p) : Unfailed q := by
  cases h with
  | serve h => exact h.unfailed hu
  | dial h =>
    cases h with
    | fill n rows hosts idx hs hc => exact fun _ hc' => absurd hc' (by simp [Cell.filled, hc])
    | turn hc _ => exact fun _ hc' => absurd hc' (by simp [Cell.turned, hc])
    | connect => exact fun _ _ => rfl
    | fail n hc => exact fun _ hc' => absurd hc' (by simp [Cell.failed, hc])
    | unwind hh => exact absurd hh hL
    | _ => exact fun hg => by simp at hg
  | close k hk => exact fun _ hc' => by simp [Cell.closed, Cell.dropped] at hc'
  | reset hc => exact fun _ _ => rfl
  | free hc _ => exact fun _ hc' => absurd hc' (by simp [hc])

theorem unfailed_lasting : Lasting (fun L _ => ¬ L.halfOpen)
    fun _ bs => bs.conn.isSome = true → bs.lastFailedConnect = 0 where
  fresh := fun _ _ _ => rfl
  grow := fun _ _ h => h
  chain := fun hL h hc => (hc.keeps (I := Unfailed) (fun _ _ => Change.unfailed hL) fun _ => h) (.inl rfl)

theorem Runs.unfailed {s : Session} (hs : Runs Calm s) (b : Int) (hc : (s.entry b).conn.isSome = true) :
    (s.entry b).lastFailedConnect = 0 :=
  unfailed_lasting.holds (b := b) (fun _ _ h => Calm.uncancelled h b) hs hc

end Unfailed

/-- Of all outside calls only warnings, reads and writes may have been made. -/
def Tallied (n : Call → Nat) (c : Cell) : Prop :=
  ∀ j, j ≠ .elog → j ≠ .poll → j ≠ .basicPublish → c.counts j = n j

section Tallied

variable {n : Call → Nat} {o : Outcomes} {m : Msg} {badMode : Option Int} {channel : Nat}
  {onceMore : Bool} {redo : M Bool}

theorem tallied_tick {k : Call} (hk : k = .elog ∨ k = .poll ∨ k = .basicPublish) :
    Preserves (Tallied n) (tick k) := by
  intro c hc j h₁ h₂ h₃
  have hne : j ≠ k := by rcases hk with rfl | rfl | rfl <;> assumption
  exact (c.ticked_other hne).trans (hc j h₁ h₂ h₃)

theorem tallied_still {α : Type} {x : M α} (h : ∀ c, wp x (fun _ c' => c'.counts = c.counts)
    (fun _ c' => c'.counts = c.counts) c) : Preserves (Tallied n) x :=
  fun c hc => wp_mono (h c) (fun _ c' h' => by rw [Tallied, h']; exact hc)
    (fun _ c' h' => by rw [Tallied, h']; exact hc)

theorem tallied_modifyBs (f : BrokerState → BrokerState) : Preserves (Tallied n) (modifyBs f) :=
  tallied_still fun _ => rfl

theorem tallied_getBs : Preserves (Tallied n) getBs := fun _ h => h

theorem tallied_record (e : Event) : Preserves (Tallied n) (record e) := tallied_still fun _ => rfl

theorem tallied_elog (r : Report) : Preserves (Tallied n) (elog o r) := by
  intro c hc
  have hw : Tallied n (c.warned r) := fun j h₁ h₂ h₃ => (c.ticked_other h₁).trans (hc j h₁ h₂ h₃)
  rw [wp_elog]
  split <;> exact hw

theorem tallied_disconnectBs : Preserves (Tallied n) (localAmqpDisconnectBs false) := by
  refine .bind tallied_getBs fun bs => ?_
  cases bs.conn with
  | none => exact .pure _ _
  | some k => exact .bind (tallied_record _) fun _ => tallied_modifyBs _

theorem tallied_drain : Preserves (Tallied n) (localAmqpDrainReturns o) := by
  have still : ∀ {k : Call} {c c' : Cell}, (k = .elog ∨ k = .poll ∨ k = .basicPublish) →
      c'.counts = (c.ticked k).counts → Tallied n c → Tallied n c' := fun {k c c'} hk hcounts h => by
    rw [Tallied, hcounts]
    exact tallied_tick hk c h
  exact KeptByDrain.preserves (G := fun _ => True) {
    arrived := fun _ _ _ _ => trivial
    polled := fun _ => still (k := .poll) (by simp) rfl
    taken := fun _ _ _ _ h => h
    returned := fun _ _ _ => still (k := .elog) (by simp) rfl
    noted := fun _ => still (k := .elog) (by simp) rfl
    blocked := fun _ _ h => h }

theorem tallied_publishConnected {b : Int} (hredo : Preserves (Tallied n) redo) :
    Preserves (Tallied n) (publishConnected o b m badMode channel onceMore redo) := by
  have again : ∀ {giveUp : M Bool}, Preserves (Tallied n) giveUp →
      Preserves (Tallied n) (orRedo channel onceMore redo giveUp) := fun hg =>
    .bind tallied_getBs fun _ => .ite (fun _ => .bind tallied_disconnectBs fun _ => hredo) fun _ => hg
  have mode : Preserves (Tallied n) (publishMode o badMode) := by
    cases badMode with
    | none => exact .pure _ _
    | some mode => exact tallied_elog _
  have write : Preserves (Tallied n) (publishWrite o m channel onceMore redo) := by
    refine .bind tallied_getBs fun bs => ?_
    cases bs.conn with
    | none => exact .pure _ _
    | some k =>
      refine .bind ?_ fun _ => .bind ?_ fun _ => .ite (fun _ => ?_) fun _ => ?_
      · exact .bind (tallied_tick (.inr (.inr rfl))) fun _ => .bind (tallied_record _) fun _ =>
          .bind (tallied_modifyBs _) fun _ => .pure _ _
      · exact .ite (fun _ => .bind tallied_drain fun _ => .pure _ _) fun _ => .pure _ _
      · exact again (.bind (tallied_modifyBs _) fun _ => .pure _ _)
      · exact .bind (tallied_record _) fun _ => .bind (tallied_modifyBs _) fun _ => .pure _ _
  refine .bind tallied_getBs fun bs => .ite (fun _ => .bind tallied_drain fun _ => ?_) fun _ => .pure _ _
  refine .ite (fun _ => again (.ite (fun _ => .bind (tallied_modifyBs _) fun _ => .pure _ _)
    fun _ => .pure _ _)) fun _ => ?_
  refine .bind tallied_getBs fun _ => .ite (fun _ => ?_) fun _ => .bind mode fun _ => write
  exact .bind (tallied_record _) fun _ => .bind (tallied_elog _) fun _ => .pure _ _

end Tallied

theorem Cell.Retries.unique {c : Cell} {o : Outcomes} {m : Msg} {channel polls writes polls' writes' : Nat}
    (h : c.Retries o m channel polls writes) (h' : c.Retries o m channel polls' writes') :
    polls' = polls ∧ writes' = writes := by
  cases h with
  | unusable hu =>
    cases h' with
    | unusable _ => exact ⟨rfl, rfl⟩
    | refused hu' _ => simp [hu] at hu'
  | refused hu _ =>
    cases h' with
    | unusable hu' => simp [hu] at hu'
    | refused _ _ => exact ⟨rfl, rfl⟩

/-- The cell in which a call goes back to `redo`, after this many reads and writes. -/
structure Redone (c : Cell) (polls writes : Nat) (c' : Cell) : Prop where
  between : Between c.link c'
  conn : c'.bs.conn = none
  inerror : c'.bs.inerror = c.bs.inerror
  tallied : Tallied c.counts c'
  polls : c'.counts .poll = c.counts .poll + polls
  writes : c'.counts .basicPublish = c.counts .basicPublish + writes

section First

variable {o : Outcomes} {b : Int} {c c' : Cell} {m : Msg} {badMode : Option Int}
  {channel polls writes : Nat} {k : Connection}

theorem localAmqpDial_live (hk : c.bs.conn = some k) : localAmqpDial o b c = .ok .live c.link := by
  have hrun : wp (localAmqpDial o b) (fun d c' => d = .live ∧ c' = c.link) (fun _ _ => False) c := by
    unfold localAmqpDial
    rw [wp_bind, wp_localAmqpGetABs, wp_bind, wp_getBs, wp_ite, if_pos (by simp [Cell.link, hk]), wp_pure]
    exact ⟨rfl, rfl⟩
  obtain ⟨d, c', hrun, rfl, rfl⟩ := wp_ok hrun
  exact hrun

/-- A pass that does not serve the call goes back, when nothing is at stake. -/
theorem publishPass_redone (ho : o.Calm) (hk : c.bs.conn = some k)
    (hch : channel = 1 ∨ channel = 2 ∧ c.bs.inerror = false)
    (hagain : channel = 1 ∨ c.bs.uncommitted = 0) (hdead : c.serves o m badMode channel = false)
    (hr : c.Retries o m channel polls writes) :
    ∃ c', c.redo o b m badMode channel = some c' ∧ Redone c polls writes c' ∧
      ∀ redo, publishPass o b m badMode channel true redo c = redo c' := by
  let F : Faults := ⟨True, True, True, True, True⟩
  have hlive : localAmqpDial o b c = .ok .live c.link := localAmqpDial_live hk
  have habandon : wp (publishPass o b m badMode channel true (throw .canceled)) (fun _ _ => False)
      (fun _ => Abandoned F polls writes c.link) c := by
    refine publish_live (F := F) hk hch ⟨fun _ _ => .inr trivial, fun _ _ => trivial,
      fun _ _ _ _ => trivial, fun _ => trivial, fun _ => trivial⟩ (fun _ _ hor => ?_) (fun _ _ hs => ?_)
      (fun _ _ polls' writes' c' hr' ha => ?_)
    · rcases hor with hs | hn
      · simp [hdead] at hs
      · exact absurd hagain hn
    · simp [hdead] at hs
    · obtain ⟨rfl, rfl⟩ := Cell.Retries.unique (c := c.link)
        (show c.link.Retries o m channel polls writes by cases hr with
          | unusable hu => exact .unusable hu
          | refused hu hw => exact .refused hu hw) hr'
      exact ha
  have htallied : wp (publishConnected o b m badMode channel true (throw .canceled))
      (fun _ => Tallied c.counts) (fun _ => Tallied c.counts) c.link :=
    tallied_publishConnected (.throw _ _) c.link fun _ _ _ _ => rfl
  rcases publishPass_first m badMode channel ho hlive with
    ⟨-, r, c', -, hrun⟩ | ⟨c', hredo, hbetween, hrun⟩
  · unfold wp at habandon
    rw [hrun] at habandon
    exact habandon.elim
  · unfold wp at habandon htallied
    rw [← publishPass_dialed hlive, hrun] at htallied
    rw [hrun] at habandon
    have ha : Abandoned F polls writes c.link c' := habandon
    exact ⟨c', hredo, ⟨hbetween, ha.conn, ha.inerror, htallied, ha.polls, ha.writes⟩, hrun⟩

end First

/-- Before the first attempt of a call. -/
def Uses.zero : Uses := ⟨0, 0, 0, 0, 0⟩

/-- The host at this place of a round is the first that completes the handshake. -/
structure Outcomes.FirstGood (o : Outcomes) (u : Uses) (j : Nat) : Prop where
  before : ∀ i < j, o.completes (o.spent^[i] u) = false
  completes : o.completes (o.spent^[j] u) = true

section Round

variable {o : Outcomes} {b : Int} {c c' : Cell} {u : Uses} {E : Raised → Cell → Prop}

theorem Outcomes.FirstGood.next {j : Nat} (h : o.FirstGood u (j + 1)) : o.FirstGood (o.spent u) j :=
  ⟨fun i hi => h.before (i + 1) (Nat.succ_lt_succ hi), h.completes⟩

theorem Joined.after {c'' : Cell} (h : Round c c') (h' : Joined o u c' c'') : Joined o u c c'' :=
  ⟨h.trans h'.round, h'.conn, h'.consecutiveFailures, h'.lastFailedConnect, h'.blocked⟩

/-- Without a deadline the loop comes to the first good host. -/
theorem localAmqpVisits_joined (ho : o.Calm) (hnew : o.Allocates) {j tries : Nat} (hj : j < tries)
    (hc : c.bs.conn = none) (hgood : o.FirstGood c.uses j) :
    wp (localAmqpVisits o b 0 tries) (fun r c' => r.1 = true ∧ r.2.length = j + 1 ∧
      Joined o (o.spent^[j] c.uses) c c') E c := by
  induction j generalizing c tries with
  | zero =>
    obtain ⟨tries, rfl⟩ := Nat.exists_eq_succ_of_ne_zero (Nat.ne_of_gt hj)
    refine visit_spec ho hc (fun hno => absurd hnew hno) (fun _ c' h _ _ => ⟨rfl, rfl, h⟩) fun hmiss => ?_
    exact absurd (hmiss.symm.trans hgood.completes) (by decide)
  | succ j ih =>
    obtain ⟨tries, rfl⟩ := Nat.exists_eq_succ_of_ne_zero (Nat.ne_of_gt (Nat.lt_of_le_of_lt (Nat.zero_le _) hj))
    refine visit_spec ho hc (fun hno => absurd hnew hno) (fun hok => ?_) fun _ c₁ h hostCopy => ?_
    · exact absurd (hok.symm.trans (hgood.before 0 (Nat.succ_pos j))) (by decide)
    refine wp_seq (localAmqpNextHost_spec ho hostCopy) fun next c₂ h₂ => ?_
    obtain ⟨hp, hnext⟩ := h₂
    obtain rfl : next = (none, true) := hnext
    have hu : c₂.uses = o.spent c.uses := hp.uses.trans h.uses
    rw [wp_ite, if_pos rfl]
    refine wp_seq (ih (Nat.lt_of_succ_lt_succ hj) (by rw [hp.bs]; exact h.conn) (hu ▸ hgood.next)) fun r c₃ h₃ => ?_
    obtain ⟨hok, hlen, hjoin⟩ := h₃
    rw [hu] at hjoin
    exact ⟨hok, congrArg Nat.succ hlen, hjoin.after (h.round.trans hp.round)⟩

/-- The call of `local_amqp_get_bs` on an entry that remembers no failure, with a cached list. -/
theorem localAmqpDial_joined (ho : o.Calm) (hnew : o.Allocates) {j : Nat} (hc : c.bs.conn = none)
    (hlast : c.bs.lastFailedConnect = 0) (hs : c.bs.hosts.isSome = true)
    (hi : c.bs.idx < c.bs.nhosts) (hbudget : c.backend.gucs.connectBudgetMs = 0)
    (hj : j < c.bs.nhosts) (hgood : o.FirstGood c.uses j) :
    ∃ visits c', localAmqpDial o b c = .ok (.connected 0 visits) c' ∧
      visits.map Visit.idx = Cyclic.positions c.bs.nhosts (c.bs.idx + 1) (j + 1) ∧
      Joined o (o.spent^[j] c.uses) c c' := by
  have hrun : wp (localAmqpDial o b) (fun d c' => ∃ visits, d = .connected 0 visits ∧
      visits.map Visit.idx = Cyclic.positions c.bs.nhosts (c.bs.idx + 1) (j + 1) ∧
      Joined o (o.spent^[j] c.uses) c c') (fun _ _ => False) c := by
    have hsup : c.link.suppressed o = false := by simp [Cell.suppressed, hlast]
    have hchecked : c.link.checked = c.link := if_pos hlast
    have hlink : Round c c.link := ⟨rfl, rfl, rfl, rfl, rfl, rfl, rfl, fun _ => rfl, fun _ _ => rfl⟩
    unfold localAmqpDial
    rw [wp_bind, wp_localAmqpGetABs, wp_bind, wp_getBs, wp_ite, if_neg (by simp [hc]), wp_bind,
      wp_localAmqpSuppressed, hsup, hchecked, wp_ite, if_neg (by decide)]
    refine wp_seq (localAmqpLoadHosts_loads ho (.inl hs)) fun n c₁ h₁ => ?_
    obtain ⟨rfl, rfl⟩ := h₁.cached_eq hs
    rw [wp_ite, if_neg (by rw [Cell.link_bs]; omega), wp_bind, wp_getGucs]
    dsimp only
    rw [wp_ite, if_neg (by rw [Cell.link_backend]; omega), wp_bind, wp_pure, wp_bind, wp_getBs]
    have hjoins := localAmqpVisits_joined (c := c.link) (b := b) (E := fun _ _ => False) ho hnew hj hc hgood
    have hvisits : wp (localAmqpVisits o b 0 c.bs.nhosts) (Visited o 0 c.bs.nhosts c.link)
        (fun _ _ => False) c.link := localAmqpVisits_visited ho hc hi
    refine wp_seq (wp_mono (wp_and hjoins hvisits) (fun _ _ h => h) fun _ _ h => h.1) fun r c' h => ?_
    obtain ⟨⟨hok, hlen, hjoin⟩, hv⟩ := h
    have hpositions := hv.positions
    rw [hlen] at hpositions
    rw [wp_ite, if_pos hok]
    exact ⟨r.2, rfl, hpositions, hjoin.after hlink⟩
  obtain ⟨d, c', hrun, visits, rfl, hrest⟩ := wp_ok hrun
  exact ⟨visits, c', hrun, hrest⟩

end Round

/-- A frame that neither closes anything nor blocks publishers. -/
def Frame.quiet : Frame → Bool
  | .connectionBlocked => false
  | .channelClose _ => false
  | .connectionClose => false
  | _ => true

theorem readFrames_quiet (brokerId : Int) {fs : List Frame} (h : fs.all Frame.quiet = true) (n : Nat) :
    ∃ n', readFrames (fun _ _ => false) brokerId n false fs = .through n' false := by
  induction fs generalizing n with
  | nil => exact ⟨n, rfl⟩
  | cons f rest ih =>
    obtain ⟨hf, hrest⟩ := Bool.and_eq_true_iff.mp h
    cases f with
    | basicReturn r => exact ih hrest (n + 1)
    | connectionUnblocked => exact ih hrest n
    | other => exact ih hrest n
    | _ => cases hf

section Second

variable {o : Outcomes} {b : Int} {c : Cell} {m : Msg} {badMode : Option Int} {channel : Nat}
  {onceMore : Bool} {redo : M Bool}

theorem Outcomes.Calm.reads (ho : o.Calm) (c : Cell) (fs : List Frame) :
    c.reads o fs = readFrames (fun _ _ => false) c.bs.brokerId (c.counts .elog) c.bs.blocked fs := by
  have hfun : (fun n r => !c.backend.holdoff && o.unwind n r) = fun _ _ => false := by
    funext n r
    rw [ho, Bool.and_false]
  unfold Cell.reads
  rw [hfun]

theorem publishWrite_true (ho : o.Calm) (hc : c.bs.conn.isSome = true) (hw : c.written o = .ok) :
    wp (publishWrite o m channel onceMore redo) (fun r _ => r = true) (fun _ _ => False) c := by
  obtain ⟨k, hk⟩ := Option.isSome_iff_exists.mp hc
  have hpoll : Returns (publishPoll o m channel) :=
    .ite (.bind (localAmqpDrainReturns_returns ho) fun _ => .pure _) (.pure _)
  unfold publishWrite
  rw [wp_bind, wp_getBs, hk]
  dsimp only
  rw [wp_bind, wp_amqpBasicPublish]
  refine wp_seq hpoll.done fun _ c' _ => ?_
  unfold publishWritten
  rw [wp_ite, if_neg (by simp [hw]), wp_bind, wp_record, wp_bind, wp_modifyBs]
  rfl

/-- A pass on a connection that is quiet and takes the message. -/
theorem publishConnected_true (ho : o.Calm) (hc : c.bs.conn.isSome = true)
    (hch : channel = 1 ∨ c.bs.inerror = false) (hb : c.bs.blocked = false)
    (halive : (o.poll (c.counts .poll)).alive = true) (hquiet : (c.arrived o).all Frame.quiet = true)
    (hw : c.written o = .ok) :
    wp (publishConnected o b m badMode channel onceMore redo) (fun r _ => r = true) (fun _ _ => False) c := by
  obtain ⟨k, hk⟩ := Option.isSome_iff_exists.mp hc
  obtain ⟨n, hend⟩ := readFrames_quiet c.bs.brokerId hquiet (c.counts .elog)
  have hread : (c.ticked .poll).reads o (c.arrived o) = .through n false := by
    rw [c.ticked_reads o _ (by decide), ho.reads, hb]
    exact hend
  have hcond : c.bs.conn.isSome = true ∧ (channel = 1 ∨ ¬ c.bs.inerror = true) :=
    ⟨hc, hch.imp_right fun h => by simp [h]⟩
  unfold publishConnected
  rw [wp_bind, wp_getBs, wp_ite, if_pos hcond, wp_bind]
  refine wp_mono (localAmqpDrainReturns_reads o hc) (fun r c₁ hr => ?_)
    (fun _ c₁ hr => absurd (hr.1.symm.trans hread) (by simp))
  have hpost := hr
  simp only [ReadPost, hread, halive, if_true] at hpost
  obtain ⟨rfl, -, -, hblocked, -⟩ := hpost
  have hopen : Opened o 0 c c₁ := hr.usable.opened rfl
  obtain ⟨k₁, hk₁, -⟩ := hopen.conn k hk
  have hw₁ : c₁.written o = .ok := hopen.written.trans hw
  unfold publishDrained publishMode
  rw [wp_ite, if_neg (by decide), wp_bind, wp_getBs, wp_ite, if_neg (by simp [hblocked]), wp_bind]
  cases badMode with
  | none => exact publishWrite_true ho (by rw [hk₁]; rfl) hw₁
  | some mode =>
    dsimp only
    rw [wp_elog_calm ho]
    refine publishWrite_true (c := c₁.warned (.ignoredDeliveryMode mode)) ho (by simp [hk₁]) ?_
    rw [← hw₁]
    exact congrArg o.basicPublish (c₁.ticked_other (j := .basicPublish) (k := .elog) (by decide))

end Second

/-- A call with nothing at stake that finds its connection dead: the drain fails, or it
finds the broker not blocking and the write fails. -/
structure Session.FindsDead (s : Session) (o : Outcomes) (b : Int) (a : PublishArgs) (channel : Nat) :
    Prop where
  conn : (s.entry b).conn.isSome = true
  idle : channel = 1 ∨ channel = 2 ∧ (s.entry b).uncommitted = 0 ∧ (s.entry b).inerror = false
  body : a.bodyTooLarge s.backend.gucs = false
  dead : (s.cell b).serves o ⟨s.backend.nextCall, a.content⟩ a.badDeliveryMode channel = false

/-- One of `n` hosts completes the handshake, and the first one that does has a quiet drain
and takes the write. -/
def Outcomes.Welcomes (o : Outcomes) (n polls writes : Nat) : Prop :=
  ∃ j < n, o.FirstGood .zero j ∧ (o.poll polls).alive = true ∧
    (o.greeting (o.spent^[j] .zero) ++ (o.poll polls).arrivals).all Frame.quiet = true ∧
    o.basicPublish writes = .ok

section Retry

variable {s : Session} {o : Outcomes} {b : Int} {a : PublishArgs} {channel : Nat}

/-- With a cached list the lookup is not made. -/
theorem Dials.spi {c c' : Cell} {d : Dialed} (h : Dials o c d c') (hs : c.bs.hosts.isSome = true) :
    c'.counts .spi = c.counts .spi := by
  have hchecked : c.link.checked.counts .spi = c.counts .spi := Cell.checked_counts (by decide)
  have looked : ∀ {r : Int} {c₁ : Cell}, Loaded o c.link.checked r c₁ → c₁ = c.link.checked :=
    fun h₁ => (h₁.cached_eq (by rw [Cell.checked_bs]; exact hs)).1
  have hbudgeted : ∀ c : Cell, c.budgeted.counts .spi = c.counts .spi := by
    intro c
    unfold Cell.budgeted
    split
    · exact c.ticked_other (by decide)
    · rfl
  cases h with
  | live _ => rfl
  | suppressed _ _ => exact hchecked
  | unlisted _ _ h₁ _ =>
    obtain rfl := looked h₁
    exact (c.link.checked.ticked_other (k := .time) (by decide)).trans hchecked
  | @failed _ _ _ c₂ _ _ h₁ _ hv =>
    obtain rfl := looked h₁
    exact (c₂.ticked_other (k := .time) (by decide)).trans
      ((hv.round.counts .spi (by simp)).trans ((hbudgeted _).trans hchecked))
  | connected _ _ h₁ _ hv =>
    obtain rfl := looked h₁
    exact (hv.round.counts .spi (by simp)).trans ((hbudgeted _).trans hchecked)

/-- What a call that finds its connection dead comes to behind `redo`. -/
structure Retried (s : Session) (o : Outcomes) (b : Int) (a : PublishArgs) (channel : Nat) (c : Cell) :
    Prop where
  redo : (s.cell b).numbered.redo o b ⟨s.backend.nextCall, a.content⟩ a.badDeliveryMode channel = some c
  run : ∀ {d c₁ r c'}, localAmqpDial o b c = .ok d c₁ →
    publishConnected o b ⟨s.backend.nextCall, a.content⟩ a.badDeliveryMode channel false (pure false) c₁ =
      .ok r c' → pgAmqpPublishOpt o b a channel (s.cell b) = .ok r c'

theorem Session.FindsDead.retried (h : s.FindsDead o b a channel) (ho : o.Calm) {polls writes : Nat}
    (hr : (s.cell b).Retries o ⟨s.backend.nextCall, a.content⟩ channel polls writes) :
    ∃ c, Retried s o b a channel c ∧ Redone (s.cell b).numbered polls writes c := by
  obtain ⟨k, hk⟩ := Option.isSome_iff_exists.mp h.conn
  obtain ⟨c, hredo, hr', hrun⟩ := publishPass_redone (c := (s.cell b).numbered) (b := b) ho hk
    (h.idle.imp_right fun h => ⟨h.1, h.2.2⟩) (h.idle.imp_right fun h => h.2.1) h.dead
    (show (s.cell b).numbered.Retries o _ channel polls writes by
      cases hr with
      | unusable hu => exact .unusable hu
      | refused hu hw => exact .refused hu hw)
  refine ⟨c, ⟨hredo, fun hdial hlanded => ?_⟩, hr'⟩
  unfold pgAmqpPublishOpt
  simp only [Bind.bind, EStateM.bind, getGucs]
  rw [if_neg (by rw [show (s.cell b).backend = s.backend from rfl, h.body]; decide)]
  show publishPass o b ⟨s.backend.nextCall, a.content⟩ a.badDeliveryMode channel true
    (publishPass o b ⟨s.backend.nextCall, a.content⟩ a.badDeliveryMode channel false (pure false))
    (s.cell b).numbered = _
  rw [hrun, publishPass_dialed hdial, hlanded]

/-- A call that does not serve has made these reads and writes. -/
theorem Cell.Retries.exists_of_dead {c : Cell} {m : Msg} {badMode : Option Int}
    (h : c.serves o m badMode channel = false) : ∃ polls writes, c.Retries o m channel polls writes := by
  by_cases hu : c.usable o = true
  · refine ⟨_, _, .refused hu fun hw => ?_⟩
    unfold Cell.usable at hu
    rw [Bool.and_eq_true, Bool.not_eq_true'] at hu
    unfold Cell.serves at h
    dsimp only at h
    cases hend : c.reads o (c.arrived o) with
    | unwound => simp [hend] at h
    | closed => exact absurd (readFrames_closed hend) (by simp [hu.1])
    | through n blocked => simp [hend, hu.2, hw] at h
  · exact ⟨_, _, .unusable (Bool.eq_false_iff.mpr hu)⟩

/-- Behind `redo` the entry remembers no failure, and its list is cached. -/
theorem Redone.ready (hs : Runs Calm s) (hdead : s.FindsDead o b a channel) {polls writes : Nat} {c : Cell}
    (h : Redone (s.cell b).numbered polls writes c) :
    c.bs.lastFailedConnect = 0 ∧ c.bs.hosts.isSome = true ∧ Indexed c.bs ∧
      c.bs.nhosts = (s.entry b).nhosts ∧ c.backend.gucs = s.backend.gucs := by
  have hsame := h.between.sameList
  have hhosts : (s.entry b).hosts.isSome = true := (Runs.anchored hs b).hosts hdead.conn
  exact ⟨hsame.lastFailedConnect.trans (Runs.unfailed hs b hdead.conn), hsame.hosts ▸ hhosts,
    (Runs.indexed hs b).congr hsame.hosts hsame.nhosts hsame.idx, hsame.nhosts, hsame.gucs⟩

/-- The retry on the first good host. -/
theorem Redone.welcomed (hs : Runs Calm s) (ho : o.Calm) (hdead : s.FindsDead o b a channel)
    (hbudget : s.backend.gucs.connectBudgetMs = 0) (hnew : o.Allocates) {polls writes : Nat} {c : Cell}
    (h : Redone (s.cell b).numbered polls writes c)
    (hwelcome : o.Welcomes (s.entry b).nhosts polls writes) (m : Msg) (badMode : Option Int) :
    ∃ d c₁ c', localAmqpDial o b c = .ok d c₁ ∧
      publishConnected o b m badMode channel false (pure false) c₁ = .ok true c' := by
  obtain ⟨j, hj, hgood, halive, hquiet, hwrite⟩ := hwelcome
  obtain ⟨hlast, hhosts, hindexed, hn, hgucs⟩ := h.ready hs hdead
  have huses : c.uses = .zero := by
    have hzero : ∀ q, q ≠ .elog → q ≠ .poll → q ≠ .basicPublish → c.counts q = 0 := h.tallied
    simp [Cell.uses, Uses.zero, hzero]
  rw [← huses] at hgood hquiet
  obtain ⟨visits, c₁, hdial, -, hjoin⟩ := localAmqpDial_joined (b := b) ho hnew h.conn hlast hhosts
    (hindexed.inside hhosts) (hgucs ▸ hbudget) (hn ▸ hj) hgood
  obtain ⟨k, hk, -, hqueue⟩ := hjoin.conn
  have hpoll : c₁.counts .poll = polls := by
    rw [hjoin.round.counts .poll (by simp), h.polls]
    exact Nat.zero_add polls
  have hsend : c₁.counts .basicPublish = writes := by
    rw [hjoin.round.counts .basicPublish (by simp), h.writes]
    exact Nat.zero_add writes
  have harrived : c₁.arrived o = o.greeting (o.spent^[j] c.uses) ++ (o.poll polls).arrivals := by
    simp [Cell.arrived, BrokerState.pending, hk, hqueue, hpoll]
  have hpass : wp (publishConnected o b m badMode channel false (pure false)) (fun r _ => r = true)
      (fun _ _ => False) c₁ :=
    publishConnected_true ho (by simp [hk])
      (hdead.idle.imp_right fun h' => by rw [hjoin.round.inerror, h.inerror]; exact h'.2.2) hjoin.blocked
      (by rw [hpoll]; exact halive) (by rw [harrived]; exact hquiet)
      (by unfold Cell.written; rw [hsend]; exact hwrite)
  obtain ⟨r, c', hlanded, rfl⟩ := wp_ok hpass
  exact ⟨_, c₁, c', hdial, hlanded⟩

/-- A dead idle connection is replaced. The call goes back to `redo`, the backoff does not
suppress the retry, and the host list is not read again. With no budget, when connections
can be allocated, and the first host that completes the handshake has a quiet drain and
takes the write, the call returns true. -/
theorem dead_connection_replaced (hs : Runs Calm s) (ho : o.Calm) (hdead : s.FindsDead o b a channel) :
    ∃ c r c', (s.cell b).numbered.redo o b ⟨s.backend.nextCall, a.content⟩ a.badDeliveryMode channel =
        some c ∧ c.suppressed o = false ∧
      pgAmqpPublishOpt o b a channel (s.cell b) = .ok r c' ∧ c'.counts .spi = 0 ∧
      (s.backend.gucs.connectBudgetMs = 0 → o.Allocates →
        ∀ polls writes, (s.cell b).Retries o ⟨s.backend.nextCall, a.content⟩ channel polls writes →
          o.Welcomes (s.entry b).nhosts polls writes → r = true) := by
  obtain ⟨polls, writes, hr⟩ := Cell.Retries.exists_of_dead hdead.dead
  obtain ⟨c, hretried, hredone⟩ := hdead.retried ho hr
  obtain ⟨hlast, hhosts, hindexed, -, -⟩ := hredone.ready hs hdead
  obtain ⟨d, c₁, hdial, hd⟩ := localAmqpDial_dials (b := b) ho (.inl hhosts) hindexed
  let m : Msg := ⟨s.backend.nextCall, a.content⟩
  have hspi : wp (publishConnected o b m a.badDeliveryMode channel false (pure false))
      (fun _ => Tallied c₁.counts) (fun _ => Tallied c₁.counts) c₁ :=
    tallied_publishConnected (.pure _ _) c₁ fun _ _ _ _ => rfl
  obtain ⟨r, c', hlanded, htally⟩ := (publishConnected_returns ho (.pure false)).wp hspi
  refine ⟨c, r, c', hretried.redo, by simp [Cell.suppressed, hlast], hretried.run hdial hlanded, ?_,
    fun hbudget hnew polls' writes' hr' hwelcome => ?_⟩
  · rw [htally .spi (by decide) (by decide) (by decide), hd.spi hhosts]
    exact hredone.tallied .spi (by decide) (by decide) (by decide)
  · obtain ⟨rfl, rfl⟩ := hr.unique hr'
    obtain ⟨d', c₂, c'', hdial', hlanded'⟩ := hredone.welcomed hs ho hdead hbudget hnew hwelcome m a.badDeliveryMode
    rw [hdial] at hdial'
    cases hdial'
    rw [hlanded] at hlanded'
    cases hlanded'
    rfl

end Retry

/-- The connection has died, and the host takes the next one. -/
def Outcomes.dying : Outcomes := { Outcomes.good with poll := fun n => ⟨[], n ≠ 0⟩ }

theorem rolledBack_calm : Runs Calm rolledBack :=
  .run (.init (Session.loaded_initial _ _)) _ ⟨calm_good _ _, calm_good _ _, trivial⟩

theorem rolledBack_entry :
    (rolledBack.entry 1).conn.isSome = true ∧ (rolledBack.entry 1).uncommitted = 0 ∧
    (rolledBack.entry 1).inerror = false ∧ (rolledBack.entry 1).nhosts = 1 ∧
    rolledBack.backend.gucs = {} ∧ (rolledBack.cell 1).usable .dying = false ∧
    (rolledBack.cell 1).serves .dying ⟨rolledBack.backend.nextCall, (PublishArgs.to1 "b").content⟩ none 2 =
      false := by
  decide +kernel

theorem rolledBack_replaced :
    ∃ c, pgAmqpPublishOpt .dying 1 (.to1 "b") 2 (rolledBack.cell 1) = .ok true c ∧ c.counts .spi = 0 := by
  obtain ⟨hconn, hzero, herr, hn, hgucs, husable, hdead⟩ := rolledBack_entry
  have hfinds : rolledBack.FindsDead .dying 1 (.to1 "b") 2 :=
    ⟨hconn, .inr ⟨rfl, hzero, herr⟩, by rw [hgucs]; rfl, hdead⟩
  have hwelcome : Outcomes.dying.Welcomes (rolledBack.entry 1).nhosts 1 0 :=
    ⟨0, by rw [hn]; decide, ⟨fun i hi => absurd hi (Nat.not_lt_zero i), rfl⟩, rfl, rfl, rfl⟩
  obtain ⟨c, r, c', -, -, hrun, hspi, hr⟩ :=
    dead_connection_replaced rolledBack_calm (o := .dying) (fun _ _ => rfl) hfinds
  rw [hr (by rw [hgucs]) (fun _ => rfl) 1 0 (.unusable husable) hwelcome] at hrun
  exact ⟨c', hrun, hspi⟩

end PgAmqp
