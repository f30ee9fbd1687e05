import PgAmqp.Writes

/-!
# The state a transaction starts from

The commit and the abort callback leave every entry without a count, without the error
flag, and with an empty buffer in tx mode. `XACT_EVENT_PREPARE` does nothing, so after
`PREPARE TRANSACTION` this holds where no entry was in error. An entry can be in error
with nothing counted, which `PRE_PREPARE` does not look at.
-/
namespace PgAmqp

open ProgramLogic Transition

/-- An entry to which nothing of an earlier transaction clings. -/
structure Clean (bs : BrokerState) : Prop where
  uncommitted : bs.uncommitted = 0
  inerror : bs.inerror = false
  conn : ∀ k, bs.conn = some k → k.buffer = [] ∧ k.txMode = true

theorem Connection.ready_txMode {k : Connection} (h : k.ready = true) : k.txMode = true := by
  unfold Connection.ready at h
  rw [Bool.and_eq_true] at h
  exact h.2

theorem Buffered.clean {live : List Msg} {bs : BrokerState} (hb : Buffered live bs) (hs : SetUp bs)
    (hu : bs.uncommitted = 0) (he : bs.inerror = false) : Clean bs :=
  ⟨hu, he, fun k hk => ⟨hb.empty he hu k hk, Connection.ready_txMode (hs k hk)⟩⟩

/-- The end of a transaction cleans an entry, unless it is prepared. -/
theorem Closed.clean {forgetful : Prop} {live : List Msg} {bs bs' : BrokerState}
    (h : Closed forgetful bs bs') (hb : Buffered live bs) (hs : SetUp bs) : Clean bs' := by
  refine ⟨h.uncommitted, h.inerror, fun k' hk' => ?_⟩
  obtain ⟨k, hk, he, hsurv, hbuf⟩ := h.conn k' hk'
  refine ⟨?_, hsurv.txMode.trans (Connection.ready_txMode (hs k hk))⟩
  rw [hbuf]
  split
  · rename_i hz
    exact hb.empty he hz k hk
  · rfl

/-- The call finds a connection, and neither its arguments nor the broker nor the local
write stand against it. -/
structure Cell.Fit (c : Cell) (o : Outcomes) (a : PublishArgs) : Prop where
  body : a.bodyTooLarge c.backend.gucs = false
  calm : ∀ n r, o.unwind n r = false
  connected : c.bs.conn.isSome = true
  alive : (o.poll (c.counts .poll)).alive = true
  unblocked : ∃ n, c.reads o (c.arrived o) = .through n false
  written : c.written o = .ok

section Fit

variable {c : Cell} {o : Outcomes} {m : Msg} {badMode : Option Int} {redo : M Bool}

theorem publishWrite_accepted (hc : c.bs.conn.isSome = true) (hw : c.written o = .ok)
    (onceMore : Bool) :
    wp (publishWrite o m 2 onceMore redo) (fun r _ => r = true) (fun _ _ => False) c := by
  obtain ⟨k, hk⟩ := Option.isSome_iff_exists.mp hc
  unfold publishWrite publishPoll publishWritten
  rw [wp_bind, wp_getBs, hk]
  dsimp only
  rw [wp_bind, wp_amqpBasicPublish, wp_bind, wp_ite, if_neg (by simp), wp_pure, hw]
  rfl

/-- From the drain on the call is accepted. -/
theorem publishDrained_accepted (brokerId : Int) (onceMore : Bool) (hcalm : ∀ n r, o.unwind n r = false)
    (hc : c.bs.conn.isSome = true) (hb : c.bs.blocked = false) (hw : c.written o = .ok) :
    wp (publishDrained o brokerId m badMode 2 onceMore redo) (fun r _ => r = true)
      (fun _ _ => False) c := by
  unfold publishDrained publishMode
  rw [wp_bind, wp_getBs, wp_ite, if_neg (by simp [hb]), wp_bind]
  cases badMode with
  | none => exact publishWrite_accepted hc hw onceMore
  | some mode =>
    dsimp only
    rw [wp_elog, if_neg (by simp [Cell.unwinds, hcalm])]
    refine publishWrite_accepted (c := c.warned (.ignoredDeliveryMode mode)) hc ?_ onceMore
    rw [← hw]
    exact congrArg o.basicPublish (c.ticked_other (j := .basicPublish) (k := .elog) (by decide))

/-- Where nothing else stands against the call, the error flag alone decides. -/
theorem pgAmqpPublishOpt_accepted (brokerId : Int) {a : PublishArgs} (h : c.Fit o a) :
    wp (pgAmqpPublishOpt o brokerId a 2) (fun r _ => r = !c.bs.inerror) (fun _ _ => False) c := by
  obtain ⟨k, hk⟩ := Option.isSome_iff_exists.mp h.connected
  unfold pgAmqpPublishOpt
  rw [wp_bind, wp_getGucs, wp_ite, if_neg (by simp [h.body]), wp_bind, wp_newMsg]
  generalize publishPass o brokerId _ _ 2 false _ = again
  unfold publishPass
  rw [wp_bind, localAmqpGetBs_live (c := c.numbered) o brokerId hk]
  cases he : c.bs.inerror with
  | true =>
    rw [wp_publishConnected_refused brokerId (by simp [he, Cell.link, Cell.numbered])]
    rfl
  | false =>
    unfold publishConnected
    have hcond : c.numbered.link.bs.conn.isSome = true ∧
        ((2 : Nat) = 1 ∨ ¬ c.numbered.link.bs.inerror = true) := by
      exact ⟨h.connected, .inr (by simp [he, Cell.link, Cell.numbered])⟩
    obtain ⟨n, hread⟩ := h.unblocked
    have hread : (c.numbered.link.ticked .poll).reads o (c.numbered.link.arrived o) = .through n false :=
      (c.numbered.link.ticked_reads o _ (by decide)).trans hread
    have halive : (o.poll (c.numbered.link.counts .poll)).alive = true := h.alive
    rw [wp_bind, wp_getBs, wp_ite, if_pos hcond, wp_bind]
    refine wp_mono (localAmqpDrainReturns_reads o hcond.1) (fun r c₁ hr => ?_)
      (fun _ c₁ hr => absurd (hr.1.symm.trans hread) (by simp))
    have hpost := hr
    simp only [ReadPost, hread, halive, if_true] at hpost
    obtain ⟨rfl, -, -, hblocked, -⟩ := hpost
    have hopen : Opened o 0 c.numbered.link c₁ := hr.usable.opened rfl
    obtain ⟨k₁, hk₁, -⟩ := hopen.conn k hk
    rw [wp_ite, if_neg (by decide)]
    exact publishDrained_accepted brokerId true h.calm (by rw [hk₁]; rfl) hblocked
      (hopen.written.trans h.written)

end Fit

/-- No warning raises. -/
def Calm (_ : Session) (st : Step) : Prop := ∀ b n r, (st.outcomes b).unwind n r = false

theorem Calm.uncancelled {s : Session} {st : Step} (h : Calm s st) : Uncancelled s st := by
  rintro b ⟨-, n, r, -, hu⟩
  exact absurd (hu.symm.trans (h b n r)) (by decide)

namespace Session

/-- The step ends the top-level transaction, by a command or by an error. -/
def EndsTransaction (s : Session) (st : Step) : Prop :=
  match st.action with
  | .commit => True
  | .abort => True
  | .prepare => True
  | _ => s.depth = 0 ∧ (trace st s).raised ≠ none

/-- What a transaction should start from: clean entries, and no publish refused that
nothing in this transaction stands against. -/
structure CleanSlate (s : Session) : Prop where
  entries : ∀ b, Clean (s.entry b)
  accepts : ∀ a b, a.brokerId = some b → ∀ o, (s.cell b).Fit (o b) a →
    (trace ⟨.publish a, o⟩ s).result = some true

theorem CleanSlate.of_entries {s : Session} (h : ∀ b, Clean (s.entry b)) : s.CleanSlate := by
  refine ⟨h, fun a b hb o hfit => ?_⟩
  have hrun := pgAmqpPublishOpt_accepted b hfit
  have hflag : (s.cell b).bs.inerror = false := (h b).inerror
  unfold wp at hrun
  cases hx : pgAmqpPublishOpt (o b) b a 2 (s.cell b) with
  | error e c => simp only [hx] at hrun
  | ok v c =>
    simp only [hx, hflag, Bool.not_false] at hrun
    subst hrun
    show (s.publish o a).2.result = some true
    unfold publish
    rw [hb]
    dsimp only
    rw [call_ok hx]
    rfl

section Ends

variable {s : Session}

/-- Every entry keeps what `Buffered` and `SetUp` say. -/
def Sound (s : Session) : Prop :=
  s.Holds (fun _ live bs => Buffered live bs) ∧ s.Holds (fun _ _ bs => SetUp bs)

theorem abort_clean (hs : s.Shaped) (h : s.Sound) (o : Int → Outcomes) :
    (s.abort o).1.CleanSlate :=
  .of_entries fun b => ((abort_swept hs o).entry b).1.clean (h.1 b) (h.2 b)

theorem commit_clean (hs : s.Shaped) (h : s.Sound) (o : Int → Outcomes) :
    (s.commit o).1.CleanSlate :=
  .of_entries fun b => (commit_closed hs o b).clean (h.1 b) (h.2 b)

/-- A transaction with nothing counted is prepared, and what is in error stays so. -/
theorem prepare_clean (hs : s.Shaped) (h : s.Sound) (o : Int → Outcomes) :
    (s.prepare o).1.CleanSlate ↔
      ((∀ b, (s.entry b).uncommitted = 0) → ∀ b, (s.entry b).inerror = false) := by
  rcases prepare_cases (o := o) hs with ⟨b, hu, hr⟩ | ⟨hz, hr⟩
  · rw [hr]
    exact ⟨fun _ hz => absurd (hz b) (Nat.ne_of_gt hu), fun _ => abort_clean hs h o⟩
  · have hentry : ∀ b, (s.prepare o).1.entry b = s.entry b := fun b => by
      rw [hr]
      exact ((prepare_swept hs o).entry b).1
    refine ⟨fun hclean _ b => ?_, fun he => .of_entries fun b => ?_⟩
    · have := (hclean.entries b).inerror
      rwa [hentry] at this
    · rw [hentry]
      exact (h.1 b).clean (h.2 b) (hz b) (he hz b)

end Ends

end Session

theorem Runs.sound {s : Session} (hs : Runs Calm s) : s.Sound :=
  ⟨fun b => hs.buffered b, fun b => Runs.setUp (hs.mono fun _ _ h => Calm.uncancelled h) b⟩

/-- A transaction starts from a clean slate, except after a `PREPARE TRANSACTION` that
finds nothing counted and an entry in error. -/
theorem clean_slate {s : Session} (hs : Runs Calm s) {st : Step} (ho : Calm s st)
    (hend : s.EndsTransaction st) :
    (next st s).CleanSlate ↔ (st.action = .prepare → (∀ b, (s.entry b).uncommitted = 0) →
      ∀ b, (s.entry b).inerror = false) := by
  have raised : (s.depth = 0 ∧ (trace st s).raised ≠ none) → (next st s).CleanSlate := by
    rintro ⟨hd, hr⟩
    obtain ⟨s₁, log, hp, hs₁, hnext⟩ := (Session.exec_steps st hs.shaped).aborts hr hd
    have hhalf : ∀ b, ¬ (s.faults st b).halfOpen := ho.uncancelled
    have hsound : s₁.Sound := ⟨buffered_stable.phase (fun _ => trivial) hp hs.sound.1,
      setUp_stable.phase hhalf hp hs.sound.2⟩
    have hnext : next st s = (s₁.abort st.outcomes).1 := hnext
    rw [hnext]
    exact Session.abort_clean hs₁ hsound st.outcomes
  obtain ⟨action, o⟩ := st
  cases action with
  | commit => exact ⟨fun _ h => absurd h (by simp), fun _ => Session.commit_clean hs.shaped hs.sound o⟩
  | abort => exact ⟨fun _ h => absurd h (by simp), fun _ => Session.abort_clean hs.shaped hs.sound o⟩
  | prepare =>
    exact (Session.prepare_clean hs.shaped hs.sound o).trans ⟨fun h _ => h, fun h => h rfl⟩
  | _ => exact ⟨fun _ h => absurd h (by simp), fun _ => raised hend⟩

/-- A publish whose write fails twice puts the entry in error with nothing counted. -/
def Outcomes.unwritable : Outcomes :=
  { Outcomes.good with basicPublish := fun _ => .failed false }

def refusedPublish : Step := ⟨.publish (.to1 "a"), fun _ => .unwritable⟩

theorem calm_good (s : Session) (action : Action) : Calm s (.good action) := fun _ _ _ => rfl

theorem oneAcknowledged_calm : Runs Calm oneAcknowledged := by
  unfold oneAcknowledged
  exact .run (.init (Session.loaded_initial {} 0)) _ ⟨calm_good _ _, trivial⟩

theorem oneAcknowledged_clean :
    (oneAcknowledged.entry 1).uncommitted = 1 ∧ ((next (.good .commit) oneAcknowledged).CleanSlate ↔
      ((Step.good .commit).action = .prepare → (∀ b, (oneAcknowledged.entry b).uncommitted = 0) →
        ∀ b, (oneAcknowledged.entry b).inerror = false)) :=
  ⟨oneAcknowledged_entry.2.1, clean_slate oneAcknowledged_calm (calm_good _ _) trivial⟩

/-- The entry in error is taken over `PREPARE TRANSACTION` into the next transaction. -/
theorem prepared_in_error :
    ¬ ∀ s, Runs Calm s → ∀ st, Calm s st → s.EndsTransaction st → (next st s).CleanSlate := by
  intro h
  have hreached : Runs Calm (run next [refusedPublish] (.loaded {} 0)) :=
    .run (.init (Session.loaded_initial {} 0)) _ ⟨fun _ _ _ => rfl, trivial⟩
  have hflag := ((h _ hreached (.good .prepare) (calm_good _ _) trivial).entries 1).inerror
  revert hflag
  decide +kernel

end PgAmqp
