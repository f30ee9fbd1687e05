import PgAmqp.EntryInvariants

/-!
# What becomes of the acknowledged messages

The commit callback releases the buffer of a connection, or reports what it could
not release. Nothing else commits on channel 2, and what is released was published
in the transaction and not rolled back, in call order. That nothing is lost without a
report, and that a transaction is delivered as a whole, holds in the runs in which no
call gives up a connection while it holds acknowledged messages.
-/
namespace PgAmqp

open ProgramLogic Transition

/-- The messages released by the normally answered `tx.commit`s of a record. -/
def released (log : List Event) : List Msg := (commitsIn log).flatMap Connection.buffer

/-- The step does not give up a connection that holds acknowledged messages. -/
def Session.spares (s : Session) (st : Step) : Bool :=
  match st.action.target with
  | none => true
  | some b => !s.loses st b

/-- The guard of the runs in which every step spares the acknowledged messages. -/
def Spares (s : Session) (st : Step) : Prop := s.spares st = true

instance (s : Session) (st : Step) : Decidable (Spares s st) := inferInstanceAs (Decidable (_ = _))

theorem Spares.faults {s : Session} {st : Step} (h : Spares s st) (b : Int) :
    ¬ (s.faults st b).lossy := by
  intro hl
  have hl : s.loses st b = true := hl
  have ht : st.action.target = some b := by
    unfold Session.loses at hl
    cases ha : st.action <;> simp_all [Action.target]
  simp [Spares, Session.spares, ht, hl] at h

/-- Where no acknowledged message was given up, the count and the buffer are theirs. -/
theorem Runs.counted {s : Session} (hs : Runs Spares s) (b : Int) : Counted (s.acked b) (s.entry b) :=
  counted_stable.holds (fun _ _ h => h.faults) hs b

theorem Runs.buffered {ok : Session → Step → Prop} {s : Session} (hs : Runs ok s) (b : Int) :
    Buffered (s.live b) (s.entry b) :=
  buffered_stable.holds (fun _ _ _ _ => trivial) hs b

/-- The buffer that a commit released is what was acknowledged. -/
theorem released_counted {acked : List Msg} {bs : BrokerState} {evs : List Event}
    (hc : Counted acked bs) (h : Settled bs evs) :
    (released evs = [] ∧ lossIn bs.brokerId evs = acked.length) ∨
      (commitsIn evs ≠ [] ∧ released evs = acked ∧ lossIn bs.brokerId evs = 0) := by
  cases h with
  | lost hnone hloss => exact .inl ⟨by rw [released, hnone]; rfl, hloss.trans hc.count⟩
  | released k k' hk hkeep htx he _ hcommit hloss =>
    refine .inr ⟨by rw [hcommit]; simp, ?_, hloss⟩
    rw [released, hcommit, List.flatMap_singleton, hkeep.buffer]
    exact hc.buffer he k hk htx

/-- However the transaction ends, no acknowledged message is lost without a report: the
commit callback reports as many messages of a broker as it did not release, and a
transaction with an acknowledged message is not prepared. -/
def Session.Accounted (s : Session) (o : Int → Outcomes) : Prop :=
  (∀ b, lossIn b (logOf b (trace ⟨.commit, o⟩ s).log) =
    ((s.acked b).filter (· ∉ released (logOf b (trace ⟨.commit, o⟩ s).log))).length) ∧
  ((∃ b, s.acked b ≠ []) →
    ∃ n b, (trace ⟨.prepare, o⟩ s).raised = some (.error (.cannotPrepare n b)))

theorem acknowledged_released_or_reported {s : Session} (hs : Runs Spares s)
    (o : Int → Outcomes) : s.Accounted o := by
  refine ⟨fun b => ?_, fun ⟨b, hb⟩ => ?_⟩
  · have hset : Settled (s.entry b) (logOf b (trace ⟨.commit, o⟩ s).log) :=
      Session.commit_settled hs.shaped o b
    rcases released_counted (hs.counted b) hset with ⟨hr, hl⟩ | ⟨_, hr, hl⟩
    · rw [s.entry_brokerId] at hl
      rw [hl, hr, List.filter_eq_self.mpr (by simp)]
    · rw [s.entry_brokerId] at hl
      rw [hl, hr, List.filter_eq_nil_iff.mpr (by simp), List.length_nil]
  · rcases Session.prepare_cases (o := o) hs.shaped with ⟨b', -, hp⟩ | ⟨hz, -⟩
    · refine ⟨(s.entry b').uncommitted, b', ?_⟩
      show (s.prepare o).2.raised = _
      rw [hp]
    · have := (hs.counted b).count
      rw [hz b] at this
      exact absurd (List.length_eq_zero_iff.mp this.symm) hb

/-- A message for broker 1. -/
def PublishArgs.to1 (body : String) : PublishArgs where
  brokerId := some 1
  exchange := some "orders"
  routingKey := some "new"
  message := some body
  deliveryMode := none
  contentType := none
  replyTo := none
  correlationId := none
  mandatory := none

def DeclareArgs.orders : DeclareArgs where
  brokerId := some 1
  exchange := some "orders"
  exchangeType := some "topic"
  passive := none
  durable := none
  autoDelete := none

/-- The broker refuses the declaration by closing channel 1. -/
def Outcomes.refusing : Outcomes :=
  { Outcomes.good with exchangeDeclare := fun _ => ⟨.channelException, []⟩ }

def refusedDeclare : Step := ⟨.exchangeDeclare .orders, fun _ => .refusing⟩

/-- One message was acknowledged. -/
def oneAcknowledged : Session := run next [.good (.publish (.to1 "a"))] (.loaded {} 0)

theorem oneAcknowledged_spares : Runs Spares oneAcknowledged :=
  .run (.init (Session.loaded_initial _ _)) _ (by decide +kernel)

theorem oneAcknowledged_runs {ok : Session → Step → Prop} (h : ∀ s a, ok s (.good a)) :
    Runs ok oneAcknowledged :=
  .run (.init (Session.loaded_initial _ _)) _ (And.intro (h _ _) trivial)

/-- The message is counted, and a commit releases it. -/
theorem oneAcknowledged_entry :
    (oneAcknowledged.acked 1).length = 1 ∧ (oneAcknowledged.entry 1).uncommitted = 1 ∧
    (oneAcknowledged.entry 1).conn.isSome = true ∧
    commitsIn (logOf 1 (trace (.good .commit) oneAcknowledged).log) ≠ [] := by
  decide +kernel

theorem oneAcknowledged_accounted :
    (oneAcknowledged.acked 1).length = 1 ∧ oneAcknowledged.Accounted fun _ => .good :=
  ⟨oneAcknowledged_entry.1, acknowledged_released_or_reported oneAcknowledged_spares _⟩

/-- After the refused declaration the commit callback neither releases nor reports the message. -/
theorem acknowledged_lost_silently :
    ¬ ∀ s, Runs (fun _ _ => True) s → ∀ o, s.Accounted o := by
  intro h
  have hreached : Runs (fun _ _ => True) (run next [refusedDeclare] oneAcknowledged) :=
    .run (oneAcknowledged_spares.mono fun _ _ _ => trivial) _ (Admits.always _ _)
  have hcount := (h _ hreached fun _ => .good).1 1
  revert hcount
  decide +kernel

/-- No move commits. -/
theorem Path.commitsIn {F : Faults} {c c' : Cell} (h : Path F c c') :
    commitsIn c'.log = commitsIn c.log := by
  induction h with
  | refl => rfl
  | tail _ hm ih =>
    obtain ⟨evs, hl, he⟩ := hm.effect
    have hnone : PgAmqp.commitsIn evs = [] := by
      cases he <;> first | rfl | exact commitsIn_neutral ‹_›
    rw [hl, commitsIn_append, hnone, List.append_nil, ih]

/-- A normally answered `tx.commit` in the record of a phase is the one of the commit
callback, and its buffer was the buffer of the entry. -/
theorem Phase.commits {F : Int → Faults} {committing : Prop} {s s' : Session}
    {log : List (Int × Event)} (h : Phase F committing s s' log) (b : Int) :
    commitsIn (logOf b log) = [] ∨ committing ∧ Settled (s.entry b) (logOf b log) := by
  cases h with
  | still _ _ _ hl => exact .inl (by rw [hl]; rfl)
  | call b' c hleft _ _ _ hl =>
    refine .inl ?_
    rw [hl]
    by_cases hb : b' = b
    · rw [hb, logOf_same, Path.commitsIn hleft.path]
      rfl
    · rw [logOf_other hb]
      rfl
  | commit hc _ _ hset _ => exact .inr ⟨hc, hset b⟩
  | abort _ _ hnone _ => exact .inl (hnone b)
  | undo _ hn _ _ => exact .inl (commitsIn_neutral (hn b))
  | prepare _ _ _ hl => exact .inl (by rw [hl]; rfl)

theorem Session.live_calls {s : Session} (hs : s.Shaped) (b : Int) :
    (s.live b).Pairwise fun m m' => m.call < m'.call := by
  unfold Session.live
  rw [List.pairwise_map]
  exact hs.calls.filter _

/-- What a `tx.commit` releases was published in the transaction on the same broker, by a
call that returned true, outside every subtransaction that rolled back; in call order and
each message once. Only the commit callback commits, and only once for each broker. -/
theorem committed_messages {s : Session} (hs : Runs (fun _ _ => True) s) (st : Step) (b : Int) :
    (commitsIn (logOf b (trace st s).log) ≠ [] → st.action = .commit) ∧
    (commitsIn (logOf b (trace st s).log)).length ≤ 1 ∧
    ∀ k ∈ commitsIn (logOf b (trace st s).log),
      k.buffer.Sublist (s.live b) ∧ k.buffer.Pairwise fun m m' => m.call < m'.call := by
  by_cases ha : st.action = .commit
  · have hset : Settled (s.entry b) (logOf b (trace st s).log) := by
      have hsettled := Session.commit_settled hs.shaped st.outcomes b
      unfold trace exec
      rw [ha]
      exact hsettled
    refine ⟨fun _ => ha, ?_⟩
    cases hset with
    | lost hnone _ => simp [hnone]
    | released k k' hk hkeep _ he _ hcommit _ =>
      rw [hcommit]
      refine ⟨Nat.le_refl _, fun q hq => ?_⟩
      obtain rfl := List.mem_singleton.mp hq
      have hsub : q.buffer.Sublist (s.live b) := by
        rw [hkeep.buffer]
        exact (hs.buffered b).sublist he k hk
      exact ⟨hsub, (Session.live_calls hs.shaped b).sublist hsub⟩
  · have hnone : commitsIn (logOf b (trace st s).log) = [] := by
      cases Session.exec_phases st hs.shaped with
      | one h => exact (h.commits b).resolve_right fun h => ha h.1
      | two _ l₁ l₂ h h' hl =>
        rw [hl, logOf_append, commitsIn_append, (h.commits b).resolve_right fun h => ha h.1,
          (h'.commits b).resolve_right fun h => ha h.1]
        rfl
    rw [hnone]
    exact ⟨fun h => absurd rfl h, by simp, by simp⟩

theorem oneAcknowledged_committed :
    commitsIn (logOf 1 (trace (.good .commit) oneAcknowledged).log) ≠ [] ∧
    (commitsIn (logOf 1 (trace (.good .commit) oneAcknowledged).log)).length ≤ 1 ∧
    ∀ k ∈ commitsIn (logOf 1 (trace (.good .commit) oneAcknowledged).log),
      k.buffer.Sublist (oneAcknowledged.live 1) ∧ k.buffer.Pairwise fun m m' => m.call < m'.call :=
  ⟨oneAcknowledged_entry.2.2.2, (committed_messages (oneAcknowledged_spares.mono fun _ _ _ => trivial)
    (.good .commit) 1).2⟩

/-- A transaction is delivered as a whole: a normally answered `tx.commit` releases every
message that was acknowledged on the broker. -/
theorem committed_all_acknowledged {s : Session} (hs : Runs Spares s) (o : Int → Outcomes)
    (b : Int) : ∀ k ∈ commitsIn (logOf b (trace ⟨.commit, o⟩ s).log), k.buffer = s.acked b := by
  intro k hk
  have hset : Settled (s.entry b) (logOf b (trace ⟨.commit, o⟩ s).log) :=
    Session.commit_settled hs.shaped o b
  cases hset with
  | lost hnone _ => simp [hnone] at hk
  | released q k' hq hkeep htx he _ hcommit _ =>
    rw [hcommit] at hk
    obtain rfl := List.mem_singleton.mp hk
    exact hkeep.buffer.trans ((hs.counted b).buffer he q hq htx)

theorem oneAcknowledged_whole :
    commitsIn (logOf 1 (trace ⟨.commit, fun _ => .good⟩ oneAcknowledged).log) ≠ [] ∧
    ∀ k ∈ commitsIn (logOf 1 (trace ⟨.commit, fun _ => .good⟩ oneAcknowledged).log),
      k.buffer = oneAcknowledged.acked 1 :=
  ⟨oneAcknowledged_entry.2.2.2, committed_all_acknowledged oneAcknowledged_spares (fun _ => .good) 1⟩

/-- A message published after the refused declaration commits without the one before it. -/
theorem committed_partly :
    ¬ ∀ s, Runs (fun _ _ => True) s → ∀ o b,
      ∀ k ∈ commitsIn (logOf b (trace ⟨.commit, o⟩ s).log), k.buffer = s.acked b := by
  intro h
  have hreached : Runs (fun _ _ => True)
      (run next [refusedDeclare, .good (.publish (.to1 "b"))] oneAcknowledged) :=
    .run (oneAcknowledged_spares.mono fun _ _ _ => trivial) _ (Admits.always _ _)
  have hall := h _ hreached (fun _ => .good) 1
  revert hall
  decide +kernel

/-- A call on channel 1 leaves the buffered messages alone exactly where the library's
answers let it keep the connection. -/
theorem channel_one_undisturbed {s : Session} (hs : Runs (fun _ _ => True) s) {b : Int}
    (hu : 0 < (s.entry b).uncommitted) (o : Outcomes) :
    (∀ a, Undisturbed (s.entry b) (final (pgAmqpExchangeDeclare o b a) (s.cell b)).bs ↔
      (s.cell b).declareKeeps o = true) ∧
    (∀ a, Undisturbed (s.entry b) (final (pgAmqpPublishOpt o b a 1) (s.cell b)).bs ↔
      (s.cell b).publishKeeps o a = true) := by
  cases hk : (s.entry b).conn with
  | none =>
    have := hs.shaped.idle b hk
    omega
  | some k =>
    exact ⟨fun a => pgAmqpExchangeDeclare_undisturbed b a (c := s.cell b) hk hu,
      fun a => pgAmqpPublishOpt_undisturbed b a (c := s.cell b) hk hu⟩

theorem oneAcknowledged_undisturbed :
    (Undisturbed (oneAcknowledged.entry 1)
      (final (pgAmqpExchangeDeclare .good 1 .orders) (oneAcknowledged.cell 1)).bs ↔
        (oneAcknowledged.cell 1).declareKeeps .good = true) ∧
    (Undisturbed (oneAcknowledged.entry 1)
      (final (pgAmqpPublishOpt .good 1 (.to1 "b") 1) (oneAcknowledged.cell 1)).bs ↔
        (oneAcknowledged.cell 1).publishKeeps .good (.to1 "b") = true) :=
  have h := channel_one_undisturbed (oneAcknowledged_spares.mono fun _ _ _ => trivial)
    (b := 1) (oneAcknowledged_entry.2.1 ▸ Nat.one_pos) .good
  ⟨h.1 .orders, h.2 (.to1 "b")⟩

/-- The broker keeps the connection and channel 2 open. -/
structure Outcomes.KeepsChannel2 (o : Outcomes) : Prop where
  alive : ∀ n, (o.poll n).alive = true
  channel2 : ∀ n, Frame.channelClose 2 ∉ (o.poll n).arrivals
  connection : ∀ n, Frame.connectionClose ∉ (o.poll n).arrivals
  declare : ∀ n, (o.exchangeDeclare n).reply = .normal ∨
    (o.exchangeDeclare n).reply = .channelException

theorem refused_declare_disturbs :
    ¬ ∀ s, Runs (fun _ _ => True) s → ∀ b, 0 < (s.entry b).uncommitted →
      ∀ o : Outcomes, o.KeepsChannel2 → ∀ a,
        Undisturbed (s.entry b) (final (pgAmqpExchangeDeclare o b a) (s.cell b)).bs := by
  intro h
  have hd := h oneAcknowledged (oneAcknowledged_spares.mono fun _ _ _ => trivial) 1
    (oneAcknowledged_entry.2.1 ▸ Nat.one_pos) .refusing ⟨fun _ => rfl,
      by simp [Outcomes.refusing, Outcomes.good], by simp [Outcomes.refusing, Outcomes.good],
      fun _ => .inr rfl⟩ .orders
  have hcount := hd.uncommitted
  revert hcount
  decide +kernel

end PgAmqp
