import PgAmqp.Delivery

/-!
# Which connections are written to

A connection is fit for a message when it is fully set up and the broker has not closed
it. `Remembered` and `SetUp` are the two invariants of an entry behind that.

A close frame is read once, so the read that takes it has to act on it: the publish
paths give the connection up, or raise the error flag that keeps channel 2 from being
used again. Two reads ignore their result, the one after a mandatory autonomous publish
and the one before `tx.commit`, and channel 1 does not look at the flag.

A new connection is cached before its socket is open, and dropped at `next_host` when an
attempt fails. A cancel at the warning in between leaves it there.
-/
namespace PgAmqp

open ProgramLogic Transition

/-- The step acts on every close frame it reads, and does not write to a connection from
which one was read before. -/
def Heeds (s : Session) (st : Step) : Prop := ∀ b, ¬ s.forgets st b ∧ ¬ s.writesStale st b

theorem remembered_writesOpen : WritesUnder (fun F => ¬ F.forgetful ∧ ¬ F.stale)
    (fun _ _ bs => Remembered bs) (fun k => k.closeSeen = false) :=
  fun _ _ _ _ _ _ _ hF hI he hw => he.writesOn_open hF.2 hI hw

theorem Heeds.faults {s : Session} {st : Step} (h : Heeds s st) (b : Int) :
    ¬ (s.faults st b).forgetful ∧ ¬ (s.faults st b).stale := h b

theorem closed_never_acknowledged {s : Session} (hs : Runs Heeds s) {st : Step} (ho : Heeds s st)
    (b : Int) : ∀ k ∈ acknowledgedOn (logOf b (trace st s).log), k.closeSeen = false := by
  have hstable : Stable (fun F => ¬ F.forgetful ∧ ¬ F.stale) fun _ _ bs => Remembered bs :=
    remembered_stable.mono fun _ h => h.1
  exact (hstable.writes remembered_writesOpen (fun _ _ h => h.faults) hs ho b).acknowledgedOn

theorem heeds_publish (s : Session) (a : PublishArgs) (o : Int → Outcomes) :
    Heeds s ⟨.publish a, o⟩ := fun _ => ⟨id, id⟩

theorem heeds_abort (s : Session) (o : Int → Outcomes) : Heeds s ⟨.abort, o⟩ := fun _ => ⟨id, id⟩

/-- Channel 2 is found closed by the first read, and the one after finds it in order. -/
def Outcomes.closing : Outcomes :=
  { Outcomes.good with poll := fun n => ⟨if n = 0 then [.channelClose 2] else [], true⟩ }

/-- A connection is kept from a transaction that rolled back. -/
def rolledBack : Session := run next [.good (.publish (.to1 "a")), .good .abort] (.loaded {} 0)

theorem rolledBack_heeds : Runs Heeds rolledBack := by
  unfold rolledBack
  exact .run (.init (Session.loaded_initial {} 0)) _ ⟨heeds_publish _ _ _, heeds_abort _ _, trivial⟩

/-- The publish that reads the close makes a new connection and is acknowledged on it. -/
theorem rolledBack_reconnects :
    (acknowledgedOn (logOf 1 (trace ⟨.publish (.to1 "b"), fun _ => .closing⟩ rolledBack).log)).map
      Connection.id = [1] ∧
    ∀ k ∈ acknowledgedOn (logOf 1 (trace ⟨.publish (.to1 "b"), fun _ => .closing⟩ rolledBack).log),
      k.closeSeen = false :=
  ⟨by decide +kernel, closed_never_acknowledged rolledBack_heeds (heeds_publish _ _ _) 1⟩

/-- The broker closes the first connection while it is being set up. -/
def Outcomes.closingLogin : Outcomes :=
  { Outcomes.good with login := fun n => ⟨.normal, if n = 0 then [.connectionClose] else []⟩ }

-- The first pass reads this close and acts on it, and the handshake of the second is quiet.
example : Heeds (.loaded {} 0) ⟨.autonomousPublish (.to1 "a"), fun _ => .closingLogin⟩ := by
  have first : ∀ {u v}, Outcomes.closingLogin.Makes u v → Outcomes.closingLogin.completes u = true → v = u := by
    intro u v h hu
    cases h with
    | here => rfl
    | next hno => exact absurd (hno.symm.trans hu) (by decide)
  refine fun b => ⟨?_, ?_⟩
  · rintro ⟨hb, -, v, hv, hf⟩
    obtain rfl : b = 1 := by cases hb; rfl
    obtain rfl := first hv rfl
    rcases hf with ⟨hw, -⟩ | ⟨-, w, hw, hc | ⟨-, hm, -⟩⟩ | ⟨hw, -⟩
    · revert hw
      decide +kernel
    · obtain rfl := first hw rfl
      revert hc
      decide +kernel
    · cases hm
    · revert hw
      decide +kernel
  · rintro ⟨hb, -, -, he, -⟩
    obtain rfl : b = 1 := by cases hb; rfl
    revert he
    decide +kernel

def PublishArgs.mandatoryTo1 (body : String) : PublishArgs :=
  { PublishArgs.to1 body with mandatory := some true }

/-- The broker closes channel 1 upon the publish. -/
def Outcomes.closingAfter : Outcomes :=
  { Outcomes.good with poll := fun n => ⟨if n = 1 then [.channelClose 1] else [], true⟩ }

/-- The read after a mandatory autonomous publish takes the close, and the next
autonomous publish is acknowledged on the same connection. -/
theorem closed_acknowledged :
    ¬ ∀ s, Runs (fun _ _ => True) s → ∀ st b,
      ∀ k ∈ acknowledgedOn (logOf b (trace st s).log), k.closeSeen = false := by
  intro h
  have hreached : Runs (fun _ _ => True)
      (run next [⟨.autonomousPublish (.mandatoryTo1 "a"), fun _ => .closingAfter⟩] (.loaded {} 0)) :=
    .run (.init (Session.loaded_initial _ _)) _ (Admits.always _ _)
  have hopen := h _ hreached (.good (.autonomousPublish (.to1 "b"))) 1
  revert hopen
  decide +kernel

/-- No cancel is pending at the warning of a failed host attempt. -/
def Uncancelled (_ : Session) (st : Step) : Prop := ∀ b, ¬ Session.halfOpens st b

theorem setUp_writesReady : WritesUnder (fun F => ¬ F.halfOpen) (fun _ _ bs => SetUp bs)
    (fun k => k.ready = true) :=
  fun _ _ _ _ _ _ _ _ hI he hw => he.writesOn_ready hI hw

theorem Runs.setUp {s : Session} (hs : Runs Uncancelled s) (b : Int) : SetUp (s.entry b) :=
  setUp_stable.holds (fun _ _ h => h) hs b

/-- However `local_amqp_get_bs` is left, the connection it leaves behind is set up. -/
theorem localAmqpGetBs_setUp {o : Outcomes} (ho : ¬ o.HalfOpen) (brokerId : Int) {c : Cell}
    (hidle : Idle c.bs) (hs : SetUp c.bs) : SetUp (final (localAmqpGetBs o brokerId) c).bs := by
  have still : ∀ {c' : Cell}, Still c.link c' → SetUp c'.bs := fun {c'} h => by
    have hconn : c'.bs.conn = c.bs.conn := h.conn
    rw [SetUp, hconn]
    exact hs
  cases hk : c.bs.conn with
  | some k =>
    refine wp_final (P := fun c' : Cell => SetUp c'.bs) ?_
    rw [localAmqpGetBs_live o brokerId hk]
    exact hs
  | none =>
    refine wp_final (P := fun c' : Cell => SetUp c'.bs) (wp_mono
      (localAmqpGetBs_connected o brokerId hk (hidle hk)) (fun _ c' h => ?_) (fun _ c' h => ?_))
    · rcases h with h | h
      · exact still h
      · obtain ⟨k, hk', -, hready⟩ := h.conn
        intro q hq
        obtain rfl : k = q := Option.some.inj (hk'.symm.trans hq)
        exact hready
    · rcases h with h | ⟨-, hhalf⟩
      · exact still h
      · exact absurd hhalf ho

/-- The connections of a session are set up, also after a step that raised and the abort
callback behind it, and `local_amqp_get_bs` keeps it so on its way out; a step writes and
acknowledges only on such connections. -/
theorem cached_connection_set_up {s : Session} (hs : Runs Uncancelled s) {st : Step}
    (ho : Uncancelled s st) (b : Int) :
    SetUp (s.entry b) ∧ SetUp ((next st s).entry b) ∧
    (∀ o : Outcomes, ¬ o.HalfOpen → ∀ c : Cell, Idle c.bs → SetUp c.bs →
      SetUp (final (localAmqpGetBs o b) c).bs) ∧
    WritesOn (fun k => k.ready = true) (logOf b (trace st s).log) :=
  ⟨hs.setUp b, Runs.setUp (.step st hs ho) b, fun _ hhalf _ hidle hset =>
    localAmqpGetBs_setUp hhalf b hidle hset, setUp_stable.writes setUp_writesReady (fun _ _ h => h) hs ho b⟩

/-- The broker refuses the login, and a cancel is pending at the warning about it. -/
def Outcomes.cancelledLogin : Outcomes :=
  { Outcomes.good with
    login := fun _ => ⟨.libraryException (-13), []⟩
    unwind := fun _ r => r.isHostFailure }

theorem uncancelled_good (s : Session) (action : Action) : Uncancelled s (.good action) := by
  rintro b ⟨-, n, r, -, hu⟩
  cases hu

theorem oneAcknowledged_uncancelled : Runs Uncancelled oneAcknowledged := by
  unfold oneAcknowledged
  exact .run (.init (Session.loaded_initial {} 0)) _ ⟨uncancelled_good _ _, trivial⟩

theorem oneAcknowledged_set_up :
    (oneAcknowledged.entry 1).conn.isSome = true ∧
    SetUp (oneAcknowledged.entry 1) ∧ SetUp ((next (.good (.publish (.to1 "b"))) oneAcknowledged).entry 1) ∧
    (∀ o : Outcomes, ¬ o.HalfOpen → ∀ c : Cell, Idle c.bs → SetUp c.bs →
      SetUp (final (localAmqpGetBs o 1) c).bs) ∧
    WritesOn (fun k => k.ready = true)
      (logOf 1 (trace (.good (.publish (.to1 "b"))) oneAcknowledged).log) :=
  ⟨oneAcknowledged_entry.2.2.1, cached_connection_set_up oneAcknowledged_uncancelled (uncancelled_good _ _) 1⟩

/-- The cancelled statement leaves a connection that is not logged in, the abort callback
keeps it, and the next publish is acknowledged on it. -/
theorem half_open_connection_used :
    ¬ ((∀ s, Runs (fun _ _ => True) s → ∀ b, SetUp (s.entry b)) ∨
      ∀ s, Runs (fun _ _ => True) s → ∀ st b,
        ∀ k ∈ acknowledgedOn (logOf b (trace st s).log), k.ready = true) := by
  have hreached : Runs (fun _ _ => True)
      (run next [⟨.publish (.to1 "a"), fun _ => .cancelledLogin⟩] (.loaded {} 0)) :=
    .run (.init (Session.loaded_initial _ _)) _ (Admits.always _ _)
  rintro (h | h)
  · have hready := h _ hreached 1 (Option.get _ (by decide +kernel)) (Option.some_get _).symm
    revert hready
    decide +kernel
  · have hall := h _ hreached (.good (.publish (.to1 "b"))) 1
    revert hall
    decide +kernel

end PgAmqp
