import PgAmqp.EntryInvariants

/-!
# What a publish call has written

The answer of a publish call is all that its caller learns, and the writes that came back
with status OK are what has left the backend. A call that returns true has made one such
write, a call that returns false none. A call that raises may have made one: a cancel
unwinds from the read that follows a mandatory autonomous publish.
-/
namespace PgAmqp

open ProgramLogic Transition

/-- The messages that were written to a channel with status OK, in order. -/
def writtenOn (channel : Nat) (log : List Event) : List Msg :=
  log.filterMap fun e => match e with
    | .basicPublish _ ch m .ok => if ch = channel then some m else none
    | _ => none

@[simp] theorem writtenOn_nil (channel : Nat) : writtenOn channel [] = [] := rfl

@[simp] theorem writtenOn_append (channel : Nat) (l l' : List Event) :
    writtenOn channel (l ++ l') = writtenOn channel l ++ writtenOn channel l' := by
  simp [writtenOn]

theorem writtenOn_writeless (channel : Nat) {evs : List Event} (h : Writeless evs) :
    writtenOn channel evs = [] := by
  simp only [writtenOn, List.filterMap_eq_nil_iff]
  intro e he
  have hn := h e he
  split
  · simp [Event.writesTo] at hn
  · rfl

theorem Quiet.writtenOn {c c' : Cell} (h : Quiet c c') (channel : Nat) :
    writtenOn channel c'.log = writtenOn channel c.log := by
  obtain ⟨evs, hl, hn⟩ := h
  rw [hl, writtenOn_append, writtenOn_writeless channel (.neutral hn), List.append_nil]

section Call

variable {o : Outcomes} {m : Msg} {channel : Nat} {ws : List Msg} {c : Cell} {redo : M Bool}

/-- A call returns after its message was written if it answers true, and otherwise not. -/
def SaysWritten (channel : Nat) (m : Msg) (ws : List Msg) (r : Bool) (c : Cell) : Prop :=
  writtenOn channel c.log = ws ++ if r = true then [m] else []

/-- A call raises before its message was written or after. -/
def MayHaveWritten (channel : Nat) (m : Msg) (ws : List Msg) (_ : Raised) (c : Cell) : Prop :=
  writtenOn channel c.log = ws ∨ writtenOn channel c.log = ws ++ [m]

/-- The jump back is made before anything was written, from an entry without a connection. -/
def Rejoins (channel : Nat) (m : Msg) (ws : List Msg) (redo : M Bool) : Prop :=
  ∀ c, writtenOn channel c.log = ws → Idle c.bs →
    wp redo (SaysWritten channel m ws) (MayHaveWritten channel m ws) c

theorem localAmqpDrainReturns_writes (channel : Nat) (ws : List Msg) (o : Outcomes) :
    Preserves (fun c => writtenOn channel c.log = ws) (localAmqpDrainReturns o) :=
  KeptByDrain.preserves (G := fun _ => True) {
    arrived := fun _ _ _ _ => trivial
    polled := fun _ h => h
    taken := fun _ _ _ _ h => h
    returned := fun c r _ h => by simpa [Cell.warned, writtenOn] using h
    noted := fun c h => by simpa [Cell.warned, writtenOn] using h
    blocked := fun _ _ h => h }

/-- A read keeps the connection, and writes nothing on any exit. -/
theorem drain_writes (h : writtenOn channel c.log = ws) (hk : c.bs.conn.isSome = true) :
    wp (localAmqpDrainReturns o) (fun _ c' => writtenOn channel c'.log = ws ∧ c'.bs.conn.isSome = true)
      (fun _ c' => writtenOn channel c'.log = ws) c := by
  refine wp_mono (wp_and (localAmqpDrainReturns_writes channel ws o c h) (localAmqpDrainReturns_reads o hk))
    (fun _ c' hc' => ⟨hc'.1, ?_⟩) fun _ _ hc' => hc'.1
  obtain ⟨k, hk⟩ := Option.isSome_iff_exists.mp hk
  obtain ⟨_, hscan, -⟩ := hc'.2.scanned
  obtain ⟨k', hk', -⟩ := hscan.conn k hk
  simp [hk']

theorem orRedo_writes (hredo : Rejoins channel m ws redo) {onceMore : Bool} {giveUp : M Bool}
    (h : writtenOn channel c.log = ws) (hk : c.bs.conn.isSome = true)
    (hgive : wp giveUp (SaysWritten channel m ws) (MayHaveWritten channel m ws) c) :
    wp (orRedo channel onceMore redo giveUp) (SaysWritten channel m ws) (MayHaveWritten channel m ws) c := by
  obtain ⟨k, hk⟩ := Option.isSome_iff_exists.mp hk
  refine wp_orRedo hk (fun _ c' hd => hredo c' ?_ fun _ => hd.uncommitted) fun _ => hgive
  exact (hd.quiet.writtenOn channel).trans h

theorem saysWritten_false (h : writtenOn channel c.log = ws) : SaysWritten channel m ws false c := by
  rw [SaysWritten, h]
  simp

theorem publishWritten_writes (hredo : Rejoins channel m ws redo) {onceMore : Bool} {k : Connection} {w : Write}
    (h : writtenOn channel c.log = ws ++ if w = .ok then [m] else []) (hk : c.bs.conn.isSome = true) :
    wp (publishWritten m channel onceMore redo k w) (SaysWritten channel m ws) (MayHaveWritten channel m ws) c := by
  unfold publishWritten
  rw [wp_ite]
  split
  · rename_i hw
    rw [if_neg hw, List.append_nil] at h
    refine orRedo_writes hredo h hk ?_
    rw [wp_bind, wp_setInerror]
    exact saysWritten_false h
  · rename_i hw
    rw [if_pos (not_not.mp hw)] at h
    rw [wp_bind, wp_record, wp_bind, wp_modifyBs]
    show writtenOn channel (c.log ++ [.acknowledged k channel m]) = _
    rw [writtenOn_append, h]
    simp [writtenOn]

theorem Cell.sent_writes (h : writtenOn channel c.log = ws) (k : Connection) :
    writtenOn channel (c.sent o k channel m).log = ws ++ if c.written o = .ok then [m] else [] := by
  rw [Cell.sent, Cell.recorded_log, Cell.ticked_log, writtenOn_append, h]
  cases c.written o <;> simp [writtenOn]

/-- The write, the poll after it, and what its status means. -/
theorem publishWrite_writes (hredo : Rejoins channel m ws redo) {onceMore : Bool}
    (h : writtenOn channel c.log = ws) :
    wp (publishWrite o m channel onceMore redo) (SaysWritten channel m ws) (MayHaveWritten channel m ws) c := by
  unfold publishWrite
  rw [wp_bind, wp_getBs]
  cases hk : c.bs.conn with
  | none => exact saysWritten_false h
  | some k =>
    dsimp only
    have hsent : writtenOn channel (c.buffered o k channel m).log =
        ws ++ if c.written o = .ok then [m] else [] := c.sent_writes h k
    rw [wp_bind, wp_amqpBasicPublish]
    unfold publishPoll
    rw [wp_bind, wp_ite]
    split
    · have hsome : (c.buffered o k channel m).bs.conn.isSome = true := rfl
      refine wp_seq (wp_mono (drain_writes hsent hsome) (fun _ _ h => h) fun _ c' hc' => ?_)
        fun _ c' hc' => publishWritten_writes hredo hc'.1 hc'.2
      rw [MayHaveWritten, hc']
      split
      · exact .inr rfl
      · exact .inl (List.append_nil ws)
    · exact publishWritten_writes hredo hsent rfl

theorem publishMode_writes (badMode : Option Int) :
    Preserves (fun c => writtenOn channel c.log = ws ∧ c.bs.conn.isSome = true) (publishMode o badMode) := by
  intro c h
  unfold publishMode
  cases badMode with
  | none => exact h
  | some mode =>
    have hw : writtenOn channel (c.warned (.ignoredDeliveryMode mode)).log = ws := by
      simpa [Cell.warned, writtenOn] using h.1
    dsimp only
    rw [wp_elog]
    split <;> exact ⟨hw, h.2⟩

theorem publishDrained_writes (hredo : Rejoins channel m ws redo) {onceMore : Bool} (brokerId : Int)
    (badMode : Option Int) (h : writtenOn channel c.log = ws) (hk : c.bs.conn.isSome = true) :
    wp (publishDrained o brokerId m badMode channel onceMore redo) (SaysWritten channel m ws)
      (MayHaveWritten channel m ws) c := by
  unfold publishDrained
  rw [wp_bind, wp_getBs, wp_ite]
  split
  · have hw : writtenOn channel ((c.recorded (.refused c.bs.conn)).warned (.publisherBlocked brokerId)).log = ws := by
      simpa [Cell.warned, writtenOn] using h
    rw [wp_bind, wp_record, wp_bind, wp_elog]
    split
    · exact .inl hw
    · exact saysWritten_false hw
  · exact wp_seq (wp_mono (publishMode_writes badMode c ⟨h, hk⟩) (fun _ _ h => h) fun _ _ h => .inl h.1)
      fun _ _ h => publishWrite_writes hredo h.1

theorem publishConnected_writes (hredo : Rejoins channel m ws redo) {onceMore : Bool} (brokerId : Int)
    (badMode : Option Int) (h : writtenOn channel c.log = ws) :
    wp (publishConnected o brokerId m badMode channel onceMore redo) (SaysWritten channel m ws)
      (MayHaveWritten channel m ws) c := by
  unfold publishConnected
  rw [wp_bind, wp_getBs, wp_ite]
  split
  · rename_i hconn
    refine wp_seq (wp_mono (drain_writes h hconn.1) (fun _ _ h => h) fun _ _ h => .inl h) fun r c' hc' => ?_
    rw [wp_ite]
    split
    · refine orRedo_writes hredo hc'.1 hc'.2 ?_
      dsimp only
      rw [wp_ite]
      split
      · exact saysWritten_false hc'.1
      · exact saysWritten_false hc'.1
    · exact publishDrained_writes hredo brokerId badMode hc'.1 hc'.2
  · exact saysWritten_false h

theorem localAmqpGetBs_writes (brokerId : Int) (h : writtenOn channel c.log = ws) (hi : Idle c.bs) :
    wp (localAmqpGetBs o brokerId) (fun _ c' => writtenOn channel c'.log = ws)
      (fun _ c' => writtenOn channel c'.log = ws) c := by
  have quiet : ∀ {c'}, Quiet c.link c' → writtenOn channel c'.log = ws := fun hq =>
    (hq.writtenOn channel).trans h
  cases hk : c.bs.conn with
  | some k =>
    rw [localAmqpGetBs_live o brokerId hk]
    exact h
  | none =>
    refine wp_mono (localAmqpGetBs_connected o brokerId hk (hi hk)) (fun _ c' hc' => ?_) fun _ c' hc' => ?_
    · exact hc'.elim (fun hs => quiet hs.quiet) fun hs => quiet hs.quiet
    · exact hc'.elim (fun hs => quiet hs.quiet) fun hs => quiet hs.1.quiet

theorem publishPass_writes (hredo : Rejoins channel m ws redo) (onceMore : Bool) (brokerId : Int)
    (badMode : Option Int) :
    Rejoins channel m ws (publishPass o brokerId m badMode channel onceMore redo) := by
  intro c h hi
  unfold publishPass
  exact wp_seq (wp_mono (localAmqpGetBs_writes brokerId h hi) (fun _ _ h => h) fun _ _ h => .inl h)
    fun _ _ h => publishConnected_writes hredo brokerId badMode h

/-- The whole call: what was written when it returned with `r`, or when it raised. -/
theorem pgAmqpPublishOpt_writes (o : Outcomes) (brokerId : Int) (a : PublishArgs) (channel : Nat)
    (h : c.log = []) (hi : Idle c.bs) :
    wp (pgAmqpPublishOpt o brokerId a channel)
      (SaysWritten channel ⟨c.backend.nextCall, a.content⟩ [])
      (MayHaveWritten channel ⟨c.backend.nextCall, a.content⟩ []) c := by
  unfold pgAmqpPublishOpt
  rw [wp_bind, wp_getGucs, wp_ite]
  split
  · rw [wp_bind, wp_elog]
    split
    · exact .inl (by simp [Cell.warned, h, writtenOn])
    · exact saysWritten_false (by simp [Cell.warned, h, writtenOn])
  · have hlog : writtenOn channel c.log = [] := by rw [h]; rfl
    have giveUp : Rejoins channel ⟨c.backend.nextCall, a.content⟩ [] (return false) :=
      fun _ h _ => saysWritten_false h
    have last : Rejoins channel ⟨c.backend.nextCall, a.content⟩ []
        (publishPass o brokerId ⟨c.backend.nextCall, a.content⟩ a.badDeliveryMode channel false (return false)) :=
      publishPass_writes giveUp false brokerId a.badDeliveryMode
    exact publishPass_writes last true brokerId a.badDeliveryMode c.numbered hlog hi

end Call

section Step

variable {s : Session} {o : Int → Outcomes}

/-- What a callback records of each entry, it records of all. -/
theorem forEachBs_records {P : Event → Prop} {f : Outcomes → M Unit}
    (hf : ∀ o c, c.backend.holdoff = true → wp (f o) (fun _ c' => c'.backend.holdoff = true ∧
      ∃ evs, c'.log = c.log ++ evs ∧ ∀ e ∈ evs, P e) (fun _ _ => False) c)
    (head : List BrokerState) (k : Backend) (hk : k.holdoff = true) :
    ∀ e ∈ (forEachBs f o head k).log.map Prod.snd, P e := by
  induction head generalizing k with
  | nil => simp [forEachBs]
  | cons e rest ih =>
    obtain ⟨u, c, hrun, hk', evs, hl, hP⟩ := wp_ok (hf (o e.brokerId) (Session.start e true k) hk)
    obtain rfl : c.log = evs := hl
    unfold forEachBs
    rw [hrun]
    intro ev hev
    rw [List.map_append, List.map_map] at hev
    rcases List.mem_append.mp hev with hev | hev
    · exact hP ev (by simpa [Function.comp_def] using hev)
    · exact ih c.backend hk' ev hev

/-- The abort callback behind a call that raised writes nothing. -/
theorem abortCurrent_writeless : Writeless ((s.abortCurrent o).2.map Prod.snd) := by
  unfold Session.abortCurrent
  split
  · refine forEachBs_records (fun o c hc => ?_) s.head { s.backend with holdoff := true } rfl
    refine wp_mono (amqpLocalSubxact_spec hc) (fun _ c' h => ?_) fun _ _ h => h
    obtain ⟨hframe, -, evs, hl, hn⟩ := h
    exact ⟨hframe.holdoff.trans hc, evs, hl, Writeless.neutral hn⟩
  · refine forEachBs_records (fun o c hc => ?_) s.head { s.backend with holdoff := true } rfl
    refine wp_mono (amqpLocalAbort_spec hc) (fun _ c' h => ?_) fun _ _ h => h
    obtain ⟨evs, hl, hw, -⟩ := h.log
    exact ⟨h.frame.holdoff.trans hc, evs, hl, hw⟩

/-- A step that publishes on channel 1 has written the message once if it returned true, not
at all if it returned false, and at most once if it raised. -/
theorem autonomousPublish_writes (hs : s.Shaped) (o : Int → Outcomes) {a : PublishArgs} {b : Int}
    (hb : a.brokerId = some b) :
    let m : Msg := ⟨s.backend.nextCall, a.content⟩
    let t := trace ⟨.autonomousPublish a, o⟩ s
    (∃ r, t.result = some r ∧ t.raised = none ∧
        writtenOn 1 (t.log.map Prod.snd) = if r = true then [m] else []) ∨
      t.result = none ∧ t.raised.isSome = true ∧
        (writtenOn 1 (t.log.map Prod.snd) = [] ∨ writtenOn 1 (t.log.map Prod.snd) = [m]) := by
  intro m t
  have ht : t = (s.call o b fun o => pgAmqpPublishOpt o b a 1).2 := by
    show (exec _ s).2 = _
    unfold exec
    dsimp only
    unfold Session.autonomousPublish
    rw [hb]
  have hx := pgAmqpPublishOpt_writes (c := s.cell b) (o b) b a 1 rfl (hs.idle b)
  have hmap : ∀ c : Cell, (c.log.map (b, ·)).map Prod.snd = c.log := fun c => by simp [Function.comp_def]
  unfold wp at hx
  rw [ht]
  cases hrun : pgAmqpPublishOpt (o b) b a 1 (s.cell b) with
  | ok r c =>
    rw [hrun] at hx
    rw [Session.call_ok hrun]
    have hx : writtenOn 1 c.log = [] ++ if r = true then [m] else [] := hx
    exact .inl ⟨r, rfl, rfl, (congrArg (writtenOn 1) (hmap c)).trans hx⟩
  | error e c =>
    rw [hrun] at hx
    rw [Session.call_error hrun]
    have hx : writtenOn 1 c.log = [] ∨ writtenOn 1 c.log = [m] := hx
    refine .inr ⟨rfl, rfl, ?_⟩
    rwa [List.map_append, hmap, writtenOn_append, writtenOn_writeless 1 abortCurrent_writeless,
      List.append_nil]

end Step

end PgAmqp
