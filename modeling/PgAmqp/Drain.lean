import PgAmqp.ConnectPaths

/-!
# Reading the pushed frames

`readFrames` says how `local_amqp_drain_returns` ends on a list of frames: it
depends on the frames, on the `blocked` flag and on the cancels, and on nothing
else. The specification of the loop is by induction on the frames. A read keeps
the connection with its buffer, and a close frame among those it took is noted
in nothing but its result.
-/
namespace PgAmqp

open ProgramLogic

/-- What a frame says about the broker taking messages. -/
def Frame.word : Frame → Option Bool
  | .connectionBlocked => some true
  | .connectionUnblocked => some false
  | _ => none

/-- How a read of frames ends. -/
inductive ReadEnd where
  /-- A warning raised. -/
  | unwound : ReadEnd
  /-- A close frame was read, and the frames behind it were not. -/
  | closed : ReadEnd
  /-- All frames were read. -/
  | through (warnings : Nat) (blocked : Bool) : ReadEnd
  deriving DecidableEq, Repr

/-- `n` counts the warnings of the call. -/
def readFrames (unwind : Nat → Report → Bool) (brokerId : Int) (n : Nat) (blocked : Bool) :
    List Frame → ReadEnd
  | [] => .through n blocked
  | .basicReturn r :: rest =>
    if unwind n (.returned brokerId r) then .unwound
    else readFrames unwind brokerId (n + 1) blocked rest
  | .connectionBlocked :: rest =>
    if blocked then readFrames unwind brokerId n true rest
    else if unwind n (.blocked brokerId) then .unwound
    else readFrames unwind brokerId (n + 1) true rest
  | .connectionUnblocked :: rest => readFrames unwind brokerId n false rest
  | .channelClose _ :: _ => .closed
  | .connectionClose :: _ => .closed
  | .other :: rest => readFrames unwind brokerId n blocked rest

theorem readFrames_closed {unwind : Nat → Report → Bool} {brokerId : Int} {fs : List Frame}
    {n : Nat} {blocked : Bool} (h : readFrames unwind brokerId n blocked fs = .closed) :
    hasClose fs = true := by
  fun_induction readFrames unwind brokerId n blocked fs <;> simp_all [hasClose, Frame.isClose]

theorem readFrames_through {unwind : Nat → Report → Bool} {brokerId : Int} {fs : List Frame}
    {n m : Nat} {blocked b : Bool} (h : readFrames unwind brokerId n blocked fs = .through m b) :
    hasClose fs = false := by
  fun_induction readFrames unwind brokerId n blocked fs <;> simp_all [hasClose, Frame.isClose]

/-- The `blocked` flag after all of these frames were read. -/
def blockedBy (blocked : Bool) (fs : List Frame) : Bool := fs.foldl (fun b f => f.word.getD b) blocked

theorem readFrames_blocked {unwind : Nat → Report → Bool} {brokerId : Int} {fs : List Frame}
    {n m : Nat} {blocked b : Bool} (h : readFrames unwind brokerId n blocked fs = .through m b) :
    b = blockedBy blocked fs := by
  fun_induction readFrames unwind brokerId n blocked fs <;> simp_all [blockedBy, Frame.word]

/-- How a read of these frames ends in a cell. -/
def Cell.reads (c : Cell) (o : Outcomes) (fs : List Frame) : ReadEnd :=
  readFrames (fun n r => !c.backend.holdoff && o.unwind n r) c.bs.brokerId (c.counts .elog)
    c.bs.blocked fs

theorem Cell.warned_counts (c : Cell) (r : Report) :
    (c.warned r).counts .elog = c.counts .elog + 1 := c.ticked_same .elog

theorem Cell.reads_basicReturn (c : Cell) (o : Outcomes) (r : BasicReturn) (fs : List Frame) :
    c.reads o (.basicReturn r :: fs) =
      if c.unwinds o (.returned c.bs.brokerId r) then .unwound
      else (c.warned (.returned c.bs.brokerId r)).reads o fs := by
  unfold Cell.reads
  rw [c.warned_counts, readFrames]
  rfl

theorem Cell.reads_connectionBlocked (c : Cell) (o : Outcomes) (fs : List Frame)
    (h : c.bs.blocked = false) :
    c.reads o (.connectionBlocked :: fs) =
      if c.unwinds o (.blocked c.bs.brokerId) then .unwound
      else ((c.warned (.blocked c.bs.brokerId)).modified fun bs =>
        { bs with blocked := true }).reads o fs := by
  unfold Cell.reads
  rw [Cell.modified_counts, c.warned_counts, readFrames, h]
  rfl

theorem Cell.reads_blockedAgain (c : Cell) (o : Outcomes) (fs : List Frame)
    (h : c.bs.blocked = true) :
    c.reads o (.connectionBlocked :: fs) =
      (c.modified fun bs => { bs with blocked := true }).reads o fs := by
  unfold Cell.reads
  rw [readFrames, if_pos h]
  rfl

/-- The frames that wait on the entry's connection. -/
def BrokerState.pending (bs : BrokerState) : List Frame := (bs.conn.map Connection.queue).getD []

/-- Frames of the connection were read, and a close frame among them if `closed`. -/
structure Scanned (closed : Bool) (c c' : Cell) : Prop where
  frame : SameEntry c c'
  quiet : Quiet c c'
  conn : ∀ k, c.bs.conn = some k →
    ∃ k', c'.bs.conn = some k' ∧ k.Keeps k' ∧ k'.closeSeen = (k.closeSeen || closed)
  uncommitted : c'.bs.uncommitted = c.bs.uncommitted
  inerror : c'.bs.inerror = c.bs.inerror
  counts : ∀ j, j ≠ .elog → c'.counts j = c.counts j

theorem Scanned.refl (c : Cell) : Scanned false c c :=
  ⟨.refl c, .refl c, fun k hk => ⟨k, hk, .refl k, (Bool.or_false _).symm⟩, rfl, rfl,
    fun _ _ => rfl⟩

theorem Scanned.trans {closed : Bool} {c c' c'' : Cell} (h : Scanned false c c')
    (h' : Scanned closed c' c'') : Scanned closed c c'' where
  frame := h.frame.trans h'.frame
  quiet := h.quiet.trans h'.quiet
  conn := by
    intro k hk
    obtain ⟨k', hk', hkeep, hs⟩ := h.conn k hk
    obtain ⟨k'', hk'', hkeep', hs'⟩ := h'.conn k' hk'
    exact ⟨k'', hk'', hkeep.trans hkeep', by rw [hs', hs, Bool.or_false]⟩
  uncommitted := h'.uncommitted.trans h.uncommitted
  inerror := h'.inerror.trans h.inerror
  counts := fun j hj => (h'.counts j hj).trans (h.counts j hj)

theorem Scanned.warned (c : Cell) (r : Report) (hr : r.isLoss = false) :
    Scanned false c (c.warned r) where
  frame := (Still.warned c r hr).frame
  quiet := (Still.warned c r hr).quiet
  conn := (Scanned.refl c).conn
  uncommitted := rfl
  inerror := rfl
  counts := fun _ hj => c.ticked_other hj

theorem Scanned.blocked (c : Cell) (b : Bool) :
    Scanned false c (c.modified fun bs => { bs with blocked := b }) :=
  ⟨⟨rfl, rfl, Nat.le_refl _, id⟩, (Quiet.refl c).log_eq rfl, (Scanned.refl c).conn, rfl, rfl,
    fun _ _ => rfl⟩

/-- The cell after one frame was taken off the queue. -/
def Cell.taken (c : Cell) (f : Frame) (rest : List Frame) : Cell := c.modified fun bs =>
  { bs with conn := bs.conn.map fun k => { k with queue := rest, consumed := k.consumed ++ [f] } }

@[simp] theorem wp_takeFrame (f : Frame) (rest : List Frame) {c : Cell} {Q : Unit → Cell → Prop}
    {E : Raised → Cell → Prop} : wp (takeFrame f rest) Q E c = Q () (c.taken f rest) := rfl

theorem Scanned.taken (c : Cell) (f : Frame) (rest : List Frame) :
    Scanned f.isClose c (c.taken f rest) := by
  refine ⟨⟨rfl, rfl, Nat.le_refl _, id⟩, (Quiet.refl c).log_eq rfl, ?_, rfl, rfl, fun _ _ => rfl⟩
  intro k hk
  refine ⟨{ k with queue := rest, consumed := k.consumed ++ [f] }, by simp [Cell.taken, hk],
    ⟨rfl, rfl, rfl, rfl⟩, ?_⟩
  simp [Connection.closeSeen, hasClose]

theorem Cell.taken_pending (c : Cell) (f : Frame) (rest : List Frame) {k : Connection}
    (hk : c.bs.conn = some k) : (c.taken f rest).bs.pending = rest := by
  simp [Cell.taken, BrokerState.pending, hk]

/-- What the loop returns with, by the end of the read. -/
def ReadPost (o : Outcomes) (alive : Bool) (c : Cell) (fs : List Frame) (r : Int) (c' : Cell) : Prop :=
  match c.reads o fs with
  | .unwound => False
  | .closed => r = -1 ∧ Scanned true c c'
  | .through n blocked => r = (if alive then 0 else -1) ∧ Scanned false c c' ∧
      c'.counts .elog = n ∧ c'.bs.blocked = blocked ∧ c'.bs.pending = []

/-- What the loop raises with. -/
def ReadRaise (o : Outcomes) (c : Cell) (fs : List Frame) (c' : Cell) : Prop :=
  c.reads o fs = .unwound ∧ Scanned false c c'

/-- One frame that leads on to the rest of the loop. -/
theorem ReadPost.of_step {o : Outcomes} {alive : Bool} {c c₁ : Cell} {f : Frame} {fs : List Frame}
    {x : M Int} (h : Scanned false c c₁) (hr : c.reads o (f :: fs) = c₁.reads o fs)
    (hx : wp x (ReadPost o alive c₁ fs) (fun _ => ReadRaise o c₁ fs) c₁) :
    wp x (ReadPost o alive c (f :: fs)) (fun _ => ReadRaise o c (f :: fs)) c₁ := by
  refine wp_mono hx (fun r c' h' => ?_) (fun _ c' h' => ?_)
  · unfold ReadPost at h' ⊢
    rw [hr]
    cases hend : c₁.reads o fs with
    | unwound => simp only [hend] at h'
    | closed =>
      simp only [hend] at h' ⊢
      exact ⟨h'.1, h.trans h'.2⟩
    | through n blocked =>
      simp only [hend] at h' ⊢
      exact ⟨h'.1, h.trans h'.2.1, h'.2.2⟩
  · exact ⟨hr.trans h'.1, h.trans h'.2⟩

theorem localAmqpDrainLoop_reads (o : Outcomes) (alive : Bool) (fs : List Frame) {c : Cell}
    (hc : c.bs.conn.isSome = true) (hq : fs = [] → c.bs.pending = []) :
    wp (localAmqpDrainLoop o alive fs) (ReadPost o alive c fs) (fun _ => ReadRaise o c fs) c := by
  induction fs generalizing c with
  | nil => exact ⟨rfl, .refl c, rfl, rfl, hq rfl⟩
  | cons f rest ih =>
    unfold localAmqpDrainLoop
    rw [wp_bind, wp_takeFrame]
    obtain ⟨k, hk⟩ := Option.isSome_iff_exists.mp hc
    have hpend : (c.taken f rest).bs.pending = rest := c.taken_pending f rest hk
    have htaken : (c.taken f rest).bs.conn.isSome = true := by simp [Cell.taken, hk]
    have ht := Scanned.taken c f rest
    cases f with
    | basicReturn r =>
      dsimp only
      rw [wp_bind, wp_getBs, wp_bind, wp_elog]
      have hend := (c.taken (.basicReturn r) rest).reads_basicReturn o r rest
      have hw := ht.trans (.warned _ (.returned c.bs.brokerId r) rfl)
      split
      · rename_i hu
        exact ⟨hend.trans (if_pos hu), hw⟩
      · rename_i hu
        exact ReadPost.of_step hw (hend.trans (if_neg hu)) (ih htaken (fun h => hpend.trans h))
    | connectionBlocked =>
      dsimp only
      rw [wp_bind, wp_getBs, wp_ite]
      cases hb : (c.taken .connectionBlocked rest).bs.blocked with
      | true =>
        have hend := (c.taken .connectionBlocked rest).reads_blockedAgain o rest hb
        rw [if_neg (by simp), wp_bind, wp_modifyBs]
        exact ReadPost.of_step (ht.trans (.blocked _ true)) hend (ih htaken (fun h => hpend.trans h))
      | false =>
        have hend := (c.taken .connectionBlocked rest).reads_connectionBlocked o rest hb
        have hw := ht.trans (.warned _ (.blocked c.bs.brokerId) rfl)
        rw [if_pos (by simp), wp_bind, wp_elog]
        split
        · rename_i hu
          exact ⟨hend.trans (if_pos hu), hw⟩
        · rename_i hu
          rw [wp_bind, wp_modifyBs]
          exact ReadPost.of_step (hw.trans (.blocked _ true)) (hend.trans (if_neg hu))
            (ih htaken (fun h => hpend.trans h))
    | connectionUnblocked =>
      dsimp only
      rw [wp_bind, wp_modifyBs]
      refine ReadPost.of_step (ht.trans (.blocked _ false)) ?_ (ih htaken (fun h => hpend.trans h))
      rfl
    | channelClose n => exact ⟨rfl, ht⟩
    | connectionClose => exact ⟨rfl, ht⟩
    | other => exact ReadPost.of_step ht rfl (ih htaken (fun h => hpend.trans h))

/-- The frames that the next read of a cell takes. -/
def Cell.arrived (c : Cell) (o : Outcomes) : List Frame :=
  c.bs.pending ++ (o.poll (c.counts .poll)).arrivals

theorem localAmqpDrainReturns_reads (o : Outcomes) {c : Cell} (hc : c.bs.conn.isSome = true) :
    wp (localAmqpDrainReturns o)
      (ReadPost o (o.poll (c.counts .poll)).alive (c.ticked .poll) (c.arrived o))
      (fun _ => ReadRaise o (c.ticked .poll) (c.arrived o)) c := by
  obtain ⟨k, hk⟩ := Option.isSome_iff_exists.mp hc
  have hp : c.bs.pending = k.queue := by simp [BrokerState.pending, hk]
  unfold localAmqpDrainReturns
  rw [wp_bind, wp_getBs, hk]
  dsimp only
  rw [wp_bind, wp_tick, ← hp]
  refine localAmqpDrainLoop_reads o _ (c.arrived o) hc fun he => ?_
  exact (List.append_eq_nil_iff.mp he).1

/-- What each part of a drain keeps, where its frames are `G`. -/
structure KeptByDrain (o : Outcomes) (G : Frame → Prop) (P : Cell → Prop) : Prop where
  arrived : ∀ c, P c → ∀ f ∈ c.arrived o, G f
  polled : ∀ c, P c → P (c.ticked .poll)
  taken : ∀ c f rest, (∀ f' ∈ rest, G f') → P c → P (c.taken f rest)
  returned : ∀ c r, G (.basicReturn r) → P c → P (c.warned (.returned c.bs.brokerId r))
  noted : ∀ c, P c → P (c.warned (.blocked c.bs.brokerId))
  blocked : ∀ c b, P c → P (c.modified fun bs => { bs with blocked := b })

section KeptByDrain

variable {o : Outcomes} {G : Frame → Prop} {P : Cell → Prop}

theorem KeptByDrain.loop (h : KeptByDrain o G P) (alive : Bool) (fs : List Frame) (hfs : ∀ f ∈ fs, G f) :
    Keeps (· = .canceled) P (localAmqpDrainLoop o alive fs) := by
  induction fs with
  | nil => exact .pure _
  | cons f rest ih =>
    obtain ⟨hf, hrest⟩ := List.forall_mem_cons.mp hfs
    have ih := ih hrest
    have flag : ∀ b, Keeps (· = .canceled) P (modifyBs fun bs => { bs with blocked := b }) :=
      fun b c => h.blocked c b
    refine .bind (x := takeFrame f rest) (fun c => h.taken c f rest hrest) fun _ => ?_
    intro c hc
    cases f with
    | basicReturn r =>
      dsimp only
      have hw := h.returned c r hf hc
      rw [wp_bind, wp_getBs, wp_bind, wp_elog]
      split
      · exact ⟨rfl, hw⟩
      · exact ih _ hw
    | connectionBlocked =>
      dsimp only
      have note : Keeps (· = .canceled) P (do
          modifyBs fun bs => { bs with blocked := true }
          localAmqpDrainLoop o alive rest) := .bind (flag true) fun _ => ih
      have hw := h.noted c hc
      rw [wp_bind, wp_getBs, wp_ite]
      split
      · rw [wp_bind, wp_elog]
        split
        · exact ⟨rfl, hw⟩
        · exact note _ hw
      · exact note c hc
    | connectionUnblocked => exact Keeps.bind (flag false) (fun _ => ih) c hc
    | channelClose => exact hc
    | connectionClose => exact hc
    | other => exact ih c hc

/-- A drain keeps what its parts keep, and raises only by a cancel. -/
theorem KeptByDrain.keeps (h : KeptByDrain o G P) : Keeps (· = .canceled) P (localAmqpDrainReturns o) := by
  intro c hc
  have hfs := h.arrived c hc
  unfold localAmqpDrainReturns
  rw [wp_bind, wp_getBs]
  unfold Cell.arrived BrokerState.pending at hfs
  cases hk : c.bs.conn with
  | none => exact hc
  | some k =>
    rw [hk] at hfs
    exact h.loop _ _ hfs _ (h.polled c hc)

theorem KeptByDrain.preserves (h : KeptByDrain o G P) : Preserves P (localAmqpDrainReturns o) :=
  fun c hc => wp_mono (h.keeps c hc) (fun _ _ h => h) fun _ _ h => h.2

end KeptByDrain

theorem Cell.ticked_reads (c : Cell) (o : Outcomes) (fs : List Frame) {k : Call} (hk : k ≠ .elog) :
    (c.ticked k).reads o fs = c.reads o fs := by
  unfold Cell.reads
  rw [c.ticked_other hk.symm]
  rfl

/-- A read that returned took frames of the connection, among them perhaps a close. -/
theorem ReadPost.scanned {o : Outcomes} {alive : Bool} {c c' : Cell} {fs : List Frame} {r : Int}
    (h : ReadPost o alive c fs r c') :
    ∃ closed, Scanned closed c c' ∧ (closed = true → hasClose fs = true) := by
  unfold ReadPost at h
  cases hend : c.reads o fs with
  | unwound => simp only [hend] at h
  | closed =>
    simp only [hend] at h
    exact ⟨true, h.2, fun _ => readFrames_closed hend⟩
  | through n b =>
    simp only [hend] at h
    exact ⟨false, h.2.1, by simp⟩

theorem ReadPost.ne_unwound {o : Outcomes} {alive : Bool} {c c' : Cell} {fs : List Frame} {r : Int}
    (h : ReadPost o alive c fs r c') : c.reads o fs ≠ .unwound := by
  intro hend
  unfold ReadPost at h
  simp only [hend] at h

/-- Where the read found the connection usable it took every frame, and none was a close. -/
structure Usable (o : Outcomes) (alive : Bool) (c : Cell) (fs : List Frame) (c' : Cell) : Prop where
  alive : alive = true
  scanned : Scanned false c c'
  ended : c.reads o fs = .through (c'.counts .elog) c'.bs.blocked
  pending : c'.bs.pending = []

theorem ReadPost.usable {o : Outcomes} {alive : Bool} {c c' : Cell} {fs : List Frame}
    (h : ReadPost o alive c fs 0 c') : Usable o alive c fs c' := by
  unfold ReadPost at h
  cases hend : c.reads o fs with
  | unwound => simp only [hend] at h
  | closed =>
    simp only [hend] at h
    exact absurd h.1 (by decide)
  | through n b =>
    simp only [hend] at h
    obtain ⟨hr, hs, rfl, rfl, hp⟩ := h
    refine ⟨?_, hs, hend, hp⟩
    cases alive with
    | true => rfl
    | false => exact absurd hr (by decide)

/-- Where it did not, a close was among the frames or the connection is dead. -/
theorem ReadPost.failed {o : Outcomes} {alive : Bool} {c c' : Cell} {fs : List Frame} {r : Int}
    (h : ReadPost o alive c fs r c') (hr : r ≠ 0) :
    c.reads o fs = .closed ∨ alive = false ∧ ∃ n b, c.reads o fs = .through n b := by
  unfold ReadPost at h
  cases hend : c.reads o fs with
  | unwound => simp only [hend] at h
  | closed => exact .inl rfl
  | through n b =>
    simp only [hend] at h
    cases alive with
    | true => exact absurd h.1 hr
    | false => exact .inr ⟨rfl, n, b, rfl⟩

/-- With interrupts held off no read unwinds. -/
theorem reads_ne_unwound {c : Cell} (o : Outcomes) (fs : List Frame) (h : c.backend.holdoff = true) :
    c.reads o fs ≠ .unwound := by
  unfold Cell.reads
  rw [h]
  generalize c.counts .elog = n
  generalize c.bs.blocked = b
  fun_induction readFrames _ _ n b fs <;> simp_all

section Paths

variable {F : Faults} {closed : Bool} {c c' c'' : Cell} {k : Connection}

theorem Path.silent (hf : SameEntry c c') (hq : Quiet c c') (hc : c'.bs.conn = c.bs.conn)
    (hu : c'.bs.uncommitted = c.bs.uncommitted) (he : c'.bs.inerror = c.bs.inerror) :
    Path F c c' := by
  obtain ⟨evs, hl, hn⟩ := hq
  exact .single ⟨hf, evs, hl, .silent evs hn hc hu he⟩

/-- The record of a cell is one move, and what was done to its connection another. -/
theorem Path.logged (hq : Quiet c c') : Path F c { c with log := c'.log } :=
  .silent ⟨rfl, rfl, Nat.le_refl _, id⟩ hq rfl rfl rfl

/-- The connection is kept, and no close frame was read from it. -/
structure Held (c c' : Cell) : Prop where
  frame : SameEntry c c'
  quiet : Quiet c c'
  conn : ∀ k, c.bs.conn = some k →
    ∃ k', c'.bs.conn = some k' ∧ k.Keeps k' ∧ k'.closeSeen = k.closeSeen
  uncommitted : c'.bs.uncommitted = c.bs.uncommitted
  inerror : c'.bs.inerror = c.bs.inerror

theorem Scanned.held (h : Scanned false c c') : Held c c' := by
  refine ⟨h.frame, h.quiet, fun k hk => ?_, h.uncommitted, h.inerror⟩
  obtain ⟨k', hk', hkeep, hs⟩ := h.conn k hk
  exact ⟨k', hk', hkeep, hs.trans (Bool.or_false _)⟩

theorem Still.held (h : Still c c') : Held c c' :=
  ⟨h.frame, h.quiet, fun k hk => ⟨k, h.conn.trans hk, .refl k, rfl⟩, h.uncommitted, h.inerror⟩

theorem Held.polled (c : Cell) : Held c (c.ticked .poll) :=
  ⟨⟨rfl, rfl, Nat.le_refl _, id⟩, (Quiet.refl c).log_eq rfl, fun k hk => ⟨k, hk, .refl k, rfl⟩, rfl,
    rfl⟩

theorem Held.trans (h : Held c c') (h' : Held c' c'') : Held c c'' := by
  refine ⟨h.frame.trans h'.frame, h.quiet.trans h'.quiet, fun k hk => ?_,
    h'.uncommitted.trans h.uncommitted, h'.inerror.trans h.inerror⟩
  obtain ⟨k', hk', hkeep, hs⟩ := h.conn k hk
  obtain ⟨k'', hk'', hkeep', hs'⟩ := h'.conn k' hk'
  exact ⟨k'', hk'', hkeep.trans hkeep', hs'.trans hs⟩

theorem Held.path (h : Held c c') (hk : c.bs.conn = some k) : Path F c c' := by
  obtain ⟨k', hk', hkeep, hs⟩ := h.conn k hk
  exact (Path.logged h.quiet).tail ⟨⟨h.frame.brokerId, h.frame.holdoff, h.frame.nextCall,
    h.frame.linked⟩, [], (List.append_nil _).symm, .read k k' hk hk' hkeep (.inl hs) h.uncommitted
    h.inerror⟩

theorem Scanned.path (h : Scanned closed c c') (hk : c.bs.conn = some k)
    (hf : closed = true → F.forgetful) : Path F c c' := by
  obtain ⟨k', hk', hkeep, hs⟩ := h.conn k hk
  refine (Path.logged h.quiet).tail ⟨⟨h.frame.brokerId, h.frame.holdoff, h.frame.nextCall,
    h.frame.linked⟩, [], (List.append_nil _).symm, .read k k' hk hk' hkeep ?_ h.uncommitted h.inerror⟩
  cases closed with
  | false => exact .inl (hs.trans (Bool.or_false _))
  | true => exact .inr (hf rfl)

/-- The connection is still there and set up as it was. -/
structure Altered (c c' : Cell) : Prop where
  frame : SameEntry c c'
  quiet : Quiet c c'
  conn : ∀ k, c.bs.conn = some k → ∃ k', c'.bs.conn = some k' ∧ k'.ready = k.ready
  uncommitted : c'.bs.uncommitted = c.bs.uncommitted
  inerror : c'.bs.inerror = c.bs.inerror

theorem Scanned.altered (h : Scanned closed c c') : Altered c c' := by
  refine ⟨h.frame, h.quiet, fun k hk => ?_, h.uncommitted, h.inerror⟩
  obtain ⟨k', hk', hkeep, -⟩ := h.conn k hk
  exact ⟨k', hk', hkeep.ready⟩

theorem Held.altered (h : Held c c') : Altered c c' := by
  refine ⟨h.frame, h.quiet, fun k hk => ?_, h.uncommitted, h.inerror⟩
  obtain ⟨k', hk', hkeep, -⟩ := h.conn k hk
  exact ⟨k', hk', hkeep.ready⟩

theorem Altered.trans (h : Altered c c') (h' : Altered c' c'') : Altered c c'' := by
  refine ⟨h.frame.trans h'.frame, h.quiet.trans h'.quiet, fun k hk => ?_,
    h'.uncommitted.trans h.uncommitted, h'.inerror.trans h.inerror⟩
  obtain ⟨k', hk', hr⟩ := h.conn k hk
  obtain ⟨k'', hk'', hr'⟩ := h'.conn k' hk'
  exact ⟨k'', hk'', hr'.trans hr⟩

/-- The error flag is raised over what was done to the connection. -/
theorem Altered.flagged (h : Altered c c') (hk : c.bs.conn = some k) (hf : F.flagged) :
    Path F c (c'.modified fun bs => { bs with inerror := true }) := by
  obtain ⟨k', hk', hready⟩ := h.conn k hk
  exact (Path.logged h.quiet).tail ⟨⟨h.frame.brokerId, h.frame.holdoff, h.frame.nextCall,
    h.frame.linked⟩, [], (List.append_nil _).symm, .flag k k' hk hk' hready h.uncommitted rfl hf⟩

/-- The connection is dropped after what was done to it. -/
theorem Altered.dropped (h : Altered c c') (hd : Dropped c' c'') (hk : c.bs.conn = some k)
    (hl : c.bs.uncommitted = 0 ∨ F.lossy) : Path F c c'' := by
  obtain ⟨evs, he, hn⟩ := h.quiet.trans hd.quiet
  exact .single ⟨h.frame.trans hd.frame, evs, he, .drop k evs hn hk hd.conn hl hd.uncommitted
    (hd.inerror.trans h.inerror)⟩

end Paths

end PgAmqp
