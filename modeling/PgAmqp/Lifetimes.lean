import Mathlib.Algebra.Order.Group.Multiset
import PgAmqp.Handles
import PgAmqp.Outputs
import PgAmqp.Trails

/-!
# The lifetimes of connections

A connection is made by one entry, and is a resource of the library until it is destroyed.
Each entry uses and destroys only the connection it holds: every change of an entry keeps
to that, so does every step of a backend, and a cancel that unwinds from the middle of a
call makes no difference. `amqp_atexit` destroys what is still held when the backend exits.
-/
namespace PgAmqp

open ProgramLogic Transition Handles

/-- What an event does to a connection. -/
def Event.deed : Event → Option Deed
  | .rpc _ k _ => some (.use k.id)
  | .basicPublish k _ _ _ => some (.use k.id)
  | .destroyed k => some (.free k.id)
  | .warning _ => none
  | .socketOpen _ _ _ => none
  | .acknowledged _ _ _ => none
  | .refused _ => none

/-- The connection that an entry holds. -/
def BrokerState.held (bs : BrokerState) : Multiset Nat :=
  match bs.conn with
  | none => 0
  | some k => {k.id}

/-- The connections that the entries of a list hold. -/
def heldBy (head : List BrokerState) : Multiset Nat := (head.map BrokerState.held).sum

@[simp] theorem heldBy_nil : heldBy [] = 0 := rfl

@[simp] theorem heldBy_cons (e : BrokerState) (rest : List BrokerState) :
    heldBy (e :: rest) = e.held + heldBy rest := by
  simp [heldBy]

theorem BrokerState.held_none {bs : BrokerState} (h : bs.conn = none) : bs.held = 0 := by
  simp [held, h]

theorem BrokerState.held_some {bs : BrokerState} {k : Connection} (h : bs.conn = some k) :
    bs.held = k.id ::ₘ 0 := by
  simp [held, h]

@[simp] theorem Connection.answered_id (k : Connection) (kind : Rpc) (a : Answer) :
    (k.answered kind a).id = k.id := by
  unfold answered Rpc.effect
  split
  · split <;> rfl
  · rfl

@[simp] theorem Connection.written_id (k : Connection) (channel : Nat) (m : Msg) (w : Write) :
    (k.written channel m w).id = k.id := by
  unfold written
  split <;> rfl

theorem Cell.timed_held (c : Cell) (ms : Nat) : (c.timed ms).bs.held = c.bs.held := by
  cases h : c.bs.conn <;> simp [timed, BrokerState.held, h, Connection.setTimeout]

theorem Cell.taken_held (c : Cell) (f : Frame) (rest : List Frame) : (c.taken f rest).bs.held = c.bs.held := by
  cases h : c.bs.conn <;> simp [taken, BrokerState.held, h]

/-- What happens to a cell is lawful for its entry. -/
def Handled (c c' : Cell) : Prop := ∃ evs, c'.log = c.log ++ evs ∧
  Lawful Event.deed c.bs.held c.backend.nextConn evs c'.bs.held c'.backend.nextConn

section Handled

variable {L : Lapses} {o : Outcomes} {p q : Stage × Cell} {c c' c'' : Cell}

theorem Handled.refl (c : Cell) : Handled c c := ⟨[], by simp, .done⟩

theorem Handled.trans (h : Handled c c') (h' : Handled c' c'') : Handled c c'' := by
  obtain ⟨evs, hl, hd⟩ := h
  obtain ⟨evs', hl', hd'⟩ := h'
  exact ⟨evs ++ evs', by rw [hl', hl, List.append_assoc], hd.trans hd'⟩

/-- The connection is left alone. -/
theorem Handled.quiet (evs : List Event) (hl : c'.log = c.log ++ evs) (he : ∀ e ∈ evs, e.deed = none)
    (hb : c'.bs.held = c.bs.held) (hn : c'.backend.nextConn = c.backend.nextConn) : Handled c c' := by
  refine ⟨evs, hl, ?_⟩
  rw [hb, hn]
  exact .quiet he

/-- A change that records nothing and leaves the connection where it is. -/
theorem Handled.same (hl : c'.log = c.log) (hb : c'.bs.held = c.bs.held)
    (hn : c'.backend.nextConn = c.backend.nextConn) : Handled c c' :=
  .quiet [] (by rw [hl, List.append_nil]) (by simp) hb hn

/-- The connection of the entry is used. -/
theorem Handled.used {e : Event} {k : Connection} (hk : c.bs.conn = some k) (hl : c'.log = c.log ++ [e])
    (he : e.deed = some (.use k.id)) (hb : c'.bs.held = c.bs.held)
    (hn : c'.backend.nextConn = c.backend.nextConn) : Handled c c' := by
  refine ⟨[e], hl, ?_⟩
  rw [hb, hn, BrokerState.held_some hk]
  exact .use k.id he .done

theorem Handled.dropped {k : Connection} (hk : c.bs.conn = some k) : Handled c (c.dropped k) := by
  refine ⟨[.destroyed k], rfl, ?_⟩
  rw [BrokerState.held_some hk]
  exact .free k.id rfl .done

theorem Handled.closed {k : Connection} (hk : c.bs.conn = some k) : Handled c (c.closed k) := by
  refine ⟨[.rpc .connectionClose k.closing .none, .destroyed k.closing], by simp [Cell.closed, Cell.dropped], ?_⟩
  rw [BrokerState.held_some hk]
  exact .use k.id rfl (.free k.id rfl .done)

theorem Handled.dialed (hc : c.bs.conn = none) : Handled c c.dialed := by
  refine ⟨[], by simp [Cell.dialed, Cell.allocated], ?_⟩
  rw [BrokerState.held_none hc]
  exact .make .done

theorem Serve.handled (h : Serve L p q) : Handled p.2 q.2 := by
  cases h with
  | link => exact .same rfl rfl rfl
  | tick k => exact .same rfl rfl rfl
  | warn r _ => exact .quiet [.warning r] rfl (by simp [Event.deed]) rfl rfl
  | number => exact .same rfl rfl rfl
  | @hear _ c f rest _ _ =>
    refine .quiet (c.noted f) (Cell.heard_log ..) (fun e he => ?_) ?_ (by simp)
    · obtain ⟨r, rfl⟩ := c.noted_warning f he
      rfl
    · rw [Cell.heard_bs]
      exact c.taken_held f rest
  | @mishear _ c rest _ _ _ =>
    exact .quiet [.warning (.blocked c.bs.brokerId)] rfl (by simp [Event.deed])
      (c.taken_held .connectionBlocked rest) rfl
  | declare k d a hk =>
    refine .used hk rfl rfl ?_ rfl
    rw [BrokerState.held_some hk]
    simp [Cell.asked, BrokerState.held]
  | write k channel m w hk _ =>
    refine .used hk rfl rfl ?_ rfl
    rw [BrokerState.held_some hk]
    simp [Cell.wrote, BrokerState.held]
  | @refuse c _ _ => exact .quiet [.refused c.bs.conn] rfl (by simp [Event.deed]) rfl rfl
  | accept k channel m _ => exact .quiet [.acknowledged k channel m] rfl (by simp [Event.deed]) rfl rfl
  | drop k hk => exact .dropped hk
  | inerror b => exact .same rfl rfl rfl
  | settle => exact .same rfl rfl rfl
  | flush => exact .same rfl (Cell.timed_held ..) rfl
  | finish k kind a hk _ =>
    refine .used hk rfl rfl ?_ rfl
    rw [BrokerState.held_some hk]
    simp [Cell.asked, BrokerState.held]
  | restore => exact .same rfl (Cell.timed_held ..) rfl

theorem Dial.handled (h : Dial L o p q) : Handled p.2 q.2 := by
  cases h with
  | fill => exact .same rfl rfl rfl
  | turn => exact .same rfl rfl rfl
  | new hc _ => exact .dialed hc
  | «open» ok => exact .quiet [.socketOpen _ _ ok] rfl (by simp [Event.deed]) rfl rfl
  | shake n => exact .same rfl (Cell.timed_held ..) rfl
  | ask k kind a hk _ =>
    refine .used hk rfl rfl ?_ rfl
    rw [BrokerState.held_some hk]
    simp [Cell.asked, BrokerState.held]
  | connect => exact .same rfl (Cell.timed_held ..) rfl
  | fail n _ => exact .same rfl rfl rfl
  | unwind _ => exact .same rfl rfl rfl

theorem Change.handled (h : Change L o p q) : Handled p.2 q.2 := by
  cases h with
  | serve h => exact h.handled
  | dial h => exact h.handled
  | close k hk => exact .closed hk
  | reset _ => exact .same rfl rfl rfl
  | @free c hc _ =>
    refine .same rfl ?_ rfl
    rw [BrokerState.held_none hc, BrokerState.held_none (by simpa using hc)]

theorem Chain.handled (h : Chain L o p q) : Handled p.2 q.2 := by
  induction h with
  | refl => exact .refl _
  | tail _ hc ih => exact ih.trans hc.handled

theorem Between.handled (h : Between c c') : Handled c c' := (Served.chain (o := .good) h).handled

end Handled

/-- What happens to all entries together is lawful. -/
def Managed (s s' : Session) (log : List (Int × Event)) : Prop :=
  Lawful Event.deed (heldBy s.head) s.backend.nextConn (log.map Prod.snd) (heldBy s'.head) s'.backend.nextConn

section Managed

variable {s s' s'' : Session} {log log' : List (Int × Event)} {o : Int → Outcomes}

theorem Managed.refl (s : Session) : Managed s s [] := .done

theorem Managed.trans (h : Managed s s' log) (h' : Managed s' s'' log') : Managed s s'' (log ++ log') := by
  unfold Managed
  rw [List.map_append]
  exact Lawful.trans h h'

/-- The entries and the numbering of connections are all that matters. -/
theorem Managed.congr (h : Managed s s' log) (he : s''.head = s'.head)
    (hn : s''.backend.nextConn = s'.backend.nextConn) : Managed s s'' log := by
  unfold Managed
  rw [he, hn]
  exact h

/-- Any entry of the list can be taken out, and put back changed. -/
theorem heldBy_replace {head : List BrokerState} {b : Int} {e : BrokerState} (h : lookup head b = some e) :
    ∃ rest, heldBy head = e.held + rest ∧
      ∀ bs : BrokerState, bs.brokerId = b → heldBy (replaceBs bs head) = bs.held + rest := by
  induction head with
  | nil => simp [lookup] at h
  | cons e' tail ih =>
    rw [lookup_cons] at h
    by_cases hid : e'.brokerId = b
    · rw [if_pos hid] at h
      obtain rfl := Option.some.inj h
      refine ⟨heldBy tail, heldBy_cons .., fun bs hb => ?_⟩
      unfold replaceBs
      rw [if_pos (hid.trans hb.symm), heldBy_cons]
    · rw [if_neg hid] at h
      obtain ⟨rest, hrest, hput⟩ := ih h
      refine ⟨e'.held + rest, ?_, fun bs hb => ?_⟩
      · rw [heldBy_cons, hrest, add_left_comm]
      · unfold replaceBs
        rw [if_neg (fun heq => hid (heq.trans hb)), heldBy_cons, hput bs hb, add_left_comm]

/-- A call on one entry, with all others beside it. -/
theorem stored_managed {b : Int} {c : Cell} (h : Landed Handled (s.cell b) c) :
    Managed s (s.store c) (c.log.map (b, ·)) := by
  obtain ⟨evs, hl, hd⟩ := h.work
  obtain rfl : c.log = evs := hl
  have hid : c.bs.brokerId = b := h.lasts.brokerId.trans (s.entry_brokerId b)
  have hmap : (c.log.map (b, ·)).map Prod.snd = c.log := by simp [Function.comp_def]
  have hd : Lawful Event.deed (s.entry b).held s.backend.nextConn c.log c.bs.held c.backend.nextConn := hd
  unfold Managed
  rw [hmap]
  show Lawful _ _ _ _ (heldBy (if c.linked then putBs c.bs s.head else s.head)) _
  cases hlook : lookup s.head b with
  | some e =>
    have hentry : s.entry b = e := by simp [Session.entry, hlook]
    have hlinked : c.linked = true := h.lasts.linked (by simp [Session.cell, Session.start, hlook])
    obtain ⟨rest, hrest, hput⟩ := heldBy_replace hlook
    rw [if_pos hlinked]
    unfold putBs
    rw [hid, hlook, Option.isSome_some, if_pos rfl, hput c.bs hid, hrest, ← hentry]
    exact hd.frame rest
  | none =>
    have hentry : (s.entry b).held = 0 := by simp [Session.entry, hlook, BrokerState.held, BrokerState.fresh]
    rw [hentry] at hd
    have hd := hd.frame (heldBy s.head)
    rw [zero_add] at hd
    split
    · unfold putBs
      rw [hid, hlook, Option.isSome_none, if_neg (by simp), heldBy_cons]
      exact hd
    · rename_i hlinked
      have hbs : c.bs.held = 0 := by
        rw [h.linked.resolve_left hlinked]
        exact hentry
      rwa [hbs, zero_add] at hd

/-- The callback is lawful for every entry and raises nothing. -/
def Manages (o : Int → Outcomes) (f : Outcomes → M Unit) : Prop :=
  ∀ b c, c.backend.holdoff = true →
    wp (f (o b)) (fun _ c' => Handled c c' ∧ c'.backend.holdoff = true) (fun _ _ => False) c

theorem forEachBs_managed {f : Outcomes → M Unit} (hf : Manages o f) (head : List BrokerState) (k : Backend)
    (hk : k.holdoff = true) :
    Lawful Event.deed (heldBy head) k.nextConn ((forEachBs f o head k).log.map Prod.snd)
      (heldBy (forEachBs f o head k).head) (forEachBs f o head k).backend.nextConn := by
  induction head generalizing k with
  | nil => exact .done
  | cons e rest ih =>
    obtain ⟨u, c, hrun, ⟨evs, hl, hd⟩, hk'⟩ := wp_ok (hf e.brokerId (Session.start e true k) hk)
    obtain rfl : c.log = evs := hl
    have hd : Lawful Event.deed e.held k.nextConn c.log c.bs.held c.backend.nextConn := hd
    unfold forEachBs
    rw [hrun]
    have hmap : (c.log.map (e.brokerId, ·)).map Prod.snd = c.log := by simp [Function.comp_def]
    simp only [List.map_append, hmap, heldBy_cons]
    refine (hd.frame (heldBy rest)).trans ?_
    rw [add_comm c.bs.held, add_comm c.bs.held]
    exact (ih c.backend hk').frame c.bs.held

theorem sweep_managed {f : Outcomes → M Unit} (hf : Manages o f) :
    Managed s (s.sweep f o).1 (s.sweep f o).2.log :=
  forEachBs_managed hf s.head { s.backend with holdoff := true } rfl

theorem manages {f : Outcomes → M Unit} (hf : ∀ o c, c.backend.holdoff = true →
    wp (f o) (fun _ => Between c) (fun _ _ => False) c) : Manages o f :=
  fun b c hc => wp_mono (hf (o b) c hc)
    (fun _ _ h => ⟨h.handled, h.sameList.holdoff.trans hc⟩) fun _ _ h => h

theorem abort_managed : Managed s (s.abort o).1 (s.abort o).2 :=
  (sweep_managed (manages fun _ _ => amqpLocalAbort_served)).congr rfl rfl

theorem abortSub_managed : Managed s (s.abortSub o).1 (s.abortSub o).2 :=
  (sweep_managed (manages fun _ _ => amqpLocalSubxact_served)).congr rfl rfl

theorem abortCurrent_managed : Managed s (s.abortCurrent o).1 (s.abortCurrent o).2 := by
  unfold Session.abortCurrent
  split
  · exact abortSub_managed
  · exact abort_managed

theorem call_managed {b : Int} {x : Outcomes → M Bool}
    (hx : wp (x (o b)) (fun _ => Landed Handled (s.cell b)) (fun _ => Landed Handled (s.cell b)) (s.cell b)) :
    Managed s (s.call o b x).1 (s.call o b x).2.log := by
  unfold wp at hx
  cases hrun : x (o b) (s.cell b) with
  | ok v c =>
    rw [hrun] at hx
    rw [Session.call_ok hrun]
    exact stored_managed hx
  | error e c =>
    rw [hrun] at hx
    rw [Session.call_error hrun]
    exact (stored_managed hx).trans abortCurrent_managed

theorem note_managed {b : Int} {m : Msg} {r : Session × Trace} (h : Managed s r.1 r.2.log) :
    Managed s (s.note b m r).1 (s.note b m r).2.log := by
  unfold Session.note
  split
  · exact h.congr rfl rfl
  · exact h

theorem prepare_managed (hs : s.Shaped) : Managed s (s.prepare o).1 (s.prepare o).2.log := by
  rcases Session.prepare_cases (o := o) hs with ⟨b, -, hr⟩ | ⟨-, hr⟩
  · rw [hr]
    exact abort_managed
  · rw [hr]
    exact (sweep_managed (manages (f := amqpLocalPhase2 .prepare) fun _ _ _ => .refl)).congr rfl rfl

/-- Every step is lawful for all entries together. -/
theorem exec_managed {st : Step} (hs : s.Shaped) (ha : ∀ b, Anchored (s.entry b)) :
    Managed s (next st s) (trace st s).log := by
  have called : ∀ b x, st.Calls b x →
      wp x (fun _ => Landed Handled (s.cell b)) (fun _ => Landed Handled (s.cell b)) (s.cell b) :=
    fun b x hx => wp_mono (calls_called ha hx) (fun _ _ h => h.landed h.chain.handled)
      fun _ _ h => h.landed h.chain.handled
  unfold next trace exec
  cases hact : st.action with
  | publish a =>
    dsimp only
    unfold Session.publish
    cases hb : a.brokerId with
    | none => exact .refl s
    | some b => exact note_managed (call_managed (called b _ (.publish hact hb)))
  | autonomousPublish a =>
    dsimp only
    unfold Session.autonomousPublish
    cases hb : a.brokerId with
    | none => exact .refl s
    | some b => exact call_managed (called b _ (.autonomousPublish hact hb))
  | exchangeDeclare a =>
    dsimp only
    unfold Session.exchangeDeclare
    cases hb : a.brokerId with
    | none => exact .refl s
    | some b => exact call_managed (called b _ (.exchangeDeclare hact hb))
  | disconnect b? =>
    cases b? with
    | none => exact .refl s
    | some b => exact call_managed (x := fun _ => do localAmqpDisconnect; return true) (called b _ (.disconnect hact))
  | set g => exact .refl s
  | startSub => exact (Managed.refl s).congr rfl rfl
  | commitSub =>
    dsimp only
    split
    · exact (Managed.refl s).congr rfl rfl
    · exact .refl s
  | abortSub =>
    dsimp only
    split
    · exact abortSub_managed
    · exact .refl s
  | commit => exact (sweep_managed (manages fun _ _ => amqpLocalCommit_served)).congr rfl rfl
  | abort => exact abort_managed
  | prepare => exact prepare_managed hs

/-- A whole run is. -/
theorem run_managed {ok : Session → Step → Prop} {s : Session} (hs : Runs ok s) (steps : List Step)
    (ha : Admits next ok steps s) :
    Managed s (run next steps s) (gathered next (fun st s => (trace st s).log) steps s) := by
  induction steps generalizing s with
  | nil => exact .refl s
  | cons st rest ih =>
    exact (exec_managed (Runs.shaped hs) (Runs.anchored hs)).trans (ih (.step st hs ha.1) ha.2)

end Managed

/-- The body of the loop of `amqp_atexit`. -/
def amqpAtexit : M Unit := localAmqpDisconnectBs true

/-- The backend exits. -/
def Session.exit (s : Session) (o : Int → Outcomes) : Session × List (Int × Event) :=
  let (s', r) := s.sweep (fun _ => amqpAtexit) o
  (s', r.log)

/-- An entry that has nothing to be ended. -/
structure BrokerState.Vacant (bs : BrokerState) : Prop where
  conn : bs.conn = none
  uncommitted : bs.uncommitted = 0

section Exit

variable {s : Session} {o : Int → Outcomes} {c : Cell}

theorem amqpAtexit_spec :
    wp amqpAtexit (fun _ c' => Handled c c' ∧ c'.backend = c.backend ∧ (Idle c.bs → c'.bs.Vacant))
      (fun _ _ => False) c := by
  unfold amqpAtexit
  cases hk : c.bs.conn with
  | none =>
    rw [wp_localAmqpDisconnectBs_none true hk]
    exact ⟨.refl c, rfl, fun hi => ⟨hk, hi hk⟩⟩
  | some k =>
    rw [wp_localAmqpDisconnectBs_closed hk]
    exact ⟨.closed hk, rfl, fun _ => ⟨rfl, rfl⟩⟩

theorem exit_managed : Managed s (s.exit o).1 (s.exit o).2 :=
  sweep_managed fun _ _ hc => wp_mono amqpAtexit_spec (fun _ _ h => ⟨h.1, h.2.1 ▸ hc⟩) fun _ _ h => h

theorem forEachBs_atexit (head : List BrokerState) (k : Backend) (hi : ∀ e ∈ head, Idle e) :
    (∀ e ∈ (forEachBs (fun _ => amqpAtexit) o head k).head, e.Vacant) ∧
      (forEachBs (fun _ => amqpAtexit) o head k).backend = k := by
  induction head generalizing k with
  | nil => exact ⟨by simp [forEachBs], rfl⟩
  | cons e rest ih =>
    obtain ⟨he, hrest⟩ := List.forall_mem_cons.mp hi
    obtain ⟨u, c, hrun, -, hk, hv⟩ := wp_ok (amqpAtexit_spec (c := Session.start e true k))
    obtain ⟨ihv, ihk⟩ := ih c.backend hrest
    unfold forEachBs
    rw [hrun]
    exact ⟨List.forall_mem_cons.mpr ⟨hv he, ihv⟩, ihk.trans hk⟩

/-- After the exit every entry is vacant, and no connection was made. -/
theorem exit_vacant (hs : s.Shaped) :
    (∀ e ∈ (s.exit o).1.head, e.Vacant) ∧ (s.exit o).1.backend.nextConn = s.backend.nextConn := by
  have hi : ∀ e ∈ s.head, Idle e := fun e he => by
    have := hs.idle e.brokerId
    rwa [Session.entry_mem hs.ids he] at this
  obtain ⟨hv, hk⟩ := forEachBs_atexit (o := o) s.head { s.backend with holdoff := true } hi
  refine ⟨hv, ?_⟩
  show (forEachBs _ o s.head _).backend.nextConn = _
  rw [hk]

theorem heldBy_vacant {head : List BrokerState} (h : ∀ e ∈ head, e.Vacant) : heldBy head = 0 := by
  induction head with
  | nil => rfl
  | cons e rest ih =>
    obtain ⟨he, hrest⟩ := List.forall_mem_cons.mp h
    rw [heldBy_cons, BrokerState.held_none he.conn, ih hrest, add_zero]

theorem amqpLocalAbort_vacant {o : Outcomes} (h : c.bs.Vacant) :
    wp (amqpLocalAbort o) (fun _ c' => c'.log = c.log) (fun _ _ => False) c := by
  have hrest : wp (do clearInerror; settleWith (amqpLocalRollback o)) (fun _ c' => c'.log = c.log)
      (fun _ _ => False) c := by
    unfold clearInerror settleWith
    rw [wp_bind, wp_modifyBs, wp_bind, wp_getBs, wp_ite]
    split
    · exact absurd h.uncommitted ‹_›
    · rfl
  unfold amqpLocalAbort dropErrored
  rw [wp_bind, wp_bind, wp_getBs, wp_ite]
  split
  · rwa [wp_localAmqpDisconnectBs_none false h.conn]
  · exact hrest

/-- On vacant entries the abort callback does nothing that is seen. -/
theorem forEachBs_abort_vacant {head : List BrokerState} (k : Backend) (h : ∀ e ∈ head, e.Vacant) :
    (forEachBs (amqpLocalPhase2 .abort) o head k).log = [] := by
  induction head generalizing k with
  | nil => rfl
  | cons e rest ih =>
    obtain ⟨he, hrest⟩ := List.forall_mem_cons.mp h
    obtain ⟨u, c, hrun, hlog⟩ := wp_ok (amqpLocalAbort_vacant (o := o e.brokerId) (c := Session.start e true k) he)
    have hlog : c.log = [] := hlog
    have hrun : amqpLocalPhase2 .abort (o e.brokerId) (Session.start e true k) = .ok u c := hrun
    unfold forEachBs
    rw [hrun]
    simp [hlog, ih c.backend hrest]

/-- In every run each connection that was made is destroyed once or held by one entry, the
exit destroys what is still held, nothing is done to a connection after that, and an abort
that follows the exit shows no event: it has error flags to clear and nothing else. -/
theorem connections_destroyed_once (gucs : Gucs) (myProcPid : Nat) (steps : List Step) (o o' : Int → Outcomes) :
    let s := run next steps (.loaded gucs myProcPid)
    let log := (gathered next (fun st s => (trace st s).log) steps (.loaded gucs myProcPid)).map Prod.snd
    let exit := (s.exit o).2.map Prod.snd
    (freed Event.deed log : Multiset Nat) + heldBy s.head = Multiset.range s.backend.nextConn ∧
    (freed Event.deed (log ++ exit) : Multiset Nat) = Multiset.range s.backend.nextConn ∧
    (log ++ exit).Pairwise (FreesLast Event.deed) ∧ ((s.exit o).1.abort o').2 = [] := by
  intro s log exit
  have hinit : Runs (fun _ _ => True) (.loaded gucs myProcPid) := .init (Session.loaded_initial ..)
  have hruns : Runs (fun _ _ => True) s := hinit.run steps (.always ..)
  have hrun : Lawful Event.deed 0 0 log (heldBy s.head) s.backend.nextConn :=
    run_managed hinit steps (.always ..)
  have hexit : Lawful Event.deed (heldBy s.head) s.backend.nextConn exit
      (heldBy (s.exit o).1.head) (s.exit o).1.backend.nextConn := exit_managed
  obtain ⟨hvacant, hmade⟩ := exit_vacant (o := o) hruns.shaped
  have hall := hrun.trans hexit
  refine ⟨?_, ?_, hall.freesLast ⟨Multiset.nodup_zero, by simp⟩, forEachBs_abort_vacant _ hvacant⟩
  · simpa using hrun.account
  · have := hall.account
    rw [heldBy_vacant hvacant, hmade] at this
    simpa using this

end Exit

end PgAmqp
