import PgAmqp.Replacement

/-!
# What the answer of a publish call tells

A publish call writes at most once in each of its two passes, and gives a connection up
before it goes back to `redo`. The boolean it returns is the status of its last write. This
holds for every outcome of the reads, the reconnects and the writes.
-/
namespace PgAmqp

open ProgramLogic Transition

inductive Traffic where
  | wrote (id : Nat) (w : Write) : Traffic
  | dropped (id : Nat) : Traffic
  deriving DecidableEq, Repr

def Event.traffic : Event → Option Traffic
  | .basicPublish k _ _ w => some (.wrote k.id w)
  | .destroyed k => some (.dropped k.id)
  | _ => none

/-- Writes and drops of a record, oldest first. -/
def trafficIn (log : List Event) : List Traffic := log.filterMap Event.traffic

def Traffic.write : Traffic → Option (Nat × Write)
  | .wrote id w => some (id, w)
  | .dropped _ => none

/-- The connection and the status of each write. -/
def writesIn (ts : List Traffic) : List (Nat × Write) := ts.filterMap Traffic.write

@[simp] theorem trafficIn_nil : trafficIn [] = [] := rfl

@[simp] theorem trafficIn_append (log log' : List Event) :
    trafficIn (log ++ log') = trafficIn log ++ trafficIn log' := List.filterMap_append

@[simp] theorem writesIn_nil : writesIn [] = [] := rfl

@[simp] theorem writesIn_append (ts ts' : List Traffic) :
    writesIn (ts ++ ts') = writesIn ts ++ writesIn ts' := List.filterMap_append

@[simp] theorem writesIn_wrote (id : Nat) (w : Write) (ts : List Traffic) :
    writesIn (.wrote id w :: ts) = (id, w) :: writesIn ts := rfl

@[simp] theorem writesIn_dropped (id : Nat) (ts : List Traffic) :
    writesIn (.dropped id :: ts) = writesIn ts := rfl

theorem neutral_writeless {evs : List Event} (h : ∀ e ∈ evs, e.neutral = true) :
    writesIn (trafficIn evs) = [] := by
  unfold writesIn trafficIn
  rw [List.filterMap_filterMap, List.filterMap_eq_nil_iff]
  intro e he
  have hn := h e he
  cases e <;> simp_all [Event.neutral, Event.traffic, Traffic.write]

/-- A part of a call that did `ts`, and otherwise kept the connection, the count and the flag. -/
structure After (ts : List Traffic) (c c' : Cell) : Prop where
  traffic : trafficIn c'.log = trafficIn c.log ++ ts
  conn : c'.bs.conn.map Connection.id = c.bs.conn.map Connection.id
  uncommitted : c'.bs.uncommitted = c.bs.uncommitted
  inerror : c'.bs.inerror = c.bs.inerror

section After

variable {ts : List Traffic} {o : Outcomes} {c₀ c c' : Cell}

theorem After.refl (c : Cell) : After [] c c := ⟨(List.append_nil _).symm, rfl, rfl, rfl⟩

theorem After.silent {e : Event} (he : e.traffic = none) (h : After ts c₀ c) (hbs : c'.bs = c.bs)
    (hlog : c'.log = c.log ++ [e]) : After ts c₀ c' := by
  refine ⟨?_, by rw [hbs]; exact h.conn, by rw [hbs]; exact h.uncommitted, by rw [hbs]; exact h.inerror⟩
  rw [hlog, trafficIn_append, h.traffic]
  simp [trafficIn, he]

/-- What the parts of a pass keep that do not write; they raise only by a cancel. -/
abbrev KeepsAfter {α : Type} (ts : List Traffic) (c₀ : Cell) (x : M α) : Prop :=
  Keeps (fun e => e = .canceled) (After ts c₀) x

theorem after_elog (r : Report) : KeepsAfter ts c₀ (elog o r) := by
  intro c h
  have hw : After ts c₀ (c.warned r) := h.silent (e := .warning r) rfl rfl rfl
  rw [wp_elog]
  split
  · exact ⟨rfl, hw⟩
  · exact hw

theorem after_drain : KeepsAfter ts c₀ (localAmqpDrainReturns o) := by
  refine KeptByDrain.keeps (G := fun _ => True) {
    arrived := fun _ _ _ _ => trivial
    polled := fun _ h => ⟨h.traffic, h.conn, h.uncommitted, h.inerror⟩
    taken := fun c f rest _ h => ⟨h.traffic, ?_, h.uncommitted, h.inerror⟩
    returned := fun c r _ h => h.silent (e := .warning (.returned c.bs.brokerId r)) rfl rfl rfl
    noted := fun c h => h.silent (e := .warning (.blocked c.bs.brokerId)) rfl rfl rfl
    blocked := fun _ _ h => ⟨h.traffic, h.conn, h.uncommitted, h.inerror⟩ }
  rw [← h.conn]
  simp only [Cell.taken, Cell.modified_bs, Option.map_map]
  rfl

end After

/-- What a pass finds that leaves its connection suspect: the error flag, a drain that fails,
or a write that is tried and fails. -/
def Cell.Suspect (c : Cell) (o : Outcomes) : Prop :=
  c.bs.conn.isSome = true ∧ (c.bs.inerror = true ∨ c.usable o = false ∨
    (∃ n, c.reads o (c.arrived o) = .through n false) ∧ c.written o ≠ .ok)

/-- How a pass returns: without a write, or with the status of its one write. -/
structure Ended (o : Outcomes) (channel : Nat) (c : Cell) (r : Bool) (c' : Cell) : Prop where
  told : trafficIn c'.log = trafficIn c.log ∧ r = false ∨
    ∃ k w, c.bs.conn = some k ∧ trafficIn c'.log = trafficIn c.log ++ [.wrote k.id w] ∧ r = decide (w = .ok)
  conn : c'.bs.conn.map Connection.id = c.bs.conn.map Connection.id
  uncommitted : c'.bs.uncommitted = c.bs.uncommitted + if channel = 2 ∧ r = true then 1 else 0
  suspect : channel = 2 → c.Suspect o → r = false ∧ c'.bs.inerror = true

/-- How a pass goes back to `redo`: its write failed, if there was one, and the connection is gone. -/
structure GoneBack (c c' : Cell) : Prop where
  told : ∃ k, c.bs.conn = some k ∧ (trafficIn c'.log = trafficIn c.log ++ [.dropped k.id] ∨
    ∃ w, w ≠ .ok ∧ trafficIn c'.log = trafficIn c.log ++ [.wrote k.id w, .dropped k.id])
  conn : c'.bs.conn = none
  uncommitted : c'.bs.uncommitted = 0
  blocked : c'.bs.blocked = false

/-- How a pass raises, where going back to `redo` is taken for the error `spi`. -/
structure Thrown (c : Cell) (e : Raised) (c' : Cell) : Prop where
  back : e = .spi → GoneBack c c'
  writes : ∃ ts, trafficIn c'.log = trafficIn c.log ++ ts ∧ (writesIn ts).length ≤ 1

section Pass

variable {o : Outcomes} {m : Msg} {badMode : Option Int} {channel : Nat} {onceMore : Bool}
  {c₀ c : Cell} {k : Connection} {ts : List Traffic}

theorem After.held (h : After ts c₀ c) (hk : c₀.bs.conn = some k) :
    ∃ k', c.bs.conn = some k' ∧ k'.id = k.id := by
  have hconn := h.conn
  rw [hk] at hconn
  cases hc : c.bs.conn with
  | none => simp [hc] at hconn
  | some k' =>
    rw [hc] at hconn
    exact ⟨k', rfl, Option.some.inj hconn⟩

/-- The choice between the retry and giving up. -/
theorem orRedo_goneBack {giveUp : M Bool} {Q : Bool → Cell → Prop} (h : After ts c₀ c)
    (hk : c₀.bs.conn = some k) (hts : ts = [] ∨ ∃ w, w ≠ .ok ∧ ts = [.wrote k.id w])
    (hgive : wp giveUp Q (Thrown c₀) c) :
    wp (orRedo channel onceMore (throw .spi) giveUp) Q (Thrown c₀) c := by
  unfold orRedo
  rw [wp_bind, wp_getBs, wp_ite]
  split
  · obtain ⟨k', hk', hid⟩ := h.held hk
    have htraffic : trafficIn (c.dropped k').log = trafficIn c₀.log ++ (ts ++ [.dropped k.id]) := by
      rw [Cell.dropped, Cell.modified_log, Cell.recorded_log, trafficIn_append, h.traffic, List.append_assoc, ← hid]
      rfl
    rw [wp_bind, wp_localAmqpDisconnectBs_some hk', wp_throw]
    refine ⟨fun _ => ⟨⟨k, hk, ?_⟩, rfl, rfl, rfl⟩, _, htraffic, ?_⟩
    · rcases hts with rfl | ⟨w, hw, rfl⟩
      · exact .inl htraffic
      · exact .inr ⟨w, hw, htraffic⟩
    · rcases hts with rfl | ⟨w, hw, rfl⟩ <;> simp
  · exact hgive

theorem publishWritten_ended {w : Write} (h : After [.wrote k.id w] c₀ c) (hk : c₀.bs.conn = some k)
    {k₀ : Connection} (hs : channel = 2 → c₀.Suspect o → w ≠ .ok) :
    wp (publishWritten m channel onceMore (throw .spi) k₀ w) (Ended o channel c₀) (Thrown c₀) c := by
  unfold publishWritten
  rw [wp_ite]
  split
  · rename_i hw
    refine orRedo_goneBack h hk (.inr ⟨w, hw, rfl⟩) ?_
    rw [wp_bind, wp_setInerror]
    exact ⟨.inr ⟨k, w, hk, h.traffic, (decide_eq_false hw).symm⟩, h.conn, by simp [h.uncommitted],
      fun _ _ => ⟨rfl, rfl⟩⟩
  · rename_i hw
    have hw : w = .ok := Decidable.not_not.mp hw
    rw [wp_bind, wp_record, wp_bind, wp_modifyBs]
    refine ⟨.inr ⟨k, w, hk, ?_, (decide_eq_true hw).symm⟩, h.conn, ?_, fun h2 hsus => absurd hw (hs h2 hsus)⟩
    · rw [Cell.modified_log, Cell.recorded_log, trafficIn_append, h.traffic]
      exact List.append_nil _
    · rw [Cell.modified_bs, Cell.recorded_bs, h.uncommitted]
      simp only [and_true]
      split <;> rfl

theorem publishPoll_after : KeepsAfter ts c₀ (publishPoll o m channel) :=
  .ite (.bind after_drain fun _ => .pure _) (.pure _)

/-- A cancel ends the pass. -/
theorem After.thrown {e : Raised} (h : After ts c₀ c) (he : e = .canceled)
    (hts : (writesIn ts).length ≤ 1) : Thrown c₀ e c :=
  ⟨fun hspi => by rw [he] at hspi; exact Raised.noConfusion hspi, ts, h.traffic, hts⟩

theorem publishWrite_ended (h : After [] c₀ c) (hk : c₀.bs.conn = some k)
    (hs : channel = 2 → c₀.Suspect o → c.written o ≠ .ok) :
    wp (publishWrite o m channel onceMore (throw .spi)) (Ended o channel c₀) (Thrown c₀) c := by
  obtain ⟨k', hk', hid⟩ := h.held hk
  unfold publishWrite
  rw [wp_bind, wp_getBs, hk']
  dsimp only
  rw [wp_bind, wp_amqpBasicPublish, wp_bind]
  have hwrote : After [.wrote k.id (c.written o)] c₀ (c.buffered o k' channel m) := by
    refine ⟨?_, ?_, h.uncommitted, h.inerror⟩
    · rw [Cell.buffered, Cell.modified_log, Cell.sent, Cell.recorded_log, trafficIn_append, Cell.ticked_log,
        h.traffic, List.append_nil, ← hid]
      rfl
    · rw [hk]
      exact congrArg some ((written_id ..).trans hid)
  have hpoll : KeepsAfter [.wrote k.id (c.written o)] c₀ (publishPoll o m channel) := publishPoll_after
  refine wp_mono (hpoll _ hwrote)
    (fun _ c' h' => publishWritten_ended h' hk hs) fun e c' h' => h'.2.thrown h'.1 ?_
  simp

/-- A pass on a connection that the drain found usable. -/
theorem publishDrained_ended {b : Int} (h : After [] c₀ c) (ho : Opened o 0 c₀ c) (hk : c₀.bs.conn = some k)
    (hch : channel = 2 → c₀.bs.inerror = false) :
    wp (publishDrained o b m badMode channel onceMore (throw .spi)) (Ended o channel c₀) (Thrown c₀) c := by
  have hsuspect : channel = 2 → c₀.Suspect o → c.bs.blocked = false ∧ c₀.written o ≠ .ok := by
    rintro h2 ⟨-, herr | hu | ⟨⟨n, hend⟩, hw⟩⟩
    · simp [hch h2] at herr
    · simp [ho.usable] at hu
    · obtain ⟨n', hend', -⟩ := ho.ended
      rw [hend] at hend'
      injection hend' with _ hb
      exact ⟨hb.symm, hw⟩
  unfold publishDrained
  rw [wp_bind, wp_getBs, wp_ite]
  split
  · rename_i hb
    have hrefused : After [] c₀ (c.recorded (.refused c.bs.conn)) := h.silent (e := .refused c.bs.conn) rfl rfl rfl
    rw [wp_bind, wp_record]
    refine wp_seq (wp_mono (after_elog _ _ hrefused) (fun _ _ h => h) fun e c' h' => h'.2.thrown h'.1 (by simp))
      fun _ c' h' => ?_
    refine ⟨.inl ⟨by simpa using h'.traffic, rfl⟩, h'.conn, by simpa using h'.uncommitted, fun h2 hs => ?_⟩
    simp [(hsuspect h2 hs).1] at hb
  · rw [wp_bind]
    unfold publishMode
    cases badMode with
    | none =>
      exact publishWrite_ended h hk fun h2 hs => by rw [ho.written]; exact (hsuspect h2 hs).2
    | some mode =>
      dsimp only
      rw [wp_elog]
      have hw : After [] c₀ (c.warned (.ignoredDeliveryMode mode)) :=
        h.silent (e := .warning _) rfl rfl rfl
      split
      · exact hw.thrown rfl (by simp)
      · have hwritten := (ho.warned (.ignoredDeliveryMode mode) rfl).written
        exact publishWrite_ended hw hk fun h2 hs => by rw [hwritten]; exact (hsuspect h2 hs).2

theorem publishConnected_ended (b : Int) (m : Msg) (badMode : Option Int) (channel : Nat) (onceMore : Bool)
    (c : Cell) :
    wp (publishConnected o b m badMode channel onceMore (throw .spi)) (Ended o channel c) (Thrown c) c := by
  unfold publishConnected
  rw [wp_bind, wp_getBs, wp_ite]
  split
  · rename_i hcond
    obtain ⟨k, hk⟩ := Option.isSome_iff_exists.mp hcond.1
    have hch : channel = 2 → c.bs.inerror = false := fun h2 =>
      Bool.eq_false_iff.mpr (hcond.2.resolve_left (by omega))
    refine wp_seq (wp_mono (wp_and (after_drain c (.refl c)) (localAmqpDrainReturns_reads o hcond.1))
      (fun _ _ h => h) fun e c' h => h.1.2.thrown h.1.1 (by simp)) fun r c' h => ?_
    obtain ⟨hafter, hread⟩ := h
    rw [wp_ite]
    split
    · refine orRedo_goneBack hafter hk (.inl rfl) ?_
      rw [wp_ite]
      split
      · rw [wp_bind, wp_setInerror]
        exact ⟨.inl ⟨by simpa using hafter.traffic, rfl⟩, hafter.conn, by simpa using hafter.uncommitted,
          fun _ _ => ⟨rfl, rfl⟩⟩
      · rename_i h2
        exact ⟨.inl ⟨by simpa using hafter.traffic, rfl⟩, hafter.conn, by simpa using hafter.uncommitted,
          fun h2' => absurd h2' h2⟩
    · rename_i hr
      obtain rfl := Decidable.not_not.mp hr
      exact publishDrained_ended hafter (hread.usable.opened rfl) hk hch
  · rename_i hcond
    refine ⟨.inl ⟨rfl, rfl⟩, rfl, by simp, fun h2 hs => ⟨rfl, ?_⟩⟩
    by_contra herr
    exact hcond ⟨hs.1, .inr herr⟩

end Pass

/-- Nothing was written, and nothing counted. -/
structure Unwritten (c c' : Cell) : Prop where
  traffic : ∃ ts, trafficIn c'.log = trafficIn c.log ++ ts ∧ writesIn ts = []
  uncommitted : c'.bs.uncommitted = c.bs.uncommitted

theorem Quiet.unwritten {c c' : Cell} (h : Quiet c c') (hu : c'.bs.uncommitted = c.bs.uncommitted) :
    Unwritten c c' := by
  obtain ⟨evs, he, hn⟩ := h
  exact ⟨⟨trafficIn evs, by rw [he, trafficIn_append], neutral_writeless hn⟩, hu⟩

theorem localAmqpGetBs_unwritten (o : Outcomes) (b : Int) {c : Cell} (hidle : Idle c.bs) :
    wp (localAmqpGetBs o b) (fun _ => Unwritten c) (fun _ => Unwritten c) c := by
  cases hc : c.bs.conn with
  | some k =>
    rw [localAmqpGetBs_live o b hc]
    exact (Still.link c).quiet.unwritten rfl
  | none =>
    have hlink : ∀ {c'}, Quiet c.link c' → c'.bs.uncommitted = c.bs.uncommitted → Unwritten c c' :=
      fun h hu => ((Still.link c).quiet.trans h).unwritten hu
    refine wp_mono (localAmqpGetBs_connected o b hc (hidle hc)) (fun _ c' h => ?_) fun _ c' h => ?_
    · exact h.elim (fun h => hlink h.quiet h.uncommitted) fun h => hlink h.quiet h.uncommitted
    · exact h.elim (fun h => hlink h.quiet h.uncommitted) fun h => hlink h.1.quiet h.1.uncommitted

/-- The connection that a pass works on, and how it returns from there. -/
structure Passed (o : Outcomes) (b : Int) (channel : Nat) (c : Cell) (r : Bool) (c' : Cell) : Prop where
  ended : ∃ c₂, localAmqpGetBs o b c = .ok () c₂ ∧ Unwritten c c₂ ∧ Ended o channel c₂ r c'

/-- At most one write. -/
def WroteOnce (c c' : Cell) : Prop :=
  ∃ ts, trafficIn c'.log = trafficIn c.log ++ ts ∧ (writesIn ts).length ≤ 1

theorem Unwritten.wroteOnce {c c₂ c' : Cell} (h : Unwritten c c₂) (h' : WroteOnce c₂ c') : WroteOnce c c' := by
  obtain ⟨⟨ts, ht, hn⟩, -⟩ := h
  obtain ⟨ts', ht', hn'⟩ := h'
  exact ⟨ts ++ ts', by rw [ht', ht, List.append_assoc], by simpa [hn] using hn'⟩

section Calls

variable {o : Outcomes} {b : Int} {m : Msg} {badMode : Option Int} {channel : Nat} {c c' : Cell}

theorem publishPass_passed (onceMore : Bool) (hidle : Idle c.bs) :
    wp (publishPass o b m badMode channel onceMore (throw .spi)) (Passed o b channel c)
      (fun _ => WroteOnce c) c := by
  have hget := localAmqpGetBs_unwritten o b hidle
  unfold publishPass
  rw [wp_bind]
  unfold wp at hget ⊢
  cases hrun : localAmqpGetBs o b c with
  | error e c₂ =>
    rw [hrun] at hget
    obtain ⟨ts, ht, hn⟩ := hget.traffic
    exact ⟨ts, ht, by simp [hn]⟩
  | ok u c₂ =>
    rw [hrun] at hget
    exact wp_mono (publishConnected_ended b m badMode channel onceMore c₂) (fun r c' h => ⟨c₂, hrun, hget, h⟩)
      fun _ c' h => hget.wroteOnce h.writes

/-- The first pass returns or raises, or it goes back to `redo`. -/
theorem publishPass_goesBack (o : Outcomes) (b : Int) (m : Msg) (badMode : Option Int) (channel : Nat)
    (hidle : Idle c.bs) :
    (c.redo o b m badMode channel = none ∧ ∀ k,
        wp (publishPass o b m badMode channel true k) (Passed o b channel c) (fun _ => WroteOnce c) c) ∨
      ∃ c₂ c₃, c.redo o b m badMode channel = some c₃ ∧ Unwritten c c₂ ∧ GoneBack c₂ c₃ ∧
        ∀ k, publishPass o b m badMode channel true k c = k c₃ := by
  have hjumps : Jumps (publishPass o b m badMode channel true) := publishPass_jumps
  rcases hjumps.cases (show Raised.canceled ≠ .spi by decide) c with ⟨c₃, hjump, hk⟩ | ⟨hjump, x, hk⟩
  · have hget := localAmqpGetBs_unwritten o b hidle
    unfold wp at hget
    cases hrun : localAmqpGetBs o b c with
    | error e c₂ =>
      have hret := hk (pure false)
      unfold publishPass at hret
      simp only [Bind.bind, EStateM.bind, hrun] at hret
      cases hret
    | ok u c₂ =>
      rw [hrun] at hget
      have hthrow := hk (throw .spi)
      unfold publishPass at hthrow
      simp only [Bind.bind, EStateM.bind, hrun] at hthrow
      have hended := publishConnected_ended (o := o) b m badMode channel true c₂
      unfold wp at hended
      rw [hthrow] at hended
      have hended : Thrown c₂ .spi c₃ := hended
      exact .inr ⟨c₂, c₃, hjump, hget, hended.back rfl, hk⟩
  · refine .inl ⟨hjump, fun k => ?_⟩
    have hpass : wp (publishPass o b m badMode channel true (throw .spi)) (Passed o b channel c)
      (fun _ => WroteOnce c) c := publishPass_passed true hidle
    unfold wp at hpass ⊢
    rw [hk] at hpass ⊢
    exact hpass

end Calls

/-- Every write but the last failed, and its connection was given up at once. -/
def Orderly : List Traffic → Prop
  | [] => True
  | .wrote id w :: rest =>
    (writesIn rest = [] ∨ w ≠ .ok ∧ rest.head? = some (.dropped id)) ∧ Orderly rest
  | .dropped _ :: rest => Orderly rest

/-- What a call that returned has written, and on which connection it ended. -/
inductive Told : List Traffic → Bool → Option Nat → Prop where
  | nothing {ts held} : writesIn ts = [] → Told ts false held
  | once {ds ds' id w held} : writesIn ds = [] → writesIn ds' = [] → (w = .ok → held = some id) →
      Told (ds ++ .wrote id w :: ds') (decide (w = .ok)) held
  | twice {ds ds' id id' w w'} : writesIn ds = [] → writesIn ds' = [] → w ≠ .ok →
      Told (ds ++ .wrote id w :: .dropped id :: (ds' ++ [.wrote id' w'])) (decide (w' = .ok)) (some id')

section Told

variable {ts ds : List Traffic} {r : Bool} {conn : Option Nat}

theorem Orderly.skip (h : writesIn ds = []) (ts : List Traffic) : Orderly (ds ++ ts) ↔ Orderly ts := by
  induction ds with
  | nil => rfl
  | cons t rest ih =>
    cases t with
    | wrote id w => simp at h
    | dropped id => exact ih h

theorem Orderly.unwritten (h : writesIn ts = []) : Orderly ts := by
  have hall := (Orderly.skip h []).mpr trivial
  rwa [List.append_nil] at hall

theorem Told.length (h : Told ts r conn) : (writesIn ts).length ≤ 2 := by
  cases h with
  | nothing hn => simp [hn]
  | once hd hd' _ => simp [hd, hd']
  | twice hd hd' _ => simp [hd, hd']

theorem Told.last (h : Told ts r conn) : r = true ↔ ∃ id, (writesIn ts).getLast? = some (id, .ok) := by
  cases h with
  | nothing hn => simp [hn]
  | once hd hd' _ => simp [hd, hd']
  | twice hd hd' _ => simp [hd, hd']

theorem Told.held (h : Told ts r conn) {id : Nat} (hl : (writesIn ts).getLast? = some (id, .ok)) :
    conn = some id := by
  cases h with
  | nothing hn => simp [hn] at hl
  | once hd hd' hheld =>
    simp [hd, hd'] at hl
    rw [← hl.1]
    exact hheld hl.2
  | twice hd hd' _ =>
    simp [hd, hd'] at hl
    rw [hl.1]

theorem Told.orderly (h : Told ts r conn) : Orderly ts := by
  cases h with
  | nothing hn => exact .unwritten hn
  | once hd hd' _ => exact (Orderly.skip hd _).mpr ⟨.inl hd', .unwritten hd'⟩
  | twice hd hd' hw =>
    refine (Orderly.skip hd _).mpr ⟨.inr ⟨hw, rfl⟩, (Orderly.skip hd' _).mpr ⟨.inl rfl, trivial⟩⟩

theorem Told.failed (h : Told ts r conn) (hr : r = false) {id : Nat} {w : Write}
    (hm : (id, w) ∈ writesIn ts) : w ≠ .ok := by
  cases h with
  | nothing hn => simp [hn] at hm
  | once hd hd' _ =>
    simp [hd, hd'] at hm
    rw [hm.2]
    exact of_decide_eq_false hr
  | twice hd hd' hw =>
    simp [hd, hd'] at hm
    rcases hm with ⟨-, rfl⟩ | ⟨-, rfl⟩
    · exact hw
    · exact of_decide_eq_false hr

end Told

/-- The cell in which the last pass of a call comes to `local_amqp_get_bs`. -/
def Cell.lastPass (c : Cell) (o : Outcomes) (b : Int) (a : PublishArgs) (channel : Nat) : Option Cell :=
  (c.passes o b a channel).getLast?

/-- What a call that returned has written and counted, and whether it has raised the flag. -/
structure Answered (o : Outcomes) (b : Int) (a : PublishArgs) (channel : Nat) (c : Cell) (r : Bool)
    (c' : Cell) : Prop where
  told : ∃ ts, trafficIn c'.log = trafficIn c.log ++ ts ∧ Told ts r (c'.bs.conn.map Connection.id)
  uncommitted : c'.bs.uncommitted = ((c.lastPass o b a channel).getD c).bs.uncommitted +
    if channel = 2 ∧ r = true then 1 else 0
  suspect : channel = 2 → ∀ c₁ c₂, c.lastPass o b a channel = some c₁ → localAmqpGetBs o b c₁ = .ok () c₂ →
    c₂.Suspect o → r = false ∧ c'.bs.inerror = true

section Answered

variable {o : Outcomes} {b : Int} {a : PublishArgs} {m : Msg} {badMode : Option Int} {channel : Nat}
  {c c₂ c₃ c' : Cell} {r : Bool}

theorem Passed.shape (h : Passed o b channel c r c') : ∃ ds, writesIn ds = [] ∧
    (trafficIn c'.log = trafficIn c.log ++ ds ∧ r = false ∨
      ∃ id w, trafficIn c'.log = trafficIn c.log ++ (ds ++ [.wrote id w]) ∧ r = decide (w = .ok) ∧
        c'.bs.conn.map Connection.id = some id) := by
  obtain ⟨c₂, -, ⟨⟨ds, ht, hn⟩, -⟩, hended⟩ := h.ended
  refine ⟨ds, hn, hended.told.imp (fun h => ⟨by rw [h.1, ht], h.2⟩) ?_⟩
  rintro ⟨k, w, hk, htraffic, hr⟩
  exact ⟨k.id, w, by rw [htraffic, ht, List.append_assoc], hr, by rw [hended.conn, hk]; rfl⟩

theorem Passed.told (h : Passed o b channel c r c') :
    ∃ ts, trafficIn c'.log = trafficIn c.log ++ ts ∧ Told ts r (c'.bs.conn.map Connection.id) := by
  obtain ⟨ds, hn, ⟨ht, rfl⟩ | ⟨id, w, ht, rfl, hconn⟩⟩ := h.shape
  · exact ⟨ds, ht, .nothing hn⟩
  · exact ⟨_, ht, .once hn rfl fun _ => hconn⟩

/-- The second pass, behind the connection that the first gave up. -/
theorem Passed.after (h : Passed o b channel c₃ r c') (hu : Unwritten c c₂) (hg : GoneBack c₂ c₃) :
    ∃ ts, trafficIn c'.log = trafficIn c.log ++ ts ∧ Told ts r (c'.bs.conn.map Connection.id) := by
  obtain ⟨⟨ds, hds, hnd⟩, -⟩ := hu
  obtain ⟨k, -, hback⟩ := hg.told
  obtain ⟨ds', hn, hlast⟩ := h.shape
  have hdrop : writesIn (ds ++ .dropped k.id :: ds') = [] := by simp [hnd, hn]
  rcases hback with hback | ⟨w, hw, hback⟩ <;>
    rcases hlast with ⟨ht, rfl⟩ | ⟨id, w', ht, rfl, hconn⟩ <;> rw [hback, hds] at ht
  · exact ⟨_, by simpa using ht, .nothing hdrop⟩
  · exact ⟨_, by simpa using ht, .once hdrop rfl fun _ => hconn⟩
  · exact ⟨ds ++ .wrote k.id w :: .dropped k.id :: ds', by simpa using ht,
      decide_eq_false hw ▸ .once hnd (by simp [hn]) fun h => absurd h hw⟩
  · exact ⟨ds ++ .wrote k.id w :: .dropped k.id :: (ds' ++ [.wrote id w']), by simpa using ht,
      hconn ▸ .twice hnd hn hw⟩

theorem Passed.uncommitted (h : Passed o b channel c r c') :
    c'.bs.uncommitted = c.bs.uncommitted + if channel = 2 ∧ r = true then 1 else 0 := by
  obtain ⟨c₂, -, hu, hended⟩ := h.ended
  rw [hended.uncommitted, hu.uncommitted]

theorem Passed.suspect (h : Passed o b channel c r c') (h2 : channel = 2)
    (hget : localAmqpGetBs o b c = .ok () c₂) (hs : c₂.Suspect o) : r = false ∧ c'.bs.inerror = true := by
  obtain ⟨c₂', hget', -, hended⟩ := h.ended
  rw [hget] at hget'
  cases hget'
  exact hended.suspect h2 hs

/-- A pass that goes back makes one write at most. -/
theorem GoneBack.wroteOnce (hu : Unwritten c c₂) (hg : GoneBack c₂ c₃) : WroteOnce c c₃ := by
  refine hu.wroteOnce ?_
  obtain ⟨k, -, hback | ⟨w, -, hback⟩⟩ := hg.told
  · exact ⟨_, hback, by simp⟩
  · exact ⟨_, hback, by simp⟩

theorem pgAmqpPublishOpt_answered (o : Outcomes) (b : Int) (a : PublishArgs) (channel : Nat)
    (hidle : Idle c.bs) :
    wp (pgAmqpPublishOpt o b a channel) (Answered o b a channel c)
      (fun _ c' => ∃ ts, trafficIn c'.log = trafficIn c.log ++ ts ∧ (writesIn ts).length ≤ 2) c := by
  unfold pgAmqpPublishOpt
  rw [wp_bind, wp_getGucs, wp_ite]
  split
  · rename_i hbody
    generalize Report.bodyTooLarge _ _ = r
    have hw : After [] c (c.warned r) := (After.refl c).silent (e := .warning r) rfl rfl rfl
    have hnone : c.lastPass o b a channel = none := by simp [Cell.lastPass, Cell.passes, hbody]
    rw [wp_bind, wp_elog]
    split
    · exact ⟨[], hw.traffic, by simp⟩
    · exact ⟨⟨[], hw.traffic, .nothing rfl⟩, by simp [hnone], by simp [hnone]⟩
  · rename_i hbody
    rw [wp_bind, wp_newMsg]
    have hpasses : c.lastPass o b a channel = ((c.numbered.redo o b ⟨c.backend.nextCall, a.content⟩
        a.badDeliveryMode channel).getD c.numbered) := by
      unfold Cell.lastPass Cell.passes
      rw [if_neg hbody]
      cases c.numbered.redo o b _ _ channel <;> rfl
    have hidle : Idle c.numbered.bs := hidle
    rcases publishPass_goesBack o b ⟨c.backend.nextCall, a.content⟩ a.badDeliveryMode channel hidle with
      ⟨hnone, hrun⟩ | ⟨c₂, c₃, hsome, hu, hg, hrun⟩
    · rw [hnone] at hpasses
      refine wp_mono (hrun _) (fun r c' h => ⟨h.told, ?_, fun h2 c₁ c₂ h₁ hget hs => ?_⟩) fun _ c' h => ?_
      · rw [hpasses]
        exact h.uncommitted
      · rw [hpasses] at h₁
        obtain rfl : c.numbered = c₁ := Option.some.inj h₁
        exact h.suspect h2 hget hs
      · obtain ⟨ts, ht, hle⟩ := h
        exact ⟨ts, ht, Nat.le_succ_of_le hle⟩
    · rw [hsome] at hpasses
      have hagain : wp (publishPass o b ⟨c.backend.nextCall, a.content⟩ a.badDeliveryMode channel false (pure false))
          (Passed o b channel c₃) (fun _ => WroteOnce c₃) c₃ := by
        rw [publishPass_once _ (throw .spi)]
        exact publishPass_passed false fun _ => hg.uncommitted
      have hfirst : WroteOnce c.numbered c₃ := hg.wroteOnce hu
      unfold wp
      rw [hrun]
      refine wp_mono hagain
        (fun r c' h => ⟨h.after (c := c.numbered) hu hg, ?_, fun h2 c₁ c₂ h₁ hget hs => ?_⟩) fun _ c' h => ?_
      · rw [hpasses]
        exact h.uncommitted
      · rw [hpasses] at h₁
        obtain rfl : c₃ = c₁ := Option.some.inj h₁
        exact h.suspect h2 hget hs
      · obtain ⟨ts, ht, hle⟩ := hfirst
        obtain ⟨ts', ht', hle'⟩ := h
        refine ⟨ts ++ ts', by rw [ht', ht, List.append_assoc]; rfl, ?_⟩
        rw [writesIn_append, List.length_append]
        omega

end Answered

/-- The connection of an entry has got its number. -/
def Numbered (next : Nat) (bs : BrokerState) : Prop := ∀ k, bs.conn = some k → k.id < next

/-- No connection that the record destroys is held. -/
structure Living (p : Stage × Cell) : Prop where
  numbered : Numbered p.2.backend.nextConn p.2.bs
  gone : ∀ k, .destroyed k ∈ p.2.log → k.id < p.2.backend.nextConn ∧ ∀ k', p.2.bs.conn = some k' → k'.id ≠ k.id

section Living

variable {L : Lapses} {o : Outcomes} {p q : Stage × Cell}

/-- A change that keeps the connection, and destroys none. -/
theorem Living.keep (h : Living p) (hn : p.2.backend.nextConn ≤ q.2.backend.nextConn)
    (hc : q.2.bs.conn.map Connection.id = p.2.bs.conn.map Connection.id)
    (hl : ∀ k, .destroyed k ∈ q.2.log → .destroyed k ∈ p.2.log) : Living q := by
  have same : ∀ k', q.2.bs.conn = some k' → ∃ k, p.2.bs.conn = some k ∧ k.id = k'.id := by
    intro k' hk'
    rw [hk'] at hc
    cases hp : p.2.bs.conn with
    | none => simp [hp] at hc
    | some k =>
      rw [hp] at hc
      exact ⟨k, rfl, (Option.some.inj hc).symm⟩
  refine ⟨fun k' hk' => ?_, fun k hk => ⟨Nat.lt_of_lt_of_le (h.gone k (hl k hk)).1 hn, fun k' hk' => ?_⟩⟩
  · obtain ⟨k, hk, hid⟩ := same k' hk'
    exact hid ▸ Nat.lt_of_lt_of_le (h.numbered k hk) hn
  · obtain ⟨k₁, hk₁, hid⟩ := same k' hk'
    exact hid ▸ (h.gone k (hl k hk)).2 k₁ hk₁

theorem destroyed_mem {e : Event} {log : List Event} (he : ∀ k, e ≠ .destroyed k) {k : Connection}
    (h : .destroyed k ∈ log ++ [e]) : .destroyed k ∈ log := by
  rcases List.mem_append.mp h with h | h
  · exact h
  · exact absurd (List.mem_singleton.mp h).symm (he k)

theorem Cell.asked_id {c : Cell} {k : Connection} (hk : c.bs.conn = some k) (kind : Rpc) (a : Answer) :
    (c.asked kind a k).bs.conn.map Connection.id = c.bs.conn.map Connection.id := by
  rw [hk]
  exact congrArg some (k.answered_keeps kind a).1

theorem Cell.timed_id (c : Cell) (ms : Nat) :
    (c.timed ms).bs.conn.map Connection.id = c.bs.conn.map Connection.id := by
  simp only [Cell.timed, Cell.modified_bs, Option.map_map]
  rfl

/-- Giving the connection up, under its own number. -/
theorem Living.dropped {g : Stage} {c : Cell} (hp : Living (g, c)) {k : Connection} (hk : k.id < c.backend.nextConn) :
    Living (.rest, c.dropped k) := by
  refine ⟨fun k' hk' => by simp [Cell.dropped] at hk', fun k' hk' => ⟨?_, fun _ h => by simp [Cell.dropped] at h⟩⟩
  rcases List.mem_append.mp (show Event.destroyed k' ∈ c.log ++ [.destroyed k] from hk') with h | h
  · exact (hp.gone k' h).1
  · obtain rfl := Event.destroyed.inj (List.mem_singleton.mp h)
    exact hk

theorem Serve.living (h : Serve L p q) (hp : Living p) : Living q := by
  have hn := Nat.le_of_eq h.sameList.nextConn.symm
  cases h with
  | hear f rest hc _ =>
    refine hp.keep hn ?_ fun k hk => ?_
    · rw [Cell.heard_bs]
      simp only [Cell.taken, Cell.modified_bs, Option.map_map]
      rfl
    · rw [Cell.heard_log] at hk
      refine (List.mem_append.mp hk).elim id fun hk => ?_
      cases f <;> simp [Cell.noted] at hk
  | mishear rest hc _ hu =>
    refine hp.keep hn ?_ fun k hk => destroyed_mem (by simp) hk
    simp only [Cell.taken, Cell.modified_bs, Cell.warned_bs, Option.map_map]
    rfl
  | drop k hk => exact hp.dropped (hp.numbered k hk)
  | declare k d a hk =>
    refine hp.keep hn ?_ fun k hk => destroyed_mem (by simp) hk
    exact Cell.asked_id hk _ _
  | finish k kind a hk _ =>
    refine hp.keep hn ?_ fun k hk => destroyed_mem (by simp) hk
    exact Cell.asked_id hk _ _
  | write k channel m w hk _ =>
    refine hp.keep hn ?_ fun k hk => destroyed_mem (by simp) hk
    rw [hk]
    exact congrArg some (written_id ..)
  | warn r hr => exact hp.keep hn rfl fun k hk => destroyed_mem (by simp) hk
  | refuse => exact hp.keep hn rfl fun k hk => destroyed_mem (by simp) hk
  | accept k channel m hc => exact hp.keep hn rfl fun k hk => destroyed_mem (by simp) hk
  | flush => exact hp.keep hn (Cell.timed_id _ _) fun _ h => h
  | restore => exact hp.keep hn (Cell.timed_id _ _) fun _ h => h
  | _ => exact hp.keep hn rfl fun _ h => h

theorem Change.living (h : Change L o p q) (hp : Living p) : Living q := by
  have hn := h.lasts.nextConn
  cases h with
  | serve h => exact h.living hp
  | dial h =>
    cases h with
    | @new c hc _ =>
      refine ⟨fun k hk => ?_, fun k hk => ⟨Nat.lt_succ_of_lt (hp.gone k hk).1, fun k' hk' => ?_⟩⟩
      · obtain rfl : Connection.new c.backend.nextConn = k := Option.some.inj hk
        exact Nat.lt_succ_self _
      · obtain rfl : Connection.new c.backend.nextConn = k' := Option.some.inj hk'
        exact Nat.ne_of_gt (hp.gone k hk).1
    | «open» ok => exact hp.keep hn rfl fun k hk => destroyed_mem (by simp) hk
    | shake n => exact hp.keep hn (Cell.timed_id _ _) fun _ h => h
    | ask k kind a hk _ =>
      refine hp.keep hn ?_ fun k hk => destroyed_mem (by simp) hk
      exact Cell.asked_id hk _ _
    | connect => exact hp.keep hn (Cell.timed_id _ _) fun _ h => h
    | _ => exact hp.keep hn rfl fun _ h => h
  | @close c k hk =>
    have hclosing : Living (.rest, c.recorded (.rpc .connectionClose k.closing .none)) :=
      hp.keep hn rfl fun k hk => destroyed_mem (by simp) hk
    exact hclosing.dropped (k := k.closing) (hp.numbered k hk)
  | reset hc => exact hp.keep hn rfl fun _ h => h
  | free hc _ => exact hp.keep hn (by rw [Cell.freed_conn]) fun _ h => h

theorem Chain.living (h : Chain L o p q) (hp : Living p) : Living q :=
  h.keeps (fun _ _ => Change.living) hp

end Living

theorem numbered_lasting : Lasting (fun _ _ => True) fun k bs => Numbered k.nextConn bs where
  fresh := fun _ _ k hk => by simp [BrokerState.fresh] at hk
  grow := fun _ hn h k hk => Nat.lt_of_lt_of_le (h k hk) hn
  chain := fun _ h hc => (hc.living ⟨h, by simp [Session.start]⟩).numbered

/-- What the boolean of a call tells about the writes of the call, the connection that is
held at the end, the count and the error flag. -/
structure Verdict (o : Outcomes) (b : Int) (a : PublishArgs) (channel : Nat) (c : Cell) (r : Bool)
    (c' : Cell) : Prop where
  twice : (writesIn (trafficIn c'.log)).length ≤ 2
  last : r = true ↔ ∃ id, (writesIn (trafficIn c'.log)).getLast? = some (id, .ok)
  held : ∀ id, (writesIn (trafficIn c'.log)).getLast? = some (id, .ok) →
    ∃ k, c'.bs.conn = some k ∧ k.id = id ∧ .dropped id ∉ trafficIn c'.log
  orderly : Orderly (trafficIn c'.log)
  failed : r = false → ∀ id w, (id, w) ∈ writesIn (trafficIn c'.log) → w ≠ .ok
  uncommitted : c'.bs.uncommitted = ((c.lastPass o b a channel).getD c).bs.uncommitted +
    if channel = 2 ∧ r = true then 1 else 0
  suspect : channel = 2 → ∀ c₁ c₂, c.lastPass o b a channel = some c₁ → localAmqpGetBs o b c₁ = .ok () c₂ →
    c₂.Suspect o → r = false ∧ c'.bs.inerror = true

section Verdict

variable {s : Session} {o : Outcomes} {b : Int} {a : PublishArgs} {channel : Nat} {c : Cell} {r : Bool}

theorem dropped_destroyed {id : Nat} {log : List Event} (h : .dropped id ∈ trafficIn log) :
    ∃ k, .destroyed k ∈ log ∧ k.id = id := by
  obtain ⟨e, he, ht⟩ := List.mem_filterMap.mp h
  cases e with
  | destroyed k => exact ⟨k, he, Traffic.dropped.inj (Option.some.inj ht)⟩
  | basicPublish => cases ht
  | _ => cases ht

theorem Answered.verdict (h : Answered o b a channel (s.cell b) r c) (hl : Living (.rest, c)) :
    Verdict o b a channel (s.cell b) r c := by
  obtain ⟨ts, ht, htold⟩ := h.told
  obtain rfl : trafficIn c.log = ts := ht
  refine ⟨htold.length, htold.last, fun id hlast => ?_, htold.orderly, fun hr _ _ hm => htold.failed hr hm,
    h.uncommitted, h.suspect⟩
  obtain ⟨k, hk, hid⟩ := Option.map_eq_some_iff.mp (htold.held hlast)
  refine ⟨k, hk, hid, fun hd => ?_⟩
  obtain ⟨k', hk', hid'⟩ := dropped_destroyed hd
  exact (hl.gone k' hk').2 k hk (hid.trans hid'.symm)

/-- The boolean of a publish call, from any reachable state and for all outcomes. -/
theorem answer_tells_writes (hs : Runs (fun _ _ => True) s) (o : Outcomes) (b : Int) (a : PublishArgs)
    (channel : Nat) :
    wp (pgAmqpPublishOpt o b a channel) (Verdict o b a channel (s.cell b))
        (fun _ c' => (writesIn (trafficIn c'.log)).length ≤ 2) (s.cell b) ∧
      (∀ m badMode k, publishPass o b m badMode channel false k =
        publishPass o b m badMode channel false (pure false)) ∧
      (o.Calm → (s.cell b).Lists o → ∃ r c', pgAmqpPublishOpt o b a channel (s.cell b) = .ok r c') := by
  refine ⟨?_, fun _ _ k => publishPass_once k _, fun ho hl => ?_⟩
  · have hcalled : wp (pgAmqpPublishOpt o b a channel) (fun _ => Called .all o (s.cell b))
        (fun _ => Called .all o (s.cell b)) (s.cell b) :=
      pgAmqpPublishOpt_work (Runs.anchored hs b) (fun _ => trivial) (fun _ => trivial) fun _ _ => trivial
    have hnumbered : Numbered s.backend.nextConn (s.entry b) := numbered_lasting.holds (fun _ _ _ => trivial) hs
    refine wp_mono (wp_and (pgAmqpPublishOpt_answered o b a channel ((Runs.shaped hs).idle b)) hcalled)
      (fun r c' h => h.1.verdict (h.2.chain.living ⟨hnumbered, by simp [Session.cell, Session.start]⟩))
      fun _ c' h => ?_
    obtain ⟨ts, ht, hle⟩ := h.1
    obtain rfl : trafficIn c'.log = ts := ht
    exact hle
  · obtain ⟨r, c', hrun, -⟩ := pgAmqpPublishOpt_follows b a channel ho hl (Runs.indexed hs b)
    exact ⟨r, c', hrun⟩

theorem dying_lists (c : Cell) : c.Lists .dying := .inr fun _ h => Spi.noConfusion h

theorem rolledBack_told : ∃ r c, pgAmqpPublishOpt .dying 1 (.to1 "b") 2 (rolledBack.cell 1) = .ok r c ∧
    Verdict .dying 1 (.to1 "b") 2 (rolledBack.cell 1) r c := by
  have htells := answer_tells_writes (s := rolledBack) (rolledBack_calm.mono fun _ _ _ => trivial) .dying 1
    (.to1 "b") 2
  have hreturns := htells.2.2 (fun _ _ => rfl) (dying_lists _)
  generalize rolledBack = s at htells hreturns ⊢
  obtain ⟨r, c, hrun⟩ := hreturns
  exact ⟨r, c, hrun, wp_returned htells.1 hrun⟩

end Verdict

end PgAmqp
