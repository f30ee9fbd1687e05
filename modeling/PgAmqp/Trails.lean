import PgAmqp.ChangePaths
import PgAmqp.EntryInvariants

/-!
# The trail of an entry through a run

Between two steps of a backend an entry is at rest. A step takes every entry along a
trail: chains of changes, and what the calls on other entries do to the rest of the
backend. `Session.Lasting` is the induction over runs for what every chain keeps.
-/
namespace PgAmqp

open ProgramLogic Transition

/-- What the work on other entries may do to the backend. -/
structure Backend.Grows (k k' : Backend) : Prop where
  gucs : k'.gucs = k.gucs
  pid : k'.myProcPid = k.myProcPid
  nextConn : k.nextConn ≤ k'.nextConn

theorem Backend.Grows.refl (k : Backend) : k.Grows k := ⟨rfl, rfl, Nat.le_refl _⟩

theorem Backend.Grows.trans {k k' k'' : Backend} (h : k.Grows k') (h' : k'.Grows k'') : k.Grows k'' :=
  ⟨h'.gucs.trans h.gucs, h'.pid.trans h.pid, Nat.le_trans h.nextConn h'.nextConn⟩

theorem Lasts.grows {c c' : Cell} (h : Lasts c c') : c.backend.Grows c'.backend :=
  ⟨h.gucs, h.pid, h.nextConn⟩

/-- What a step does to one entry and to the backend around it, with the events of the
entry; `R` is what the parts of the step that work on the entry may do. -/
inductive Trail (R : Cell → Cell → Prop) :
    Backend → BrokerState → List Event → Backend → BrokerState → Prop where
  | still {k k' : Backend} (bs : BrokerState) : k.Grows k' → Trail R k bs [] k' bs
  | work {k : Backend} {bs : BrokerState} {linked : Bool} {c : Cell} :
      R (Session.start bs linked k) c → Trail R k bs c.log c.backend c.bs
  | trans {k k' k'' : Backend} {bs bs' bs'' : BrokerState} {evs evs' : List Event} :
      Trail R k bs evs k' bs' → Trail R k' bs' evs' k'' bs'' → Trail R k bs (evs ++ evs') k'' bs''

theorem Trail.mono {R R' : Cell → Cell → Prop} (hR : ∀ c c', R c c' → R' c c') {k k' : Backend}
    {bs bs' : BrokerState} {evs : List Event} (h : Trail R k bs evs k' bs') : Trail R' k bs evs k' bs' := by
  induction h with
  | still bs h => exact .still bs h
  | work h => exact .work (hR _ _ h)
  | trans _ _ ih ih' => exact ih.trans ih'

/-- Every entry goes along a trail. -/
def Trails (R : Int → Cell → Cell → Prop) (s s' : Session) (log : List (Int × Event)) : Prop :=
  ∀ b, Trail (R b) s.backend (s.entry b) (logOf b log) s'.backend (s'.entry b)

section Trails

variable {R : Int → Cell → Cell → Prop} {s s' s'' : Session} {log log' : List (Int × Event)}

theorem Trails.refl (s : Session) : Trails R s s [] := fun _ => .still _ (.refl _)

theorem Trails.trans (h : Trails R s s' log) (h' : Trails R s' s'' log') :
    Trails R s s'' (log ++ log') := by
  intro b
  rw [logOf_append]
  exact (h b).trans (h' b)

/-- The entries and the backend are all that matters. -/
theorem Trails.congr (h : Trails R s s' log) (hb : s''.backend = s'.backend)
    (he : s''.head = s'.head) : Trails R s s'' log := by
  intro b
  have hentry : s''.entry b = s'.entry b := by
    unfold Session.entry
    rw [he]
  rw [hb, hentry]
  exact h b

/-- How a call ends that did `R` to its entry. -/
structure Landed (R : Cell → Cell → Prop) (c c' : Cell) : Prop where
  lasts : Lasts c c'
  linked : c'.linked = true ∨ c'.bs = c.bs
  work : R c c'

theorem Called.landed {L : Lapses} {o : Outcomes} {R : Cell → Cell → Prop} {c c' : Cell} (h : Called L o c c')
    (hR : R c c') : Landed R c c' := ⟨h.chain.lasts, h.linked, hR⟩

/-- The entry of a call, and all others. -/
theorem stored_trails {b : Int} {c : Cell} (h : Landed (R b) (s.cell b) c) :
    Trails R s (s.store c) (c.log.map (b, ·)) := by
  have hid : c.bs.brokerId = b := h.lasts.brokerId.trans (s.entry_brokerId b)
  intro b'
  rw [s.entry_store b c hid h.linked b']
  by_cases hb : b' = b
  · subst hb
    rw [if_pos rfl, logOf_same]
    exact .work h.work
  · rw [if_neg hb, logOf_other (Ne.symm hb)]
    exact .still _ h.lasts.grows

/-- What a callback does to the entries. -/
structure SweptTrails (R : Int → Cell → Cell → Prop) (head : List BrokerState) (k : Backend)
    (r : Sweep) : Prop where
  grows : k.Grows r.backend
  other : ∀ b, lookup head b = none → lookup r.head b = none ∧ logOf b r.log = []
  entry : ∀ b e, lookup head b = some e →
    ∃ e', lookup r.head b = some e' ∧ Trail (R b) k e (logOf b r.log) r.backend e'

/-- A callback serves each entry and raises nothing. -/
def Serves (o : Int → Outcomes) (f : Outcomes → M Unit) (R : Int → Cell → Cell → Prop) : Prop :=
  ∀ b c, c.backend.holdoff = true →
    wp (f (o b)) (fun _ c' => SameList c c' ∧ R b c c') (fun _ _ => False) c

theorem forEachBs_trails {f : Outcomes → M Unit} {o : Int → Outcomes} (hf : Serves o f R)
    (head : List BrokerState) (k : Backend) (hk : k.holdoff = true)
    (hn : (head.map BrokerState.brokerId).Nodup) : SweptTrails R head k (forEachBs f o head k) := by
  induction head generalizing k with
  | nil => exact ⟨.refl _, fun _ _ => ⟨rfl, rfl⟩, fun _ _ h => by simp [lookup] at h⟩
  | cons e rest ih =>
    have he := hf e.brokerId (Session.start e true k) hk
    unfold wp at he
    unfold forEachBs
    cases hx : f (o e.brokerId) (Session.start e true k) with
    | error x c => simp only [hx] at he
    | ok u c =>
      simp only [hx] at he
      obtain ⟨hsame, hR⟩ := he
      obtain ⟨hnot, hrest⟩ := List.nodup_cons.mp hn
      have hk' : c.backend.holdoff = true := hsame.holdoff.trans hk
      have hgrows : k.Grows c.backend := hsame.lasts.grows
      have hr := ih c.backend hk' hrest
      have hid : c.bs.brokerId = e.brokerId := hsame.brokerId
      refine ⟨hgrows.trans hr.grows, fun b hb => ?_, fun b e' hb => ?_⟩
      · rw [lookup_cons] at hb ⊢
        rw [hid]
        split at hb
        · simp at hb
        · rename_i hne
          rw [if_neg hne]
          simpa [logOf_other hne] using hr.other b hb
      · rw [lookup_cons] at hb ⊢
        rw [hid]
        split at hb
        · rename_i heq
          obtain rfl : e = e' := Option.some.inj hb
          subst heq
          refine ⟨c.bs, if_pos rfl, ?_⟩
          rw [logOf_append, logOf_same, (hr.other _ (lookup_none.mpr hnot)).2]
          have hwork : Trail (R e.brokerId) k e c.log c.backend c.bs := .work hR
          exact hwork.trans (.still _ hr.grows)
        · rename_i hne
          obtain ⟨e'', hl, ht⟩ := hr.entry b e' hb
          refine ⟨e'', by rw [if_neg hne]; exact hl, ?_⟩
          rw [logOf_append, logOf_other hne]
          exact (Trail.still _ hgrows).trans ht

theorem sweep_trails {f : Outcomes → M Unit} {o : Int → Outcomes} (hf : Serves o f R)
    (hn : (s.head.map BrokerState.brokerId).Nodup) :
    Trails R s (s.sweep f o).1 (s.sweep f o).2.log := by
  have h := forEachBs_trails (o := o) hf s.head { s.backend with holdoff := true } rfl hn
  have hback : s.backend.Grows (s.sweep f o).1.backend := ⟨h.grows.gucs, h.grows.pid, h.grows.nextConn⟩
  intro b
  cases hl : lookup s.head b with
  | none =>
    obtain ⟨hnone, hlog⟩ := h.other b hl
    have hentry : s.entry b = .fresh b := by simp [Session.entry, hl]
    have hentry' : (s.sweep f o).1.entry b = .fresh b := by
      simp [Session.entry, Session.sweep, hnone]
    have hlog : logOf b (s.sweep f o).2.log = [] := hlog
    rw [hentry, hentry', hlog]
    exact .still _ hback
  | some e =>
    obtain ⟨e', hl', ht⟩ := h.entry b e hl
    have hentry : s.entry b = e := by simp [Session.entry, hl]
    have hentry' : (s.sweep f o).1.entry b = e' := by simp [Session.entry, Session.sweep, hl']
    rw [hentry, hentry']
    have hin : Trail (R b) s.backend e [] { s.backend with holdoff := true } e :=
      .still _ ⟨rfl, rfl, Nat.le_refl _⟩
    have hout : Trail (R b) (s.sweep f o).2.backend e' [] (s.sweep f o).1.backend e' :=
      .still _ ⟨rfl, rfl, Nat.le_refl _⟩
    have := hin.trans (ht.trans hout)
    rwa [List.append_nil] at this

theorem serves {f : Outcomes → M Unit} {o : Int → Outcomes} (hR : ∀ b c c', Between c c' → R b c c')
    (hf : ∀ o c, c.backend.holdoff = true →
      wp (f o) (fun _ => Between c) (fun _ _ => False) c) : Serves o f R :=
  fun b c hc => wp_mono (hf (o b) c hc) (fun _ c' h => ⟨h.sameList, hR b c c' h⟩) (fun _ _ h => h)

/-- The callbacks do `R` to each entry. -/
structure CallbacksDo (o : Int → Outcomes) (R : Int → Cell → Cell → Prop) : Prop where
  commit : Serves o (amqpLocalPhase2 .commit) R
  abort : Serves o (amqpLocalPhase2 .abort) R
  prepare : Serves o (amqpLocalPhase2 .prepare) R
  subxact : Serves o amqpLocalSubxact R

theorem CallbacksDo.between {o : Int → Outcomes} (hR : ∀ b c c', Between c c' → R b c c') : CallbacksDo o R where
  commit := serves hR fun _ _ => amqpLocalCommit_served
  abort := serves hR fun _ _ => amqpLocalAbort_served
  prepare := serves (f := amqpLocalPhase2 .prepare) hR fun _ _ _ => .refl
  subxact := serves hR fun _ _ => amqpLocalSubxact_served

theorem abortCurrent_trails {o : Int → Outcomes} (habort : Serves o (amqpLocalPhase2 .abort) R)
    (hsub : Serves o amqpLocalSubxact R) (hn : (s.head.map BrokerState.brokerId).Nodup) :
    Trails R s (s.abortCurrent o).1 (s.abortCurrent o).2 := by
  unfold Session.abortCurrent
  split
  · exact (sweep_trails hsub hn).congr rfl rfl
  · exact (sweep_trails habort hn).congr rfl rfl

theorem call_trails {o : Int → Outcomes} (habort : Serves o (amqpLocalPhase2 .abort) R)
    (hsub : Serves o amqpLocalSubxact R) (hn : (s.head.map BrokerState.brokerId).Nodup) {b : Int}
    {x : Outcomes → M Bool}
    (hx : wp (x (o b)) (fun _ => Landed (R b) (s.cell b)) (fun _ => Landed (R b) (s.cell b)) (s.cell b)) :
    Trails R s (s.call o b x).1 (s.call o b x).2.log := by
  unfold wp at hx
  cases hrun : x (o b) (s.cell b) with
  | ok v c =>
    simp only [hrun] at hx
    rw [Session.call_ok hrun]
    exact stored_trails hx
  | error e c =>
    simp only [hrun] at hx
    rw [Session.call_error hrun]
    have hn' : ((s.store c).head.map BrokerState.brokerId).Nodup := by
      show ((if c.linked then putBs c.bs s.head else s.head).map BrokerState.brokerId).Nodup
      split
      · exact putBs_nodup hn
      · exact hn
    exact (stored_trails hx).trans (abortCurrent_trails habort hsub hn')

theorem note_trails {b : Int} {m : Msg} {r : Session × Trace} (h : Trails R s r.1 r.2.log) :
    Trails R s (s.note b m r).1 (s.note b m r).2.log := by
  unfold Session.note
  split
  · exact h.congr rfl rfl
  · exact h

end Trails

namespace Session

/-- The call leaves a host list that is not complete. -/
def fillsPartly (s : Session) (st : Step) (b : Int) : Bool :=
  st.action.target = some b && (s.cell b).leavesPartly (st.outcomes b) && match st.action with
    | .publish a => !a.bodyTooLarge s.backend.gucs
    | .autonomousPublish a => !a.bodyTooLarge s.backend.gucs
    | .exchangeDeclare _ => true
    | _ => false

/-- A cancel is pending at the warning with which a publish call notes a blocked connection. -/
def mishears (st : Step) (b : Int) : Prop :=
  st.action.target = some b ∧ (st.outcomes b).Deafens ∧ match st.action with
    | .publish _ => True
    | .autonomousPublish _ => True
    | _ => False

/-- The lapses of a step on the entry of `b`. -/
def lapses (s : Session) (st : Step) (b : Int) : Lapses where
  halfOpen := halfOpens st b
  unheard := mishears st b
  partly := s.fillsPartly st b = true

end Session

section Exec

variable {s : Session} {st : Step}

/-- The work of a step on the entry of `b`: only a call of its own does more than a callback. -/
def Session.work (s : Session) (st : Step) (b : Int) (c c' : Cell) : Prop :=
  Between c c' ∨
    st.action.target = some b ∧ Chain (s.lapses st b) (st.outcomes b) (.rest, c) (.rest, c')

theorem Session.work_chain {b : Int} {c c' : Cell} (h : s.work st b c c') :
    Chain (s.lapses st b) (st.outcomes b) (.rest, c) (.rest, c') :=
  h.elim (fun h => (Served.lapsing h).chain) And.right

theorem work_between (b : Int) (c c' : Cell) (h : Between c c') : s.work st b c c' := .inl h

/-- A publish call that misses no frame, or whose lapse it is. -/
theorem pgAmqpPublishOpt_work {L : Lapses} {b : Int} {a : PublishArgs} {channel : Nat}
    (ha : Anchored (s.entry b)) {o : Outcomes} (hhalf : o.HalfOpen → L.halfOpen)
    (hdeaf : o.Deafens → L.unheard)
    (hpart : a.bodyTooLarge s.backend.gucs = false → (s.cell b).leavesPartly o = true → L.partly) :
    wp (pgAmqpPublishOpt o b a channel) (fun _ => Called L o (s.cell b)) (fun _ => Called L o (s.cell b))
      (s.cell b) := by
  exact wp_mono (pgAmqpPublishOpt_called hhalf hpart ha) (fun _ _ h => h) fun _ _ h => h hdeaf

/-- The program that a step calls on the entry of `b`. -/
inductive Step.Calls (st : Step) (b : Int) : M Bool → Prop where
  | publish {a : PublishArgs} : st.action = .publish a → a.brokerId = some b →
      st.Calls b (pgAmqpPublishOpt (st.outcomes b) b a 2)
  | autonomousPublish {a : PublishArgs} : st.action = .autonomousPublish a → a.brokerId = some b →
      st.Calls b (pgAmqpPublishOpt (st.outcomes b) b a 1)
  | exchangeDeclare {a : DeclareArgs} : st.action = .exchangeDeclare a → a.brokerId = some b →
      st.Calls b (pgAmqpExchangeDeclare (st.outcomes b) b a)
  | disconnect : st.action = .disconnect (some b) → st.Calls b (do localAmqpDisconnect; return true)

theorem Step.Calls.target {b : Int} {x : M Bool} (h : st.Calls b x) : st.action.target = some b := by
  cases h with
  | publish hact hb => rw [hact]; exact hb
  | autonomousPublish hact hb => rw [hact]; exact hb
  | exchangeDeclare hact hb => rw [hact]; exact hb
  | disconnect hact => rw [hact]; rfl

/-- The step did what the call did, but for what it returned and for the record of what was
acknowledged. -/
structure IsCall (b : Int) (r r' : Session × Trace) : Prop where
  raised : r.2.raised = r'.2.raised
  log : r.2.log = r'.2.log
  state : r.1 = { r'.1 with acks := r.1.acks }
  acks : ∀ b', b ≠ b' → r.1.acks.filter (·.broker = b') = r'.1.acks.filter (·.broker = b')

theorem IsCall.entry {b b' : Int} {r r' : Session × Trace} (h : IsCall b r r') : r.1.entry b' = r'.1.entry b' := by
  rw [h.state]
  rfl

theorem IsCall.backend {b : Int} {r r' : Session × Trace} (h : IsCall b r r') : r.1.backend = r'.1.backend := by
  rw [h.state]

theorem note_log (s : Session) (b : Int) (m : Msg) (r : Session × Trace) : (s.note b m r).2 = r.2 := by
  unfold Session.note
  split <;> rfl

theorem note_isCall (b : Int) (m : Msg) (r : Session × Trace) : IsCall b (s.note b m r) r := by
  refine ⟨by rw [note_log], by rw [note_log], ?_, fun b' hb => ?_⟩
  · unfold Session.note
    split <;> rfl
  · unfold Session.note
    split
    · simp [hb]
    · rfl

/-- A step with a target is a call on it. -/
theorem exec_calls (s : Session) {b : Int} (h : st.action.target = some b) :
    ∃ x, st.Calls b (x (st.outcomes b)) ∧ IsCall b (exec st s) (s.call st.outcomes b x) := by
  unfold exec
  cases hact : st.action with
  | publish a =>
    rw [hact] at h
    have hb : a.brokerId = some b := h
    refine ⟨fun o => pgAmqpPublishOpt o b a 2, .publish hact hb, ?_⟩
    dsimp only
    unfold Session.publish
    rw [hb]
    exact note_isCall ..
  | autonomousPublish a =>
    rw [hact] at h
    have hb : a.brokerId = some b := h
    refine ⟨fun o => pgAmqpPublishOpt o b a 1, .autonomousPublish hact hb, ?_⟩
    dsimp only
    unfold Session.autonomousPublish
    rw [hb]
    exact ⟨rfl, rfl, rfl, fun _ _ => rfl⟩
  | exchangeDeclare a =>
    rw [hact] at h
    have hb : a.brokerId = some b := h
    refine ⟨fun o => pgAmqpExchangeDeclare o b a, .exchangeDeclare hact hb, ?_⟩
    dsimp only
    unfold Session.exchangeDeclare
    rw [hb]
    exact ⟨rfl, rfl, rfl, fun _ _ => rfl⟩
  | disconnect b? =>
    rw [hact] at h
    obtain rfl : b? = some b := h
    exact ⟨fun _ => do localAmqpDisconnect; return true, .disconnect hact, rfl, rfl, rfl, fun _ _ => rfl⟩
  | _ => rw [hact] at h; cases h

/-- Every step but a `SET` takes every entry along a trail of what its parts do; what a
commit does matters only where the step is one. -/
theorem exec_parts {R : Int → Cell → Cell → Prop} (hs : s.Shaped) (hset : ∀ g, st.action ≠ .set g)
    (hcommit : st.action = .commit → Serves st.outcomes (amqpLocalPhase2 .commit) R)
    (habort : Serves st.outcomes (amqpLocalPhase2 .abort) R)
    (hprepare : Serves st.outcomes (amqpLocalPhase2 .prepare) R)
    (hsub : Serves st.outcomes amqpLocalSubxact R)
    (hcall : ∀ b x, st.Calls b x →
      wp x (fun _ => Landed (R b) (s.cell b)) (fun _ => Landed (R b) (s.cell b)) (s.cell b)) :
    Trails R s (next st s) (trace st s).log := by
  unfold next trace exec
  cases hact : st.action with
  | publish a =>
    dsimp only
    unfold Session.publish
    cases hb : a.brokerId with
    | none => exact .refl s
    | some b =>
      exact note_trails (call_trails (x := fun o => pgAmqpPublishOpt o b a 2) habort hsub hs.ids
        (hcall b _ (.publish hact hb)))
  | autonomousPublish a =>
    dsimp only
    unfold Session.autonomousPublish
    cases hb : a.brokerId with
    | none => exact .refl s
    | some b =>
      exact call_trails (x := fun o => pgAmqpPublishOpt o b a 1) habort hsub hs.ids
        (hcall b _ (.autonomousPublish hact hb))
  | exchangeDeclare a =>
    dsimp only
    unfold Session.exchangeDeclare
    cases hb : a.brokerId with
    | none => exact .refl s
    | some b =>
      exact call_trails (x := fun o => pgAmqpExchangeDeclare o b a) habort hsub hs.ids
        (hcall b _ (.exchangeDeclare hact hb))
  | disconnect b? =>
    cases b? with
    | none => exact .refl s
    | some b =>
      exact call_trails (x := fun _ => do localAmqpDisconnect; return true) habort hsub hs.ids
        (hcall b _ (.disconnect hact))
  | set g => exact absurd hact (hset g)
  | startSub => exact (Trails.refl s).congr rfl rfl
  | commitSub =>
    dsimp only
    split
    · exact (Trails.refl s).congr rfl rfl
    · exact .refl s
  | abortSub =>
    dsimp only
    split
    · exact (sweep_trails hsub hs.ids).congr rfl rfl
    · exact .refl s
  | commit => exact (sweep_trails (hcommit hact) hs.ids).congr rfl rfl
  | abort => exact (sweep_trails habort hs.ids).congr rfl rfl
  | prepare =>
    dsimp only
    rcases Session.prepare_cases (o := st.outcomes) hs with ⟨b, -, hr⟩ | ⟨-, hr⟩
    · rw [hr]
      exact (sweep_trails habort hs.ids).congr rfl rfl
    · rw [hr]
      exact (sweep_trails hprepare hs.ids).congr rfl rfl

/-- The same for what all callbacks do. -/
theorem exec_works {R : Int → Cell → Cell → Prop} (hs : s.Shaped) (hset : ∀ g, st.action ≠ .set g)
    (hR : CallbacksDo st.outcomes R)
    (hcall : ∀ b x, st.Calls b x →
      wp x (fun _ => Landed (R b) (s.cell b)) (fun _ => Landed (R b) (s.cell b)) (s.cell b)) :
    Trails R s (next st s) (trace st s).log :=
  exec_parts hs hset (fun _ => hR.commit) hR.abort hR.prepare hR.subxact hcall

/-- A call is a chain with the lapses of its step. -/
theorem calls_called (ha : ∀ b, Anchored (s.entry b)) {b : Int} {x : M Bool} (hx : st.Calls b x) :
    wp x (fun _ => Called (s.lapses st b) (st.outcomes b) (s.cell b))
      (fun _ => Called (s.lapses st b) (st.outcomes b) (s.cell b)) (s.cell b) := by
  have htarget := hx.target
  have publishes : ∀ {a : PublishArgs} {channel : Nat},
      st.action = .publish a ∧ channel = 2 ∨ st.action = .autonomousPublish a ∧ channel = 1 →
      wp (pgAmqpPublishOpt (st.outcomes b) b a channel)
        (fun _ => Called (s.lapses st b) (st.outcomes b) (s.cell b))
        (fun _ => Called (s.lapses st b) (st.outcomes b) (s.cell b)) (s.cell b) := by
    intro a channel hact
    refine pgAmqpPublishOpt_work (ha b) (fun h => ⟨htarget, h⟩) (fun h => ⟨htarget, h, ?_⟩) fun hbody hp => ?_
    · rcases hact with ⟨h, -⟩ | ⟨h, -⟩ <;> rw [h] <;> trivial
    · show s.fillsPartly st b = true
      unfold Session.fillsPartly
      rw [htarget]
      rcases hact with ⟨h, -⟩ | ⟨h, -⟩ <;> simp [h, hp, hbody]
  cases hx with
  | publish hact _ => exact publishes (.inl ⟨hact, rfl⟩)
  | autonomousPublish hact _ => exact publishes (.inr ⟨hact, rfl⟩)
  | @exchangeDeclare a hact _ =>
    refine pgAmqpExchangeDeclare_called (L := s.lapses st b) (fun h => ⟨htarget, h⟩) (fun hp => ?_) a
    show s.fillsPartly st b = true
    unfold Session.fillsPartly
    rw [htarget]
    simp [hact, hp]
  | disconnect _ => exact wp_seq localAmqpDisconnect_called fun _ _ h => h

/-- Every step but a `SET` takes every entry along a trail. -/
theorem exec_trails (hs : s.Shaped) (ha : ∀ b, Anchored (s.entry b))
    (hset : ∀ g, st.action ≠ .set g) :
    Trails (s.work st) s (next st s) (trace st s).log :=
  exec_works hs hset (.between work_between) fun _ _ hx =>
    wp_mono (calls_called ha hx) (fun _ _ h => h.landed (.inr ⟨hx.target, h.chain⟩))
      fun _ _ h => h.landed (.inr ⟨hx.target, h.chain⟩)

/-- A step without a call on the entry of `b` does to it what callbacks do. -/
theorem exec_spared (hs : s.Shaped) (ha : ∀ b, Anchored (s.entry b)) (hset : ∀ g, st.action ≠ .set g)
    {b : Int} (hb : st.action.target ≠ some b) :
    Trail Between s.backend (s.entry b) (logOf b (trace st s).log) (next st s).backend
      ((next st s).entry b) :=
  (exec_trails hs ha hset b).mono fun _ _ h => h.resolve_right fun h => hb h.1

end Exec

theorem Trail.unopened {k k' : Backend} {bs bs' : BrokerState} {evs : List Event} (h : Trail Between k bs evs k' bs') :
    ∀ e ∈ evs, e.opened = none := by
  induction h with
  | still _ _ => simp
  | work hc => exact fun _ he => (hc.unopened.mem he).resolve_left (by simp [Session.start])
  | trans _ _ ih ih' => exact fun e he => (List.mem_append.mp he).elim (ih e) (ih' e)

/-- The invariant is kept by every chain of the good lapses, and by what the rest of the
backend does meanwhile. -/
structure Lasting (good : Lapses → Outcomes → Prop) (I : Backend → BrokerState → Prop) : Prop where
  fresh : ∀ k b, I k (.fresh b)
  grow : ∀ {k k' : Backend} {bs}, k'.myProcPid = k.myProcPid → k.nextConn ≤ k'.nextConn → I k bs → I k' bs
  chain : ∀ {L o k bs linked} {c : Cell}, good L o → I k bs →
    Chain L o (.rest, Session.start bs linked k) (.rest, c) → I c.backend c.bs

section Lasting

variable {good : Lapses → Outcomes → Prop} {I : Backend → BrokerState → Prop}

theorem Lasting.trail (h : Lasting good I) {R : Cell → Cell → Prop} {L : Lapses} {o : Outcomes}
    (hL : good L o) (hR : ∀ c c', R c c' → Chain L o (.rest, c) (.rest, c'))
    {k k' : Backend} {bs bs' : BrokerState} {evs : List Event} (ht : Trail R k bs evs k' bs')
    (hI : I k bs) : I k' bs' := by
  induction ht with
  | still _ hg => exact h.grow hg.pid hg.nextConn hI
  | work hc => exact h.chain hL hI (hR _ _ hc)
  | trans _ _ ih ih' => exact ih' (ih hI)

theorem anchored_lasting : Lasting (fun _ _ => True) fun _ bs => Anchored bs where
  fresh := fun _ _ => ⟨by simp [BrokerState.fresh], fun _ => rfl⟩
  grow := fun _ _ h => h
  chain := fun _ h hc => hc.anchored h

theorem Lasting.next (h : Lasting good I) {s : Session} {st : Step} (hs : s.Shaped)
    (ha : ∀ b, Anchored (s.entry b)) {b : Int} (hgood : good (s.lapses st b) (st.outcomes b))
    (hI : I s.backend (s.entry b)) : I (next st s).backend ((next st s).entry b) := by
  by_cases hset : ∃ g, st.action = .set g
  · obtain ⟨g, hg⟩ := hset
    unfold PgAmqp.next exec
    rw [hg]
    exact h.grow (k := s.backend) rfl (Nat.le_refl _) hI
  · exact h.trail hgood (fun _ _ => Session.work_chain)
      (exec_trails hs ha (fun g hg => hset ⟨g, hg⟩) b) hI

variable {ok : Session → Step → Prop}

theorem entry_initial {s : Session} (h : s.Initial) (b : Int) : s.entry b = .fresh b := by
  simp [Session.entry, h.head, lookup]

theorem Runs.anchored {s : Session} (hs : Runs ok s) (b : Int) : Anchored (s.entry b) := by
  refine hs.invariant (I := fun s => ∀ b, Anchored (s.entry b)) (fun s h b => ?_)
    (fun s st hr hI _ b => anchored_lasting.next (Runs.shaped hr) hI trivial (hI b)) b
  rw [entry_initial h]
  exact anchored_lasting.fresh s.backend b

/-- A lasting invariant holds of an entry in every run whose lapses on it are good. -/
theorem Lasting.holds (h : Lasting good I) {b : Int}
    (hok : ∀ s st, ok s st → good (s.lapses st b) (st.outcomes b)) {s : Session} (hs : Runs ok s) :
    I s.backend (s.entry b) := by
  refine hs.invariant (I := fun s => I s.backend (s.entry b)) (fun s hi => ?_)
    (fun s st hr hI ho => h.next (Runs.shaped hr) (Runs.anchored hr) (hok s st ho) hI)
  rw [entry_initial hi]
  exact h.fresh _ b

/-- What every chain from the invariant records, every step records. -/
theorem Lasting.events (h : Lasting good I) {P : Event → Prop} {b : Int}
    (hP : ∀ {L o k bs linked} {c : Cell}, good L o → I k bs →
      Chain L o (.rest, Session.start bs linked k) (.rest, c) → ∀ e ∈ c.log, P e)
    (hok : ∀ s st, ok s st → good (s.lapses st b) (st.outcomes b)) {s : Session} (hs : Runs ok s)
    {st : Step} (ho : ok s st) : ∀ e ∈ logOf b (trace st s).log, P e := by
  by_cases hset : ∃ g, st.action = .set g
  · obtain ⟨g, hg⟩ := hset
    unfold trace exec
    rw [hg]
    simp [logOf]
  · have hgood := hok s st ho
    have hI := h.holds hok hs
    have ht := exec_trails (Runs.shaped hs) (Runs.anchored hs) (fun g hg => hset ⟨g, hg⟩) b
    generalize logOf b (trace st s).log = evs at ht
    generalize s.backend = k, s.entry b = bs, (PgAmqp.next st s).backend = k',
      (PgAmqp.next st s).entry b = bs' at ht hI
    induction ht with
    | still _ _ => simp
    | work hc => exact hP hgood hI (Session.work_chain hc)
    | trans t _ ih ih' =>
      intro e he
      rcases List.mem_append.mp he with he | he
      · exact ih hI e he
      · exact ih' (h.trail hgood (fun _ _ => Session.work_chain) t hI) e he

end Lasting

end PgAmqp
