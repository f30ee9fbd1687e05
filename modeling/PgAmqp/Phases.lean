import PgAmqp.ChannelOne
import PgAmqp.CallbackEffects
import PgAmqp.Session

/-!
# What a step may do to a session

A step is one phase or two: a call on one entry, or the turn of every entry at a
callback, or a call that raised and the callback that follows. `exec_phases` is the
one place where the steps are taken apart. An invariant of an entry is then proved
from the moves and the callbacks alone, and `Stable.holds` lifts it to all runs.
-/
namespace PgAmqp

open ProgramLogic Transition

theorem lookup_some {head : List BrokerState} {b : Int} {e : BrokerState}
    (h : lookup head b = some e) : e.brokerId = b := by
  have := List.find?_some h
  simpa using this

theorem lookup_cons (e : BrokerState) (rest : List BrokerState) (b : Int) :
    lookup (e :: rest) b = if e.brokerId = b then some e else lookup rest b := by
  unfold lookup
  rw [List.find?_cons]
  by_cases h : e.brokerId = b <;> simp [h]

theorem lookup_replaceBs (bs : BrokerState) (head : List BrokerState)
    (h : (lookup head bs.brokerId).isSome = true) (b : Int) :
    lookup (replaceBs bs head) b = if bs.brokerId = b then some bs else lookup head b := by
  induction head with
  | nil => simp [lookup] at h
  | cons e rest ih =>
    unfold replaceBs
    by_cases he : e.brokerId = bs.brokerId
    · rw [if_pos he, lookup_cons, lookup_cons, he]
      by_cases hb : bs.brokerId = b <;> simp [hb]
    · rw [lookup_cons, if_neg he] at h
      rw [if_neg he, lookup_cons, lookup_cons, ih h]
      by_cases hb : bs.brokerId = b
      · have hne : e.brokerId ≠ b := fun h => he (h.trans hb.symm)
        simp [hb, hne]
      · simp [hb]

theorem lookup_putBs (bs : BrokerState) (head : List BrokerState) (b : Int) :
    lookup (putBs bs head) b = if bs.brokerId = b then some bs else lookup head b := by
  unfold putBs
  split
  · rename_i h
    exact lookup_replaceBs bs head h b
  · rw [lookup_cons]

theorem replaceBs_ids (bs : BrokerState) (head : List BrokerState) :
    (replaceBs bs head).map BrokerState.brokerId = head.map BrokerState.brokerId := by
  induction head with
  | nil => rfl
  | cons e rest ih =>
    unfold replaceBs
    split
    · rename_i h
      simp [h]
    · simp [ih]

theorem lookup_none {head : List BrokerState} {b : Int} :
    lookup head b = none ↔ b ∉ head.map BrokerState.brokerId := by
  simp [lookup]

theorem lookup_mem {head : List BrokerState} (hn : (head.map BrokerState.brokerId).Nodup)
    {e : BrokerState} (he : e ∈ head) : lookup head e.brokerId = some e := by
  induction head with
  | nil => simp at he
  | cons e' rest ih =>
    obtain ⟨hnot, hrest⟩ := List.nodup_cons.mp hn
    rw [lookup_cons]
    rcases List.mem_cons.mp he with rfl | he
    · exact if_pos rfl
    · have hne : e'.brokerId ≠ e.brokerId := fun h => hnot (h ▸ List.mem_map_of_mem he)
      rw [if_neg hne]
      exact ih hrest he

theorem mem_of_lookup {head : List BrokerState} {b : Int} {e : BrokerState}
    (h : lookup head b = some e) : e ∈ head := List.mem_of_find?_eq_some h

theorem putBs_nodup {bs : BrokerState} {head : List BrokerState}
    (h : (head.map BrokerState.brokerId).Nodup) :
    ((putBs bs head).map BrokerState.brokerId).Nodup := by
  unfold putBs
  split
  · rw [replaceBs_ids]
    exact h
  · rename_i hn
    have hn : lookup head bs.brokerId = none := by simpa using hn
    exact List.nodup_cons.mpr ⟨lookup_none.mp hn, h⟩

namespace Session

theorem entry_mem {s : Session} (hn : (s.head.map BrokerState.brokerId).Nodup) {e : BrokerState}
    (he : e ∈ s.head) : s.entry e.brokerId = e := by
  rw [entry, lookup_mem hn he]
  rfl

/-- A fact about fresh entries and linked ones is a fact about every broker's entry. -/
theorem entry_forall {P : BrokerState → Prop} {s : Session} (hfresh : ∀ b, P (.fresh b))
    (h : ∀ e ∈ s.head, P e) (b : Int) : P (s.entry b) := by
  unfold entry
  cases hl : lookup s.head b with
  | none => exact hfresh b
  | some e => exact h e (mem_of_lookup hl)

theorem entry_brokerId (s : Session) (b : Int) : (s.entry b).brokerId = b := by
  unfold entry
  cases h : lookup s.head b with
  | none => rfl
  | some e => exact lookup_some h

/-- Storing an entry that is linked, or was not touched. -/
theorem entry_store (s : Session) (b : Int) (c : Cell) (hid : c.bs.brokerId = b)
    (h : c.linked = true ∨ c.bs = s.entry b) (b' : Int) :
    (s.store c).entry b' = if b' = b then c.bs else s.entry b' := by
  unfold store entry
  by_cases hl : c.linked = true
  · rw [if_pos hl, lookup_putBs, hid]
    by_cases hb : b' = b
    · simp [hb]
    · have hb' : ¬ b = b' := fun h => hb h.symm
      simp [hb, hb']
  · have hc := h.resolve_left hl
    rw [if_neg hl, hc]
    by_cases hb : b' = b
    · rw [if_pos hb, hb]
      rfl
    · rw [if_neg hb]

end Session

/-- The events of one broker in a record. -/
def logOf (b : Int) (log : List (Int × Event)) : List Event :=
  (log.filter fun p => p.1 = b).map Prod.snd

@[simp] theorem logOf_nil (b : Int) : logOf b [] = [] := rfl

@[simp] theorem logOf_append (b : Int) (l l' : List (Int × Event)) :
    logOf b (l ++ l') = logOf b l ++ logOf b l' := by
  simp [logOf]

theorem logOf_same (b : Int) (evs : List Event) : logOf b (evs.map (b, ·)) = evs := by
  induction evs with
  | nil => rfl
  | cons e rest ih =>
    unfold logOf at ih ⊢
    simp [ih]

theorem logOf_other {b b' : Int} (h : b' ≠ b) (evs : List Event) : logOf b (evs.map (b', ·)) = [] := by
  induction evs with
  | nil => rfl
  | cons e rest ih =>
    unfold logOf at ih ⊢
    simp [h]

theorem mem_logOf {b : Int} {e : Event} {log : List (Int × Event)} :
    e ∈ logOf b log ↔ (b, e) ∈ log := by
  simp [logOf]

/-- What a loop that raises nothing does to every entry. -/
structure Swept (R : BrokerState → BrokerState → List Event → Prop) (head : List BrokerState)
    (k : Backend) (r : Sweep) : Prop where
  raised : r.raised = none
  holdoff : r.backend.holdoff = k.holdoff
  nextCall : k.nextCall ≤ r.backend.nextCall
  ids : r.head.map BrokerState.brokerId = head.map BrokerState.brokerId
  other : ∀ b, lookup head b = none → logOf b r.log = []
  entry : ∀ b e, lookup head b = some e → ∃ e', lookup r.head b = some e' ∧ R e e' (logOf b r.log)

theorem forEachBs_swept {f : Outcomes → M Unit} {o : Int → Outcomes}
    {R : BrokerState → BrokerState → List Event → Prop}
    (hf : ∀ e k, k.holdoff = true → wp (f (o e.brokerId))
      (fun _ c => SameEntry (Session.start e true k) c ∧ R e c.bs c.log) (fun _ _ => False)
      (Session.start e true k))
    (head : List BrokerState) (k : Backend) (hk : k.holdoff = true)
    (hn : (head.map BrokerState.brokerId).Nodup) : Swept R head k (forEachBs f o head k) := by
  induction head generalizing k with
  | nil => exact ⟨rfl, rfl, Nat.le_refl _, rfl, fun _ _ => rfl, fun _ _ h => by simp [lookup] at h⟩
  | cons e rest ih =>
    have he := hf e k hk
    unfold wp at he
    unfold forEachBs
    cases hx : f (o e.brokerId) (Session.start e true k) with
    | error x c => simp only [hx] at he
    | ok u c =>
      simp only [hx] at he
      obtain ⟨hframe, hR⟩ := he
      obtain ⟨hnot, hrest⟩ := List.nodup_cons.mp hn
      have hr := ih c.backend (hframe.holdoff.trans hk) hrest
      have hid : c.bs.brokerId = e.brokerId := hframe.brokerId
      refine ⟨hr.raised, hr.holdoff.trans hframe.holdoff, Nat.le_trans hframe.nextCall hr.nextCall,
        ?_, fun b hb => ?_, fun b e' hb => ?_⟩
      · simp [hid, hr.ids]
      · rw [lookup_cons] at hb
        split at hb
        · simp at hb
        · rename_i hne
          simp [logOf_other hne, hr.other b hb]
      · rw [lookup_cons] at hb ⊢
        rw [hid]
        split at hb
        · rename_i heq
          obtain rfl : e = e' := Option.some.inj hb
          subst heq
          refine ⟨c.bs, if_pos rfl, ?_⟩
          rw [logOf_append, logOf_same, hr.other _ (lookup_none.mpr hnot), List.append_nil]
          exact hR
        · rename_i hne
          obtain ⟨e'', hl, hR'⟩ := hr.entry b e' hb
          exact ⟨e'', by rw [if_neg hne]; exact hl, by simpa [logOf_other hne] using hR'⟩

/-- The loop of `PRE_PREPARE` changes nothing, and raises where messages are counted. -/
theorem forEachBs_prePrepare (o : Int → Outcomes) (head : List BrokerState) (k : Backend) :
    ∃ raised, forEachBs (amqpLocalPhase2 .prePrepare) o head k = ⟨head, k, raised, []⟩ ∧
      (raised = none → ∀ e ∈ head, e.uncommitted = 0) ∧
      (∀ x, raised = some x → ∃ e ∈ head, 0 < e.uncommitted ∧
        x = .error (.cannotPrepare e.uncommitted e.brokerId)) := by
  induction head with
  | nil => exact ⟨none, rfl, by simp, by simp⟩
  | cons e rest ih =>
    obtain ⟨raised, hr, hnone, hsome⟩ := ih
    unfold forEachBs
    have hrun : amqpLocalPhase2 .prePrepare (o e.brokerId) (Session.start e true k) =
        if 0 < e.uncommitted then
          .error (.error (.cannotPrepare e.uncommitted e.brokerId)) (Session.start e true k)
        else .ok () (Session.start e true k) := amqpLocalPrePrepare_eq _
    rw [hrun]
    by_cases hu : 0 < e.uncommitted
    · rw [if_pos hu]
      exact ⟨_, rfl, by simp, fun x hx => ⟨e, by simp, hu, (Option.some.inj hx).symm⟩⟩
    · rw [if_neg hu]
      refine ⟨raised, ?_, ?_, ?_⟩
      · have hb : (Session.start e true k).backend = k := rfl
        simp only [hb, hr]
        rfl
      · intro hx e' he'
        rcases List.mem_cons.mp he' with rfl | he'
        · omega
        · exact hnone hx e' he'
      · intro x hx
        obtain ⟨e', he', hu', hx'⟩ := hsome x hx
        exact ⟨e', List.mem_cons_of_mem _ he', hu', hx'⟩

/-- The broker that a call works on. -/
def Action.target : Action → Option Int
  | .publish a => a.brokerId
  | .autonomousPublish a => a.brokerId
  | .exchangeDeclare a => a.brokerId
  | .disconnect b => b
  | _ => none

namespace Session

/-- The call gives up the connection of `b` while it holds acknowledged messages. -/
def loses (s : Session) (st : Step) (b : Int) : Bool :=
  0 < (s.entry b).uncommitted && match st.action with
    | .autonomousPublish a => a.brokerId = some b && !(s.cell b).publishKeeps (st.outcomes b) a
    | .exchangeDeclare a => a.brokerId = some b && !(s.cell b).declareKeeps (st.outcomes b)
    | .disconnect b' => b' = some b
    | _ => false

/-- A close frame is read from the connection of `b`, which is kept as if it were sound. -/
def forgets (s : Session) (st : Step) (b : Int) : Prop :=
  match st.action with
  | .autonomousPublish a => a.brokerId = some b ∧ a.bodyTooLarge s.backend.gucs = false ∧
      (s.cell b).forgets (st.outcomes b) (a.mandatory.getD false)
  | .commit => 0 < (s.entry b).uncommitted ∧ (s.entry b).inerror = false ∧
      (s.cell b).forgetsFlush (st.outcomes b)
  | _ => False

/-- A connection is found usable that is only kept until the end of the transaction,
because a close frame was read from it. -/
def writesStale (s : Session) (st : Step) (b : Int) : Prop :=
  match st.action with
  | .autonomousPublish a => a.brokerId = some b ∧ a.bodyTooLarge s.backend.gucs = false ∧
      (s.cell b).usable (st.outcomes b) = true ∧ (s.entry b).inerror = true ∧
      ∃ k, (s.entry b).conn = some k ∧ k.closeSeen = true
  | _ => False

/-- A cancel is pending at the warning of a failed host attempt. -/
def halfOpens (st : Step) (b : Int) : Prop := st.action.target = some b ∧ (st.outcomes b).HalfOpen

/-- The faults of a step on the entry of `b`. -/
def faults (s : Session) (st : Step) (b : Int) : Faults where
  lossy := s.loses st b = true
  forgetful := s.forgets st b
  stale := s.writesStale st b
  halfOpen := halfOpens st b
  flagged := True

/-- What every reached session is like, whatever its steps were. -/
structure Shaped (s : Session) : Prop where
  ids : (s.head.map BrokerState.brokerId).Nodup
  holdoff : s.backend.holdoff = false
  idle : ∀ b, Idle (s.entry b)
  calls : s.acks.Pairwise fun k k' => k.msg.call < k'.msg.call
  numbered : ∀ k ∈ s.acks, k.msg.call < s.backend.nextCall

end Session

/-- One phase of a step: what it does to the entries, to the acknowledged messages and
to the record. -/
inductive Phase (F : Int → Faults) (committing : Prop) (s s' : Session)
    (log : List (Int × Event)) : Prop where
  | still : (∀ b, s'.entry b = s.entry b) → (∀ b, s'.acked b = s.acked b) →
      (∀ b, s'.live b = s.live b) → log = [] → Phase F committing s s' log
  | call (b : Int) (c : Cell) : Left (F b) (s.cell b) c →
      (∀ b', s'.entry b' = if b' = b then c.bs else s.entry b') →
      (∀ b', s'.acked b' = s.acked b' ++ if b' = b then ackedIn c.log else []) →
      (∀ b', s'.live b' = s.live b' ++ if b' = b then ackedIn c.log else []) →
      log = c.log.map (b, ·) → Phase F committing s s' log
  | commit : committing → (∀ b, Closed (F b).forgetful (s.entry b) (s'.entry b)) →
      (∀ b, Writeless (logOf b log)) → (∀ b, Settled (s.entry b) (logOf b log)) → s'.acks = [] →
      Phase F committing s s' log
  | abort : (∀ b, Closed False (s.entry b) (s'.entry b)) → (∀ b, Writeless (logOf b log)) →
      (∀ b, commitsIn (logOf b log) = []) → s'.acks = [] → Phase F committing s s' log
  | undo : (∀ b, Flagged (s.entry b) (s'.entry b)) → (∀ b, ∀ e ∈ logOf b log, e.neutral = true) →
      (∀ b, s'.acked b = s.acked b) → (∀ b, (s'.live b).Sublist (s.live b)) → Phase F committing s s' log
  | prepare : (∀ b, s'.entry b = s.entry b) → (∀ b, (s.entry b).uncommitted = 0) → s'.acks = [] →
      log = [] → Phase F committing s s' log

/-- A step is one phase, or two. -/
inductive Phases (F : Int → Faults) (committing : Prop) (s s' : Session)
    (log : List (Int × Event)) : Prop where
  | one : Phase F committing s s' log → Phases F committing s s' log
  | two (s₁ : Session) (l₁ l₂ : List (Int × Event)) : Phase F committing s s₁ l₁ → Phase F committing s₁ s' l₂ →
      log = l₁ ++ l₂ → Phases F committing s s' log

namespace Session

theorem acked_nil {s : Session} (h : s.acks = []) (b : Int) : s.acked b = [] := by
  simp [acked, h]

theorem live_nil {s : Session} (h : s.acks = []) (b : Int) : s.live b = [] := by
  simp [live, h]

section Sweeps

variable {s : Session} {f : Outcomes → M Unit} {o : Int → Outcomes}
  {R : BrokerState → BrokerState → List Event → Prop}

/-- What a callback that raises nothing does to a session. -/
structure SweptSession (R : BrokerState → BrokerState → List Event → Prop) (s s' : Session)
    (r : Sweep) : Prop where
  raised : r.raised = none
  entry : ∀ b, R (s.entry b) (s'.entry b) (logOf b r.log)
  ids : (s'.head.map BrokerState.brokerId).Nodup
  holdoff : s'.backend.holdoff = false
  nextCall : s.backend.nextCall ≤ s'.backend.nextCall
  acks : s'.acks = s.acks
  depth : s'.depth = s.depth

theorem sweep_swept (hs : s.Shaped)
    (hf : ∀ e k, k.holdoff = true → wp (f (o e.brokerId))
      (fun _ c => SameEntry (start e true k) c ∧ R e c.bs c.log) (fun _ _ => False) (start e true k))
    (hfresh : ∀ b, R (.fresh b) (.fresh b) []) :
    SweptSession R s (s.sweep f o).1 (s.sweep f o).2 := by
  have h := forEachBs_swept hf s.head { s.backend with holdoff := true } rfl hs.ids
  refine ⟨h.raised, fun b => ?_, ?_, hs.holdoff, h.nextCall, rfl, rfl⟩
  · unfold entry
    cases hl : lookup s.head b with
    | none =>
      have hnone : lookup (s.sweep f o).1.head b = none := by
        rw [lookup_none] at hl ⊢
        exact h.ids ▸ hl
      have hlog : logOf b (s.sweep f o).2.log = [] := h.other b hl
      rw [hnone, hlog]
      exact hfresh b
    | some e =>
      obtain ⟨e', hl', hR⟩ := h.entry b e hl
      have hl' : lookup (s.sweep f o).1.head b = some e' := hl'
      rw [hl']
      exact hR
  · exact (congrArg List.Nodup h.ids).mpr hs.ids

end Sweeps

/-- A phase, and what it leaves the session like. -/
def Goes (F : Int → Faults) (committing : Prop) (s s' : Session) (log : List (Int × Event)) :
    Prop :=
  Phase F committing s s' log ∧ s'.Shaped

section Ends

variable {F : Int → Faults} {committing : Prop} {s : Session} {o : Int → Outcomes}

/-- The end of a transaction leaves nothing to be numbered. -/
theorem SweptSession.ended {R : BrokerState → BrokerState → List Event → Prop} {s s' : Session}
    {r : Sweep} (h : SweptSession R s s' r)
    (hidle : ∀ b, Idle (s'.entry b)) : s'.ended.Shaped :=
  ⟨h.ids, h.holdoff, hidle, .nil, fun k hk => by simp [Session.ended] at hk⟩

theorem abort_swept (hs : s.Shaped) (o : Int → Outcomes) :
    SweptSession (fun e e' evs => Closed False e e' ∧ Writeless evs ∧ commitsIn evs = []) s
      (s.sweep (amqpLocalPhase2 .abort) o).1 (s.sweep (amqpLocalPhase2 .abort) o).2 := by
  refine sweep_swept hs (fun e k hk => wp_mono (amqpLocalAbort_spec (c := start e true k) hk)
    (fun _ c hc => ?_) (fun _ _ h => h)) (fun b => ⟨.fresh False b, by simp [Writeless], rfl⟩)
  obtain ⟨evs, hl, hw, hcommit⟩ := hc.log
  obtain rfl : c.log = evs := hl
  exact ⟨hc.frame, hc.closed, hw, hcommit⟩

theorem abort_goes (hs : s.Shaped) : Goes F committing s (s.abort o).1 (s.abort o).2 := by
  have h := abort_swept hs o
  exact ⟨.abort (fun b => (h.entry b).1) (fun b => (h.entry b).2.1) (fun b => (h.entry b).2.2) rfl,
    h.ended fun b => (h.entry b).1.idle⟩

/-- A commit flushes an entry that has acknowledged messages and is not in error, and may
forget a close frame over it. -/
def forgetsFlush (s : Session) (o : Int → Outcomes) (b : Int) : Prop :=
  0 < (s.entry b).uncommitted ∧ (s.entry b).inerror = false ∧ (s.cell b).forgetsFlush (o b)

theorem commit_swept (hs : s.Shaped) (o : Int → Outcomes) :
    SweptSession (fun e e' evs => Closed (0 < e.uncommitted ∧ e.inerror = false ∧
        (start e true s.backend).forgetsFlush (o e.brokerId)) e e' ∧ Writeless evs ∧ Settled e evs) s
      (s.sweep (amqpLocalPhase2 .commit) o).1 (s.sweep (amqpLocalPhase2 .commit) o).2 := by
  refine sweep_swept hs (fun e k hk => wp_mono (amqpLocalCommit_spec (c := start e true k) hk)
    (fun _ c hc => ?_) (fun _ _ h => h)) (fun b => ⟨.fresh _ b, by simp [Writeless], .lost rfl rfl⟩)
  obtain ⟨evs, hl, hw, hsettled⟩ := hc.log
  obtain rfl : c.log = evs := hl
  exact ⟨hc.frame, hc.closed, hw, hsettled⟩

theorem commit_closed (hs : s.Shaped) (o : Int → Outcomes) (b : Int) :
    Closed (s.forgetsFlush o b) (s.entry b) ((s.commit o).1.entry b) := by
  refine ((commit_swept hs o).entry b).1.mono fun hf => ?_
  rw [entry_brokerId] at hf
  exact hf

theorem commit_settled (hs : s.Shaped) (o : Int → Outcomes) (b : Int) :
    Settled (s.entry b) (logOf b (s.commit o).2.log) := ((commit_swept hs o).entry b).2.2

theorem commit_goes {st : Step} (hs : s.Shaped) (ha : st.action = .commit) :
    Goes (s.faults st) (st.action = .commit) s (s.commit st.outcomes).1 (s.commit st.outcomes).2.log := by
  have h := commit_swept hs st.outcomes
  refine ⟨.commit ha (fun b => (commit_closed hs st.outcomes b).mono fun hf => ?_)
    (fun b => (h.entry b).2.1) (commit_settled hs st.outcomes) rfl,
    h.ended fun b => (h.entry b).1.idle⟩
  unfold faults forgets
  rw [ha]
  exact hf

end Ends

section Subtransactions

variable {F : Int → Faults} {committing : Prop} {s : Session} {o : Int → Outcomes}

/-- A change of the acknowledgements that keeps their brokers and messages. -/
structure Relabels (f : Ack → Ack) : Prop where
  broker : ∀ k, (f k).broker = k.broker
  msg : ∀ k, (f k).msg = k.msg

theorem Relabels.acked {f : Ack → Ack} (h : Relabels f) (acks : List Ack) (b : Int) :
    ((acks.map f).filter fun k => k.broker = b).map Ack.msg =
      (acks.filter fun k => k.broker = b).map Ack.msg := by
  simp [List.filter_map, Function.comp_def, h.broker, h.msg]

theorem Relabels.live {f : Ack → Ack} (h : Relabels f)
    (hu : ∀ k, k.undone = true → (f k).undone = true) (acks : List Ack) (b : Int) :
    (((acks.map f).filter fun k => k.broker = b ∧ ¬ k.undone).map Ack.msg).Sublist
      ((acks.filter fun k => k.broker = b ∧ ¬ k.undone).map Ack.msg) := by
  simp only [List.filter_map, List.map_map, Function.comp_def, h.broker, h.msg]
  refine List.Sublist.map _ ?_
  induction acks with
  | nil => exact .slnil
  | cons k rest ih =>
    have hk := hu k
    simp only [List.filter_cons]
    by_cases h₁ : (f k).undone = true <;> by_cases h₂ : k.undone = true <;>
      by_cases h₃ : k.broker = b <;> simp_all

theorem Relabels.liveSame {f : Ack → Ack} (h : Relabels f) (hu : ∀ k, (f k).undone = k.undone)
    (acks : List Ack) (b : Int) :
    ((acks.map f).filter fun k => k.broker = b ∧ ¬ k.undone).map Ack.msg =
      (acks.filter fun k => k.broker = b ∧ ¬ k.undone).map Ack.msg := by
  simp [List.filter_map, Function.comp_def, h.broker, h.msg, hu]

theorem Relabels.calls {f : Ack → Ack} (h : Relabels f) {acks : List Ack}
    (hc : acks.Pairwise fun k k' => k.msg.call < k'.msg.call) :
    (acks.map f).Pairwise fun k k' => k.msg.call < k'.msg.call := by
  rw [List.pairwise_map]
  simpa only [h.msg] using hc

theorem Relabels.numbered {f : Ack → Ack} (h : Relabels f) {acks : List Ack} {n : Nat}
    (hc : ∀ k ∈ acks, k.msg.call < n) : ∀ k ∈ acks.map f, k.msg.call < n := by
  intro k hk
  obtain ⟨k', hk', rfl⟩ := List.mem_map.mp hk
  rw [h.msg]
  exact hc k' hk'

theorem abortSub_goes (hs : s.Shaped) : Goes F committing s (s.abortSub o).1 (s.abortSub o).2 := by
  have h := sweep_swept (o := o) (f := amqpLocalSubxact)
    (R := fun e e' evs => Flagged e e' ∧ ∀ ev ∈ evs, ev.neutral = true) hs
    (fun e k hk => wp_mono (amqpLocalSubxact_spec (c := start e true k) hk)
      (fun _ c hc => ?_) (fun _ _ h => h))
    (fun b => ⟨⟨rfl, rfl, rfl, rfl⟩, by simp⟩)
  · have hrel : Relabels fun k => if s.depth ≤ k.depth then { k with undone := true } else k :=
      ⟨fun k => by split <;> rfl, fun k => by split <;> rfl⟩
    refine ⟨.undo (fun b => (h.entry b).1) (fun b => (h.entry b).2) (fun b => hrel.acked s.acks b)
      (fun b => hrel.live (fun k hk => by split <;> simp [hk]) s.acks b), h.ids, h.holdoff,
      fun b => ?_, hrel.calls hs.calls, hrel.numbered fun k hk => ?_⟩
    · intro hnone
      have hf := (h.entry b).1
      have hnone : (s.entry b).conn = none := hf.conn.symm.trans hnone
      exact hf.uncommitted.trans (hs.idle b hnone)
    · exact Nat.lt_of_lt_of_le (hs.numbered k hk) h.nextCall
  · obtain ⟨hframe, hflag, evs, hl, hn⟩ := hc
    obtain rfl : c.log = evs := hl
    exact ⟨hframe, hflag, hn⟩

theorem abortCurrent_goes (hs : s.Shaped) :
    Goes F committing s (s.abortCurrent o).1 (s.abortCurrent o).2 := by
  unfold abortCurrent
  split
  · exact abortSub_goes hs
  · exact abort_goes hs

theorem release_goes (hs : s.Shaped) : Goes F committing s s.release [] := by
  have hrel : Relabels fun k => if s.depth ≤ k.depth then { k with depth := s.depth - 1 } else k :=
    ⟨fun k => by split <;> rfl, fun k => by split <;> rfl⟩
  exact ⟨.still (fun _ => rfl) (fun b => hrel.acked s.acks b)
    (fun b => hrel.liveSame (fun k => by split <;> rfl) s.acks b) rfl, hs.ids, hs.holdoff, hs.idle, hrel.calls hs.calls,
    hrel.numbered hs.numbered⟩

end Subtransactions

section Calls

variable {F : Int → Faults} {committing : Prop} {s : Session} {o : Int → Outcomes} {b : Int} {c : Cell}

/-- The session after a call returned, with the message it acknowledged, if any. -/
def noted (s : Session) (b : Int) (c : Cell) (new : Option Msg) : Session :=
  { s.store c with acks := s.acks ++ new.toList.map fun m => ⟨b, m, s.depth, false⟩ }

theorem noted_none (s : Session) (b : Int) (c : Cell) : s.noted b c none = s.store c := by
  simp [noted, store]

theorem noted_acked (s : Session) (b : Int) (c : Cell) (new : Option Msg) (b' : Int) :
    (s.noted b c new).acked b' = s.acked b' ++ if b' = b then new.toList else [] := by
  cases new with
  | none => simp [noted, acked]
  | some m => by_cases hb : b' = b <;> simp [noted, acked, hb, Ne.symm]

theorem noted_live (s : Session) (b : Int) (c : Cell) (new : Option Msg) (b' : Int) :
    (s.noted b c new).live b' = s.live b' ++ if b' = b then new.toList else [] := by
  cases new with
  | none => simp [noted, live]
  | some m => by_cases hb : b' = b <;> simp [noted, live, hb, Ne.symm]

theorem noted_goes (hs : s.Shaped) (hl : Left (F b) (s.cell b) c) (new : Option Msg)
    (hnew : ackedIn c.log = new.toList)
    (hcall : ∀ m ∈ new, m.call = s.backend.nextCall ∧ s.backend.nextCall < c.backend.nextCall) :
    Goes F committing s (s.noted b c new) (c.log.map (b, ·)) := by
  have hframe := hl.path.frame
  have hid : c.bs.brokerId = b := hframe.brokerId.trans (s.entry_brokerId b)
  have hentry : ∀ b', (s.noted b c new).entry b' = if b' = b then c.bs else s.entry b' :=
    s.entry_store b c hid hl.linked
  have hle : s.backend.nextCall ≤ c.backend.nextCall := hframe.nextCall
  refine ⟨.call b c hl hentry (fun b' => ?_) (fun b' => ?_) rfl, ?_, ?_, fun b' => ?_, ?_, ?_⟩
  · rw [hnew]
    exact noted_acked s b c new b'
  · rw [hnew]
    exact noted_live s b c new b'
  · show ((if c.linked then putBs c.bs s.head else s.head).map BrokerState.brokerId).Nodup
    split
    · exact putBs_nodup hs.ids
    · exact hs.ids
  · exact hframe.holdoff.trans hs.holdoff
  · rw [hentry]
    split
    · exact hl.path.keeps (P := fun c => Idle c.bs)
        (fun _ _ hm hi => by obtain ⟨_, _, he⟩ := hm.effect; exact he.idle hi) (hs.idle b)
    · exact hs.idle b'
  · refine List.pairwise_append.mpr ⟨hs.calls, ?_, ?_⟩
    · cases new <;> simp
    · intro k hk k' hk'
      obtain ⟨m, hm, rfl⟩ := List.mem_map.mp hk'
      have hnumber := hs.numbered k hk
      rw [(hcall m (by simpa using hm)).1]
      exact hnumber
  · intro k hk
    show k.msg.call < c.backend.nextCall
    rcases List.mem_append.mp hk with hk | hk
    · exact Nat.lt_of_lt_of_le (hs.numbered k hk) hle
    · obtain ⟨m, hm, rfl⟩ := List.mem_map.mp hk
      obtain ⟨h₁, h₂⟩ := hcall m (by simpa using hm)
      exact h₁ ▸ h₂

/-- What the whole step goes through. Where it raises outside of every subtransaction,
the abort of the transaction comes last. -/
structure Steps (F : Int → Faults) (committing : Prop) (o : Int → Outcomes) (s : Session)
    (r : Session × Trace) : Prop where
  phases : Phases F committing s r.1 r.2.log
  shaped : r.1.Shaped
  aborts : r.2.raised ≠ none → s.depth = 0 →
    ∃ s₁ log, Phase F committing s s₁ log ∧ s₁.Shaped ∧ r.1 = (s₁.abort o).1

/-- A step of one phase that does not raise. -/
theorem Goes.steps {r : Session × Trace} (h : Goes F committing s r.1 r.2.log)
    (hr : r.2.raised = none) : Steps F committing o s r :=
  ⟨.one h.1, h.2, fun hn => absurd hr hn⟩

theorem still_goes (hs : s.Shaped) : Goes F committing s s [] :=
  ⟨.still (fun _ => rfl) (fun _ => rfl) (fun _ => rfl) rfl, hs⟩

variable {x : Outcomes → M Bool} {m : Msg}

theorem call_ok {v : Bool} (h : x (o b) (s.cell b) = .ok v c) :
    s.call o b x = (s.store c, ⟨some v, none, c.log.map (b, ·)⟩) := by
  unfold call
  rw [h]

theorem call_error {e : Raised} (h : x (o b) (s.cell b) = .error e c) :
    s.call o b x = (((s.store c).abortCurrent o).1,
      ⟨none, some e, c.log.map (b, ·) ++ ((s.store c).abortCurrent o).2⟩) := by
  unfold call
  rw [h]

theorem stored_goes (hs : s.Shaped) (h : Unacked (F b) (s.cell b) c) :
    Goes F committing s (s.store c) (c.log.map (b, ·)) := by
  rw [← noted_none s b c]
  exact noted_goes hs h.left none h.acked (by simp)

/-- A call that raised, with the abort callback that follows. -/
theorem raised_steps (hs : s.Shaped) (h : Unacked (F b) (s.cell b) c) (e : Raised) :
    Steps F committing o s (((s.store c).abortCurrent o).1,
      ⟨none, some e, c.log.map (b, ·) ++ ((s.store c).abortCurrent o).2⟩) := by
  have h₁ : Goes F committing s (s.store c) (c.log.map (b, ·)) := stored_goes hs h
  have h₂ : Goes F committing (s.store c) _ _ := abortCurrent_goes (o := o) h₁.2
  refine ⟨.two _ _ _ h₁.1 h₂.1 rfl, h₂.2, fun _ hd => ⟨s.store c, _, h₁.1, h₁.2, ?_⟩⟩
  have hd : ¬ 0 < (s.store c).depth := Nat.not_lt.mpr (Nat.le_of_eq hd)
  dsimp only
  rw [abortCurrent, if_neg hd]

/-- A call that acknowledges nothing on channel 2. -/
theorem call_steps (hs : s.Shaped) (hx : wp (x (o b)) (fun _ => Unacked (F b) (s.cell b))
      (fun _ => Unacked (F b) (s.cell b)) (s.cell b)) :
    Steps F committing o s (s.call o b x) := by
  unfold wp at hx
  cases hrun : x (o b) (s.cell b) with
  | ok v c =>
    simp only [hrun] at hx
    rw [call_ok hrun]
    exact (stored_goes hs hx).steps rfl
  | error e c =>
    simp only [hrun] at hx
    rw [call_error hrun]
    exact raised_steps hs hx e

/-- A call on channel 2. -/
theorem note_steps (hs : s.Shaped) (hm : m.call = s.backend.nextCall)
    (hx : wp (x (o b)) (Published (F b) m 2 (s.cell b)) (fun _ => Unacked (F b) (s.cell b))
      (s.cell b)) :
    Steps F committing o s (s.note b m (s.call o b x)) := by
  unfold wp at hx
  cases hrun : x (o b) (s.cell b) with
  | ok v c =>
    simp only [hrun] at hx
    rw [call_ok hrun]
    cases v with
    | true =>
      have hacked : ackedIn c.log = [m] := by simpa [cell, start] using hx.acked
      have h : Goes F committing s (s.noted b c (some m)) (c.log.map (b, ·)) :=
        noted_goes hs hx.left (some m) hacked fun m' hm' => by
          obtain rfl : m = m' := by simpa using hm'
          exact ⟨hm, hx.numbered rfl⟩
      exact h.steps rfl
    | false =>
      have h : Goes F committing s (s.store c) (c.log.map (b, ·)) :=
        stored_goes hs ⟨hx.left, by simpa using hx.acked⟩
      exact h.steps rfl
  | error e c =>
    simp only [hrun] at hx
    rw [call_error hrun]
    exact raised_steps hs hx e

end Calls

section Prepare

variable {F : Int → Faults} {committing : Prop} {s : Session} {o : Int → Outcomes}

/-- `PREPARE TRANSACTION` raises where a message is counted, and otherwise leaves every
entry as it is. -/
theorem prepare_cases (hs : s.Shaped) :
    (∃ b, 0 < (s.entry b).uncommitted ∧
      s.prepare o = ((s.abort o).1, ⟨none, some (.error (.cannotPrepare (s.entry b).uncommitted b)),
        (s.abort o).2⟩)) ∨
    ((∀ b, (s.entry b).uncommitted = 0) ∧
      s.prepare o = (((s.sweep (amqpLocalPhase2 .prepare) o).1).ended,
        ⟨none, none, (s.sweep (amqpLocalPhase2 .prepare) o).2.log⟩)) := by
  obtain ⟨raised, hr, hnone, hsome⟩ := forEachBs_prePrepare o s.head { s.backend with holdoff := true }
  have hsweep : s.sweep (amqpLocalPhase2 .prePrepare) o =
      (s, ⟨s.head, { s.backend with holdoff := true }, raised, []⟩) := by
    unfold sweep
    rw [hr]
  cases raised with
  | some x =>
    obtain ⟨e, he, hu, rfl⟩ := hsome x rfl
    refine .inl ⟨e.brokerId, ?_, ?_⟩
    · rwa [entry_mem hs.ids he]
    · unfold prepare
      rw [hsweep, entry_mem hs.ids he]
      rfl
  | none =>
    refine .inr ⟨fun b => entry_forall (fun _ => rfl) (hnone rfl) b, ?_⟩
    unfold prepare
    rw [hsweep]
    rfl

theorem prepare_swept (hs : s.Shaped) (o : Int → Outcomes) :
    SweptSession (fun e e' evs => e' = e ∧ evs = []) s (s.sweep (amqpLocalPhase2 .prepare) o).1
      (s.sweep (amqpLocalPhase2 .prepare) o).2 :=
  sweep_swept hs (fun _ _ _ => (show wp (pure ()) _ _ _ from ⟨.refl _, rfl, rfl⟩)) fun _ => ⟨rfl, rfl⟩

theorem prepare_steps (hs : s.Shaped) : Steps F committing o s (s.prepare o) := by
  rcases prepare_cases (o := o) hs with ⟨b, -, hr⟩ | ⟨hz, hr⟩
  · have h : Goes F committing s (s.abort o).1 (s.abort o).2 := abort_goes hs
    rw [hr]
    exact ⟨.one h.1, h.2, fun _ _ => ⟨s, [], (still_goes hs).1, hs, rfl⟩⟩
  · have h := prepare_swept hs o
    have hlog : (s.sweep (amqpLocalPhase2 .prepare) o).2.log = [] := by
      refine List.eq_nil_iff_forall_not_mem.mpr fun p hp => ?_
      have hp' : p.2 ∈ logOf p.1 (s.sweep (amqpLocalPhase2 .prepare) o).2.log := mem_logOf.mpr hp
      rw [(h.entry p.1).2] at hp'
      simp at hp'
    rw [hr]
    refine Goes.steps ⟨.prepare (fun b => (h.entry b).1) hz rfl hlog, h.ended fun b => ?_⟩ rfl
    rw [(h.entry b).1]
    exact hs.idle b

end Prepare

section CallSteps

variable {s : Session} {st : Step}

theorem publish_steps (hs : s.Shaped) {a : PublishArgs} (ha : st.action = .publish a) :
    Steps (s.faults st) (st.action = .commit) st.outcomes s (s.publish st.outcomes a) := by
  unfold publish
  cases hb : a.brokerId with
  | none => exact (still_goes hs).steps rfl
  | some b =>
    have hspec := pgAmqpPublishOpt_spec (F := s.faults st b) (st.outcomes b) b a (.inr rfl)
      (c := s.cell b) (hs.idle b) fun _ => ⟨fun h => absurd h (by decide),
        fun h => absurd h (by decide), fun h => absurd h (by decide),
        fun h => ⟨by rw [ha]; exact hb, h⟩, fun _ => trivial⟩
    exact note_steps hs rfl hspec

theorem autonomousPublish_steps (hs : s.Shaped) {a : PublishArgs}
    (ha : st.action = .autonomousPublish a) :
    Steps (s.faults st) (st.action = .commit) st.outcomes s (s.autonomousPublish st.outcomes a) := by
  unfold autonomousPublish
  cases hb : a.brokerId with
  | none => exact (still_goes hs).steps rfl
  | some b =>
    have hspec := pgAmqpPublishOpt_spec (F := s.faults st b) (st.outcomes b) b a (.inl rfl)
      (c := s.cell b) (hs.idle b) fun hbody => ⟨fun _ h => ?_, fun _ h => ?_, fun _ hu he hk => ?_,
        fun h => ⟨by rw [ha]; exact hb, h⟩, fun _ => trivial⟩
    · exact call_steps hs (wp_mono hspec (fun v c h => ⟨h.left, by simpa using h.acked⟩)
        (fun _ _ h => h))
    · rcases Nat.eq_zero_or_pos (s.entry b).uncommitted with hz | hu
      · exact .inl hz
      · refine .inr ?_
        have hkeeps : (s.cell b).publishKeeps (st.outcomes b) a = false := by
          unfold Cell.publishKeeps
          rw [hbody, h]
          rfl
        simp [faults, loses, ha, hb, hu, hkeeps]
    · unfold faults forgets
      rw [ha]
      exact ⟨hb, hbody, h⟩
    · unfold faults writesStale
      rw [ha]
      exact ⟨hb, hbody, hu, he, hk⟩

theorem exchangeDeclare_steps (hs : s.Shaped) {a : DeclareArgs}
    (ha : st.action = .exchangeDeclare a) :
    Steps (s.faults st) (st.action = .commit) st.outcomes s (s.exchangeDeclare st.outcomes a) := by
  unfold exchangeDeclare
  cases hb : a.brokerId with
  | none => exact (still_goes hs).steps rfl
  | some b =>
    have hspec := pgAmqpExchangeDeclare_spec (F := s.faults st b) (o := st.outcomes b)
      (c := s.cell b) b a (hs.idle b)
      (fun h => ⟨by rw [ha]; exact hb, h⟩) fun h => ?_
    · exact call_steps hs hspec
    · rcases Nat.eq_zero_or_pos (s.entry b).uncommitted with hz | hu
      · exact .inl hz
      · have hkeeps : (s.cell b).declareKeeps (st.outcomes b) = false := by
          simpa [Cell.declareKeeps] using h
        exact .inr (by simp [faults, loses, ha, hb, hu, hkeeps])

theorem disconnect_steps (hs : s.Shaped) {b? : Option Int} (ha : st.action = .disconnect b?) :
    Steps (s.faults st) (st.action = .commit) st.outcomes s (s.disconnect st.outcomes b?) := by
  cases b? with
  | none => exact (still_goes hs).steps rfl
  | some b =>
    have hlossy : (s.cell b).bs.uncommitted = 0 ∨ (s.faults st b).lossy := by
      rcases Nat.eq_zero_or_pos (s.entry b).uncommitted with hz | hu
      · exact .inl hz
      · exact .inr (by simp [faults, loses, ha, hu])
    have hspec : wp (do localAmqpDisconnect; return true) (fun _ => Unacked (s.faults st b) (s.cell b))
        (fun _ => Unacked (s.faults st b) (s.cell b)) (s.cell b) :=
      wp_seq (localAmqpDisconnect_spec hlossy) fun _ _ h => h
    have h : Steps (s.faults st) (st.action = .commit) st.outcomes s
        (s.call st.outcomes b fun _ => do localAmqpDisconnect; return true) := call_steps hs hspec
    exact ⟨h.phases, h.shaped, h.aborts⟩

end CallSteps

/-- A step is taken in phases, whatever it is. -/
theorem exec_steps (st : Step) {s : Session} (hs : s.Shaped) :
    Steps (s.faults st) (st.action = .commit) st.outcomes s (exec st s) := by
  -- the case split must not rewrite the action inside the claim
  generalize hp : (st.action = .commit) = committing
  unfold exec
  cases ha : st.action with
  | publish a => exact hp ▸ publish_steps hs ha
  | autonomousPublish a => exact hp ▸ autonomousPublish_steps hs ha
  | exchangeDeclare a => exact hp ▸ exchangeDeclare_steps hs ha
  | disconnect b => exact hp ▸ disconnect_steps hs ha
  | set g => exact Goes.steps ⟨.still (fun _ => rfl) (fun _ => rfl) (fun _ => rfl) rfl, hs.ids,
      hs.holdoff, hs.idle, hs.calls, hs.numbered⟩ rfl
  | startSub => exact Goes.steps ⟨.still (fun _ => rfl) (fun _ => rfl) (fun _ => rfl) rfl, hs.ids,
      hs.holdoff, hs.idle, hs.calls, hs.numbered⟩ rfl
  | commitSub =>
    dsimp only
    split
    · exact (release_goes hs).steps rfl
    · exact (still_goes hs).steps rfl
  | abortSub =>
    dsimp only
    split
    · exact (abortSub_goes hs).steps rfl
    · exact (still_goes hs).steps rfl
  | commit => exact hp ▸ (commit_goes hs ha).steps rfl
  | abort => exact (abort_goes hs).steps rfl
  | prepare => exact prepare_steps hs

theorem exec_phases (st : Step) {s : Session} (hs : s.Shaped) :
    Phases (s.faults st) (st.action = .commit) s (next st s) (trace st s).log :=
  (exec_steps st hs).phases

end Session

end PgAmqp
