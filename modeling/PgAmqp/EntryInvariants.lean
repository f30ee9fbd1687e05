import PgAmqp.Phases

/-!
# Invariants of an entry, over whole runs

An invariant of one entry speaks of the messages acknowledged on it in the current
transaction, of those among them whose subtransaction has not rolled back, and of
the entry itself. `Stable` asks that each move, each callback and the end of a
transaction keep it; `Stable.holds` is the induction over runs. The four facts that
the moves keep are stable, each under the faults that it has to exclude.
-/
namespace PgAmqp

open ProgramLogic Transition

variable {s s' : Session} {log : List (Int × Event)} {committing : Prop}

/-- Every step of a run leaves a shaped session shaped. -/
theorem Runs.shaped {ok : Session → Step → Prop} (h : Runs ok s) : s.Shaped := by
  refine h.invariant (I := Session.Shaped) (fun s hs => ?_)
    (fun s st _ hs _ => (Session.exec_steps st hs).shaped)
  refine ⟨by simp [hs.head], hs.holdoff, fun b => ?_, by simp [hs.acks], by simp [hs.acks]⟩
  simp [Session.entry, hs.head, lookup, Idle, BrokerState.fresh]

/-- The invariant `I` is kept by everything that a step without the other faults does. -/
structure Stable (good : Faults → Prop) (I : List Msg → List Msg → BrokerState → Prop) : Prop where
  fresh : ∀ b, I [] [] (.fresh b)
  effect : ∀ {F log bs bs' evs acked live}, good F → I acked live bs → Effect F log bs bs' evs →
    I (acked ++ ackedIn evs) (live ++ ackedIn evs) bs'
  close : ∀ {F bs bs' acked live}, good F → I acked live bs → Closed F.forgetful bs bs' → I [] [] bs'
  flag : ∀ {bs bs' acked live live'}, I acked live bs → live'.Sublist live → Flagged bs bs' →
    I acked live' bs'
  settled : ∀ {bs acked live}, I acked live bs → bs.uncommitted = 0 → I [] [] bs

/-- The invariant holds of every entry of a session. -/
def Session.Holds (I : List Msg → List Msg → BrokerState → Prop) (s : Session) : Prop :=
  ∀ b, I (s.acked b) (s.live b) (s.entry b)

section Stability

variable {good : Faults → Prop} {I : List Msg → List Msg → BrokerState → Prop} {F : Int → Faults}

/-- Along a call the invariant holds with what the call has acknowledged so far. -/
theorem Stable.path (h : Stable good I) {G : Faults} (hG : good G) {acked live : List Msg}
    {c c' : Cell} (hp : Path G c c') (hc : ackedIn c.log = []) (hI : I acked live c.bs) :
    I (acked ++ ackedIn c'.log) (live ++ ackedIn c'.log) c'.bs := by
  refine hp.keeps (P := fun c => I (acked ++ ackedIn c.log) (live ++ ackedIn c.log) c.bs)
    (fun c₁ c₂ hm hI₁ => ?_) (by simpa [hc] using hI)
  obtain ⟨evs, hl, he⟩ := hm.effect
  have := h.effect hG hI₁ he
  rwa [hl, ackedIn_append, ← List.append_assoc, ← List.append_assoc]

theorem Stable.phase (h : Stable good I) (hF : ∀ b, good (F b)) (hp : Phase F committing s s' log)
    (hI : s.Holds I) : s'.Holds I := by
  intro b
  cases hp with
  | still he ha hl _ =>
    rw [he, ha, hl]
    exact hI b
  | call b' c hleft he ha hl _ =>
    rw [he, ha, hl]
    split
    · rename_i heq
      subst heq
      exact h.path (hF b) hleft.path rfl (hI b)
    · simpa using hI b
  | commit _ hc _ _ hnil =>
    rw [Session.acked_nil hnil, Session.live_nil hnil]
    exact h.close (hF b) (hI b) (hc b)
  | abort hc _ _ hnil =>
    rw [Session.acked_nil hnil, Session.live_nil hnil]
    exact h.close (hF b) (hI b) ((hc b).mono False.elim)
  | undo hf _ ha hl =>
    rw [ha]
    exact h.flag (hI b) (hl b) (hf b)
  | prepare he hz hnil _ =>
    rw [he, Session.acked_nil hnil, Session.live_nil hnil]
    exact h.settled (hI b) (hz b)

theorem Stable.phases (h : Stable good I) (hF : ∀ b, good (F b)) (hp : Phases F committing s s' log)
    (hI : s.Holds I) : s'.Holds I := by
  cases hp with
  | one hp => exact h.phase hF hp hI
  | two s₁ l₁ l₂ hp hp' _ => exact h.phase hF hp' (h.phase hF hp hI)

/-- A stable invariant holds in every session of every run without the other faults. -/
theorem Stable.holds (h : Stable good I) {ok : Session → Step → Prop}
    (hok : ∀ s st, ok s st → ∀ b, good (s.faults st b)) (hs : Runs ok s) : s.Holds I := by
  refine hs.invariant (I := Session.Holds I) (fun s hs b => ?_) (fun s st hr hI ho => ?_)
  · have hentry : s.entry b = .fresh b := by simp [Session.entry, hs.head, lookup]
    rw [hentry, Session.acked_nil hs.acks, Session.live_nil hs.acks]
    exact h.fresh b
  · exact h.phases (hok s st ho) (Session.exec_phases st (Runs.shaped hr)) hI

/-- The invariant stays stable when more faults are excluded. -/
theorem Stable.mono (h : Stable good I) {good' : Faults → Prop} (hg : ∀ F, good' F → good F) :
    Stable good' I where
  fresh := h.fresh
  effect := fun hF => h.effect (hg _ hF)
  close := fun hF => h.close (hg _ hF)
  flag := h.flag
  settled := h.settled

variable {P : Connection → Prop}

/-- Under the invariant `I` every move writes and acknowledges only on connections with `P`. -/
def WritesUnder (good : Faults → Prop) (I : List Msg → List Msg → BrokerState → Prop)
    (P : Connection → Prop) : Prop :=
  ∀ F log bs bs' evs acked live, good F → I acked live bs → Effect F log bs bs' evs →
    WritesOn P log → WritesOn P (log ++ evs)

theorem Stable.path_writes (h : Stable good I) (hw : WritesUnder good I P) {G : Faults}
    (hG : good G) {acked live : List Msg} {c c' : Cell} (hp : Path G c c') (hc : c.log = [])
    (hI : I acked live c.bs) : WritesOn P c'.log := by
  have hboth := hp.keeps (P := fun c =>
    I (acked ++ ackedIn c.log) (live ++ ackedIn c.log) c.bs ∧ WritesOn P c.log)
    (fun c₁ c₂ hm ⟨hI₁, hw₁⟩ => ?_) ⟨by simpa [hc] using hI, by simp [hc, WritesOn]⟩
  · exact hboth.2
  · obtain ⟨evs, hl, he⟩ := hm.effect
    have hI₂ := h.effect hG hI₁ he
    rw [hl, ackedIn_append, ← List.append_assoc, ← List.append_assoc]
    exact ⟨hI₂, hw _ _ _ _ _ _ _ hG hI₁ he hw₁⟩

theorem Writeless.writesOn {evs : List Event} (h : Writeless evs) : WritesOn P evs := by
  intro e he k hk
  simp [h e he] at hk

theorem Stable.phase_writes (h : Stable good I) (hw : WritesUnder good I P) (hF : ∀ b, good (F b))
    (hp : Phase F committing s s' log) (hI : s.Holds I) (b : Int) : WritesOn P (logOf b log) := by
  cases hp with
  | still _ _ _ hl => simp [hl, WritesOn]
  | call b' c hleft _ _ _ hl =>
    rw [hl]
    by_cases hb : b' = b
    · subst hb
      rw [logOf_same]
      exact h.path_writes hw (hF b') hleft.path rfl (hI b')
    · rw [logOf_other hb]
      simp [WritesOn]
  | commit _ _ hnone _ _ => exact (hnone b).writesOn
  | abort _ hnone _ _ => exact (hnone b).writesOn
  | undo _ hn _ _ => exact (Writeless.neutral (hn b)).writesOn
  | prepare _ _ _ hl => simp [hl, WritesOn]

/-- Every write of a step of a run without the other faults is on a connection with `P`. -/
theorem Stable.writes (h : Stable good I) (hw : WritesUnder good I P) {ok : Session → Step → Prop}
    (hok : ∀ s st, ok s st → ∀ b, good (s.faults st b)) (hs : Runs ok s) {st : Step} (ho : ok s st)
    (b : Int) : WritesOn P (logOf b (trace st s).log) := by
  have hF := hok s st ho
  have hI := h.holds hok hs
  cases Session.exec_phases st (Runs.shaped hs) with
  | one hp => exact h.phase_writes hw hF hp hI b
  | two s₁ l₁ l₂ hp hp' hl =>
    have h₁ := h.phase_writes hw hF hp hI b
    have h₂ := h.phase_writes hw hF hp' (h.phase hF hp hI) b
    rw [hl, logOf_append]
    intro e he
    rcases List.mem_append.mp he with he | he
    · exact h₁ e he
    · exact h₂ e he

end Stability

theorem counted_stable : Stable (fun F => ¬ F.lossy) fun acked _ bs => Counted acked bs where
  fresh := fun _ => ⟨fun _ => rfl, rfl, fun _ _ hk => by simp [BrokerState.fresh] at hk⟩
  effect := fun hF hI he => he.counted hF hI
  close := by
    intro F bs bs' acked live _ hI hc
    refine ⟨hc.idle, hc.uncommitted, fun _ k' hk' htx => ?_⟩
    obtain ⟨k, hk, he, hsurv, hbuf⟩ := hc.conn k' hk'
    rw [hbuf]
    split
    · rename_i hz
      have ha : acked = [] := List.length_eq_zero_iff.mp (hI.count.symm.trans hz)
      rw [hI.buffer he k hk (hsurv.txMode ▸ htx), ha]
    · rfl
  flag := by
    intro bs bs' acked live live' hI _ hf
    refine ⟨fun hnone => ?_, hf.uncommitted.trans hI.count, fun he => ?_⟩
    · exact hf.uncommitted.trans (hI.idle (hf.conn.symm.trans hnone))
    · rw [hf.inerror, Bool.or_eq_false_iff] at he
      rw [hf.conn]
      exact hI.buffer he.1
  settled := by
    intro bs acked live hI hz
    obtain rfl : acked = [] := List.length_eq_zero_iff.mp (hI.count.symm.trans hz)
    exact hI

theorem buffered_stable : Stable (fun _ => True) fun _ live bs => Buffered live bs where
  fresh := fun _ => ⟨fun _ _ hk => by simp [BrokerState.fresh] at hk,
    fun _ _ _ hk => by simp [BrokerState.fresh] at hk⟩
  effect := fun _ hI he => he.buffered hI
  close := by
    intro F bs bs' acked live _ hI hc
    have hnil : ∀ k', bs'.conn = some k' → k'.buffer = [] := by
      intro k' hk'
      obtain ⟨k, hk, he, -, hbuf⟩ := hc.conn k' hk'
      rw [hbuf]
      split
      · rename_i hz
        exact hI.empty he hz k hk
      · rfl
    exact ⟨fun _ k hk => (hnil k hk).symm ▸ List.nil_sublist _, fun _ _ k hk => hnil k hk⟩
  flag := by
    intro bs bs' acked live live' hI _ hf
    -- where the flag is still down nothing was counted, so nothing is in the buffer
    have hnil : bs'.inerror = false → ∀ k, bs'.conn = some k → k.buffer = [] := by
      intro he k hk
      rw [hf.inerror, Bool.or_eq_false_iff] at he
      exact hI.empty he.1 (by simpa using he.2) k (hf.conn ▸ hk)
    exact ⟨fun he k hk => (hnil he k hk).symm ▸ List.nil_sublist _,
      fun he _ k hk => hnil he k hk⟩
  settled := by
    intro bs acked live hI hz
    exact ⟨fun he k hk => (hI.empty he hz k hk).symm ▸ List.nil_sublist _, hI.empty⟩

theorem remembered_stable : Stable (fun F => ¬ F.forgetful) fun _ _ bs => Remembered bs where
  fresh := fun _ _ hk => by simp [BrokerState.fresh] at hk
  effect := fun hF hI he => he.remembered hF hI
  close := by
    intro F bs bs' acked live hF hI hc k' hk' hs
    obtain ⟨k, hk, he, hsurv, -⟩ := hc.conn k' hk'
    have := hI k hk ((hsurv.closeSeen.resolve_right hF) ▸ hs)
    simp [he] at this
  flag := by
    intro bs bs' acked live live' hI _ hf k hk hs
    rw [hf.inerror, hI k (hf.conn ▸ hk) hs]
    rfl
  settled := fun hI _ => hI

theorem setUp_stable : Stable (fun F => ¬ F.halfOpen) fun _ _ bs => SetUp bs where
  fresh := fun _ _ hk => by simp [BrokerState.fresh] at hk
  effect := fun hF hI he => he.setUp hF hI
  close := by
    intro F bs bs' acked live _ hI hc k' hk'
    obtain ⟨k, hk, -, hsurv, -⟩ := hc.conn k' hk'
    exact hsurv.ready.trans (hI k hk)
  flag := by
    intro bs bs' acked live live' hI _ hf k hk
    exact hI k (hf.conn ▸ hk)
  settled := fun hI _ => hI

end PgAmqp
