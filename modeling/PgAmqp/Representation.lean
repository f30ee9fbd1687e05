import PgAmqp.Timeouts

/-!
# The representation of an entry, and its full reset

`local_amqp_disconnect_bs` does nothing to an entry without a connection, and
`local_amqp_disconnect` counts on it: what it does not reset itself has to be reset
already. `BrokerState.Formed` is the invariant that this rests on. It holds of every entry
between the steps of a run, and an entry with it is made fresh by `amqp.disconnect`.
-/
namespace PgAmqp

open ProgramLogic Transition

/-- The fields of an entry agree. -/
structure BrokerState.Formed (bs : BrokerState) : Prop where
  closed : bs.conn = none → bs.sockfd = -1 ∧ bs.uncommitted = 0 ∧ bs.blocked = false
  joined : bs.conn.isSome = true → bs.consecutiveFailures = 0 ∧ bs.lastFailedConnect = 0 ∧
    ∃ hosts, bs.hosts = some hosts ∧ hosts ≠ []
  hosts : bs.hosts = none ↔ bs.nhosts = 0
  idx : bs.idx = 0 ∨ bs.idx < bs.nhosts

/-- The broker ids of `HEAD_BS` are distinct, and the fields of every entry agree. -/
structure Session.Formed (s : Session) : Prop where
  ids : (s.head.map BrokerState.brokerId).Nodup
  entries : ∀ bs ∈ s.head, bs.Formed

/-- Without a connection nothing of one is left; in the middle of an attempt there is one,
and while the entry is in use its connection comes from an attempt that succeeded. -/
structure Coherent (st : Stage) (bs : BrokerState) : Prop where
  closed : bs.conn = none → bs.sockfd = -1 ∧ bs.uncommitted = 0 ∧ bs.blocked = false
  dialing : st = .dial ∨ st = .shake → bs.conn.isSome = true
  joined : st = .rest ∨ st = .flush → bs.conn.isSome = true →
    bs.consecutiveFailures = 0 ∧ bs.lastFailedConnect = 0

section Coherent

variable {L : Lapses} {o : Outcomes} {p q : Stage × Cell} {st st' : Stage} {bs bs' : BrokerState}

/-- A change of the other fields. -/
theorem Coherent.keep (h : Coherent st bs) (hc : bs'.conn = bs.conn) (hfd : bs'.sockfd = bs.sockfd)
    (hu : bs'.uncommitted = bs.uncommitted) (hb : bs'.blocked = bs.blocked)
    (hf : bs'.consecutiveFailures = bs.consecutiveFailures) (hl : bs'.lastFailedConnect = bs.lastFailedConnect) :
    Coherent st bs' := by
  refine ⟨?_, ?_, ?_⟩
  · rw [hc, hfd, hu, hb]
    exact h.closed
  · rw [hc]
    exact h.dialing
  · rw [hc, hf, hl]
    exact h.joined

/-- A change on a connection that stays there. -/
theorem Coherent.on (h : Coherent st bs) (hc : bs.conn.isSome = true) (hc' : bs'.conn.isSome = true)
    (hf : bs'.consecutiveFailures = bs.consecutiveFailures) (hl : bs'.lastFailedConnect = bs.lastFailedConnect) :
    Coherent st bs' := by
  refine ⟨fun hnone => by simp [hnone] at hc', fun _ => hc', fun hst _ => ?_⟩
  rw [hf, hl]
  exact h.joined hst hc

theorem Coherent.timed {c : Cell} (h : Coherent st c.bs) (ms : Nat)
    (hd : st' = .dial ∨ st' = .shake → st = .dial ∨ st = .shake)
    (hj : st' = .rest ∨ st' = .flush → st = .rest ∨ st = .flush) : Coherent st' (c.timed ms).bs := by
  have hc : (c.timed ms).bs.conn.isSome = c.bs.conn.isSome := by simp [Cell.timed]
  refine ⟨fun hnone => h.closed ?_, fun hst => ?_, fun hst hs => h.joined (hj hst) (hc ▸ hs)⟩
  · simpa [Cell.timed] using hnone
  · rw [hc]
    exact h.dialing (hd hst)

theorem Serve.coherent (h : Serve L p q) (hp : Coherent p.1 p.2.bs) : Coherent q.1 q.2.bs := by
  have hlist := h.sameList
  cases h with
  | hear f rest hc _ =>
    refine hp.on hc ?_ hlist.consecutiveFailures hlist.lastFailedConnect
    rw [Cell.heard_bs]
    simpa [Cell.taken] using hc
  | mishear rest hc _ _ => exact hp.on hc (by simpa [Cell.taken] using hc) rfl rfl
  | declare k d a hk => exact hp.on (by simp [hk]) rfl rfl rfl
  | write k channel m w hk _ => exact hp.on (by simp [hk]) rfl rfl rfl
  | accept k channel m hc => exact hp.on hc hc rfl rfl
  | drop k hk => exact ⟨fun _ => ⟨rfl, rfl, rfl⟩, by simp, fun _ hs => by simp [Cell.dropped] at hs⟩
  | settle =>
    refine ⟨fun hnone => ?_, hp.dialing, hp.joined⟩
    obtain ⟨hfd, -, hb⟩ := hp.closed hnone
    exact ⟨hfd, rfl, hb⟩
  | flush => exact hp.timed _ (by simp) (by simp)
  | finish k kind a hk _ => exact hp.on (by simp [hk]) rfl rfl rfl
  | restore => exact hp.timed _ (by simp) (by simp)
  | _ => exact hp.keep rfl rfl rfl rfl rfl rfl

theorem Change.coherent (hL : ¬ L.halfOpen) (h : Change L o p q) (hp : Coherent p.1 p.2.bs) :
    Coherent q.1 q.2.bs := by
  cases h with
  | serve h => exact h.coherent hp
  | dial h =>
    cases h with
    | new _ _ => exact ⟨fun hnone => by simp [Cell.dialed] at hnone, fun _ => rfl, by simp⟩
    | @shake c n =>
      have hc : c.bs.conn.isSome = true := hp.dialing (.inl rfl)
      refine ⟨fun hnone => ?_, fun _ => by simpa [Cell.timed] using hc, by simp⟩
      have hnone : c.bs.conn = none := by simpa [Cell.timed] using hnone
      simp [hnone] at hc
    | ask k kind a hk _ => exact hp.on (by simp [hk]) rfl rfl rfl
    | @connect c =>
      have hc : c.bs.conn.isSome = true := hp.dialing (.inr rfl)
      refine ⟨fun hnone => ?_, by simp, fun _ _ => ⟨rfl, rfl⟩⟩
      have hnone : c.bs.conn = none := by simpa [Cell.connected, Cell.timed] using hnone
      simp [hnone] at hc
    | fail n hc => exact ⟨hp.closed, hp.dialing, fun _ hs => by simp [Cell.failed, hc] at hs⟩
    | unwind hh => exact absurd hh hL
    | _ => exact hp.keep rfl rfl rfl rfl rfl rfl
  | close k hk => exact ⟨fun _ => ⟨rfl, rfl, rfl⟩, by simp, fun _ hs => by simp [Cell.closed, Cell.dropped] at hs⟩
  | reset hc => exact ⟨hp.closed, hp.dialing, fun _ _ => ⟨rfl, rfl⟩⟩
  | @free c hc hidx =>
    refine ⟨fun _ => ?_, by simp, fun _ hs => by simp [hc] at hs⟩
    have hclosed := hp.closed hc
    simp only [Cell.freed, Cell.modified_bs]
    split <;> exact hclosed

theorem coherent_lasting : Lasting (fun L _ => ¬ L.halfOpen) fun _ bs => Coherent .rest bs where
  fresh := fun _ _ => ⟨fun _ => ⟨rfl, rfl, rfl⟩, by simp, fun _ _ => ⟨rfl, rfl⟩⟩
  grow := fun _ _ h => h
  chain := fun hL h hc =>
    hc.keeps (I := fun p => Coherent p.1 p.2.bs) (fun _ _ => Change.coherent hL) h

end Coherent

/-- The three invariants of an entry together. -/
theorem Coherent.formed {bs : BrokerState} (h : Coherent .rest bs) (hi : Indexed bs) (ha : Anchored bs) :
    bs.Formed where
  closed := h.closed
  joined := by
    intro hc
    obtain ⟨hf, hl⟩ := h.joined (.inl rfl) hc
    obtain ⟨hosts, hh⟩ := Option.isSome_iff_exists.mp (ha.hosts hc)
    refine ⟨hf, hl, hosts, hh, ?_⟩
    rintro rfl
    have hidx := hi.inside (by simp [hh])
    rw [hi.counted [] hh] at hidx
    simp at hidx
  hosts := by
    refine ⟨fun hnone => (hi.empty hnone).1, fun hz => ?_⟩
    by_contra hsome
    have hidx := hi.inside (Option.isSome_iff_ne_none.mpr hsome)
    rw [hz] at hidx
    simp at hidx
  idx := by
    cases hh : bs.hosts with
    | none => exact .inl (hi.empty hh).2
    | some hosts => exact .inr (hi.inside (by simp [hh]))

section Runs

variable {s : Session}

theorem Runs.formed (hs : Runs Calm s) : s.Formed := by
  have hids := (Runs.shaped hs).ids
  refine ⟨hids, fun bs hbs => ?_⟩
  have hentry : s.entry bs.brokerId = bs := by simp [Session.entry, lookup_mem hids hbs]
  have hcoherent : Coherent .rest (s.entry bs.brokerId) :=
    coherent_lasting.holds (fun _ _ h => Calm.uncancelled h bs.brokerId) hs
  rw [← hentry]
  exact hcoherent.formed (Runs.indexed hs _) (Runs.anchored hs _)

/-- `local_amqp_disconnect` makes an entry fresh whose fields agree. -/
theorem localAmqpDisconnect_fresh {c : Cell} (h : c.bs.conn = none →
    c.bs.sockfd = -1 ∧ c.bs.uncommitted = 0 ∧ c.bs.blocked = false) (hn : c.bs.hosts = none → c.bs.nhosts = 0) :
    wp localAmqpDisconnect (fun _ c' => c'.bs = .fresh c.bs.brokerId ∧ c'.linked = true) (fun _ _ => False) c := by
  -- what is left to reset when the connection is gone
  have rest : ∀ {c' : Cell}, c'.bs.brokerId = c.bs.brokerId → c'.linked = true → c'.bs.conn = none →
      c'.bs.sockfd = -1 ∧ c'.bs.uncommitted = 0 ∧ c'.bs.blocked = false →
      (c'.bs.hosts = none → c'.bs.nhosts = 0) →
      c'.reset.freed.bs = .fresh c.bs.brokerId ∧ c'.reset.freed.linked = true := by
    intro c' hid hl hc ⟨hfd, hu, hb⟩ hn'
    refine ⟨?_, hl⟩
    have hfreed : c'.reset.freed.bs = if c'.bs.hosts.isSome = true then
        { c'.reset.bs with hosts := none, nhosts := 0 } else c'.reset.bs := rfl
    rw [hfreed]
    split
    · simp [Cell.reset, BrokerState.fresh, hid, hc, hfd, hu, hb]
    · rename_i hsome
      have hnone : c'.bs.hosts = none := by simpa using hsome
      simp [Cell.reset, BrokerState.fresh, hid, hc, hfd, hu, hb, hnone, hn' hnone]
  unfold localAmqpDisconnect
  rw [wp_bind, wp_localAmqpGetABs, wp_bind]
  cases hk : c.link.bs.conn with
  | none =>
    rw [wp_localAmqpDisconnectBs_none true hk]
    exact rest rfl rfl hk (h hk) hn
  | some k =>
    rw [wp_localAmqpDisconnectBs_closed hk]
    exact rest rfl rfl rfl ⟨rfl, rfl, rfl⟩ hn

/-- `amqp.disconnect` leaves a fresh entry, and all other entries as they are. -/
theorem disconnect_fresh (h : s.Formed) (o : Int → Outcomes) (b : Int) (b' : Int) :
    lookup (next ⟨.disconnect (some b), o⟩ s).head b' =
      if b = b' then some (.fresh b) else lookup s.head b' := by
  have hid : (s.entry b).brokerId = b := s.entry_brokerId b
  have hentry : (s.entry b).Formed ∨ s.entry b = .fresh b := by
    unfold Session.entry
    cases hl : lookup s.head b with
    | none => exact .inr rfl
    | some e => exact .inl (h.entries e (List.mem_of_find?_eq_some hl))
  have hclosed : (s.entry b).conn = none →
      (s.entry b).sockfd = -1 ∧ (s.entry b).uncommitted = 0 ∧ (s.entry b).blocked = false := by
    rcases hentry with hf | hf
    · exact hf.closed
    · rw [hf]
      exact fun _ => ⟨rfl, rfl, rfl⟩
  have hhosts : (s.entry b).hosts = none → (s.entry b).nhosts = 0 := by
    rcases hentry with hf | hf
    · exact hf.hosts.mp
    · rw [hf]
      exact fun _ => rfl
  have hwp := localAmqpDisconnect_fresh (c := s.cell b) hclosed hhosts
  obtain ⟨u, c, hrun, hbs, hlinked⟩ := wp_ok hwp
  have hrun' : (do localAmqpDisconnect; return true : M Bool) (s.cell b) = .ok true c := by
    simp only [Bind.bind, EStateM.bind, hrun]
    rfl
  have hnext : next ⟨.disconnect (some b), o⟩ s = s.store c := by
    unfold next exec Session.disconnect
    exact congrArg Prod.fst (Session.call_ok (x := fun _ => do localAmqpDisconnect; return true) hrun')
  rw [hnext]
  have hbs : c.bs = .fresh b := hbs.trans (congrArg BrokerState.fresh hid)
  unfold Session.store
  rw [if_pos hlinked, hbs, lookup_putBs]
  rfl

/-- In every run in which no warning raises the broker ids of `HEAD_BS` are distinct and the
fields of every entry agree; and `amqp.disconnect` makes an entry fresh, and no other. -/
theorem representation_and_reset (hs : Runs Calm s) :
    s.Formed ∧ ∀ o b b', lookup (next ⟨.disconnect (some b), o⟩ s).head b' =
      if b = b' then some (.fresh b) else lookup s.head b' :=
  ⟨Runs.formed hs, fun o b b' => disconnect_fresh (Runs.formed hs) o b b'⟩

theorem oneAcknowledged_reset :
    oneAcknowledged.Formed ∧ ∀ o b b', lookup (next ⟨.disconnect (some b), o⟩ oneAcknowledged).head b' =
      if b = b' then some (.fresh b) else lookup oneAcknowledged.head b' :=
  representation_and_reset oneAcknowledged_calm

end Runs

end PgAmqp
