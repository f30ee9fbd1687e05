import PgAmqp.Rounds
import PgAmqp.Cyclic
import PgAmqp.Delivery

/-!
# The failover loop

A round goes on from the host at which the last round stopped. Without a cancel, and as
long as connections can be allocated, the attempted hosts are consecutive positions of
the cyclic order, whatever ends the round.
-/
namespace PgAmqp

open ProgramLogic Transition

/-- `amqp_new_connection` succeeds. -/
def Outcomes.Allocates (o : Outcomes) : Prop := ∀ n, o.newConnection n = true

/-- What connecting leaves alone, on the way from host to host. -/
structure Round (c c' : Cell) : Prop where
  brokerId : c'.bs.brokerId = c.bs.brokerId
  hosts : c'.bs.hosts = c.bs.hosts
  nhosts : c'.bs.nhosts = c.bs.nhosts
  inerror : c'.bs.inerror = c.bs.inerror
  gucs : c'.backend.gucs = c.backend.gucs
  pid : c'.backend.myProcPid = c.backend.myProcPid
  holdoff : c'.backend.holdoff = c.backend.holdoff
  linked : c.linked = true → c'.linked = true
  counts : ∀ j ∈ [Call.spi, .time, .poll, .basicPublish], c'.counts j = c.counts j

theorem Round.refl (c : Cell) : Round c c := ⟨rfl, rfl, rfl, rfl, rfl, rfl, rfl, id, fun _ _ => rfl⟩

theorem Round.trans {c c' c'' : Cell} (h : Round c c') (h' : Round c' c'') : Round c c'' where
  brokerId := h'.brokerId.trans h.brokerId
  hosts := h'.hosts.trans h.hosts
  nhosts := h'.nhosts.trans h.nhosts
  inerror := h'.inerror.trans h.inerror
  gucs := h'.gucs.trans h.gucs
  pid := h'.pid.trans h.pid
  holdoff := h'.holdoff.trans h.holdoff
  linked := h'.linked ∘ h.linked
  counts := fun j hj => (h'.counts j hj).trans (h.counts j hj)

theorem Round.ticked (c : Cell) {k : Call} (hk : k ∉ [Call.spi, .time, .poll, .basicPublish]) :
    Round c (c.ticked k) :=
  ⟨rfl, rfl, rfl, rfl, rfl, rfl, rfl, id, fun _ hj => c.ticked_other fun he => hk (he ▸ hj)⟩

theorem Round.warned (c : Cell) (r : Report) : Round c (c.warned r) :=
  ⟨rfl, rfl, rfl, rfl, rfl, rfl, rfl, id, fun _ hj => c.ticked_other (by
    rintro rfl
    simp at hj)⟩

/-- The attempt that the loop makes from this cell on. -/
def Cell.visit (c : Cell) (o : Outcomes) (later : Option Int) : Visit where
  idx := (c.bs.idx + 1) % c.bs.nhosts
  host := c.turned.bs.currentHost
  created := o.socketNew (c.counts .socketNew)
  later := later

/-- The entry after a failed host: still without a connection, and a host further on. -/
structure Missed (o : Outcomes) (c c' : Cell) : Prop where
  round : Round c c'
  opened : openedIn c'.log = openedIn c.log ++ (c.visit o none).sockets
  conn : c'.bs.conn = none
  idx : c'.bs.idx = (c.bs.idx + 1) % c.bs.nhosts
  consecutiveFailures : c'.bs.consecutiveFailures = c.bs.consecutiveFailures
  lastFailedConnect : c'.bs.lastFailedConnect = c.bs.lastFailedConnect
  uses : c'.uses = o.spent c.uses

/-- The entry after the attempt that went through. -/
structure Joined (o : Outcomes) (u : Uses) (c c' : Cell) : Prop where
  round : Round c c'
  conn : ∃ k, c'.bs.conn = some k ∧ k.consumed = [] ∧ k.queue = o.greeting u
  consecutiveFailures : c'.bs.consecutiveFailures = 0
  lastFailedConnect : c'.bs.lastFailedConnect = 0
  blocked : c'.bs.blocked = false

/-- Between two attempts the clock may be read, and warnings be given. -/
structure Paused (c c' : Cell) : Prop where
  round : Round c c'
  bs : c'.bs = c.bs
  uses : c'.uses = c.uses
  opened : openedIn c'.log = openedIn c.log

theorem Paused.warned {c c' : Cell} (h : Paused c c') (r : Report) : Paused c (c'.warned r) :=
  ⟨h.round.trans (.warned c' r), h.bs, h.uses, (Unopened.said rfl rfl).openedIn.trans h.opened⟩

section Turn

variable {o : Outcomes} {c : Cell} {brokerId deadline : Int} {tries : Nat}
  {Q : Bool × List Visit → Cell → Prop} {E : Raised → Cell → Prop}

theorem wp_socketCreates {Q : Bool → Cell → Prop} :
    wp (socketCreates o) Q E c = Q (o.socketNew (c.counts .socketNew)) c := rfl

theorem SameList.round {c c' : Cell} (h : SameList c c') (hi : c'.bs.inerror = c.bs.inerror)
    (hk : ∀ j ∈ [Call.spi, .time, .poll, .basicPublish], c'.counts j = c.counts j) : Round c c' :=
  ⟨h.brokerId, h.hosts, h.nhosts, hi, h.gucs, h.pid, h.holdoff, h.linked, hk⟩

theorem Trying.round {fs : List Frame} {u : Uses} {c c' : Cell} (h : Trying fs u c c') : Round c c' :=
  h.list.round h.inerror fun j hj => h.counts j (by
    simp only [List.mem_cons, List.not_mem_nil, or_false] at hj
    rcases hj with rfl | rfl | rfl | rfl <;> rfl)

/-- The loop steps on to the next host, with a new connection. -/
theorem Round.dialed (c : Cell) : Round c (c.turned.ticked .newConnection).dialed :=
  ⟨rfl, rfl, rfl, rfl, rfl, rfl, rfl, id,
    fun j hj => (Round.ticked c (k := .newConnection) (by decide)).counts j hj⟩

/-- One turn of the loop: no connection is allocated, the attempt goes through, or it leads
to the end of the turn. -/
theorem visit_spec (ho : o.Calm) (hc : c.bs.conn = none)
    (hnone : ¬ o.Allocates → ∀ c', Round c c' → c'.bs = c.turned.bs → openedIn c'.log = openedIn c.log →
      Q (false, []) c')
    (hjoin : o.completes c.uses = true → ∀ c', Joined o c.uses c c' → c'.bs.idx = (c.bs.idx + 1) % c.bs.nhosts →
      openedIn c'.log = openedIn c.log ++ (c.visit o none).sockets → Q (true, [c.visit o none]) c')
    (hmiss : o.completes c.uses = false → ∀ c', Missed o c c' → ∀ hostCopy, wp (do
      let next ← localAmqpNextHost o brokerId deadline tries hostCopy
      if next.2 then
        let r ← localAmqpVisits o brokerId deadline tries
        return (r.1, c.visit o next.1 :: r.2)
      else
        return (false, [c.visit o next.1])) Q E c') :
    wp (localAmqpVisits o brokerId deadline (tries + 1)) Q E c := by
  unfold localAmqpVisits
  rw [wp_bind, wp_modifyBs, wp_bind, wp_getBs, wp_bind, wp_amqpNewConnection,
    Cell.modified_counts]
  by_cases hnew : o.newConnection (c.counts .newConnection) = true
  swap
  · rw [if_neg hnew, wp_bind, wp_setConn, wp_ite, if_pos (by simp)]
    refine hnone (fun h => hnew (h _)) _ ⟨rfl, rfl, rfl, rfl, rfl, rfl, rfl, id, ?_⟩ ?_ rfl
    · exact (Round.ticked c (k := .newConnection) (by decide)).counts
    · show { c.turned.bs with conn := none } = c.turned.bs
      have hturned : c.turned.bs.conn = none := hc
      rw [← hturned]
  rw [if_pos hnew, wp_bind, wp_setConn, wp_ite, if_neg (by simp), wp_bind, wp_socketCreates]
  have hdialed : Round c (c.turned.ticked .newConnection).dialed := .dialed c
  have hopens : Opens (openedIn c.log) (c.turned.ticked .newConnection).dialed := rfl
  have htry := wp_and
    (localAmqpTryHost_attempt (c := (c.turned.ticked .newConnection).dialed) (E := E)
      (fun _ _ hn => absurd ho hn) c.turned.bs.currentHost c.turned.bs.currentHost.hostCopy brokerId rfl)
    (localAmqpTryHost_opens c.turned.bs.currentHost c.turned.bs.currentHost.hostCopy brokerId hopens)
  refine wp_seq (wp_mono htry (fun _ _ h => h) fun _ _ h => h.1) fun ok c' h => ?_
  obtain ⟨⟨hok, fs, c'', ht, hend⟩, hopened⟩ := h
  have hround : Round c c'' := hdialed.trans ht.round
  obtain ⟨k, k', hk, hk', -, hcons, hqueue⟩ := ht.conn
  obtain rfl : Connection.new c.backend.nextConn = k := Option.some.inj hk
  have hidx : c''.bs.idx = (c.bs.idx + 1) % c.bs.nhosts := ht.list.idx
  rw [wp_ite]
  cases ok with
  | true =>
    obtain ⟨rfl, rfl⟩ : fs = o.greeting c.uses ∧ c' = c''.connected := hend
    refine hjoin hok.symm _ ⟨hround.trans ?_,
      ⟨k'.setTimeout c''.bs.sockfd c''.backend.gucs.operationTimeoutMs,
        by simp [Cell.connected, Cell.timed, hk'], hcons, hqueue⟩, rfl, rfl, rfl⟩ hidx hopened
    exact ⟨rfl, rfl, rfl, rfl, rfl, rfl, rfl, id, fun _ _ => rfl⟩
  | false =>
    obtain rfl : c' = c'' := hend
    rw [if_neg (by simp), wp_bind, wp_localAmqpDisconnectBs_some hk']
    refine hmiss hok.symm (c'.dropped k') ⟨hround.trans ?_, ?_, rfl, hidx, ?_, ?_, ht.uses⟩ _
    · exact ⟨rfl, rfl, rfl, rfl, rfl, rfl, rfl, id, fun _ _ => rfl⟩
    · exact (Unopened.said rfl rfl).openedIn.trans hopened
    · exact ht.list.consecutiveFailures
    · exact ht.list.lastFailedConnect

/-- The end of a turn reads the clock only under a deadline, and goes on before it. -/
theorem localAmqpNextHost_spec (ho : o.Calm) (hostCopy : String) :
    wp (localAmqpNextHost o brokerId deadline tries hostCopy)
      (fun r c' => Paused c c' ∧
        if deadline = 0 then r = (none, true) else ∃ now, r = (some now, decide (now < deadline))) E c := by
  have next : ∀ {c' : Cell} {later : Option Int}, Paused c c' →
      wp (do
        if 0 < tries then elog o (.tryingNextHost hostCopy)
        return (later, true)) (fun r c' => Paused c c' ∧ r = (later, true)) E c' := by
    intro c' later h
    rw [wp_ite]
    split
    · rw [wp_bind, wp_elog_calm ho]
      exact ⟨h.warned _, rfl⟩
    · exact ⟨h, rfl⟩
  unfold localAmqpNextHost
  rw [wp_ite]
  split
  · rename_i hd
    have hclock : Paused c (c.ticked .nowMs) := ⟨.ticked c (by decide), rfl, rfl, rfl⟩
    rw [wp_bind, wp_tick, wp_ite]
    split
    · rename_i hlate
      rw [wp_bind, wp_getGucs, wp_bind, wp_elog_calm ho]
      refine ⟨hclock.warned _, o.nowMs (c.counts .nowMs), ?_⟩
      rw [decide_eq_false (Int.not_lt.mpr hlate)]
    · rename_i hearly
      refine wp_mono (next hclock) (fun r c' h => ⟨h.1, o.nowMs (c.counts .nowMs), ?_⟩) (fun _ _ h => h)
      rw [h.2, decide_eq_true (Int.not_le.mp hearly)]
  · rename_i hd
    refine wp_mono (next ⟨.refl c, rfl, rfl, rfl⟩) (fun r c' h => ⟨h.1, ?_⟩) (fun _ _ h => h)
    rw [if_pos (not_not.mp hd), h.2]

end Turn

/-- What a round tells of the hosts it attempted, from the entry it started with. -/
structure Visited (o : Outcomes) (deadline : Int) (tries : Nat) (c : Cell) (r : Bool × List Visit)
    (c' : Cell) : Prop where
  round : Round c c'
  positions : r.2.map Visit.idx = Cyclic.positions c.bs.nhosts (c.bs.idx + 1) r.2.length
  hosts : ∀ v ∈ r.2, v.host = (c.bs.hosts.getD []).getD v.idx .zero
  /-- The sockets that it opens are those of its attempts, one after the other. -/
  opened : openedIn c'.log = openedIn c.log ++ r.2.flatMap Visit.sockets
  length : r.2.length ≤ tries
  /-- Under a deadline a further host is attempted only before it. -/
  before : deadline ≠ 0 → ∀ v ∈ r.2.dropLast, ∃ now, v.later = some now ∧ now < deadline
  idx : o.Allocates → c'.bs.idx = (c.bs.idx + r.2.length) % c.bs.nhosts
  nonempty : o.Allocates → 0 < tries → r.2 ≠ []
  /-- Without a deadline a round fails only behind the last host. -/
  all : o.Allocates → r.1 = false → deadline = 0 → r.2.length = tries
  failed : r.1 = false → c'.bs.conn = none ∧
    c'.bs.consecutiveFailures = c.bs.consecutiveFailures ∧
    c'.bs.lastFailedConnect = c.bs.lastFailedConnect
  connected : r.1 = true → c'.bs.conn.isSome = true ∧ c'.bs.consecutiveFailures = 0 ∧
    c'.bs.lastFailedConnect = 0 ∧ c'.bs.blocked = false

section Visits

variable {o : Outcomes} {c c' c'' : Cell} {brokerId deadline : Int} {tries : Nat}
  {E : Raised → Cell → Prop}

theorem Visited.nil (hc : c.bs.conn = none) (hi : c.bs.idx < c.bs.nhosts) :
    Visited o deadline 0 c (false, []) c where
  round := .refl c
  positions := rfl
  hosts := fun _ hv => nomatch hv
  opened := (List.append_nil _).symm
  length := Nat.le_refl _
  before := fun _ _ hv => nomatch hv
  idx := fun _ => (Nat.mod_eq_of_lt hi).symm
  nonempty := fun _ h => absurd h (Nat.lt_irrefl 0)
  all := fun _ _ _ => rfl
  failed := fun _ => ⟨hc, rfl, rfl⟩
  connected := fun h => Bool.noConfusion h

theorem Visited.unallocated (hc : c.bs.conn = none) (hno : ¬ o.Allocates) (h : Round c c')
    (hbs : c'.bs = c.turned.bs) (hopened : openedIn c'.log = openedIn c.log) :
    Visited o deadline tries c (false, []) c' where
  round := h
  positions := rfl
  hosts := fun _ hv => nomatch hv
  opened := hopened.trans (List.append_nil _).symm
  length := Nat.zero_le _
  before := fun _ _ hv => nomatch hv
  idx := fun h => absurd h hno
  nonempty := fun h => absurd h hno
  all := fun h => absurd h hno
  failed := fun _ => by
    rw [hbs]
    exact ⟨hc, rfl, rfl⟩
  connected := fun h => Bool.noConfusion h

/-- The attempt is on the host of the list at its index. -/
theorem Cell.visit_host (c : Cell) (o : Outcomes) (later : Option Int) :
    (c.visit o later).host = (c.bs.hosts.getD []).getD (c.visit o later).idx .zero := rfl

theorem Visited.joined (h : Joined o c.uses c c') (hi : c'.bs.idx = (c.bs.idx + 1) % c.bs.nhosts)
    (hopened : openedIn c'.log = openedIn c.log ++ (c.visit o none).sockets) :
    Visited o deadline (tries + 1) c (true, [c.visit o none]) c' where
  round := h.round
  positions := by simp [Cell.visit, Cyclic.positions]
  hosts := fun v hv => by
    rw [List.mem_singleton.mp hv]
    exact c.visit_host o none
  opened := by rw [hopened, List.flatMap_singleton]
  length := Nat.succ_le_succ (Nat.zero_le _)
  before := fun _ _ hv => nomatch hv
  idx := fun _ => hi
  nonempty := fun _ _ => List.cons_ne_nil _ _
  all := fun _ h => Bool.noConfusion h
  failed := fun h => Bool.noConfusion h
  connected := fun _ => by
    obtain ⟨k, hk, -⟩ := h.conn
    exact ⟨by simp [hk], h.consecutiveFailures, h.lastFailedConnect, h.blocked⟩

/-- The round that stops behind its first host. -/
theorem Visited.stopped (h : Missed o c c') (hp : Paused c' c'') (later : Option Int) (hd : deadline ≠ 0) :
    Visited o deadline (tries + 1) c (false, [c.visit o later]) c'' where
  round := h.round.trans hp.round
  positions := by simp [Cell.visit, Cyclic.positions]
  hosts := fun v hv => by
    rw [List.mem_singleton.mp hv]
    exact c.visit_host o later
  opened := by
    rw [hp.opened, h.opened, List.flatMap_singleton]
    rfl
  length := Nat.succ_le_succ (Nat.zero_le _)
  before := fun _ _ hv => nomatch hv
  idx := fun _ => by rw [hp.bs, h.idx]; rfl
  nonempty := fun _ _ => List.cons_ne_nil _ _
  all := fun _ _ h => absurd h hd
  failed := fun _ => by
    rw [hp.bs]
    exact ⟨h.conn, h.consecutiveFailures, h.lastFailedConnect⟩
  connected := fun h => Bool.noConfusion h

/-- The round that goes on behind its first host. -/
theorem Visited.cons {r : Bool × List Visit} {c₁ : Cell} (h : Missed o c c') (hp : Paused c' c₁)
    {later : Option Int} (hlater : deadline ≠ 0 → ∃ now, later = some now ∧ now < deadline)
    (hv : Visited o deadline tries c₁ r c'') :
    Visited o deadline (tries + 1) c (r.1, c.visit o later :: r.2) c'' := by
  have hn : c₁.bs.nhosts = c.bs.nhosts := hp.round.nhosts.trans h.round.nhosts
  have hlist : c₁.bs.hosts = c.bs.hosts := hp.round.hosts.trans h.round.hosts
  have hi : c₁.bs.idx = (c.bs.idx + 1) % c.bs.nhosts := by rw [hp.bs, h.idx]
  have hpos := hv.positions
  rw [hn, hi] at hpos
  refine ⟨h.round.trans (hp.round.trans hv.round), ?_, fun v hv' => ?_, ?_, Nat.succ_le_succ hv.length,
    fun hd v hv' => ?_,
    fun hnew => ?_, fun _ _ => List.cons_ne_nil _ _, fun hnew hf hd => congrArg Nat.succ (hv.all hnew hf hd),
    fun hf => ?_, hv.connected⟩
  · rw [List.map_cons, hpos, List.length_cons, Cyclic.positions_succ, Cyclic.positions_mod_add]
    rfl
  · rcases List.mem_cons.mp hv' with rfl | hv'
    · exact c.visit_host o later
    · rw [hv.hosts v hv', hlist]
  · rw [hv.opened, hp.opened, h.opened, List.flatMap_cons, List.append_assoc]
    rfl
  · cases hrest : r.2 with
    | nil => simp [hrest] at hv'
    | cons w ws =>
      rw [hrest, List.dropLast_cons_cons] at hv'
      rcases List.mem_cons.mp hv' with rfl | hv'
      · exact hlater hd
      · exact hv.before hd v (hrest ▸ hv')
  · rw [hv.idx hnew, hn, hi, Nat.mod_add_mod, List.length_cons]
    congr 1
    omega
  · obtain ⟨hnone, hcf, hlf⟩ := hv.failed hf
    exact ⟨hnone, by rw [hcf, hp.bs, h.consecutiveFailures], by rw [hlf, hp.bs, h.lastFailedConnect]⟩

theorem localAmqpVisits_visited (ho : o.Calm) (hc : c.bs.conn = none) (hi : c.bs.idx < c.bs.nhosts) :
    wp (localAmqpVisits o brokerId deadline tries) (Visited o deadline tries c) E c := by
  induction tries generalizing c with
  | zero => exact .nil hc hi
  | succ tries ih =>
    refine visit_spec ho hc (fun hno c' h hbs hopened => .unallocated hc hno h hbs hopened)
      (fun _ c' h hidx hopened => .joined h hidx hopened) fun _ c' h hostCopy => ?_
    refine wp_seq (localAmqpNextHost_spec ho hostCopy) fun next c₁ h₁ => ?_
    obtain ⟨hp, hnext⟩ := h₁
    have hi₁ : c₁.bs.idx < c₁.bs.nhosts := by
      rw [hp.bs, h.idx, h.round.nhosts]
      exact Nat.mod_lt _ (by omega)
    have rest : ∀ later, (deadline ≠ 0 → ∃ now, later = some now ∧ now < deadline) → wp (do
        let r ← localAmqpVisits o brokerId deadline tries
        return (r.1, c.visit o later :: r.2)) (Visited o deadline (tries + 1) c) E c₁ :=
      fun later hlater => wp_seq (ih (by rw [hp.bs, h.conn]) hi₁) fun r c₂ hv => .cons h hp hlater hv
    rw [wp_ite]
    split at hnext
    · rename_i hd
      subst hnext
      exact rest none fun hd' => absurd hd hd'
    · rename_i hd
      obtain ⟨now, rfl⟩ := hnext
      dsimp only
      split
      · rename_i hearly
        exact rest (some now) fun _ => ⟨now, rfl, of_decide_eq_true hearly⟩
      · exact .stopped h hp _ hd

end Visits

end PgAmqp
