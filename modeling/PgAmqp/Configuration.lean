import PgAmqp.BrokerTable
import PgAmqp.Caching
import PgAmqp.HostLists
import PgAmqp.Passes

/-!
# The configuration in force

A backend reads the hosts of a broker when it first connects to it. The rows of `amqp.broker`
change meanwhile, and the backend goes on with what it has read, over all reconnects, until
`amqp.disconnect` drops it. So the list that a backend tries, and every socket it opens, is
that of one moment, which no `amqp.disconnect` has followed.
-/
namespace PgAmqp

open ProgramLogic Transition

/-- This is the list in place, and all sockets were opened to its hosts. -/
structure Using (hosts : List BrokerHost) (c : Cell) : Prop where
  list : c.bs.hosts = some hosts
  nhosts : c.bs.nhosts = hosts.length
  idx : c.bs.idx < hosts.length
  opened : ∀ e ∈ c.log, ∀ h, e.opened = some h → h ∈ hosts

section Using

variable {hosts : List BrokerHost} {o : Outcomes} {h : BrokerHost} {c c' : Cell} {L : Lapses}

/-- The fields of the list are as they were, and no socket was opened. -/
theorem Using.still (hu : Using hosts c) (hh : c'.bs.hosts = c.bs.hosts) (hn : c'.bs.nhosts = c.bs.nhosts)
    (hi : c'.bs.idx = c.bs.idx) (hl : ∀ e ∈ c'.log, e ∈ c.log ∨ e.opened = none) : Using hosts c' where
  list := hh.trans hu.list
  nhosts := hn.trans hu.nhosts
  idx := by
    rw [hi]
    exact hu.idx
  opened := by
    intro e he x hx
    rcases hl e he with he | hnone
    · exact hu.opened e he x hx
    · rw [hnone] at hx
      cases hx

theorem Using.silent (hu : Using hosts c) (hh : c'.bs.hosts = c.bs.hosts) (hn : c'.bs.nhosts = c.bs.nhosts)
    (hi : c'.bs.idx = c.bs.idx) (hl : c'.log = c.log) : Using hosts c' :=
  hu.still hh hn hi fun _ he => .inl (hl ▸ he)

theorem Using.said (hu : Using hosts c) (hh : c'.bs.hosts = c.bs.hosts)
    (hn : c'.bs.nhosts = c.bs.nhosts) (hi : c'.bs.idx = c.bs.idx) {e : Event} (hl : c'.log = c.log ++ [e])
    (he : e.opened = none) : Using hosts c' := by
  refine hu.still hh hn hi fun e' he' => ?_
  rw [hl] at he'
  rcases List.mem_append.mp he' with he' | he'
  · exact .inl he'
  · exact .inr (List.mem_singleton.mp he' ▸ he)

theorem Served.keepsList {p q : Stage × Cell} (hs : Served L p q) (hu : Using hosts p.2) : Using hosts q.2 := by
  induction hs with
  | refl => exact hu
  | tail _ h ih => exact ih.still h.sameList.hosts h.sameList.nhosts h.sameList.idx fun _ => h.unopened.mem

theorem tick_using (k : Call) : Preserves (Using hosts) (tick k) := fun _ hu => hu.silent rfl rfl rfl rfl

theorem elog_using (r : Report) : Preserves (Using hosts) (elog o r) := by
  intro c hu
  rw [wp_elog]
  split <;> exact hu.said rfl rfl rfl rfl rfl

theorem rpc_using (kind : Rpc) (a : Answer) : Preserves (Using hosts) (rpc kind a) := by
  intro c hu
  cases hk : c.bs.conn with
  | none =>
    unfold rpc
    rw [wp_bind, wp_getBs, hk]
    exact hu
  | some k =>
    rw [wp_rpc hk]
    exact hu.said rfl rfl rfl rfl rfl

theorem localAmqpConnectFailed_using : Preserves (Using hosts) (localAmqpConnectFailed o) :=
  .bind (tick_using _) fun _ _ hu => hu.silent rfl rfl rfl rfl

theorem localAmqpDisconnectBs_using (graceful : Bool) : Preserves (Using hosts) (localAmqpDisconnectBs graceful) := by
  intro c hu
  cases hk : c.bs.conn with
  | none =>
    rw [wp_localAmqpDisconnectBs_none graceful hk]
    exact hu
  | some k =>
    cases graceful with
    | false =>
      rw [wp_localAmqpDisconnectBs_some hk]
      exact hu.said rfl rfl rfl rfl rfl
    | true =>
      rw [wp_localAmqpDisconnectBs_closed hk]
      have hclosed : Using hosts (c.recorded (.rpc .connectionClose k.closing .none)) := hu.said rfl rfl rfl rfl rfl
      exact hclosed.said rfl rfl rfl rfl rfl

theorem localAmqpOpenSocket_using (hostCopy : String) (hh : h ∈ hosts) :
    Preserves (Using hosts) (localAmqpOpenSocket o h hostCopy) := by
  intro c hu
  have refused : ∀ r : Report, Preserves (Using hosts) (do elog o r; return false) := fun r =>
    .bind (elog_using r) fun _ => .pure _ _
  have ht : Using hosts (c.ticked .socketNew) := hu.silent rfl rfl rfl rfl
  unfold localAmqpOpenSocket
  rw [wp_bind, wp_getBs, wp_bind, wp_tick, wp_ite]
  split
  · exact refused _ _ ht
  · rw [wp_bind, wp_tick, wp_bind, wp_getGucs, wp_bind, wp_record]
    generalize hopen : o.socketOpen ((c.ticked .socketNew).counts .socketOpen) = opened
    have hrecorded : Using hosts (((c.ticked .socketNew).ticked .socketOpen).recorded
        (.socketOpen h c.backend.gucs.connectTimeoutMs opened)) := by
      refine ⟨hu.list, hu.nhosts, hu.idx, fun e he x hx => ?_⟩
      rcases List.mem_append.mp he with he | he
      · exact hu.opened e he x hx
      · rw [List.mem_singleton.mp he] at hx
        exact Option.some.inj hx ▸ hh
    rw [wp_ite]
    split
    · exact refused _ _ hrecorded
    · exact hrecorded

theorem localAmqpTryHost_using (hostCopy : String) (brokerId : Int) (hh : h ∈ hosts) :
    Preserves (Using hosts) (localAmqpTryHost o h hostCopy brokerId) := by
  have stage : ∀ (r : Report) (rest : M Bool), Preserves (Using hosts) rest → ∀ reply : Reply,
      Preserves (Using hosts) (do
        if reply ≠ .normal then
          elog o r
          return false
        rest) := by
    intro r rest hrest reply
    exact .ite (fun _ => .bind (elog_using r) fun _ => .pure _ _) fun _ => hrest
  have asks : ∀ (k : Call) (f : Nat → M Reply), (∀ n, Preserves (Using hosts) (f n)) →
      Preserves (Using hosts) (tick k >>= f) := fun k _ hf => .bind (tick_using k) hf
  have handshake : Preserves (Using hosts) (localAmqpHandshake o h hostCopy brokerId) := by
    refine .bind (asks _ _ fun _ => rpc_using _ _) fun reply => stage _ _ ?_ reply
    refine .bind (asks _ _ fun _ => rpc_using _ _) fun reply => stage _ _ ?_ reply
    refine .bind (asks _ _ fun _ => rpc_using _ _) fun reply => stage _ _ ?_ reply
    exact .bind (asks _ _ fun _ => rpc_using _ _) fun reply => stage _ _ (.pure _ _) reply
  have timed : ∀ ms, Preserves (Using hosts) (localAmqpSetTimeout ms) := fun _ _ hu => hu.silent rfl rfl rfl rfl
  have gucs : Preserves (Using hosts) getGucs := fun _ hu => hu
  refine .bind (localAmqpOpenSocket_using hostCopy hh) fun _ => .ite (fun _ => .pure _ _) fun _ => ?_
  refine .bind (tick_using _) fun _ => .bind (fun _ hu => hu.silent rfl rfl rfl rfl) fun _ => ?_
  refine .bind gucs fun _ => .bind (timed _) fun _ => .bind handshake fun _ => .ite (fun _ => .pure _ _) fun _ => ?_
  refine .bind gucs fun _ => .bind (timed _) fun _ => .bind (fun _ hu => ?_) fun _ => .pure _ _
  exact hu.silent rfl rfl rfl rfl

/-- The failover loop tries hosts of the list. -/
theorem localAmqpFailover_using (brokerId deadline : Int) (tries : Nat) :
    Preserves (Using hosts) (localAmqpFailover o brokerId deadline tries) := by
  induction tries with
  | zero => exact .pure _ _
  | succ tries ih =>
    have next : ∀ hostCopy, Preserves (Using hosts) (do
        if deadline ≠ 0 then
          if deadline ≤ o.nowMs (← tick .nowMs) then
            elog o (.budgetExhausted (← getGucs).connectBudgetMs brokerId)
            return false
        if 0 < tries then
          elog o (.tryingNextHost hostCopy)
        localAmqpFailover o brokerId deadline tries) := by
      intro hostCopy
      have go : Preserves (Using hosts) (do
          if 0 < tries then
            elog o (.tryingNextHost hostCopy)
          localAmqpFailover o brokerId deadline tries) :=
        .ite (fun _ => .bind (elog_using _) fun _ => ih) fun _ => ih
      refine .ite (fun _ => .bind (tick_using _) fun _ => .ite (fun _ => ?_) fun _ => go) fun _ => go
      exact .bind (fun _ hu => hu) fun _ => .bind (elog_using _) fun _ => .pure _ _
    intro c hu
    have hidx : (c.bs.idx + 1) % c.bs.nhosts < hosts.length := by
      rw [hu.nhosts]
      exact Nat.mod_lt _ (by have := hu.idx; omega)
    have hturned : Using hosts c.turned := ⟨hu.list, hu.nhosts, hidx, hu.opened⟩
    have hcurrent : c.turned.bs.currentHost ∈ hosts := by
      unfold BrokerState.currentHost
      rw [hturned.list, Option.getD_some, List.getD_eq_getElem?_getD, List.getElem?_eq_getElem hturned.idx,
        Option.getD_some]
      exact List.getElem_mem hturned.idx
    unfold localAmqpFailover
    rw [wp_bind, wp_modifyBs, wp_bind, wp_getBs, wp_bind, wp_amqpNewConnection]
    split
    · have hnew : Using hosts (c.turned.ticked .newConnection).dialed := hturned.silent rfl rfl rfl rfl
      rw [wp_bind, wp_setConn, wp_ite, if_neg (by simp)]
      refine wp_seq (localAmqpTryHost_using _ brokerId hcurrent _ hnew) fun ok c₁ h₁ => ?_
      rw [wp_ite]
      split
      · exact h₁
      · exact Preserves.bind (localAmqpDisconnectBs_using false) (fun _ => next _) c₁ h₁
    · rw [wp_bind, wp_setConn, wp_ite, if_pos (by simp)]
      exact hturned.silent rfl rfl rfl rfl

/-- The lookup is not made again. -/
theorem localAmqpLoadHosts_using : Preserves (Using hosts) (localAmqpLoadHosts o) := by
  intro c hu
  unfold localAmqpLoadHosts
  rw [wp_bind, wp_getBs, wp_ite, if_pos (by rw [hu.list]; rfl)]
  exact hu

theorem localAmqpGetBs_using (brokerId : Int) : Preserves (Using hosts) (localAmqpGetBs o brokerId) := by
  have dial : ∀ deadline, Preserves (Using hosts) (do
      if !(← localAmqpFailover o brokerId deadline (← getBs).nhosts) then localAmqpConnectFailed o) := fun deadline =>
    .bind (getBs_preserves _) fun _ => .bind (localAmqpFailover_using brokerId deadline _) fun _ =>
      .ite (fun _ => localAmqpConnectFailed_using) fun _ => .pure _ _
  have suppressed : Preserves (Using hosts) (localAmqpSuppressed o) := by
    intro c hu
    rw [wp_localAmqpSuppressed]
    unfold Cell.checked
    split
    · exact hu
    · exact hu.silent rfl rfl rfl rfl
  refine .bind (fun _ hu => hu.silent rfl rfl rfl rfl) fun _ => .bind (getBs_preserves _) fun _ =>
    .ite (fun _ => .pure _ _) fun _ => ?_
  refine .bind suppressed fun _ => .ite (fun _ => .pure _ _) fun _ => ?_
  refine .bind localAmqpLoadHosts_using fun _ => .ite (fun _ => ?_) fun _ => ?_
  · exact .bind localAmqpConnectFailed_using fun _ => .pure _ _
  · refine .bind (fun _ hu => hu) fun _ => .ite (fun _ => ?_) fun _ => ?_
    · exact .bind (tick_using _) fun _ => .bind (.pure _ _) fun deadline => dial deadline
    · exact .bind (.pure _ _) fun deadline => dial deadline

theorem pgAmqpPublishOpt_using (brokerId : Int) (a : PublishArgs) (channel : Nat) :
    Preserves (Using hosts) (pgAmqpPublishOpt o brokerId a channel) := by
  have pass : ∀ m onceMore redo, Preserves (Using hosts) redo →
      Preserves (Using hosts) (publishPass o brokerId m a.badDeliveryMode channel onceMore redo) := by
    intro m onceMore redo hredo
    refine .bind (localAmqpGetBs_using brokerId) fun _ c hu => ?_
    have served : ∀ {c'}, Served .all (.rest, c) (.rest, c') → Using hosts c' := fun hs => hs.keepsList hu
    exact publishConnected_served (L := .all) (p := (.rest, c)) brokerId a.badDeliveryMode
      ⟨fun _ _ => served, fun _ _ hs => served (hs fun _ => trivial), fun c' hs _ => hredo c' (served hs)⟩ .refl
  refine .bind (fun _ hu => hu) fun _ => .ite (fun _ => ?_) fun _ => ?_
  · exact .bind (elog_using _) fun _ => .pure _ _
  · exact .bind (fun _ hu => hu.silent rfl rfl rfl rfl) fun m => pass m _ _ (pass m _ _ (.pure _ _))

theorem pgAmqpExchangeDeclare_using (brokerId : Int) (a : DeclareArgs) :
    Preserves (Using hosts) (pgAmqpExchangeDeclare o brokerId a) := by
  refine .bind (localAmqpGetBs_using brokerId) fun _ => .bind (getBs_preserves _) fun _ =>
    .ite (fun _ => ?_) fun _ => ?_
  · refine .bind (.bind (tick_using _) fun _ => rpc_using _ _) fun _ => .ite (fun _ => .pure _ _) fun _ => ?_
    exact .bind (localAmqpDisconnectBs_using false) fun _ => .pure _ _
  · exact .pure _ _

theorem localAmqpDisconnect_unlists :
    wp (do localAmqpDisconnect; return true) (fun _ c' => c'.bs.hosts = none) (fun _ _ => False) c := by
  unfold localAmqpDisconnect
  rw [wp_bind, wp_bind, wp_localAmqpGetABs]
  cases hk : c.link.bs.conn with
  | none =>
    rw [wp_bind, wp_localAmqpDisconnectBs_none true hk]
    exact Cell.freed_hosts _
  | some k =>
    exact wp_seq (wp_mono (localAmqpDisconnectBs_dropped true hk) (fun _ _ h => h) fun _ _ h => h) fun _ _ _ =>
      Cell.freed_hosts _

end Using

/-- A call with a list in place goes on with it. -/
def GoesOn (c c' : Cell) : Prop := ∀ hosts, Using hosts c → Using hosts c'

section Steps

variable {s : Session} {st : Step} {b : Int} {hosts : List BrokerHost}

theorem goesOn {α : Type} {x : M α} (hx : ∀ hosts, Preserves (Using hosts) x) (c : Cell) :
    wp x (fun _ => GoesOn c) (fun _ => GoesOn c) c := by
  unfold wp
  cases hrun : x c with
  | ok v c' =>
    intro hosts hu
    have h := hx hosts c hu
    unfold wp at h
    rwa [hrun] at h
  | error e c' =>
    intro hosts hu
    have h := hx hosts c hu
    unfold wp at h
    rwa [hrun] at h

theorem Step.Calls.goesOn {x : M Bool} (hx : st.Calls b x) (hd : st.action ≠ .disconnect (some b)) (c : Cell) :
    wp x (fun _ => GoesOn c) (fun _ => GoesOn c) c := by
  cases hx with
  | publish _ _ => exact PgAmqp.goesOn (fun _ => pgAmqpPublishOpt_using b _ _) c
  | autonomousPublish _ _ => exact PgAmqp.goesOn (fun _ => pgAmqpPublishOpt_using b _ _) c
  | exchangeDeclare _ _ => exact PgAmqp.goesOn (fun _ => pgAmqpExchangeDeclare_using b _) c
  | disconnect h => exact absurd h hd

/-- Between two calls: this is the list in place. -/
structure InPlace (hosts : List BrokerHost) (bs : BrokerState) : Prop where
  list : bs.hosts = some hosts
  nhosts : bs.nhosts = hosts.length
  idx : bs.idx < hosts.length

theorem Trail.goesOn {k k' : Backend} {bs bs' : BrokerState} {evs : List Event}
    (h : Trail GoesOn k bs evs k' bs') (hl : InPlace hosts bs) :
    InPlace hosts bs' ∧ ∀ e ∈ evs, ∀ x, e.opened = some x → x ∈ hosts := by
  induction h with
  | still _ _ => exact ⟨hl, by simp⟩
  | work hw =>
    have hu := hw hosts ⟨hl.list, hl.nhosts, hl.idx, by simp [Session.start]⟩
    exact ⟨⟨hu.list, hu.nhosts, hu.idx⟩, hu.opened⟩
  | trans _ _ ih ih' =>
    obtain ⟨hl₁, hevs⟩ := ih hl
    obtain ⟨hl₂, hevs'⟩ := ih' hl₁
    refine ⟨hl₂, fun e he => ?_⟩
    rcases List.mem_append.mp he with he | he
    · exact hevs e he
    · exact hevs' e he

/-- A list stays in place until the broker is disconnected, and all sockets of the step are opened to its hosts. -/
theorem next_kept (hs : Runs (fun _ _ => True) s) (hl : (s.entry b).hosts = some hosts)
    (hd : st.action ≠ .disconnect (some b)) :
    ((next st s).entry b).hosts = some hosts ∧
      ∀ e ∈ logOf b (trace st s).log, ∀ x, e.opened = some x → x ∈ hosts := by
  have hn := (Runs.indexed hs b).counted hosts hl
  have hlists : InPlace hosts (s.entry b) := ⟨hl, hn, hn ▸ (Runs.indexed hs b).inside (by rw [hl]; rfl)⟩
  by_cases hset : ∃ g, st.action = .set g
  · obtain ⟨g, hg⟩ := hset
    unfold next trace exec
    rw [hg]
    exact ⟨hl, by simp⟩
  · have htrails : Trails (fun b' c c' => b' = b → GoesOn c c') s (next st s) (trace st s).log := by
      refine exec_works (Runs.shaped hs) (fun g hg => hset ⟨g, hg⟩) (.between fun _ _ _ h _ _ hu => h.keepsList hu)
        fun b' x hx => ?_
      have hcalled := calls_called (Runs.anchored hs) hx
      by_cases hb : b' = b
      · subst hb
        exact wp_mono (wp_and hcalled (hx.goesOn hd (s.cell b'))) (fun _ _ h => h.1.landed fun _ => h.2)
          fun _ _ h => h.1.landed fun _ => h.2
      · exact wp_mono hcalled (fun _ _ h => h.landed fun h => absurd h hb) fun _ _ h => h.landed fun h => absurd h hb
    obtain ⟨hlists', hopened⟩ := ((htrails b).mono fun _ _ h => h rfl).goesOn hlists
    exact ⟨hlists'.list, hopened⟩

theorem next_unlisted (hs : Runs (fun _ _ => True) s) (hd : st.action = .disconnect (some b)) :
    ((next st s).entry b).hosts = none := by
  have hcalled := calls_called (Runs.anchored hs) (.disconnect hd)
  obtain ⟨v, c, hrun, hnone⟩ := wp_ok (localAmqpDisconnect_unlists (c := s.cell b))
  have hentry := call_entry (x := fun _ => do localAmqpDisconnect; return true) hcalled hrun
  unfold next exec
  rw [hd]
  exact (congrArg BrokerState.hosts hentry).trans hnone

/-- What a trail of whole loads leaves, and what it opens. -/
theorem Trail.listed {P : List BrokerRow → Prop} {L : Lapses} {o : Outcomes} {k k' : Backend} {bs bs' : BrokerState}
    {evs : List Event} (h : Trail (fun c c' => Chain L o (.rest, c) (.rest, c')) k bs evs k' bs')
    (hL : Lists P L o) (hl : Listed P bs) : Listed P bs' ∧ ∀ e ∈ evs, e.OpensListed P := by
  induction h with
  | still _ _ => exact ⟨hl, by simp⟩
  | work hc =>
    have hlisting := hc.listing hL (listed_start hl)
    exact ⟨hlisting.listed, hlisting.opens⟩
  | trans _ _ ih ih' =>
    obtain ⟨hl₁, hevs⟩ := ih hl
    obtain ⟨hl₂, hevs'⟩ := ih' hl₁
    refine ⟨hl₂, fun e he => ?_⟩
    rcases List.mem_append.mp he with he | he
    · exact hevs e he
    · exact hevs' e he

/-- A list that a step puts in place has the rows of its lookup, and so have the sockets it opens. -/
theorem next_loaded (hs : Runs (fun _ _ => True) s) (hnone : (s.entry b).hosts = none) {rows : List BrokerRow}
    (hpartly : s.fillsPartly st b = false) (hspi : ∀ n found, (st.outcomes b).spi n = .rows found → found = rows)
    (hl : ((next st s).entry b).hosts = some hosts) :
    hosts = rows.map BrokerRow.toHost ∧ ∀ e ∈ logOf b (trace st s).log, ∀ x, e.opened = some x → x ∈ hosts := by
  have hempty := (Runs.indexed hs b).empty hnone
  by_cases hset : ∃ g, st.action = .set g
  · obtain ⟨g, hg⟩ := hset
    unfold next exec at hl
    rw [hg] at hl
    exact absurd (hnone.symm.trans hl) (by simp)
  · have hlisted : Listed (· = rows) (s.entry b) := ⟨.inl ⟨hnone, hempty.1⟩, fun _ => hempty.2⟩
    have hlists : PgAmqp.Lists (· = rows) (s.lapses st b) (st.outcomes b) :=
      ⟨fun hp => by simp [Session.lapses, hpartly] at hp, hspi⟩
    have htrail := exec_trails (Runs.shaped hs) (Runs.anchored hs) (fun g hg => hset ⟨g, hg⟩) b
    obtain ⟨hlisted', hopens⟩ := (htrail.mono fun _ _ h => Session.work_chain h).listed hlists hlisted
    rcases hlisted'.whole with ⟨hnone', -⟩ | ⟨found, rfl, hfound, -⟩
    · rw [hnone'] at hl
      cases hl
    · obtain rfl := Option.some.inj (hfound.symm.trans hl)
      refine ⟨rfl, fun e he x hx => ?_⟩
      obtain ⟨-, found, rfl, hmem⟩ := hopens e he x hx
      exact hmem

end Steps

/-- A step, and what it sees of `amqp.broker`. -/
abbrev Consultation := BrokerTable × Step

namespace Consultation

def next (i : Consultation) (s : Session) : Session := PgAmqp.next i.2 s

/-- The events of a broker. -/
def log (b : Int) (i : Consultation) (s : Session) : List Event := logOf b (trace i.2 s).log

/-- The lookups of the broker answer what the table has, or fail, and no cancel is taken in the loop over the rows. -/
structure Truthful (coll : Collation) (b : Int) (s : Session) (i : Consultation) : Prop where
  whole : s.fillsPartly i.2 b = false
  found : ∀ n rows, (i.2.outcomes b).spi n = .rows rows → rows = i.1.lookup coll b

end Consultation

section Runs

variable {coll : Collation} {b : Int}

theorem hosts_cached (coll : Collation) (b : Int) :
    Caches Consultation.next (Runs fun _ _ => True) (Consultation.Truthful coll b) (fun s => (s.entry b).hosts)
      (fun i => i.2.action = .disconnect (some b)) (fun i _ hosts => hosts = i.1.hosts coll b) (Consultation.log b)
      (fun hosts e => ∀ h, e.opened = some h → h ∈ hosts) where
  inv := fun hs _ => .step _ hs trivial
  kept := fun hs _ hl hd => next_kept hs hl hd
  dropped := fun hs _ hd => next_unlisted hs hd
  loaded := fun hs ht hnone hl => next_loaded hs hnone ht.whole ht.found hl

/-- In every run of a backend, with `amqp.broker` changing in any way between its steps: the list in place
was put there by one of the steps, the broker was not disconnected since, and every socket that was opened for
it since goes to a host of this list. It is the configuration that this step saw, and the same one for all
tables with these rows of the broker. -/
theorem configuration_in_force (coll : Collation) (gucs : Gucs) (myProcPid : Nat) (b : Int)
    (steps : List Consultation) {hosts : List BrokerHost}
    (ha : Admits Consultation.next (Consultation.Truthful coll b) steps (.loaded gucs myProcPid))
    (hl : ((run Consultation.next steps (.loaded gucs myProcPid)).entry b).hosts = some hosts) :
    ∃ before table st after, steps = before ++ (table, st) :: after ∧
      ((run Consultation.next before (.loaded gucs myProcPid)).entry b).hosts = none ∧
      ((PgAmqp.next st (run Consultation.next before (.loaded gucs myProcPid))).entry b).hosts = some hosts ∧
      (∀ i ∈ after, i.2.action ≠ .disconnect (some b)) ∧
      (∀ table' : BrokerTable, (∀ r, r.brokerId = b → (r ∈ table'.rows ↔ r ∈ table.rows)) →
        hosts = table'.hosts coll b) ∧
      ∀ e ∈ gathered Consultation.next (Consultation.log b) ((table, st) :: after)
        (run Consultation.next before (.loaded gucs myProcPid)), ∀ h, e.opened = some h → h ∈ hosts := by
  have hinit := Session.loaded_initial gucs myProcPid
  have hnone : ((Session.loaded gucs myProcPid).entry b).hosts = none := by
    rw [entry_initial hinit]
    rfl
  obtain ⟨before, ⟨table, st⟩, after, hsplit, hempty, hplaced, hload, hkept, hopened⟩ :=
    (hosts_cached coll b).origin (.init hinit) hnone ha hl
  refine ⟨before, table, st, after, hsplit, hempty, hplaced, hkept, fun table' h => ?_, hopened⟩
  rw [BrokerTable.hosts_congr coll h]
  exact hload

end Runs

/-- A host with the defaults of `amqp.broker`. -/
def ConfiguredHost.plain (b : Int) (host : String) : ConfiguredHost :=
  ⟨b, host, 5672, none, none, none, false, true, none, none, none⟩

def twoBrokers : BrokerTable := ⟨[.plain 1 "a", .plain 2 "z", .plain 1 "b"], by decide +kernel⟩

def movedBroker : BrokerTable := ⟨[.plain 2 "z", .plain 1 "c"], by decide +kernel⟩

/-- A step that sees this table, in which the connection that a publish finds is dead. -/
def BrokerTable.seenBy (t : BrokerTable) (a : Action) : Consultation :=
  ⟨t, a, fun b => { Outcomes.good with
    spi := fun _ => .rows (t.lookup .byCodePoint b)
    poll := fun n => ⟨[], n ≠ 0⟩ }⟩

/-- The rows of a broker change, and the backend follows when it is told to. -/
def reconfigured : List Consultation :=
  [twoBrokers.seenBy (.autonomousPublish (.to1 "a")), movedBroker.seenBy (.autonomousPublish (.to1 "b")),
    movedBroker.seenBy (.disconnect (some 1)), movedBroker.seenBy (.autonomousPublish (.to1 "c")),
    twoBrokers.seenBy (.autonomousPublish (.to1 "d"))]

theorem BrokerTable.seenBy_truthful (t : BrokerTable) (a : Action) (s : Session) :
    Consultation.Truthful .byCodePoint 1 s (t.seenBy a) where
  whole := fillsPartly_calm fun _ _ => rfl
  found := fun _ _ h => (Spi.rows.inj h).symm

theorem reconfigured_in_force :
    ((run Consultation.next reconfigured (.loaded {} 0)).entry 1).hosts = some (movedBroker.hosts .byCodePoint 1) ∧
    ∃ before table st after, reconfigured = before ++ (table, st) :: after ∧
      ((PgAmqp.next st (run Consultation.next before (.loaded {} 0))).entry 1).hosts =
        some (movedBroker.hosts .byCodePoint 1) ∧
      (∀ i ∈ after, i.2.action ≠ .disconnect (some 1)) ∧
      movedBroker.hosts .byCodePoint 1 = table.hosts .byCodePoint 1 := by
  have hl : ((run Consultation.next reconfigured (.loaded {} 0)).entry 1).hosts =
      some (movedBroker.hosts .byCodePoint 1) := by decide +kernel
  have ha : Admits Consultation.next (Consultation.Truthful .byCodePoint 1) reconfigured (.loaded {} 0) :=
    ⟨BrokerTable.seenBy_truthful _ _ _, BrokerTable.seenBy_truthful _ _ _, BrokerTable.seenBy_truthful _ _ _,
      BrokerTable.seenBy_truthful _ _ _, BrokerTable.seenBy_truthful _ _ _, trivial⟩
  obtain ⟨before, table, st, after, hsplit, -, hplaced, hkept, hsame, -⟩ :=
    configuration_in_force .byCodePoint {} 0 1 reconfigured ha hl
  exact ⟨hl, before, table, st, after, hsplit, hplaced, hkept, hsame table fun _ _ => Iff.rfl⟩

end PgAmqp
