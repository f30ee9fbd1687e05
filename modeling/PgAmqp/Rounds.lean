import PgAmqp.ChangePaths

/-!
# Connect rounds, with what they saw

`local_amqp_get_bs` returns the entry and nothing else. `localAmqpDial` is the same
program with an account of what it did: the suppressed and the failed rounds, the hosts
that were attempted, and the clock as it was read. Dropping the account gives the
function of the source back.
-/
namespace PgAmqp

open ProgramLogic

/-- Sockets were opened to these hosts so far. -/
def Opens (hs : List BrokerHost) (c : Cell) : Prop := openedIn c.log = hs

section Opens

variable {o : Outcomes} {hs : List BrokerHost} {c c' : Cell}

theorem Opens.said (h : Opens hs c) {e : Event} (hl : c'.log = c.log ++ [e]) (he : e.opened = none) : Opens hs c' :=
  (Unopened.said hl he).openedIn.trans h

theorem elog_opens (r : Report) : Preserves (Opens hs) (elog o r) := by
  intro c h
  rw [wp_elog]
  split <;> exact h.said rfl rfl

theorem rpc_opens (kind : Rpc) (a : Answer) : Preserves (Opens hs) (rpc kind a) := by
  intro c h
  cases hk : c.bs.conn with
  | none =>
    unfold rpc
    rw [wp_bind, wp_getBs, hk]
    exact h
  | some k =>
    rw [wp_rpc hk]
    exact h.said rfl rfl

/-- The handshake opens no socket. -/
theorem localAmqpHandshake_opens (h : BrokerHost) (hostCopy : String) (brokerId : Int) :
    Preserves (Opens hs) (localAmqpHandshake o h hostCopy brokerId) := by
  have stage : ∀ (r : Report) (rest : M Bool), Preserves (Opens hs) rest → ∀ reply : Reply,
      Preserves (Opens hs) (do
        if reply ≠ .normal then
          elog o r
          return false
        rest) := by
    intro r rest hrest reply
    exact .ite (fun _ => .bind (elog_opens r) fun _ => .pure _ _) fun _ => hrest
  have asks : ∀ (k : Call) (kind : Rpc) (a : Nat → Answer),
      Preserves (Opens hs) (do rpc kind (a (← tick k))) := fun _ kind a =>
    .bind (fun _ h => h) fun n => rpc_opens kind (a n)
  refine .bind (asks .login (.login h.loginArgs) o.login) fun reply => stage _ _ ?_ reply
  refine .bind (asks .channelOpen (.channelOpen 1) o.channelOpen) fun reply => stage _ _ ?_ reply
  refine .bind (asks .channelOpen (.channelOpen 2) o.channelOpen) fun reply => stage _ _ ?_ reply
  exact .bind (asks .txSelect .txSelect o.txSelect) fun reply => stage _ _ (.pure _ _) reply

theorem localAmqpOpenSocket_opens (h : BrokerHost) (hostCopy : String) (hc : Opens hs c) :
    wp (localAmqpOpenSocket o h hostCopy)
      (fun _ => Opens (hs ++ if o.socketNew (c.counts .socketNew) = true then [h] else [])) (fun _ _ => True) c := by
  have refused : ∀ {hs : List BrokerHost} {c : Cell} (r : Report), Opens hs c →
      wp (do elog o r; return false : M Bool) (fun _ => Opens hs) (fun _ _ => True) c := fun r h =>
    wp_seq (wp_mono (elog_opens r _ h) (fun _ _ h => h) fun _ _ _ => trivial) fun _ _ h => h
  unfold localAmqpOpenSocket
  rw [wp_bind, wp_getBs, wp_bind, wp_tick, wp_ite]
  split
  · rename_i hnew
    have hnew : o.socketNew (c.counts .socketNew) = false := by simpa using hnew
    simp only [hnew, Bool.false_eq_true, if_false, List.append_nil]
    exact refused _ hc
  rename_i hnew
  rw [if_pos (by simpa using hnew), wp_bind, wp_tick, wp_bind, wp_getGucs, wp_bind, wp_record]
  generalize o.socketOpen ((c.ticked .socketNew).counts .socketOpen) = opened
  have hopen : Opens (hs ++ [h]) (((c.ticked .socketNew).ticked .socketOpen).recorded
      (.socketOpen h c.backend.gucs.connectTimeoutMs opened)) := by
    have hc : openedIn c.log = hs := hc
    show openedIn (c.log ++ [_]) = _
    rw [openedIn_append, hc]
    rfl
  rw [wp_ite]
  split
  · exact refused _ hopen
  · exact hopen

/-- An attempt opens one socket, to its own host, if the socket can be created. -/
theorem localAmqpTryHost_opens (h : BrokerHost) (hostCopy : String) (brokerId : Int) (hc : Opens hs c) :
    wp (localAmqpTryHost o h hostCopy brokerId)
      (fun _ => Opens (hs ++ if o.socketNew (c.counts .socketNew) = true then [h] else [])) (fun _ _ => True) c := by
  have keeps : ∀ {α : Type} {hs : List BrokerHost} {c : Cell} {x : M α}, Preserves (Opens hs) x → Opens hs c →
      wp x (fun _ => Opens hs) (fun _ _ => True) c := fun hx h =>
    wp_mono (hx _ h) (fun _ _ h => h) fun _ _ _ => trivial
  have timed : ∀ (hs : List BrokerHost) (ms : Nat), Preserves (Opens hs) (localAmqpSetTimeout ms) := fun _ _ _ h => h
  have gucs : ∀ hs : List BrokerHost, Preserves (Opens hs) getGucs := fun _ _ h => h
  refine wp_seq (localAmqpOpenSocket_opens h hostCopy hc) fun _ c₁ h₁ => keeps ?_ h₁
  refine .ite (fun _ => .pure _ _) fun _ => .bind (fun _ h => h) fun _ => .bind (fun _ h => h) fun _ => ?_
  refine .bind (gucs _) fun _ => .bind (timed _ _) fun _ => ?_
  refine .bind (localAmqpHandshake_opens h hostCopy brokerId) fun _ => .ite (fun _ => .pure _ _) fun _ => ?_
  exact .bind (gucs _) fun _ => .bind (timed _ _) fun _ => .bind (fun _ h => h) fun _ => .pure _ _

end Opens

/-- An attempt on one host. -/
structure Visit where
  idx : Nat
  /-- The host whose socket was to be opened. -/
  host : BrokerHost
  /-- The socket could be created, so that it was opened. -/
  created : Bool
  /-- The clock, if it was read after the failure. -/
  later : Option Int
  deriving DecidableEq, Repr

/-- The hosts to which an attempt opens a socket. -/
def Visit.sockets (v : Visit) : List BrokerHost := if v.created = true then [v.host] else []

/-- Whether the library can create the next socket. -/
def socketCreates (o : Outcomes) : M Bool := fun c => .ok (o.socketNew (c.counts .socketNew)) c

/-- The end of a turn of the failover loop: the clock reading, and whether the loop goes on. -/
def localAmqpNextHost (o : Outcomes) (brokerId deadline : Int) (tries : Nat) (hostCopy : String) :
    M (Option Int × Bool) := do
  if deadline ≠ 0 then
    let now := o.nowMs (← tick .nowMs)
    if deadline ≤ now then
      elog o (.budgetExhausted (← getGucs).connectBudgetMs brokerId)
      return (some now, false)
    if 0 < tries then
      elog o (.tryingNextHost hostCopy)
    return (some now, true)
  else
    if 0 < tries then
      elog o (.tryingNextHost hostCopy)
    return (none, true)

/-- The failover loop with the attempts that it made. -/
def localAmqpVisits (o : Outcomes) (brokerId : Int) (deadline : Int) : Nat → M (Bool × List Visit)
  | 0 => return (false, [])
  | tries + 1 => do
    modifyBs fun bs => { bs with idx := (bs.idx + 1) % bs.nhosts }
    let bs ← getBs
    let h := bs.currentHost
    let conn ← amqpNewConnection o
    setConn conn
    if conn.isNone then
      return (false, [])
    let created ← socketCreates o
    if (← localAmqpTryHost o h h.hostCopy brokerId) then
      return (true, [⟨bs.idx, h, created, none⟩])
    localAmqpDisconnectBs false
    let next ← localAmqpNextHost o brokerId deadline tries h.hostCopy
    if next.2 then
      let r ← localAmqpVisits o brokerId deadline tries
      return (r.1, ⟨bs.idx, h, created, next.1⟩ :: r.2)
    else
      return (false, [⟨bs.idx, h, created, next.1⟩])

/-- What one call of `local_amqp_get_bs` did. -/
inductive Dialed where
  /-- There was a connection. -/
  | live : Dialed
  /-- The last failure was too recent. -/
  | suppressed : Dialed
  /-- The host lookup failed, at this time. -/
  | unlisted (now : Int) : Dialed
  | failed (deadline : Int) (visits : List Visit) (now : Int) : Dialed
  | connected (deadline : Int) (visits : List Visit) : Dialed
  deriving DecidableEq, Repr

/-- The attempts of a call of `local_amqp_get_bs`. -/
def Dialed.visits : Dialed → List Visit
  | .failed _ visits _ => visits
  | .connected _ visits => visits
  | _ => []

/-- The attempts of all calls of an account, in order. -/
def visited (ds : List Dialed) : List Visit := ds.flatMap Dialed.visits

@[simp] theorem visited_nil : visited [] = [] := rfl

@[simp] theorem visited_append (ds ds' : List Dialed) : visited (ds ++ ds') = visited ds ++ visited ds' :=
  List.flatMap_append

@[simp] theorem visited_singleton (d : Dialed) : visited [d] = d.visits := List.append_nil _

def localAmqpDial (o : Outcomes) (brokerId : Int) : M Dialed := do
  localAmqpGetABs
  if (← getBs).conn.isSome then
    return .live
  if (← localAmqpSuppressed o) then
    return .suppressed
  if (← localAmqpLoadHosts o) ≤ 0 then
    localAmqpConnectFailed o
    return .unlisted (← getBs).lastFailedConnect
  let budget := (← getGucs).connectBudgetMs
  let deadline ← if 0 < budget then do pure (o.nowMs (← tick .nowMs) + budget) else pure 0
  let r ← localAmqpVisits o brokerId deadline (← getBs).nhosts
  if r.1 then
    return .connected deadline r.2
  else
    localAmqpConnectFailed o
    return .failed deadline r.2 (← getBs).lastFailedConnect

section Erasure

variable {σ ε α β : Type}

theorem map_ite (f : α → β) (c : Prop) [Decidable c] (x y : EStateM ε σ α) :
    f <$> (if c then x else y) = if c then f <$> x else f <$> y := by
  split <;> rfl

theorem ite_bind (f : α → EStateM ε σ β) (c : Prop) [Decidable c] (x y : EStateM ε σ α) :
    (if c then x else y) >>= f = if c then x >>= f else y >>= f := by
  split <;> rfl

theorem socketCreates_bind (o : Outcomes) (x : M α) : (socketCreates o >>= fun _ => x) = x := rfl

theorem localAmqpVisits_fst (o : Outcomes) (brokerId deadline : Int) (tries : Nat) :
    Prod.fst <$> localAmqpVisits o brokerId deadline tries =
      localAmqpFailover o brokerId deadline tries := by
  induction tries with
  | zero => rfl
  | succ tries ih =>
    rw [map_eq_pure_bind] at ih
    unfold localAmqpVisits localAmqpFailover localAmqpNextHost
    simp only [map_bind, map_ite, map_pure, bind_assoc, pure_bind, ite_bind, ih, if_true,
      Bool.false_eq_true, if_false, socketCreates_bind]

/-- Without its account the instrumented call is `local_amqp_get_bs`. -/
theorem localAmqpDial_erased (o : Outcomes) (brokerId : Int) :
    (fun _ => ()) <$> localAmqpDial o brokerId = localAmqpGetBs o brokerId := by
  have hread : (getBs >>= fun _ => pure () : M Unit) = pure () := rfl
  have hnot : ∀ (ok : Bool) (x : M Unit),
      (if ok = true then pure () else x) = if (!ok) = true then x else pure () := by
    intro ok x
    cases ok <;> rfl
  unfold localAmqpDial localAmqpGetBs
  simp only [bind_assoc, pure_bind, ite_bind, ← localAmqpVisits_fst, map_eq_pure_bind, hread,
    bind_pure_unit, hnot]

end Erasure

end PgAmqp
