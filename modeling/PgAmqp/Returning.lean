import PgAmqp.Failover

/-!
# Without a cancel every call returns

When no cancel is pending at any warning, and the host lookup itself raises no error,
then every function of the extension that a statement calls returns.
-/
namespace PgAmqp

open ProgramLogic

section Primitives

theorem tick_returns (k : Call) : Returns (tick k) := fun c => ⟨_, c.ticked k, rfl⟩

theorem getBs_returns : Returns getBs := fun c => ⟨_, c, rfl⟩

theorem modifyBs_returns (f : BrokerState → BrokerState) : Returns (modifyBs f) :=
  fun c => ⟨_, c.modified f, rfl⟩

theorem record_returns (e : Event) : Returns (record e) := fun c => ⟨_, c.recorded e, rfl⟩

theorem setConn_returns (k : Option Connection) : Returns (setConn k) := modifyBs_returns _

end Primitives

section Calls

variable {o : Outcomes}

theorem elog_calm (ho : o.Calm) (r : Report) (c : Cell) : elog o r c = .ok () (c.warned r) := by
  unfold elog
  rw [ho, Bool.and_false]
  rfl

theorem elog_returns (ho : o.Calm) (r : Report) : Returns (elog o r) :=
  fun c => ⟨(), c.warned r, elog_calm ho r c⟩

theorem rpc_returns (kind : Rpc) (a : Answer) : Returns (rpc kind a) := by
  refine .bind getBs_returns fun bs => ?_
  cases bs.conn with
  | none => exact .pure _
  | some k => exact .bind (record_returns _) fun _ => .bind (setConn_returns _) fun _ => .pure _

theorem localAmqpDisconnectBs_returns (graceful : Bool) : Returns (localAmqpDisconnectBs graceful) := by
  refine .bind getBs_returns fun bs => ?_
  cases bs.conn with
  | none => exact .pure _
  | some k =>
    have drop : ∀ k, Returns (do
        amqpDestroyConnection k
        modifyBs fun bs => { bs with conn := none, sockfd := -1, uncommitted := 0, blocked := false }) :=
      fun _ => .bind (record_returns _) fun _ => modifyBs_returns _
    exact .ite (.bind (setConn_returns _) fun _ => .bind (record_returns _) fun _ => drop _) (drop _)

theorem localAmqpFillHosts_returns (ho : o.Calm) (brokerId : Int) (i : Nat) (rows : List BrokerRow) :
    Returns (localAmqpFillHosts o brokerId i rows) := by
  induction rows generalizing i with
  | nil => exact .pure _
  | cons row rows ih =>
    refine .bind ?_ fun _ => ih (i + 1)
    have rest : ∀ f (c : Prop) [Decidable c] (r : Report),
        Returns (do modifyHost i f; if c then elog o r) := fun f c _ r =>
      .bind (modifyBs_returns _) fun _ => .ite (elog_returns ho _) (.pure _)
    refine .bind (modifyBs_returns _) fun _ => .ite ?_ (rest _ _ _)
    exact .bind (elog_returns ho _) fun _ => .bind (modifyBs_returns _) fun _ => rest _ _ _

theorem localAmqpLoadHosts_returns (ho : o.Calm) (hspi : ∀ n, o.spi n ≠ .raised) :
    Returns (localAmqpLoadHosts o) := by
  have nhosts : Returns (do return ((← getBs).nhosts : Int)) := .bind getBs_returns fun _ => .pure _
  refine .bind getBs_returns fun bs => .ite (.pure _) (.bind (tick_returns _) fun n => ?_)
  cases h : o.spi n with
  | connectError => exact .pure _
  | raised => exact absurd h (hspi n)
  | executeError => exact .bind (elog_returns ho _) fun _ => nhosts
  | rows rows =>
    cases rows with
    | nil => exact .bind (elog_returns ho _) fun _ => nhosts
    | cons row rows =>
      refine .bind (modifyBs_returns _) fun _ => .bind (localAmqpFillHosts_returns ho _ _ _) fun _ => ?_
      exact .bind (fun _ => ⟨_, _, rfl⟩) fun _ => nhosts

theorem localAmqpDrainReturns_returns (ho : o.Calm) : Returns (localAmqpDrainReturns o) := by
  have loop : ∀ alive fs, Returns (localAmqpDrainLoop o alive fs) := by
    intro alive fs
    induction fs with
    | nil => exact .pure _
    | cons f rest ih =>
      refine .bind (modifyBs_returns _) fun _ => ?_
      cases f with
      | basicReturn r => exact .bind getBs_returns fun _ => .bind (elog_returns ho _) fun _ => ih
      | connectionBlocked =>
        have note : Returns (do
            modifyBs fun bs => { bs with blocked := true }
            localAmqpDrainLoop o alive rest) := .bind (modifyBs_returns _) fun _ => ih
        exact .bind getBs_returns fun _ => .ite (.bind (elog_returns ho _) fun _ => note) note
      | connectionUnblocked => exact .bind (modifyBs_returns _) fun _ => ih
      | channelClose n => exact .pure _
      | connectionClose => exact .pure _
      | other => exact ih
  refine .bind getBs_returns fun bs => ?_
  cases bs.conn with
  | none => exact .pure _
  | some k => exact .bind (tick_returns _) fun _ => loop _ _

variable {brokerId : Int} {m : Msg} {badMode : Option Int} {channel : Nat} {onceMore : Bool} {redo : M Bool}

theorem publishConnected_returns (ho : o.Calm) (hredo : Returns redo) :
    Returns (publishConnected o brokerId m badMode channel onceMore redo) := by
  have again : ∀ {giveUp : M Bool}, Returns giveUp → Returns (orRedo channel onceMore redo giveUp) :=
    fun hg => .bind getBs_returns fun _ =>
      .ite (.bind (localAmqpDisconnectBs_returns _) fun _ => hredo) hg
  have mode : Returns (publishMode o badMode) := by
    cases badMode with
    | none => exact .pure _
    | some mode => exact elog_returns ho _
  have write : Returns (publishWrite o m channel onceMore redo) := by
    refine .bind getBs_returns fun bs => ?_
    cases bs.conn with
    | none => exact .pure _
    | some k =>
      refine .bind ?_ fun _ => .bind ?_ fun _ => .ite ?_ ?_
      · exact .bind (tick_returns _) fun _ => .bind (record_returns _) fun _ =>
          .bind (setConn_returns _) fun _ => .pure _
      · exact .ite (.bind (localAmqpDrainReturns_returns ho) fun _ => .pure _) (.pure _)
      · exact again (.bind (modifyBs_returns _) fun _ => .pure _)
      · exact .bind (record_returns _) fun _ => .bind (modifyBs_returns _) fun _ => .pure _
  refine .bind getBs_returns fun bs => .ite (.bind (localAmqpDrainReturns_returns ho) fun _ => ?_) (.pure _)
  refine .ite (again (.ite (.bind (modifyBs_returns _) fun _ => .pure _) (.pure _))) ?_
  have refuse : ∀ bs : BrokerState, Returns (do
      record (.refused bs.conn)
      elog o (.publisherBlocked brokerId)
      return false) := fun _ =>
    .bind (record_returns _) fun _ => .bind (elog_returns ho _) fun _ => .pure _
  refine .bind getBs_returns fun bs => .ite (refuse bs) ?_
  exact .bind mode fun _ => write

end Calls

end PgAmqp
