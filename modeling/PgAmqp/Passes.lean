import PgAmqp.Returning
import PgAmqp.Trails

/-!
# The calls of `local_amqp_get_bs`

A publish call comes to `local_amqp_get_bs` once, and again when it goes back to `redo`.
`Session.dials` lists the cells in which a step comes to it, and `Dials` says what each of
these calls does when no cancel is pending.
-/
namespace PgAmqp

open ProgramLogic Transition

section Redo

variable {o : Outcomes} {brokerId : Int} {m : Msg} {badMode : Option Int} {channel : Nat}
  {onceMore : Bool}

theorem orRedo_jumps (giveUp : M Bool) : Jumps fun redo => orRedo channel onceMore redo giveUp := by
  unfold orRedo
  exact .bind _ fun _ => .ite (.bind _ fun _ => .jump) (.const _)

theorem publishDrained_jumps : Jumps (publishDrained o brokerId m badMode channel onceMore) := by
  unfold publishDrained publishWrite publishWritten
  refine .bind _ fun _ => .ite (.const _) (.bind _ fun _ => .bind _ fun bs => ?_)
  cases bs.conn with
  | none => exact .const _
  | some k => exact .bind _ fun _ => .bind _ fun _ => .ite (orRedo_jumps _) (.const _)

theorem publishConnected_jumps : Jumps (publishConnected o brokerId m badMode channel onceMore) := by
  unfold publishConnected
  exact .bind _ fun _ =>
    .ite (.bind _ fun _ => .ite (orRedo_jumps _) publishDrained_jumps) (.const _)

theorem publishPass_jumps : Jumps (publishPass o brokerId m badMode channel onceMore) := by
  unfold publishPass
  exact .bind _ fun _ => publishConnected_jumps

/-- The second pass has no retry left. -/
theorem publishPass_once (k k' : M Bool) : publishPass o brokerId m badMode channel false k =
    publishPass o brokerId m badMode channel false k' := by
  unfold publishPass publishConnected publishDrained publishWrite publishWritten orRedo
  simp only [Bool.false_eq_true, false_and, if_false]

end Redo

/-- The cell in which the first pass of a publish call goes back to `redo`, if it does. -/
def Cell.redo (c : Cell) (o : Outcomes) (brokerId : Int) (m : Msg) (badMode : Option Int)
    (channel : Nat) : Option Cell :=
  jumpState .canceled .spi (publishPass o brokerId m badMode channel true) c

/-- The cells in which a publish call comes to `local_amqp_get_bs`. -/
def Cell.passes (c : Cell) (o : Outcomes) (brokerId : Int) (a : PublishArgs) (channel : Nat) :
    List Cell :=
  if a.bodyTooLarge c.backend.gucs then []
  else c.numbered :: (c.numbered.redo o brokerId ⟨c.backend.nextCall, a.content⟩ a.badDeliveryMode
    channel).toList

/-- The cells in which a step comes to `local_amqp_get_bs` for the broker `b`. -/
def Session.dials (s : Session) (st : Step) (b : Int) : List Cell :=
  if st.action.target = some b then
    match st.action with
    | .publish a => (s.cell b).passes (st.outcomes b) b a 2
    | .autonomousPublish a => (s.cell b).passes (st.outcomes b) b a 1
    | .exchangeDeclare _ => [s.cell b]
    | _ => []
  else []

/-- The index is one of the list; without a list the next one is filled from index 0. -/
structure Indexed (bs : BrokerState) : Prop where
  inside : bs.hosts.isSome = true → bs.idx < bs.nhosts
  empty : bs.hosts = none → bs.nhosts = 0 ∧ bs.idx = 0
  counted : ∀ hosts, bs.hosts = some hosts → bs.nhosts = hosts.length

section Indexed

variable {L : Lapses} {o : Outcomes} {p q : Stage × Cell}

theorem Indexed.congr {bs bs' : BrokerState} (h : Indexed bs) (hh : bs'.hosts = bs.hosts)
    (hn : bs'.nhosts = bs.nhosts) (hi : bs'.idx = bs.idx) : Indexed bs' :=
  ⟨by rw [hh, hn, hi]; exact h.inside, by rw [hh, hn, hi]; exact h.empty, by rw [hh, hn]; exact h.counted⟩

theorem Change.indexed (h : Change L o p q) (hi : Indexed p.2.bs) : Indexed q.2.bs := by
  cases h with
  | serve h => exact hi.congr h.sameList.hosts h.sameList.nhosts h.sameList.idx
  | dial h =>
    cases h with
    | @fill c n rows hosts idx hs hc hspi hne hlen hall hidx =>
      refine ⟨fun _ => ?_, fun hs => by simp [Cell.filled] at hs, fun _ hs => ?_⟩
      swap
      · rw [← Option.some.inj hs]
        rfl
      have hpos : 0 < rows.length := List.length_pos_iff.mpr hne
      show idx < hosts.length
      rw [hlen]
      rcases hidx with rfl | rfl
      · exact Nat.mod_lt _ hpos
      · rw [(hi.empty hs).2]
        exact hpos
    | @turn c hc hn =>
      refine ⟨fun _ => Nat.mod_lt _ hn, fun hs => ?_, hi.counted⟩
      exact absurd (hi.empty hs).1 (Nat.ne_of_gt hn)
    | _ => exact hi.congr rfl rfl rfl
  | close k hk => exact hi.congr rfl rfl rfl
  | @reset c hc =>
    exact ⟨fun hs => Nat.lt_of_le_of_lt (Nat.zero_le _) (hi.inside hs),
      fun hs => ⟨(hi.empty hs).1, rfl⟩, hi.counted⟩
  | @free c hc hidx =>
    refine ⟨fun hs => by simp at hs, fun _ => ⟨Cell.freed_nhosts _ fun hs => (hi.empty hs).1, ?_⟩,
      fun _ hs => by simp at hs⟩
    simp only [Cell.freed, Cell.modified_bs]
    split <;> exact hidx

theorem Chain.indexed (h : Chain L o p q) (hi : Indexed p.2.bs) : Indexed q.2.bs :=
  h.keeps (I := fun p => Indexed p.2.bs) (fun _ _ => Change.indexed) hi

theorem indexed_lasting : Lasting (fun _ _ => True) fun _ bs => Indexed bs where
  fresh := fun _ _ => ⟨by simp [BrokerState.fresh], fun _ => ⟨rfl, rfl⟩, by simp [BrokerState.fresh]⟩
  grow := fun _ _ h => h
  chain := fun _ h hc => hc.indexed h

theorem Runs.indexed {ok : Session → Step → Prop} {s : Session} (hs : Runs ok s) (b : Int) :
    Indexed (s.entry b) :=
  indexed_lasting.holds (fun _ _ _ => trivial) hs

end Indexed

/-- The deadline of a round that starts in this cell, and the cell behind the clock. -/
def Cell.deadline (c : Cell) (o : Outcomes) : Int :=
  if 0 < c.backend.gucs.connectBudgetMs then
    o.nowMs (c.counts .nowMs) + c.backend.gucs.connectBudgetMs
  else 0

def Cell.budgeted (c : Cell) : Cell :=
  if 0 < c.backend.gucs.connectBudgetMs then c.ticked .nowMs else c

@[simp] theorem Cell.budgeted_bs (c : Cell) : c.budgeted.bs = c.bs := by
  unfold Cell.budgeted
  split <;> rfl

/-- The host list is there, or its lookup raises no error. -/
def Cell.Lists (c : Cell) (o : Outcomes) : Prop :=
  c.bs.hosts.isSome = true ∨ ∀ n, o.spi n ≠ .raised

/-- How a call of `local_amqp_get_bs` goes that no cancel and no error of the lookup ends. -/
inductive Dials (o : Outcomes) (c : Cell) : Dialed → Cell → Prop where
  | live : c.bs.conn.isSome = true → Dials o c .live c.link
  | suppressed : c.bs.conn = none → c.suppressed o = true → Dials o c .suppressed c.link.checked
  | unlisted {r : Int} {c₁ : Cell} : c.bs.conn = none → c.suppressed o = false →
      Loaded o c.link.checked r c₁ → r ≤ 0 →
      Dials o c (.unlisted (o.time (c₁.counts .time)))
        ((c₁.ticked .time).failed (o.time (c₁.counts .time)))
  | failed {r : Int} {visits : List Visit} {c₁ c₂ : Cell} : c.bs.conn = none → c.suppressed o = false →
      Loaded o c.link.checked r c₁ → 0 < r →
      Visited o (c₁.deadline o) c₁.bs.nhosts c₁.budgeted (false, visits) c₂ →
      Dials o c (.failed (c₁.deadline o) visits (o.time (c₂.counts .time)))
        ((c₂.ticked .time).failed (o.time (c₂.counts .time)))
  | connected {r : Int} {visits : List Visit} {c₁ c₂ : Cell} : c.bs.conn = none →
      c.suppressed o = false → Loaded o c.link.checked r c₁ → 0 < r →
      Visited o (c₁.deadline o) c₁.bs.nhosts c₁.budgeted (true, visits) c₂ →
      Dials o c (.connected (c₁.deadline o) visits) c₂

section Dials

variable {o : Outcomes} {c c' : Cell} {b : Int}

theorem Loaded.conn {r : Int} (h : Loaded o c r c') : c'.bs.conn = c.bs.conn := by
  cases h <;> simp [Cell.filled]

/-- The loaded list has a host at the index. -/
theorem Loaded.indexed {r : Int} (h : Loaded o c r c') (hr : 0 < r) (hi : Indexed c.bs) :
    c'.bs.idx < c'.bs.nhosts := by
  cases h with
  | cached hs => exact hi.inside hs
  | unconnected _ _ => omega
  | missing _ hs _ _ =>
    rw [(hi.empty hs).1] at hr
    simp at hr
  | filled rows rs hs hspi hne hrs hdone =>
    simpa [Cell.filled] using Nat.mod_lt _ (List.length_pos_iff.mpr hne)

theorem localAmqpLoadHosts_loads (ho : o.Calm) (hl : c.Lists o) :
    wp (localAmqpLoadHosts o) (Loaded o c) (fun _ _ => False) c := by
  rcases hl with hs | hspi
  · unfold localAmqpLoadHosts
    rw [wp_bind, wp_getBs, wp_ite, if_pos hs]
    exact .cached hs
  · obtain ⟨r, c', hrun, hloaded⟩ := (localAmqpLoadHosts_returns ho hspi).wp (localAmqpLoadHosts_spec (c := c))
    unfold wp
    rw [hrun]
    exact hloaded

theorem Cell.warnedAll_unopened (c : Cell) (rs : List Report) : Unopened c (c.warnedAll rs) := by
  induction rs generalizing c with
  | nil => exact .refl c
  | cons r rest ih => exact (Unopened.said rfl rfl).trans (ih (c.warned r))

theorem Loaded.unopened {r : Int} (h : Loaded o c r c') : Unopened c c' := by
  cases h with
  | cached _ => exact .refl c
  | unconnected _ _ => exact .silent rfl
  | missing _ _ _ _ => exact .said rfl rfl
  | filled rows rs _ _ _ _ _ =>
    have hwarned : Unopened (c.ticked .spi) ((c.ticked .spi).warnedAll rs) := Cell.warnedAll_unopened _ rs
    exact (Unopened.silent rfl).trans (hwarned.trans (.silent rfl))

theorem localAmqpDial_dials (ho : o.Calm) (hl : c.Lists o) (hi : Indexed c.bs) :
    ∃ d c', localAmqpDial o b c = .ok d c' ∧ Dials o c d c' := by
  refine wp_ok ?_
  unfold localAmqpDial
  rw [wp_bind, wp_localAmqpGetABs, wp_bind, wp_getBs, wp_ite]
  split
  · rename_i hlive
    exact .live hlive
  rename_i hnone
  have hnone : c.bs.conn = none := by simpa [Cell.link] using hnone
  rw [wp_bind, wp_localAmqpSuppressed, wp_ite]
  split
  · rename_i hsup
    exact .suppressed hnone hsup
  rename_i hsup
  have hsup : c.suppressed o = false := Bool.eq_false_iff.mpr hsup
  have hload : c.link.checked.Lists o := by
    unfold Cell.Lists
    rw [Cell.checked_bs]
    exact hl
  refine wp_seq (localAmqpLoadHosts_loads ho hload) fun r c₁ h₁ => ?_
  rw [wp_ite]
  split
  · rename_i hr
    unfold localAmqpConnectFailed
    rw [wp_bind, wp_bind, wp_tick, wp_modifyBs, wp_bind, wp_getBs]
    exact .unlisted hnone hsup h₁ hr
  rename_i hr
  have hr : 0 < r := Int.not_le.mp hr
  have hconn : c₁.bs.conn = none := by rw [h₁.conn, Cell.checked_bs]; exact hnone
  have hidx : c₁.bs.idx < c₁.bs.nhosts := h₁.indexed hr (by rw [Cell.checked_bs]; exact hi)
  -- from the loop on, behind the clock
  have loop : wp (do
      let r ← localAmqpVisits o b (c₁.deadline o) (← getBs).nhosts
      if r.1 then
        return Dialed.connected (c₁.deadline o) r.2
      else
        localAmqpConnectFailed o
        return Dialed.failed (c₁.deadline o) r.2 (← getBs).lastFailedConnect) (Dials o c)
      (fun _ _ => False) c₁.budgeted := by
    rw [wp_bind, wp_getBs, Cell.budgeted_bs]
    refine wp_seq (localAmqpVisits_visited ho (by simpa using hconn) (by simpa using hidx))
      fun r c₂ h₂ => ?_
    obtain ⟨ok, visits⟩ := r
    rw [wp_ite]
    cases ok with
    | true => exact .connected hnone hsup h₁ hr h₂
    | false =>
      unfold localAmqpConnectFailed
      rw [if_neg (by simp), wp_bind, wp_bind, wp_tick, wp_modifyBs, wp_bind, wp_getBs]
      exact .failed hnone hsup h₁ hr h₂
  rw [wp_bind, wp_getGucs]
  dsimp only
  rw [wp_ite]
  unfold Cell.deadline Cell.budgeted at loop
  split
  · rename_i hb
    rw [if_pos hb, if_pos hb] at loop
    rw [wp_bind, wp_tick, wp_bind, wp_pure]
    exact loop
  · rename_i hb
    rw [if_neg hb, if_neg hb] at loop
    rw [wp_bind, wp_pure]
    exact loop

theorem localAmqpDial_inv {d : Dialed} (ho : o.Calm)
    (hl : c.Lists o) (hi : Indexed c.bs) (h : localAmqpDial o b c = .ok d c') :
    Dials o c d c' := by
  obtain ⟨d', c'', hrun, hd⟩ := localAmqpDial_dials (b := b) ho hl hi
  rw [h] at hrun
  cases hrun
  exact hd

theorem Loaded.cached_eq {r : Int} (h : Loaded o c r c') (hs : c.bs.hosts.isSome = true) :
    c' = c ∧ r = c.bs.nhosts := by
  cases h with
  | cached _ => exact ⟨rfl, rfl⟩
  | unconnected hn _ => simp [hn] at hs
  | missing _ hn _ _ => simp [hn] at hs
  | filled _ _ hn _ _ _ _ => simp [hn] at hs

theorem Loaded.hosts {r : Int} (h : Loaded o c r c') (hs : c.bs.hosts.isSome = true) :
    c'.bs.hosts.isSome = true := by
  cases h with
  | filled => rfl
  | _ => exact hs

/-- A call of `local_amqp_get_bs` keeps a host list. -/
theorem Dials.hosts {d : Dialed} (h : Dials o c d c') (hs : c.bs.hosts.isSome = true) :
    c'.bs.hosts.isSome = true := by
  have looked : ∀ {r : Int} {c₁ : Cell}, Loaded o c.link.checked r c₁ → c₁.bs.hosts.isSome = true :=
    fun h₁ => h₁.hosts (by rw [Cell.checked_bs]; exact hs)
  cases h with
  | live _ => exact hs
  | suppressed _ _ => rw [Cell.checked_bs]; exact hs
  | unlisted _ _ h₁ _ =>
    have hlisted := looked h₁
    exact hlisted
  | failed _ _ h₁ _ hv =>
    have hkept := hv.round.hosts
    rw [Cell.budgeted_bs] at hkept
    exact hkept ▸ looked h₁
  | connected _ _ h₁ _ hv =>
    have hkept := hv.round.hosts
    rw [Cell.budgeted_bs] at hkept
    exact hkept ▸ looked h₁

/-- The sockets that a call of `local_amqp_get_bs` opens are those of its attempts. -/
theorem Dials.opened {d : Dialed} (h : Dials o c d c') :
    openedIn c'.log = openedIn c.log ++ d.visits.flatMap Visit.sockets := by
  have hchecked : c.link.checked.log = c.log := by
    unfold Cell.checked
    split <;> rfl
  have hbudgeted : ∀ c : Cell, c.budgeted.log = c.log := fun c => by
    unfold Cell.budgeted
    split <;> rfl
  have looked : ∀ {r : Int} {c₁ : Cell}, Loaded o c.link.checked r c₁ → openedIn c₁.log = openedIn c.log :=
    fun h₁ => h₁.unopened.openedIn.trans (by rw [hchecked])
  cases h with
  | live _ => exact (List.append_nil _).symm
  | suppressed _ _ =>
    rw [hchecked]
    exact (List.append_nil _).symm
  | unlisted _ _ h₁ _ => exact (looked h₁).trans (List.append_nil _).symm
  | failed _ _ h₁ _ hv =>
    have hopened := hv.opened
    rw [hbudgeted, looked h₁] at hopened
    exact hopened
  | connected _ _ h₁ _ hv =>
    have hopened := hv.opened
    rw [hbudgeted, looked h₁] at hopened
    exact hopened

/-- `local_amqp_get_bs` leaves what its instrumented form leaves. -/
theorem localAmqpGetBs_ok {d : Dialed} (h : localAmqpDial o b c = .ok d c') :
    localAmqpGetBs o b c = .ok () c' := by
  rw [← localAmqpDial_erased]
  simp only [Functor.map, EStateM.map, h]

/-- All lapses at once. -/
def Lapses.all : Lapses := ⟨True, True, True⟩

theorem localAmqpDial_chain (h : localAmqpDial o b c = .ok d c') :
    Chain .all o (.rest, c.link) (.rest, c') := by
  have hchain := localAmqpGetBs_chain (L := .all) (o := o) (c := c) (fun _ => trivial) b fun _ => trivial
  unfold wp at hchain
  rw [localAmqpGetBs_ok h] at hchain
  exact hchain

theorem localAmqpDial_lists {d : Dialed} (ho : o.Calm) (hl : c.Lists o) (hi : Indexed c.bs)
    (h : localAmqpDial o b c = .ok d c') : c'.Lists o :=
  hl.imp_left (localAmqpDial_inv ho hl hi h).hosts

end Dials

/-- The account of the call of `local_amqp_get_bs` in this cell. -/
def Cell.account (c : Cell) (o : Outcomes) (b : Int) : Option Dialed :=
  match localAmqpDial o b c with
  | .ok d _ => some d
  | .error _ _ => none

/-- From `c` to `c'`, with calls of `local_amqp_get_bs` in the cells of the list. -/
inductive Follows (o : Outcomes) (b : Int) : Cell → List Cell → Cell → Prop where
  | done {c c'} : Between c c' → Follows o b c [] c'
  | dial {c c₁ c₂ c' cells} (d : Dialed) : Between c c₁ → localAmqpDial o b c₁ = .ok d c₂ →
      Follows o b c₂ cells c' → Follows o b c (c₁ :: cells) c'

section Follows

variable {o : Outcomes} {b : Int} {c c₁ c₂ c' : Cell} {m : Msg} {badMode : Option Int} {channel : Nat}
  {onceMore : Bool} {a : PublishArgs}

theorem Cell.account_ok {d : Dialed} (h : localAmqpDial o b c = .ok d c') : c.account o b = some d := by
  unfold Cell.account
  rw [h]

theorem Follows.head (h : Between c c₁) {cells : List Cell} (hf : Follows o b c₁ cells c') :
    Follows o b c cells c' := by
  cases hf with
  | done h' => exact .done (h.trans h')
  | dial d h' hd hf => exact .dial d (h.trans h') hd hf

/-- The rest of a pass behind `local_amqp_get_bs`, when it is not gone back. -/
theorem publishConnected_lands (b : Int) (m : Msg) (badMode : Option Int) (channel : Nat) (onceMore : Bool)
    (ho : o.Calm) :
    ∃ r c', publishConnected o b m badMode channel onceMore (pure false) c = .ok r c' ∧ Between c c' :=
  (publishConnected_returns ho (.pure false)).wp (E := fun _ _ => True)
    (publishConnected_served (L := .none) (p := (.rest, c)) b badMode
      ⟨fun _ _ h => h, fun _ _ _ => trivial, fun _ h _ => h⟩ .refl)

theorem publishPass_dialed {d : Dialed} (hd : localAmqpDial o b c = .ok d c₂) (redo : M Bool) :
    publishPass o b m badMode channel onceMore redo c =
      publishConnected o b m badMode channel onceMore redo c₂ := by
  unfold publishPass
  simp only [Bind.bind, EStateM.bind, localAmqpGetBs_ok hd]

/-- The first pass comes to its end, or goes back to `redo`. -/
theorem publishPass_first (m : Msg) (badMode : Option Int) (channel : Nat) (ho : o.Calm) {d : Dialed}
    (hd : localAmqpDial o b c = .ok d c₂) :
    (c.redo o b m badMode channel = none ∧ ∃ r c', Between c₂ c' ∧
        ∀ k, publishPass o b m badMode channel true k c = .ok r c') ∨
      ∃ c₃, c.redo o b m badMode channel = some c₃ ∧ Between c₂ c₃ ∧
        ∀ k, publishPass o b m badMode channel true k c = k c₃ := by
  have hjumps : Jumps (publishPass o b m badMode channel true) := publishPass_jumps
  rcases hjumps.cases (show Raised.canceled ≠ .spi by decide) c with
    ⟨c₃, hjump, hk⟩ | ⟨hjump, x, hk⟩
  · refine .inr ⟨c₃, hjump, ?_, hk⟩
    have hserved : wp (publishConnected o b m badMode channel true (throw .spi))
        (fun _ => Between c₂) (Unless .none o (Between c₂)) c₂ :=
      publishConnected_served (L := .none) (p := (.rest, c₂)) b badMode
        ⟨fun _ _ h => h, fun _ _ h => h, fun _ h _ _ => h⟩ .refl
    unfold wp at hserved
    rw [← publishPass_dialed hd, hk] at hserved
    exact hserved fun ⟨n, r, hu⟩ => by simp [ho n] at hu
  · obtain ⟨r, c', hrun, hbetween⟩ := publishConnected_lands (c := c₂) b m badMode channel true ho
    rw [← publishPass_dialed hd, hk] at hrun
    exact .inl ⟨hjump, r, c', hbetween, fun k => (hk k).trans hrun⟩

theorem pgAmqpPublishOpt_follows (b : Int) (a : PublishArgs) (channel : Nat) (ho : o.Calm) (hl : c.Lists o)
    (hi : Indexed c.bs) :
    ∃ r c', pgAmqpPublishOpt o b a channel c = .ok r c' ∧ Follows o b c (c.passes o b a channel) c' := by
  unfold pgAmqpPublishOpt Cell.passes
  simp only [Bind.bind, EStateM.bind, getGucs]
  split
  · rename_i hbody
    generalize hr : Report.bodyTooLarge _ _ = r
    refine ⟨false, c.warned r, ?_, .done (.single (.warn r (by rw [← hr]; rfl)))⟩
    show EStateM.bind (elog o r) (fun _ => pure false) c = _
    simp only [EStateM.bind, elog_calm ho]
    rfl
  · have hnum : Between c c.numbered := .single .number
    obtain ⟨d, c₂, hd, -⟩ := localAmqpDial_dials (c := c.numbered) (b := b) ho hl hi
    show ∃ r c', publishPass o b ⟨c.backend.nextCall, a.content⟩ a.badDeliveryMode channel true
      (publishPass o b ⟨c.backend.nextCall, a.content⟩ a.badDeliveryMode channel false (pure false))
      c.numbered = .ok r c' ∧ _
    rcases publishPass_first ⟨c.backend.nextCall, a.content⟩ a.badDeliveryMode channel ho hd with
      ⟨hnone, r, c', hb, hk⟩ | ⟨c₃, hsome, hb, hk⟩
    · rw [hnone]
      exact ⟨r, c', hk _, .dial d hnum hd (.done hb)⟩
    · rw [hsome]
      have hl₃ : c₃.Lists o := by
        have hl₂ := localAmqpDial_lists (c := c.numbered) ho hl hi hd
        unfold Cell.Lists at hl₂ ⊢
        rwa [hb.sameList.hosts]
      have hi₃ : Indexed c₃.bs :=
        ((localAmqpDial_chain hd).indexed hi).congr hb.sameList.hosts hb.sameList.nhosts hb.sameList.idx
      obtain ⟨d', c₄, hd', -⟩ := localAmqpDial_dials (b := b) ho hl₃ hi₃
      obtain ⟨r, c', hrun, hb'⟩ := publishConnected_lands (c := c₄) b ⟨c.backend.nextCall, a.content⟩
        a.badDeliveryMode channel false ho
      refine ⟨r, c', ?_, .dial d hnum hd (.dial d' hb hd' (.done hb'))⟩
      rw [hk, publishPass_dialed hd', hrun]

theorem pgAmqpExchangeDeclare_follows (ho : o.Calm) (hl : c.Lists o) (hi : Indexed c.bs) (a : DeclareArgs) :
    ∃ r c', pgAmqpExchangeDeclare o b a c = .ok r c' ∧ Follows o b c [c] c' := by
  obtain ⟨d, c₁, hd, -⟩ := localAmqpDial_dials (b := b) ho hl hi
  have declared : ∃ r c', (do
      if (← getBs).conn.isSome then
        if (← amqpExchangeDeclare o a.declaration) = .normal then
          return true
        else
          localAmqpDisconnectBs false
          return false
      else
        return false : M Bool) c₁ = .ok r c' ∧ Between c₁ c' := by
    refine Returns.wp (E := fun _ _ => True) ?_ ?_
    · refine .bind getBs_returns fun _ => .ite (.bind ?_ fun _ => .ite (.pure _) ?_) (.pure _)
      · exact .bind (tick_returns _) fun _ => rpc_returns _ _
      · exact .bind (localAmqpDisconnectBs_returns _) fun _ => .pure _
    · rw [wp_bind, wp_getBs, wp_ite]
      split
      · rename_i hc
        obtain ⟨k, hk⟩ := Option.isSome_iff_exists.mp hc
        unfold amqpExchangeDeclare
        rw [bind_assoc, wp_bind, wp_tick, wp_bind, wp_rpc (c := c₁.ticked .exchangeDeclare) hk, wp_ite]
        have hdecl : Between c₁ ((c₁.ticked .exchangeDeclare).asked (.exchangeDeclare a.declaration)
            (o.exchangeDeclare (c₁.counts .exchangeDeclare)) k) :=
          (Relation.ReflTransGen.single (.tick .exchangeDeclare)).tail (.declare k _ _ hk)
        split
        · exact hdecl
        · rw [wp_bind, wp_localAmqpDisconnectBs_some rfl]
          exact hdecl.tail (.drop _ rfl)
      · exact .refl
  obtain ⟨r, c', hrun, hb⟩ := declared
  refine ⟨r, c', ?_, .dial d .refl hd (.done hb)⟩
  unfold pgAmqpExchangeDeclare
  simp only [Bind.bind, EStateM.bind, localAmqpGetBs_ok hd]
  exact hrun

variable {I : List Dialed → Cell → Prop} {cells pre post : List Cell} {ds : List Dialed} {x : Cell}

theorem accounts_cons {d : Dialed} (hd : localAmqpDial o b x = .ok d c') :
    ds ++ (x :: cells).filterMap (·.account o b) = ds ++ [d] ++ cells.filterMap (·.account o b) := by
  rw [List.filterMap_cons, Cell.account_ok hd, List.append_assoc, List.singleton_append]

/-- What is kept between the calls of `local_amqp_get_bs` and by each of them, with the
account of what they did. -/
theorem Follows.keeps (hbetween : ∀ ds c c', Between c c' → I ds c → I ds c')
    (hdial : ∀ ds c d c', localAmqpDial o b c = .ok d c' → I ds c → I (ds ++ [d]) c')
    (hf : Follows o b c cells c') (h : I ds c) : I (ds ++ cells.filterMap (·.account o b)) c' := by
  induction hf generalizing ds with
  | done hb =>
    rw [List.filterMap_nil, List.append_nil]
    exact hbetween _ _ _ hb h
  | dial d hb hd _ ih =>
    rw [accounts_cons hd]
    exact ih (hdial _ _ d _ hd (hbetween _ _ _ hb h))

/-- And it holds in each of the cells in which the calls are made. -/
theorem Follows.before (hbetween : ∀ ds c c', Between c c' → I ds c → I ds c')
    (hdial : ∀ ds c d c', localAmqpDial o b c = .ok d c' → I ds c → I (ds ++ [d]) c')
    (hf : Follows o b c cells c') (h : I ds c) (hcells : cells = pre ++ x :: post) :
    I (ds ++ pre.filterMap (·.account o b)) x := by
  induction hf generalizing ds pre with
  | done => simp at hcells
  | dial d hb hd _ ih =>
    cases pre with
    | nil =>
      obtain ⟨rfl, -⟩ := List.cons.inj hcells
      rw [List.filterMap_nil, List.append_nil]
      exact hbetween _ _ _ hb h
    | cons y pre =>
      obtain ⟨rfl, hrest⟩ := List.cons.inj hcells
      rw [accounts_cons hd]
      exact ih (hdial _ _ d _ hd (hbetween _ _ _ hb h)) hrest

end Follows

/-- What connecting goes by is the same. -/
structure SameDial (bs bs' : BrokerState) : Prop where
  idx : bs'.idx = bs.idx
  consecutiveFailures : bs'.consecutiveFailures = bs.consecutiveFailures
  lastFailedConnect : bs'.lastFailedConnect = bs.lastFailedConnect
  hosts : bs'.hosts = bs.hosts
  nhosts : bs'.nhosts = bs.nhosts

theorem SameDial.refl (bs : BrokerState) : SameDial bs bs := ⟨rfl, rfl, rfl, rfl, rfl⟩

theorem SameDial.trans {bs bs' bs'' : BrokerState} (h : SameDial bs bs') (h' : SameDial bs' bs'') :
    SameDial bs bs'' :=
  ⟨h'.idx.trans h.idx, h'.consecutiveFailures.trans h.consecutiveFailures,
    h'.lastFailedConnect.trans h.lastFailedConnect, h'.hosts.trans h.hosts, h'.nhosts.trans h.nhosts⟩

theorem SameList.sameDial {c c' : Cell} (h : SameList c c') : SameDial c.bs c'.bs :=
  ⟨h.idx, h.consecutiveFailures, h.lastFailedConnect, h.hosts, h.nhosts⟩

theorem Trail.sameDial {k k' : Backend} {bs bs' : BrokerState} {evs : List Event}
    (h : Trail Between k bs evs k' bs') : SameDial bs bs' := by
  induction h with
  | still bs _ => exact .refl bs
  | work h => exact h.sameList.sameDial
  | trans _ _ ih ih' => exact ih.trans ih'

/-- The accounts of a step's calls of `local_amqp_get_bs` for the broker `b`. -/
def Session.accounts (s : Session) (st : Step) (b : Int) : List Dialed :=
  (s.dials st b).filterMap fun c => c.account (st.outcomes b) b

section Next

variable {s : Session} {st : Step} {b : Int}

/-- The call of a step on its own broker, when it returns. -/
theorem call_entry {x : Outcomes → M Bool} {o : Int → Outcomes} {L : Lapses} {r : Bool} {c' : Cell}
    (hx : wp (x (o b)) (fun _ => Called L (o b) (s.cell b)) (fun _ => Called L (o b) (s.cell b))
      (s.cell b)) (hrun : x (o b) (s.cell b) = .ok r c') : (s.call o b x).1.entry b = c'.bs := by
  unfold wp at hx
  rw [hrun] at hx
  rw [Session.call_ok hrun]
  have hid : c'.bs.brokerId = b := hx.chain.lasts.brokerId.trans (s.entry_brokerId b)
  rw [s.entry_store b c' hid hx.linked b, if_pos rfl]

/-- What a call on a broker leaves in the entry is where its calls of `local_amqp_get_bs` led. -/
theorem call_follows {x : Outcomes → M Bool} {o : Int → Outcomes} {L : Lapses} {cells : List Cell}
    (hx : wp (x (o b)) (fun _ => Called L (o b) (s.cell b)) (fun _ => Called L (o b) (s.cell b))
      (s.cell b))
    (hf : ∃ r c', x (o b) (s.cell b) = .ok r c' ∧ Follows (o b) b (s.cell b) cells c') :
    ∃ c', Follows (o b) b (s.cell b) cells c' ∧ SameDial c'.bs ((s.call o b x).1.entry b) ∧
      openedIn (logOf b (s.call o b x).2.log) = openedIn c'.log := by
  obtain ⟨r, c', hrun, hf⟩ := hf
  refine ⟨c', hf, ?_, ?_⟩
  · rw [call_entry hx hrun]
    exact .refl _
  · rw [Session.call_ok hrun, logOf_same]

theorem note_entry (m : Msg) (r : Session × Trace) (b' : Int) : (s.note b m r).1.entry b' = r.1.entry b' := by
  unfold Session.note
  split <;> rfl

/-- What a step without a cancel does to an entry, as far as connecting goes, and the sockets
that it opens; only `amqp.disconnect` does more. -/
theorem next_follows (hs : s.Shaped) (ha : ∀ b, Anchored (s.entry b)) (ho : (st.outcomes b).Calm)
    (hl : (s.cell b).Lists (st.outcomes b)) (hi : Indexed (s.entry b))
    (hd : st.action ≠ .disconnect (some b)) :
    ∃ c', Follows (st.outcomes b) b (s.cell b) (s.dials st b) c' ∧
      SameDial c'.bs ((next st s).entry b) ∧ openedIn (logOf b (trace st s).log) = openedIn c'.log := by
  have spared : s.dials st b = [] → SameDial (s.entry b) ((next st s).entry b) →
      (∀ e ∈ logOf b (trace st s).log, e.opened = none) →
      ∃ c', Follows (st.outcomes b) b (s.cell b) (s.dials st b) c' ∧
        SameDial c'.bs ((next st s).entry b) ∧ openedIn (logOf b (trace st s).log) = openedIn c'.log :=
    fun hnone h hopened => ⟨s.cell b, hnone ▸ .done .refl, h, List.filterMap_eq_nil_iff.mpr hopened⟩
  have publishes : ∀ (a : PublishArgs) (channel : Nat),
      wp (pgAmqpPublishOpt (st.outcomes b) b a channel)
        (fun _ => Called .all (st.outcomes b) (s.cell b))
        (fun _ => Called .all (st.outcomes b) (s.cell b)) (s.cell b) := fun a channel =>
    pgAmqpPublishOpt_work (ha b) (fun _ => trivial) (fun _ => trivial) fun _ _ => trivial
  by_cases htarget : st.action.target = some b
  · unfold next trace exec Session.dials
    rw [if_pos htarget]
    cases hact : st.action with
    | publish a =>
      rw [hact] at htarget
      have hb : a.brokerId = some b := htarget
      dsimp only
      unfold Session.publish
      rw [hb]
      dsimp only
      rw [note_entry, note_log]
      exact call_follows (x := fun o => pgAmqpPublishOpt o b a 2) (publishes a 2)
        (pgAmqpPublishOpt_follows b a 2 ho hl hi)
    | autonomousPublish a =>
      rw [hact] at htarget
      have hb : a.brokerId = some b := htarget
      dsimp only
      unfold Session.autonomousPublish
      rw [hb]
      exact call_follows (x := fun o => pgAmqpPublishOpt o b a 1) (publishes a 1)
        (pgAmqpPublishOpt_follows b a 1 ho hl hi)
    | exchangeDeclare a =>
      rw [hact] at htarget
      have hb : a.brokerId = some b := htarget
      dsimp only
      unfold Session.exchangeDeclare
      rw [hb]
      exact call_follows (x := fun o => pgAmqpExchangeDeclare o b a)
        (pgAmqpExchangeDeclare_called (L := .all) (fun _ => trivial) (fun _ => trivial) a)
        (pgAmqpExchangeDeclare_follows ho hl hi a)
    | disconnect b' =>
      rw [hact] at htarget hd
      obtain rfl : b' = some b := htarget
      exact absurd rfl hd
    | _ =>
      rw [hact] at htarget
      cases htarget
  · by_cases hset : ∃ g, st.action = .set g
    · obtain ⟨g, hg⟩ := hset
      refine spared (if_neg htarget) ?_ ?_
      · unfold next exec
        rw [hg]
        exact .refl _
      · unfold trace exec
        rw [hg]
        simp
    · have htrail := exec_spared hs ha (fun g hg => hset ⟨g, hg⟩) htarget
      exact spared (if_neg htarget) htrail.sameDial htrail.unopened

/-- What the attempts so far have opened. -/
structure Sighting (o : Outcomes) (ds : List Dialed) (c : Cell) : Prop where
  lists : c.Lists o
  indexed : Indexed c.bs
  opened : openedIn c.log = (visited ds).flatMap Visit.sockets

theorem Sighting.between {o : Outcomes} {ds : List Dialed} {c c' : Cell} (h : Sighting o ds c) (hb : Between c c') :
    Sighting o ds c' where
  lists := h.lists.imp_left fun hs => by rwa [hb.sameList.hosts]
  indexed := h.indexed.congr hb.sameList.hosts hb.sameList.nhosts hb.sameList.idx
  opened := hb.unopened.openedIn.trans h.opened

theorem Sighting.dial {o : Outcomes} {ds : List Dialed} {c c' : Cell} {d : Dialed} (ho : o.Calm) (h : Sighting o ds c)
    (hd : localAmqpDial o b c = .ok d c') : Sighting o (ds ++ [d]) c' where
  lists := localAmqpDial_lists ho h.lists h.indexed hd
  indexed := (localAmqpDial_chain hd).indexed h.indexed
  opened := by
    rw [(localAmqpDial_inv ho h.lists h.indexed hd).opened, h.opened, visited_append, visited_singleton,
      List.flatMap_append]

/-- The sockets that a step opens are those of its attempts, in their order. -/
theorem next_opens (hs : s.Shaped) (ha : ∀ b, Anchored (s.entry b)) (ho : (st.outcomes b).Calm)
    (hl : (s.cell b).Lists (st.outcomes b)) (hi : Indexed (s.entry b))
    (hd : st.action ≠ .disconnect (some b)) :
    openedIn (logOf b (trace st s).log) = (visited (s.accounts st b)).flatMap Visit.sockets := by
  obtain ⟨c', hf, -, hopened⟩ := next_follows hs ha ho hl hi hd
  have hstart : Sighting (st.outcomes b) [] (s.cell b) := ⟨hl, hi, rfl⟩
  have h := hf.keeps (I := Sighting (st.outcomes b)) (fun _ _ _ hb h => h.between hb)
    (fun _ _ _ _ hd h => h.dial ho hd) hstart
  exact hopened.trans h.opened

theorem localAmqpDisconnect_resets {c : Cell} : ∃ c', localAmqpDisconnect c = .ok () c' ∧
    c'.bs.consecutiveFailures = 0 ∧ c'.bs.lastFailedConnect = 0 := by
  have hreturns : Returns localAmqpDisconnect := by
    refine .bind (fun c => ⟨_, c.link, rfl⟩) fun _ => .bind (localAmqpDisconnectBs_returns true) fun _ => ?_
    exact .bind (modifyBs_returns _) fun _ => modifyBs_returns _
  obtain ⟨_, c', hrun, h⟩ := hreturns.wp (s := c) (E := fun _ _ => True)
    (Q := fun _ c' => c'.bs.consecutiveFailures = 0 ∧ c'.bs.lastFailedConnect = 0) (by
      unfold localAmqpDisconnect
      refine wp_seq (R := fun _ _ => True) trivial fun _ _ _ => ?_
      refine wp_seq (localAmqpDisconnectBs_returns true).done fun _ c' _ => ?_
      unfold localAmqpFreeHosts
      rw [wp_bind, wp_modifyBs, wp_modifyBs]
      exact ⟨c'.reset.freed_consecutiveFailures, c'.reset.freed_lastFailedConnect⟩)
  exact ⟨c', hrun, h⟩

/-- `amqp.disconnect` resets the entry. -/
theorem next_disconnect (h : st.action = .disconnect (some b)) :
    ((next st s).entry b).consecutiveFailures = 0 ∧ ((next st s).entry b).lastFailedConnect = 0 := by
  obtain ⟨c', hrun, hzero⟩ := localAmqpDisconnect_resets (c := s.cell b)
  have hcalled : wp (do localAmqpDisconnect; return true : M Bool)
      (fun _ => Called .all (st.outcomes b) (s.cell b)) (fun _ => Called .all (st.outcomes b) (s.cell b))
      (s.cell b) := wp_seq localAmqpDisconnect_called fun _ _ h => h
  have hdone : (do localAmqpDisconnect; return true : M Bool) (s.cell b) = .ok true c' := by
    simp only [Bind.bind, EStateM.bind, hrun]
    rfl
  unfold next exec
  rw [h]
  show ((s.call st.outcomes b fun _ => do localAmqpDisconnect; return true).1.entry b).consecutiveFailures = 0 ∧
    ((s.call st.outcomes b fun _ => do localAmqpDisconnect; return true).1.entry b).lastFailedConnect = 0
  rw [call_entry (x := fun _ => do localAmqpDisconnect; return true) hcalled hdone]
  exact hzero

end Next

end PgAmqp
