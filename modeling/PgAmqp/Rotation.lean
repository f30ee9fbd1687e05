import PgAmqp.Passes
import PgAmqp.Outputs

/-!
# Failover rotates through the hosts

As long as the host list stays cached, every connect round goes on where the last one
stopped, also when that one was cut short by its budget. So the attempts of all rounds
together are one stretch of the cyclic order, and no host is left out of any window of it
that is as long as the list.
-/
namespace PgAmqp

open ProgramLogic Transition

/-- The positions of the list that were attempted in all calls of an account, in order. -/
def attempted (ds : List Dialed) : List Nat := (visited ds).map Visit.idx

/-- The accounts of all calls of `local_amqp_get_bs` for `b` in a run. -/
def accounted (b : Int) : List Step → Session → List Dialed
  | [], _ => []
  | st :: rest, s => s.accounts st b ++ accounted b rest (next st s)

/-- A round over `n` hosts under a budget: it attempts at least one host and none twice. -/
structure FairRound (o : Outcomes) (n budget : Nat) (deadline : Int) (ok : Bool)
    (visits : List Visit) : Prop where
  nonempty : visits ≠ []
  nodup : (visits.map Visit.idx).Nodup
  /-- Without a budget it fails only after all hosts. -/
  all : budget = 0 → ok = false → visits.length = n
  /-- The deadline is the budget after the clock at the start of the round. -/
  start : 0 < budget → ∃ i, deadline = o.nowMs i + budget
  /-- With a budget a further host is attempted only before the deadline. It is 0, which stands
  for none, only of a clock that reads a time before the epoch. -/
  before : 0 < budget → deadline ≠ 0 →
    ∀ v ∈ visits.dropLast, ∃ now, v.later = some now ∧ now < deadline

/-- A call of `local_amqp_get_bs` with a cached list makes a fair round, or none. -/
def Dialed.Fair (o : Outcomes) (n budget : Nat) : Dialed → Prop
  | .live => True
  | .suppressed => True
  | .unlisted _ => False
  | .failed deadline visits _ => FairRound o n budget deadline false visits
  | .connected deadline visits => FairRound o n budget deadline true visits

/-- `amqp_new_connection` succeeds, no warning raises and the broker is not disconnected. -/
structure Rotates (b : Int) (s : Session) (st : Step) : Prop where
  calm : (st.outcomes b).Calm
  allocates : (st.outcomes b).Allocates
  keeps : st.action ≠ .disconnect (some b)

/-- The entry has gone on by these attempts on the hosts of its list. -/
structure Advanced (bs : BrokerState) (vs : List Visit) (bs' : BrokerState) : Prop where
  hosts : bs'.hosts = bs.hosts
  nhosts : bs'.nhosts = bs.nhosts
  positions : vs.map Visit.idx = Cyclic.positions bs.nhosts (bs.idx + 1) vs.length
  tried : ∀ v ∈ vs, v.host = (bs.hosts.getD []).getD v.idx .zero
  idx : bs'.idx = (bs.idx + vs.length) % bs.nhosts

section Advanced

variable {bs bs' bs'' : BrokerState} {vs vs' : List Visit}

theorem Advanced.nil (hi : bs.idx < bs.nhosts) (h : SameDial bs bs') : Advanced bs [] bs' :=
  ⟨h.hosts, h.nhosts, rfl, by simp, h.idx.trans (Nat.mod_eq_of_lt hi).symm⟩

theorem Advanced.same (h : Advanced bs vs bs') (h' : SameDial bs' bs'') : Advanced bs vs bs'' :=
  ⟨h'.hosts.trans h.hosts, h'.nhosts.trans h.nhosts, h.positions, h.tried, h'.idx.trans h.idx⟩

/-- Two stretches that meet are one. -/
theorem Advanced.trans (h : Advanced bs vs bs') (h' : Advanced bs' vs' bs'') :
    Advanced bs (vs ++ vs') bs'' where
  hosts := h'.hosts.trans h.hosts
  nhosts := h'.nhosts.trans h.nhosts
  positions := by
    have hvs' : vs'.map Visit.idx = Cyclic.positions bs.nhosts (bs.idx + 1 + vs.length) vs'.length := by
      have := h'.positions
      rw [h.nhosts, h.idx, Cyclic.positions_mod_add] at this
      rwa [Nat.add_right_comm]
    rw [List.map_append, List.length_append, ← Cyclic.positions_append, ← h.positions, ← hvs']
  tried := fun v hv => by
    rcases List.mem_append.mp hv with hv | hv
    · exact h.tried v hv
    · rw [h'.tried v hv, h.hosts]
  idx := by rw [h'.idx, h.nhosts, h.idx, Nat.mod_add_mod, List.length_append, Nat.add_assoc]

theorem Advanced.inside (h : Advanced bs vs bs') (hpos : 0 < bs.nhosts) : bs'.idx < bs'.nhosts := by
  rw [h.idx, h.nhosts]
  exact Nat.mod_lt _ hpos

/-- The host of an attempt is the one of the list at its position. -/
theorem Advanced.host (h : Advanced bs vs bs') {hosts : List BrokerHost} (hh : bs.hosts = some hosts)
    (hn : bs.nhosts = hosts.length) (hpos : 0 < hosts.length) {v : Visit} (hv : v ∈ vs) :
    hosts[v.idx]? = some v.host := by
  have hmem : v.idx ∈ Cyclic.positions bs.nhosts (bs.idx + 1) vs.length :=
    h.positions ▸ List.mem_map_of_mem hv
  have hlt : v.idx < hosts.length := Cyclic.positions_lt hpos (hn ▸ hmem)
  rw [h.tried v hv, hh, Option.getD_some, List.getD_eq_getElem?_getD, List.getElem?_eq_getElem hlt]
  rfl

end Advanced

section Call

variable {o : Outcomes} {b : Int} {c c' : Cell} {d : Dialed}

/-- What one call of `local_amqp_get_bs` does to an entry with a cached list. -/
structure Rotated (o : Outcomes) (c : Cell) (d : Dialed) (c' : Cell) : Prop where
  advanced : Advanced c.bs d.visits c'.bs
  fair : d.Fair o c.bs.nhosts c.backend.gucs.connectBudgetMs

variable {ok : Bool} {visits : List Visit}

theorem Visited.fair (hv : Visited o (c.deadline o) c.bs.nhosts c.budgeted (ok, visits) c')
    (hnew : o.Allocates) (hi : c.bs.idx < c.bs.nhosts) :
    FairRound o c.bs.nhosts c.backend.gucs.connectBudgetMs (c.deadline o) ok visits where
  nonempty := hv.nonempty hnew (Nat.lt_of_le_of_lt (Nat.zero_le _) hi)
  nodup := by
    rw [hv.positions, Cell.budgeted_bs]
    exact Cyclic.positions_nodup hv.length
  all := fun hb hok => hv.all hnew hok (by
    unfold Cell.deadline
    rw [if_neg (by omega)])
  start := fun hb => ⟨c.counts .nowMs, by
    unfold Cell.deadline
    rw [if_pos hb]⟩
  before := fun _ => hv.before

/-- A round goes on from the host at which the entry stands. -/
theorem Visited.advanced (hv : Visited o (c.deadline o) c.bs.nhosts c.budgeted (ok, visits) c')
    (hnew : o.Allocates) : Advanced c.bs visits c'.bs := by
  have hhosts := hv.round.hosts
  have hnhosts := hv.round.nhosts
  have hpositions := hv.positions
  have htried := hv.hosts
  have hidx := hv.idx hnew
  rw [Cell.budgeted_bs] at hpositions htried hidx hhosts hnhosts
  exact ⟨hhosts, hnhosts, hpositions, htried, hidx⟩

theorem Dials.rotated (h : Dials o c d c') (hnew : o.Allocates) (hs : c.bs.hosts.isSome = true)
    (hi : c.bs.idx < c.bs.nhosts) : Rotated o c d c' := by
  -- the rounds start behind the check of the backoff, which leaves the entry as it is
  have hbs : c.link.checked.bs = c.bs := by rw [Cell.checked_bs]; rfl
  have hgucs : c.link.checked.backend = c.backend := by rw [Cell.checked_backend]; rfl
  have looked : ∀ {r : Int} {c₁ : Cell}, Loaded o c.link.checked r c₁ →
      c₁ = c.link.checked ∧ r = c.link.checked.bs.nhosts := fun h₁ =>
    h₁.cached_eq (by rw [hbs]; exact hs)
  have hi₁ : c.link.checked.bs.idx < c.link.checked.bs.nhosts := by rw [hbs]; exact hi
  have round : ∀ {ok visits c₂}, Visited o (c.link.checked.deadline o) c.link.checked.bs.nhosts
      c.link.checked.budgeted (ok, visits) c₂ → Advanced c.bs visits c₂.bs ∧
        FairRound o c.bs.nhosts c.backend.gucs.connectBudgetMs (c.link.checked.deadline o) ok visits := by
    intro ok visits c₂ hv
    have ha := hv.advanced hnew
    have hf := hv.fair hnew hi₁
    rw [hbs] at ha hf
    rw [hgucs] at hf
    exact ⟨ha, hf⟩
  cases h with
  | live _ => exact ⟨.nil hi (.refl _), trivial⟩
  | suppressed _ _ => exact ⟨.nil hi (hbs ▸ .refl _), trivial⟩
  | unlisted _ _ h₁ hr =>
    obtain ⟨-, rfl⟩ := looked h₁
    omega
  | failed _ _ h₁ _ hv =>
    obtain ⟨rfl, -⟩ := looked h₁
    obtain ⟨ha, hf⟩ := round hv
    exact ⟨⟨ha.hosts, ha.nhosts, ha.positions, ha.tried, ha.idx⟩, hf⟩
  | connected _ _ h₁ _ hv =>
    obtain ⟨rfl, -⟩ := looked h₁
    exact ⟨(round hv).1, (round hv).2⟩

/-- What holds in every cell of a step: the calls so far have gone on by what they attempted. -/
structure Rotating (o : Outcomes) (bs : BrokerState) (budget : Nat) (ds : List Dialed) (c : Cell) :
    Prop where
  advanced : Advanced bs (visited ds) c.bs
  fair : ∀ d ∈ ds, d.Fair o bs.nhosts budget
  indexed : Indexed c.bs
  budget : c.backend.gucs.connectBudgetMs = budget

variable {bs : BrokerState} {budget : Nat} {ds : List Dialed}

theorem Rotating.between (h : Rotating o bs budget ds c) (hb : Between c c') : Rotating o bs budget ds c' :=
  ⟨h.advanced.same hb.sameList.sameDial, h.fair,
    h.indexed.congr hb.sameList.hosts hb.sameList.nhosts hb.sameList.idx,
    by rw [hb.sameList.gucs]; exact h.budget⟩

theorem Rotating.dial (ho : o.Calm) (hnew : o.Allocates) (hs : bs.hosts.isSome = true)
    (h : Rotating o bs budget ds c) (hd : localAmqpDial o b c = .ok d c') :
    Rotating o bs budget (ds ++ [d]) c' := by
  have hs' : c.bs.hosts.isSome = true := by rw [h.advanced.hosts]; exact hs
  have hi : c.bs.idx < c.bs.nhosts := h.indexed.inside hs'
  obtain ⟨hadv, hfair⟩ := (localAmqpDial_inv ho (.inl hs') h.indexed hd).rotated hnew hs' hi
  rw [h.advanced.nhosts, h.budget] at hfair
  refine ⟨?_, fun e he => ?_, (localAmqpDial_chain hd).indexed h.indexed,
    by rw [(localAmqpDial_chain hd).lasts.gucs]; exact h.budget⟩
  · rw [visited_append, visited_singleton]
    exact h.advanced.trans hadv
  · rcases List.mem_append.mp he with he | he
    · exact h.fair e he
    · exact List.mem_singleton.mp he ▸ hfair

variable {s : Session} {st : Step} {ok : Session → Step → Prop}

/-- A step of a run. -/
theorem next_rotating (hs : Runs ok s) (hst : Rotates b s st) (hh : (s.entry b).hosts.isSome = true) :
    Advanced (s.entry b) (visited (s.accounts st b)) ((next st s).entry b) ∧
      ∀ d ∈ s.accounts st b, d.Fair (st.outcomes b) (s.entry b).nhosts s.backend.gucs.connectBudgetMs := by
  have hi := (Runs.indexed hs b).inside hh
  obtain ⟨c', hf, hsame, -⟩ := next_follows (Runs.shaped hs) (Runs.anchored hs) hst.calm (.inl hh)
    (Runs.indexed hs b) hst.keeps
  have hstart : Rotating (st.outcomes b) (s.entry b) s.backend.gucs.connectBudgetMs [] (s.cell b) :=
    ⟨.nil hi (.refl _), by simp, Runs.indexed hs b, rfl⟩
  have h := hf.keeps (I := Rotating (st.outcomes b) (s.entry b) s.backend.gucs.connectBudgetMs)
    (fun _ _ _ hb h => h.between hb) (fun _ _ _ _ hd h => h.dial hst.calm hst.allocates hh hd) hstart
  rw [List.nil_append] at h
  exact ⟨h.advanced.same hsame, h.fair⟩

theorem run_advanced (hs : Runs (fun _ _ => True) s) (hh : (s.entry b).hosts.isSome = true)
    {steps : List Step} (ha : Admits next (Rotates b) steps s) :
    Advanced (s.entry b) (visited (accounted b steps s)) ((run next steps s).entry b) := by
  induction steps generalizing s with
  | nil => exact .nil ((Runs.indexed hs b).inside hh) (.refl _)
  | cons st rest ih =>
    have hstep := (next_rotating hs ha.1 hh).1
    have hh' : ((next st s).entry b).hosts.isSome = true := by rw [hstep.hosts]; exact hh
    have hrest := ih (.step st hs trivial) hh' ha.2
    unfold accounted
    rw [visited_append]
    exact hstep.trans hrest

/-- The steps of a run open the sockets of its attempts, when each finds its host list or can look it up. -/
theorem run_opens (hs : Runs (fun _ _ => True) s) {steps : List Step} (ha : Admits next (Rotates b) steps s)
    (hl : (s.entry b).hosts.isSome = true ∨ ∀ st ∈ steps, ∀ n, (st.outcomes b).spi n ≠ .raised) :
    openedIn (logOf b (gathered next (fun st s => (trace st s).log) steps s)) =
      (visited (accounted b steps s)).flatMap Visit.sockets := by
  induction steps generalizing s with
  | nil => rfl
  | cons st rest ih =>
    have hlist : (s.cell b).Lists (st.outcomes b) := hl.imp_right fun h => h st (List.mem_cons_self ..)
    have hstep := next_opens (Runs.shaped hs) (Runs.anchored hs) ha.1.calm hlist (Runs.indexed hs b) ha.1.keeps
    have hrest := ih (.step st hs trivial) ha.2 (hl.imp
      (fun hh => by rw [(next_rotating hs ha.1 hh).1.hosts]; exact hh)
      (fun h st hst => h st (List.mem_cons_of_mem _ hst)))
    show _ = (visited (s.accounts st b ++ accounted b rest (next st s))).flatMap Visit.sockets
    rw [gathered, logOf_append, openedIn_append, hstep, hrest, visited_append, List.flatMap_append]

/-- From every reached state with a cached host list on, whatever ends the rounds: the index
stays inside the list, the rounds of the next step are fair, the attempts of all rounds are
one stretch of the cyclic order, and every window of it as long as the list has every host.
Each attempt is made on the host of the list at its position, and the sockets that the run
opens are those of its attempts, one after the other. -/
theorem failover_rotates (hs : Runs (fun _ _ => True) s) (b : Int) {hosts : List BrokerHost}
    (hh : (s.entry b).hosts = some hosts) (steps : List Step) (ha : Admits next (Rotates b) steps s) :
    ((run next steps s).entry b).hosts = some hosts ∧
    ((run next steps s).entry b).idx < hosts.length ∧
    (∀ st, Rotates b (run next steps s) st → ∀ d ∈ (run next steps s).accounts st b,
      d.Fair (st.outcomes b) hosts.length (run next steps s).backend.gucs.connectBudgetMs ∧
        ∀ v ∈ d.visits, hosts[v.idx]? = some v.host) ∧
    attempted (accounted b steps s) = Cyclic.positions hosts.length ((s.entry b).idx + 1)
      (attempted (accounted b steps s)).length ∧
    (∀ i, i + hosts.length ≤ (attempted (accounted b steps s)).length →
      ∀ p < hosts.length, p ∈ ((attempted (accounted b steps s)).drop i).take hosts.length) ∧
    (∀ v ∈ visited (accounted b steps s), hosts[v.idx]? = some v.host) ∧
    openedIn (logOf b (gathered next (fun st s => (trace st s).log) steps s)) =
      (visited (accounted b steps s)).flatMap Visit.sockets := by
  have hsome : (s.entry b).hosts.isSome = true := by rw [hh]; rfl
  have hn := (Runs.indexed hs b).counted hosts hh
  have hi := (Runs.indexed hs b).inside hsome
  have hpos : 0 < (s.entry b).nhosts := Nat.lt_of_le_of_lt (Nat.zero_le _) hi
  have h := run_advanced hs hsome ha
  have hinside := h.inside hpos
  have hpositions : attempted (accounted b steps s) = Cyclic.positions hosts.length ((s.entry b).idx + 1)
      (attempted (accounted b steps s)).length := by
    unfold attempted
    rw [List.length_map, ← hn]
    exact h.positions
  have hkept : ((run next steps s).entry b).hosts = some hosts := h.hosts.trans hh
  rw [h.nhosts, hn] at hinside
  refine ⟨hkept, hinside, fun st hst d hd => ?_, hpositions, fun i hlen p hp => ?_,
    fun v hv => h.host hh hn (hn ▸ hpos) hv, run_opens hs ha (.inl hsome)⟩
  · have hreached : Runs (fun _ _ => True) (run next steps s) := hs.run steps (Admits.always _ _)
    obtain ⟨hadv, hfair⟩ := next_rotating hreached hst (by rw [hkept]; rfl)
    have hn' : ((run next steps s).entry b).nhosts = hosts.length := h.nhosts.trans hn
    rw [hn'] at hfair
    exact ⟨hfair d hd, fun v hv => hadv.host hkept hn' (hn ▸ hpos) (List.mem_flatMap_of_mem hd hv)⟩
  · rw [hpositions, Cyclic.positions_window hlen]
    exact Cyclic.positions_cover hp

end Call

/-- A host by its name, with the defaults of the other columns. -/
def BrokerRow.named (host : String) : BrokerRow :=
  ⟨some host, none, none, none, none, none, none, none, none, none⟩

/-- Two hosts, of which the broker reaches the next one that is tried. -/
def Outcomes.twoHosts : Outcomes := { Outcomes.good with spi := fun _ => .rows [.named "a", .named "b"] }

/-- The connection has died, and the next host refuses the socket. -/
def Outcomes.failingOver : Outcomes := { Outcomes.twoHosts with
  poll := fun n => ⟨[], n ≠ 0⟩
  socketOpen := fun n => n ≠ 0 }

/-- A connection to the second of two hosts. -/
def onSecondHost : Session :=
  run next [⟨.autonomousPublish (.to1 "a"), fun _ => .twoHosts⟩] (.loaded {} 0)

def failover : Step := ⟨.autonomousPublish (.to1 "b"), fun _ => .failingOver⟩

theorem onSecondHost_entry :
    (onSecondHost.entry 1).hosts = some [BrokerRow.toHost (.named "a"), BrokerRow.toHost (.named "b")] ∧
    (onSecondHost.entry 1).idx = 1 ∧
    attempted (accounted 1 [failover] onSecondHost) = [0, 1] := by
  decide +kernel

theorem onSecondHost_rotates :
    attempted (accounted 1 [failover] onSecondHost) = [0, 1] ∧
    (∀ i, i + 2 ≤ (attempted (accounted 1 [failover] onSecondHost)).length →
      ∀ p < 2, p ∈ ((attempted (accounted 1 [failover] onSecondHost)).drop i).take 2) ∧
    openedIn (logOf 1 (gathered next (fun st s => (trace st s).log) [failover] onSecondHost)) =
      [BrokerRow.toHost (.named "a"), BrokerRow.toHost (.named "b")] := by
  have hreached : Runs (fun _ _ => True) onSecondHost :=
    .run (.init (Session.loaded_initial _ _)) _ (Admits.always _ _)
  have hadmits : Admits next (Rotates 1) [failover] onSecondHost :=
    ⟨⟨fun _ _ => rfl, fun _ => rfl, by simp [failover]⟩, trivial⟩
  have h := failover_rotates hreached 1 onSecondHost_entry.1 [failover] hadmits
  obtain ⟨-, -, -, -, hwindows, -, hopened⟩ := h
  refine ⟨onSecondHost_entry.2.2, hwindows, hopened.trans ?_⟩
  decide +kernel

end PgAmqp
