import PgAmqp.Rotation

/-!
# A fleet of backends spreads over the hosts

The load of the host list seeds the index from the process id, and every attempt moves it
on by one, whatever ends the rounds. So from the first lookup on the attempts of a backend
are the stretch of the cyclic order that begins behind the position of its process id, and
among backends with consecutive process ids the hosts share the attempts evenly, the first
ones as well as all later ones.
-/
namespace PgAmqp

open ProgramLogic Transition

/-- An entry as the load of these rows seeds it. -/
def BrokerState.seeded (rows : List BrokerRow) (pid : Nat) : BrokerState :=
  { BrokerState.fresh 0 with
    hosts := some (rows.map BrokerRow.toHost), nhosts := rows.length, idx := pid % rows.length }

/-- There was no list yet to attempt a host of, or the attempts went on from the seed. -/
def Seeded (rows : List BrokerRow) (pid : Nat) (vs : List Visit) (bs : BrokerState) : Prop :=
  (bs.hosts = none ∧ vs = []) ∨ Advanced (.seeded rows pid) vs bs

/-- A step in which the lookups of `b` find these rows, or fail. -/
structure Looks (b : Int) (rows : List BrokerRow) (s : Session) (st : Step) : Prop extends Rotates b s st where
  spi : ∀ n, (st.outcomes b).spi n ≠ .raised
  found : ∀ n found, (st.outcomes b).spi n = .rows found → found = rows ∨ found = []

section Call

variable {o : Outcomes} {b : Int} {c c' : Cell} {d : Dialed} {rows : List BrokerRow} {pid : Nat}
  {vs : List Visit} {bs bs' : BrokerState}

theorem Seeded.same (h : Seeded rows pid vs bs) (h' : SameDial bs bs') : Seeded rows pid vs bs' := by
  rcases h with ⟨hnone, hvs⟩ | h
  · exact .inl ⟨h'.hosts.trans hnone, hvs⟩
  · exact .inr (h.same h')

/-- A lookup that finds the rows seeds the entry, and any other leaves it without a list. -/
theorem Loaded.seeded {r : Int} (h : Loaded o c r c') (hnone : c.bs.hosts = none) (hi : Indexed c.bs)
    (hfound : ∀ n found, o.spi n = .rows found → found = rows ∨ found = []) :
    (r ≤ 0 ∧ c'.bs.hosts = none) ∨ Advanced (.seeded rows c.backend.myProcPid) [] c'.bs := by
  cases h with
  | cached hs => simp [hnone] at hs
  | unconnected _ _ => exact .inl ⟨by decide, hnone⟩
  | missing _ _ _ _ => exact .inl ⟨by rw [(hi.empty hnone).1]; decide, hnone⟩
  | filled found rs _ hspi hne _ _ =>
    obtain rfl := (hfound _ _ hspi).resolve_right hne
    refine .inr ⟨rfl, ?_, rfl, by simp, ?_⟩
    · simp [Cell.filled, BrokerState.seeded]
    · simp [Cell.filled, BrokerState.seeded]

/-- Every call of `local_amqp_get_bs` goes on from the seed. -/
theorem Dials.seeded (h : Dials o c d c') (hnew : o.Allocates)
    (hfound : ∀ n found, o.spi n = .rows found → found = rows ∨ found = []) (hi : Indexed c.bs)
    (hs : Seeded rows c.backend.myProcPid vs c.bs) :
    Seeded rows c.backend.myProcPid (vs ++ d.visits) c'.bs := by
  rcases hs with ⟨hnone, rfl⟩ | hadv
  · have hlink : c.link.checked.bs = c.bs := by rw [Cell.checked_bs]; rfl
    have hpid : c.link.checked.backend = c.backend := by rw [Cell.checked_backend]; rfl
    have looked : ∀ {r : Int} {c₁ : Cell}, Loaded o c.link.checked r c₁ →
        (r ≤ 0 ∧ c₁.bs.hosts = none) ∨ Advanced (.seeded rows c.backend.myProcPid) [] c₁.bs := by
      intro r c₁ h₁
      have h₁ := h₁.seeded (by rw [hlink]; exact hnone) (by rw [hlink]; exact hi) hfound
      rwa [hpid] at h₁
    have round : ∀ {r : Int} {c₁ c₂ : Cell} {ok : Bool} {visits : List Visit}, Loaded o c.link.checked r c₁ → 0 < r →
        Visited o (c₁.deadline o) c₁.bs.nhosts c₁.budgeted (ok, visits) c₂ →
        Advanced (.seeded rows c.backend.myProcPid) visits c₂.bs := by
      intro r c₁ c₂ ok visits h₁ hr hv
      have hadv := (looked h₁).resolve_left fun h => absurd h.1 (by omega)
      exact hadv.trans (hv.advanced hnew)
    cases h with
    | live _ => exact .inl ⟨hnone, rfl⟩
    | suppressed _ _ => exact .inl ⟨by rw [hlink]; exact hnone, rfl⟩
    | unlisted _ _ h₁ hr =>
      rcases looked h₁ with ⟨-, h₁⟩ | h₁
      · exact .inl ⟨h₁, rfl⟩
      · exact .inr ⟨h₁.hosts, h₁.nhosts, h₁.positions, h₁.tried, h₁.idx⟩
    | failed _ _ h₁ hr hv =>
      have h := round h₁ hr hv
      exact .inr ⟨h.hosts, h.nhosts, h.positions, h.tried, h.idx⟩
    | connected _ _ h₁ hr hv => exact .inr (round h₁ hr hv)
  · have hsome : c.bs.hosts.isSome = true := by rw [hadv.hosts]; rfl
    exact .inr (hadv.trans (h.rotated hnew hsome (hi.inside hsome)).advanced)

/-- What holds in every cell of a step: the calls so far have gone on from the seed. -/
structure Seeding (rows : List BrokerRow) (pid : Nat) (vs : List Visit) (ds : List Dialed) (c : Cell) : Prop where
  seeded : Seeded rows pid (vs ++ visited ds) c.bs
  indexed : Indexed c.bs
  pid : c.backend.myProcPid = pid

variable {ds : List Dialed}

theorem Seeding.between (h : Seeding rows pid vs ds c) (hb : Between c c') : Seeding rows pid vs ds c' where
  seeded := h.seeded.same hb.sameList.sameDial
  indexed := h.indexed.congr hb.sameList.hosts hb.sameList.nhosts hb.sameList.idx
  pid := hb.sameList.pid.trans h.pid

variable {s : Session} {st : Step}

theorem Seeding.dial (hst : Looks b rows s st) (h : Seeding rows pid vs ds c)
    (hd : localAmqpDial (st.outcomes b) b c = .ok d c') : Seeding rows pid vs (ds ++ [d]) c' where
  seeded := by
    have hdials := localAmqpDial_inv hst.calm (.inr hst.spi) h.indexed hd
    rw [visited_append, visited_singleton, ← List.append_assoc, ← h.pid]
    exact hdials.seeded hst.allocates hst.found h.indexed (h.pid ▸ h.seeded)
  indexed := (localAmqpDial_chain hd).indexed h.indexed
  pid := (localAmqpDial_chain hd).lasts.pid.trans h.pid

theorem Trail.keepsPid {R : Cell → Cell → Prop} (hR : ∀ c c', R c c' → Lasts c c') {k k' : Backend}
    {evs : List Event} (h : Trail R k bs evs k' bs') : k'.myProcPid = k.myProcPid := by
  induction h with
  | still _ hg => exact hg.pid
  | work hc => exact (hR _ _ hc).pid
  | trans _ _ ih ih' => exact ih'.trans ih

/-- A backend keeps its process id. -/
theorem next_pid {ok : Session → Step → Prop} (hs : Runs ok s) (st : Step) :
    (next st s).backend.myProcPid = s.backend.myProcPid := by
  by_cases hset : ∃ g, st.action = .set g
  · obtain ⟨g, hg⟩ := hset
    unfold next exec
    rw [hg]
  · have htrails := exec_trails (Runs.shaped hs) (Runs.anchored hs) (fun g hg => hset ⟨g, hg⟩) 0
    exact htrails.keepsPid fun _ _ h => (Session.work_chain h).lasts

/-- A step of a run. -/
theorem next_seeded {ok : Session → Step → Prop} (hs : Runs ok s) (hst : Looks b rows s st)
    (h : Seeded rows s.backend.myProcPid vs (s.entry b)) :
    Seeded rows s.backend.myProcPid (vs ++ visited (s.accounts st b)) ((next st s).entry b) := by
  obtain ⟨c', hf, hsame, -⟩ := next_follows (Runs.shaped hs) (Runs.anchored hs) hst.calm (.inr hst.spi)
    (Runs.indexed hs b) hst.keeps
  have hstart : Seeding rows s.backend.myProcPid vs [] (s.cell b) := by
    refine ⟨?_, Runs.indexed hs b, rfl⟩
    rw [visited_nil, List.append_nil]
    exact h
  have hend := hf.keeps (I := Seeding rows s.backend.myProcPid vs) (fun _ _ _ hb h => h.between hb)
    (fun _ _ _ _ hd h => h.dial hst hd) hstart
  exact hend.seeded.same hsame

theorem run_seeded (hs : Runs (fun _ _ => True) s) {steps : List Step} (ha : Admits next (Looks b rows) steps s)
    (h : Seeded rows s.backend.myProcPid vs (s.entry b)) :
    Seeded rows s.backend.myProcPid (vs ++ visited (accounted b steps s)) ((run next steps s).entry b) := by
  induction steps generalizing s vs with
  | nil =>
    rw [show visited (accounted b [] s) = [] from rfl, List.append_nil]
    exact h
  | cons st rest ih =>
    have hpid := next_pid hs st
    have hstep := next_seeded hs ha.1 h
    have hrest := ih (.step st hs trivial) ha.2 (hpid ▸ hstep)
    rw [hpid, List.append_assoc] at hrest
    unfold accounted
    rw [visited_append]
    exact hrest

end Call

/-- A backend of a fleet: its process id is the next one, it holds no host list of `b` yet, and
its lookups find the same rows as those of all others. -/
structure FleetMember (b : Int) (rows : List BrokerRow) (pid : Nat) (s : Session) (steps : List Step) : Prop where
  runs : Runs (fun _ _ => True) s
  pid : s.backend.myProcPid = pid
  unlisted : (s.entry b).hosts = none
  admits : Admits next (Looks b rows) steps s

section Fleet

variable {b : Int} {rows : List BrokerRow} {pid : Nat} {s : Session} {steps : List Step}

theorem FleetMember.seeded (h : FleetMember b rows pid s steps) :
    Seeded rows pid (visited (accounted b steps s)) ((run next steps s).entry b) := by
  have hrun := run_seeded h.runs h.admits (.inl ⟨h.unlisted, rfl⟩)
  rw [h.pid, List.nil_append] at hrun
  exact hrun

/-- Where a backend's attempt is made, and of which list. -/
theorem FleetMember.attempt (h : FleetMember b rows pid s steps) {j : Nat} {v : Visit}
    (hj : (visited (accounted b steps s))[j]? = some v) :
    v.idx = (pid + 1 + j) % rows.length ∧ (rows.map BrokerRow.toHost)[v.idx]? = some v.host ∧
      ((run next steps s).entry b).hosts = some (rows.map BrokerRow.toHost) := by
  rcases h.seeded with ⟨-, hnil⟩ | hadv
  · rw [hnil] at hj
    cases hj
  · have hidx : ((visited (accounted b steps s)).map Visit.idx)[j]? = some v.idx := by
      rw [List.getElem?_map, hj]
      rfl
    rw [hadv.positions] at hidx
    obtain ⟨-, hp⟩ := Cyclic.positions_getElem? hidx
    have hpos : 0 < rows.length := by
      have hinside := (Runs.indexed (h.runs.run steps (Admits.always _ _)) b).inside (by rw [hadv.hosts]; rfl)
      rw [hadv.nhosts] at hinside
      exact Nat.lt_of_le_of_lt (Nat.zero_le _) hinside
    refine ⟨?_, hadv.host rfl (by simp [BrokerState.seeded]) (by simpa using hpos) (List.mem_of_getElem? hj),
      hadv.hosts⟩
    rw [hp]
    simp only [BrokerState.seeded, Nat.add_assoc, Nat.mod_add_mod]

theorem Looks.spares {st : Step} (h : Admits next (Looks b rows) steps s) (hst : st ∈ steps) (n : Nat) :
    (st.outcomes b).spi n ≠ .raised := by
  induction steps generalizing s with
  | nil => cases hst
  | cons st' rest ih =>
    rcases List.mem_cons.mp hst with rfl | hst
    · exact h.1.spi n
    · exact ih h.2 hst

/-- The sockets that a backend opens are those of its attempts. -/
theorem FleetMember.opens (h : FleetMember b rows pid s steps) :
    openedIn (logOf b (gathered next (fun st s => (trace st s).log) steps s)) =
      (visited (accounted b steps s)).flatMap Visit.sockets :=
  run_opens h.runs (h.admits.mono fun _ _ hst => hst.toRotates) (.inr fun _ => Looks.spares h.admits)

end Fleet

/-- Backends with consecutive process ids, `m` for each host of the list that their lookups
find, whatever becomes of their attempts: each attempt of a backend is made on the host at the
position behind that of the attempt before it, the sockets it opens are those of its attempts,
and the attempts of one number spread evenly. No host gets more than `m` of them, and each
gets `m` when all backends have come so far. -/
theorem fleet_spreads (b : Int) (rows : List BrokerRow) (pid m : Nat) (s : Nat → Session)
    (steps : Nat → List Step) (h : ∀ i < rows.length * m, FleetMember b rows (pid + i) (s i) (steps i)) :
    let tried i := visited (accounted b (steps i) (s i))
    (∀ i < rows.length * m,
      (∀ j v, (tried i)[j]? = some v → v.idx = (pid + i + 1 + j) % rows.length ∧
        (rows.map BrokerRow.toHost)[v.idx]? = some v.host ∧
        ((run next (steps i) (s i)).entry b).hosts = some (rows.map BrokerRow.toHost)) ∧
      openedIn (logOf b (gathered next (fun st s => (trace st s).log) (steps i) (s i))) =
        (tried i).flatMap Visit.sockets) ∧
    ∀ j, ∀ p < rows.length,
      (List.range (rows.length * m)).countP (fun i => (tried i)[j]?.map Visit.idx = some p) ≤ m ∧
      ((∀ i < rows.length * m, j < (tried i).length) →
        (List.range (rows.length * m)).countP (fun i => (tried i)[j]?.map Visit.idx = some p) = m) := by
  intro tried
  refine ⟨fun i hi => ⟨fun j v => (h i hi).attempt, (h i hi).opens⟩, fun j p hp => ?_⟩
  -- the positions of the j-th attempts are one stretch of the cyclic order
  have hall : (List.range (rows.length * m)).countP (fun i => (pid + i + 1 + j) % rows.length = p) = m := by
    have hcount := Cyclic.positions_count (i := pid + 1 + j) hp m
    rw [List.count, Cyclic.positions, List.countP_map] at hcount
    refine Eq.trans (List.countP_congr fun i _ => ?_) hcount
    have hsum : pid + i + 1 + j = pid + 1 + j + i := by omega
    simp [hsum]
  constructor
  · refine Nat.le_trans (List.countP_mono_left fun i hi hj => ?_) (Nat.le_of_eq hall)
    rw [List.mem_range] at hi
    simp only [decide_eq_true_eq, Option.map_eq_some_iff] at hj ⊢
    obtain ⟨v, hv, rfl⟩ := hj
    exact ((h i hi).attempt hv).1.symm
  · intro hlen
    refine Eq.trans (List.countP_congr fun i hi => ?_) hall
    rw [List.mem_range] at hi
    simp only [decide_eq_true_eq]
    have hget := List.getElem?_eq_getElem (hlen i hi)
    have hpos := ((h i hi).attempt hget).1
    rw [hget, Option.map_some, hpos]
    simp

/-- A backend connects, and finds its connection dead and the next host refusing when it publishes again. -/
def reconnecting : List Step := [⟨.autonomousPublish (.to1 "a"), fun _ => .twoHosts⟩, failover]

theorem reconnecting_member (pid : Nat) :
    FleetMember 1 [.named "a", .named "b"] pid (.loaded {} pid) reconnecting where
  runs := .init (Session.loaded_initial {} pid)
  pid := rfl
  unlisted := rfl
  admits := by
    refine ⟨⟨⟨fun _ _ => rfl, fun _ => rfl, by simp⟩, fun _ h => Spi.noConfusion h, fun _ _ h => ?_⟩,
      ⟨⟨fun _ _ => rfl, fun _ => rfl, by simp [failover]⟩, fun _ h => Spi.noConfusion h, fun _ _ h => ?_⟩, trivial⟩
    · exact .inl (Spi.rows.inj h).symm
    · exact .inl (Spi.rows.inj h).symm

theorem reconnecting_spreads :
    let tried i := visited (accounted 1 reconnecting (.loaded {} (6 + i)))
    (tried 0).map Visit.idx = [1, 0, 1] ∧ (tried 1).map Visit.idx = [0, 1, 0] ∧
      openedIn (logOf 1 (gathered next (fun st s => (trace st s).log) reconnecting (.loaded {} 6))) =
        [BrokerRow.toHost (.named "b"), BrokerRow.toHost (.named "a"), BrokerRow.toHost (.named "b")] ∧
      ∀ p < 2, (List.range 2).countP (fun i => (tried i)[2]?.map Visit.idx = some p) = 1 := by
  intro tried
  have hfirst : (tried 0).map Visit.idx = [1, 0, 1] := by decide +kernel
  have hsecond : (tried 1).map Visit.idx = [0, 1, 0] := by decide +kernel
  have hspread := fleet_spreads 1 [.named "a", .named "b"] 6 1 (fun i => .loaded {} (6 + i))
    (fun _ => reconnecting) fun i _ => reconnecting_member (6 + i)
  have hlen : ∀ i < 2, 2 < (tried i).length := by
    intro i hi
    have hi : i = 0 ∨ i = 1 := by omega
    rcases hi with rfl | rfl
    · rw [← List.length_map Visit.idx, hfirst]
      decide
    · rw [← List.length_map Visit.idx, hsecond]
      decide
  refine ⟨hfirst, hsecond, ((hspread.1 0 (by decide)).2).trans ?_, fun p hp => (hspread.2 2 p hp).2 hlen⟩
  decide +kernel

end PgAmqp
