import PgAmqp.Trails
import PgAmqp.Delivery

/-!
# The host cache is complete or absent

The list is put in place before it is filled, and an early return trusts whatever list
is there. So the cache is whole after a load exactly where no cancel took effect inside
the fill loop, and along a run of such loads every socket is opened to a host that a row
of one lookup describes completely.
-/
namespace PgAmqp

open ProgramLogic Transition

/-- A host with all that a connect attempt reads. -/
structure BrokerHost.Complete (h : BrokerHost) : Prop where
  host : h.host.isSome = true
  vhost : h.vhost.isSome = true
  user : h.user.isSome = true
  pass : h.pass.isSome = true
  port : 1 ≤ h.port ∧ h.port ≤ 65535

theorem BrokerRow.toHost_complete (row : BrokerRow) : row.toHost.Complete where
  host := rfl
  vhost := rfl
  user := rfl
  pass := rfl
  port := by
    unfold BrokerRow.toHost
    dsimp only
    split <;> omega

theorem zero_incomplete : ¬ BrokerHost.zero.Complete := fun h => absurd h.host (by decide)

theorem begun_incomplete (row : BrokerRow) : ¬ row.begun.Complete := fun h => absurd h.vhost (by
  simp [BrokerRow.begun, BrokerHost.zero])

/-- The cache is absent, or it holds all the rows of one lookup, in their order. `P` is
what the lookups may answer. -/
def Whole (P : List BrokerRow → Prop) (bs : BrokerState) : Prop :=
  (bs.hosts = none ∧ bs.nhosts = 0) ∨
    ∃ rows, P rows ∧ bs.hosts = some (rows.map BrokerRow.toHost) ∧ bs.nhosts = rows.length ∧
      bs.idx < bs.nhosts ∧ ∀ h ∈ rows.map BrokerRow.toHost, h.Complete

section Whole

variable {P : List BrokerRow → Prop} {bs : BrokerState}

theorem Whole.filled {rows : List BrokerRow} (hP : P rows)
    (hs : bs.hosts = some (rows.map BrokerRow.toHost)) (hn : bs.nhosts = rows.length)
    (hi : bs.idx < bs.nhosts) : Whole P bs :=
  .inr ⟨rows, hP, hs, hn, hi, fun h hh => by
    obtain ⟨row, -, rfl⟩ := List.mem_map.mp hh
    exact row.toHost_complete⟩

theorem Whole.complete (h : Whole P bs) {hosts : List BrokerHost} (hs : bs.hosts = some hosts) :
    ∀ x ∈ hosts, x.Complete := by
  rcases h with ⟨hnone, -⟩ | ⟨rows, -, hrows, -, -, hall⟩
  · rw [hnone] at hs
    cases hs
  · obtain rfl := Option.some.inj (hrows.symm.trans hs)
    exact hall

/-- A list that the loop left too early has an entry that is not complete. -/
theorem fillRows_incomplete {unwind : Nat → Report → Bool} {brokerId : Int} (n : Nat)
    (rows : List BrokerRow) (h : fillsAll unwind brokerId n rows = false) :
    ∃ x ∈ (fillRows unwind brokerId n rows).1, ¬ x.Complete := by
  induction rows generalizing n with
  | nil => cases h
  | cons row rest ih =>
    unfold fillsAll at h
    unfold fillRows
    split
    · exact ⟨_, List.mem_cons_self .., begun_incomplete row⟩
    · rename_i hbad
      rw [Bool.not_eq_true] at hbad
      rw [hbad] at h
      split
      · rename_i htls
        rw [if_pos htls] at h
        cases rest with
        | nil => cases h
        | cons row' rest => exact ⟨.zero, by simp [List.replicate_succ], zero_incomplete⟩
      · rename_i htls
        rw [if_neg htls] at h
        obtain ⟨x, hx, hincomplete⟩ := ih _ h
        exact ⟨x, List.mem_cons_of_mem _ hx, hincomplete⟩

end Whole

/-- The load leaves the loop over the rows only when they are all filled in. -/
def Cell.loadsAll (c : Cell) (o : Outcomes) : Bool :=
  c.bs.hosts.isSome || match o.spi (c.counts .spi) with
    | .rows rows => fillsAll (fun n r => !c.backend.holdoff && o.unwind n r) c.bs.brokerId
        (c.counts .elog) rows
    | _ => true

/-- An entry as the loads leave it; without a list the next one is filled from index 0. -/
structure Listed (P : List BrokerRow → Prop) (bs : BrokerState) : Prop where
  whole : Whole P bs
  start : bs.hosts = none → bs.idx = 0

section Load

variable {P : List BrokerRow → Prop} {o : Outcomes} {c : Cell}

theorem Cell.loadsAll_missing (hspi : o.spi (c.counts .spi) = .executeError ∨
    o.spi (c.counts .spi) = .rows []) : c.loadsAll o = true := by
  rcases hspi with hspi | hspi <;> simp [Cell.loadsAll, hspi, fillsAll]

theorem localAmqpLoadHosts_whole (hl : Listed P c.bs) (hP : ∀ n rows, o.spi n = .rows rows → P rows) :
    Whole P (final (localAmqpLoadHosts o) c).bs ↔ c.loadsAll o = true := by
  refine wp_final (P := fun c' : Cell => Whole P c'.bs ↔ c.loadsAll o = true) ?_
  have kept : Whole P c.bs := hl.whole
  have all : c.bs.hosts = none → ∀ rows, o.spi (c.counts .spi) = .rows rows →
      c.loadsAll o = fillsAll (fun n r => !c.backend.holdoff && o.unwind n r) c.bs.brokerId
        (c.counts .elog) rows := fun hs rows hspi => by simp [Cell.loadsAll, hs, hspi]
  refine wp_mono localAmqpLoadHosts_spec (fun r c' h => ?_) (fun e c' h => ?_)
  · cases h with
    | cached hs => exact iff_of_true kept (by simp [Cell.loadsAll, hs])
    | unconnected hs hspi => exact iff_of_true kept (by simp [Cell.loadsAll, hspi])
    | missing r hs hr hspi => exact iff_of_true kept (Cell.loadsAll_missing hspi)
    | filled rows rs hs hspi hne hrs hdone =>
      rw [all hs rows hspi]
      refine iff_of_true ?_ ((fillRows_complete _ _).mp (fillRows_done hdone))
      have hlen : 0 < rows.length := List.length_pos_iff.mpr hne
      exact .filled (hP _ _ hspi) (by simp [Cell.filled]) (by simp [Cell.filled])
        (by simpa [Cell.filled] using Nat.mod_lt _ hlen)
  · cases h with
    | spi hs hspi => exact iff_of_true kept (by simp [Cell.loadsAll, hspi])
    | missing r hs hr hspi => exact iff_of_true kept (Cell.loadsAll_missing hspi)
    | partly rows rs e hs hspi hne hrs hdone =>
      rw [all hs rows hspi]
      have hlen : 0 < rows.length := List.length_pos_iff.mpr hne
      cases hall : fillsAll (fun n r => !c.backend.holdoff && o.unwind n r) c.bs.brokerId
          (c.counts .elog) rows with
      | true =>
        have hrows : (c.fillRows o rows).1 = rows.map BrokerRow.toHost := (fillRows_complete _ _).mpr hall
        refine iff_of_true (.filled (hP _ _ hspi) (by simp [Cell.filled, hrows])
          (by simp [Cell.filled, hrows]) ?_) rfl
        simpa [Cell.filled, hl.start hs, hrows] using hlen
      | false =>
        obtain ⟨x, hx, hincomplete⟩ := fillRows_incomplete _ rows hall
        refine iff_of_false (fun hw => hincomplete (hw.complete rfl x hx)) (by simp)

end Load

section Chains

variable {P : List BrokerRow → Prop} {L : Lapses} {o : Outcomes} {p q : Stage × Cell}

/-- The host of a socket event is one that a row of some lookup describes. -/
def Event.OpensListed (P : List BrokerRow → Prop) (e : Event) : Prop :=
  ∀ x, e.opened = some x → x.Complete ∧ ∃ rows, P rows ∧ x ∈ rows.map BrokerRow.toHost

/-- Every lookup is answered with rows that `P` knows, and none of the lists stays partly filled. -/
def Lists (P : List BrokerRow → Prop) (L : Lapses) (o : Outcomes) : Prop :=
  ¬ L.partly ∧ ∀ n rows, o.spi n = .rows rows → P rows

/-- What a chain keeps of the cache, and what its events tell. -/
structure Listing (P : List BrokerRow → Prop) (p : Stage × Cell) : Prop where
  listed : Listed P p.2.bs
  dial : p.1 = .dial → 0 < p.2.bs.nhosts
  opens : ∀ e ∈ p.2.log, e.OpensListed P

theorem Event.OpensListed.silent {e : Event} (h : e.opened = none) : e.OpensListed P := by
  intro x hx
  rw [h] at hx
  cases hx

theorem opensListed_snoc {evs : List Event} {e : Event} (h : ∀ e' ∈ evs, e'.OpensListed P)
    (he : e.OpensListed P) : ∀ e' ∈ evs ++ [e], e'.OpensListed P := by
  intro e' hmem
  rcases List.mem_append.mp hmem with hmem | hmem
  · exact h e' hmem
  · rw [List.mem_singleton.mp hmem]
    exact he

theorem Listed.congr {bs bs' : BrokerState} (h : Listed P bs) (hh : bs'.hosts = bs.hosts)
    (hn : bs'.nhosts = bs.nhosts) (hi : bs'.idx = bs.idx) : Listed P bs' := by
  obtain ⟨hw, hs⟩ := h
  unfold Whole at hw
  rw [← hh, ← hn, ← hi] at hw
  exact ⟨hw, by rw [hh, hi]; exact hs⟩

/-- Inside the list the index finds a host of the list. -/
theorem Listed.current {bs : BrokerState} (h : Listed P bs) (hn : 0 < bs.nhosts) :
    bs.currentHost.Complete ∧ ∃ rows, P rows ∧ bs.currentHost ∈ rows.map BrokerRow.toHost := by
  rcases h.whole with ⟨-, hz⟩ | ⟨rows, hP, hs, hlen, hi, hall⟩
  · omega
  · have hi : bs.idx < (rows.map BrokerRow.toHost).length := by
      rw [List.length_map]
      omega
    have hmem : bs.currentHost ∈ rows.map BrokerRow.toHost := by
      unfold BrokerState.currentHost
      rw [hs, Option.getD_some, List.getD_eq_getElem?_getD, List.getElem?_eq_getElem hi,
        Option.getD_some]
      exact List.getElem_mem hi
    exact ⟨hall _ hmem, rows, hP, hmem⟩

theorem Serve.listing (h : Serve L p q) (hl : Listing P p) : Listing P q where
  listed := hl.listed.congr h.sameList.hosts h.sameList.nhosts h.sameList.idx
  dial := by
    rw [h.sameList.nhosts]
    cases h <;> first | exact hl.dial | exact fun hg => Stage.noConfusion hg
  opens := fun e he => (h.unopened.mem he).elim (hl.opens e) fun hn x hx => by simp [hn] at hx

theorem Change.listing (hL : Lists P L o) (h : Change L o p q) (hl : Listing P p) : Listing P q := by
  cases h with
  | serve h => exact h.listing hl
  | dial h =>
    cases h with
    | @fill c n rows hosts idx hs hc hspi hne hlen hall hidx =>
      obtain rfl := hall.resolve_right hL.1
      refine ⟨⟨.filled (hL.2 n rows hspi) rfl (by simp [Cell.filled]) ?_, by simp [Cell.filled]⟩,
        fun hg => Stage.noConfusion hg, hl.opens⟩
      have hpos : 0 < rows.length := List.length_pos_iff.mpr hne
      rcases hidx with rfl | rfl
      · simpa [Cell.filled] using Nat.mod_lt _ hpos
      · have hzero : c.bs.idx = 0 := hl.listed.start hs
        simpa [Cell.filled, hzero] using hpos
    | @turn c hc hn =>
      refine ⟨⟨?_, fun hs => ?_⟩, fun hg => Stage.noConfusion hg, hl.opens⟩
      · rcases hl.listed.whole with ⟨-, hz⟩ | ⟨rows, hP, hs, hlen, -, -⟩
        · exact absurd hz (Nat.ne_of_gt hn)
        · exact .filled hP hs hlen (Nat.mod_lt _ hn)
      · rcases hl.listed.whole with ⟨-, hz⟩ | ⟨rows, -, hsome, -⟩
        · exact absurd hz (Nat.ne_of_gt hn)
        · exact absurd (hs.symm.trans hsome) (by simp)
    | new hc hn => exact ⟨hl.listed.congr rfl rfl rfl, fun _ => hn, hl.opens⟩
    | «open» ok =>
      refine ⟨hl.listed, hl.dial, opensListed_snoc hl.opens fun x hx => ?_⟩
      obtain rfl := Option.some.inj hx
      exact hl.listed.current (hl.dial rfl)
    | shake n => exact ⟨hl.listed.congr rfl rfl rfl, fun hg => Stage.noConfusion hg, hl.opens⟩
    | ask k kind a hk hkind =>
      exact ⟨hl.listed.congr rfl rfl rfl, fun hg => Stage.noConfusion hg,
        opensListed_snoc hl.opens (.silent rfl)⟩
    | connect => exact ⟨hl.listed.congr rfl rfl rfl, fun hg => Stage.noConfusion hg, hl.opens⟩
    | fail n hc => exact ⟨hl.listed.congr rfl rfl rfl, fun hg => Stage.noConfusion hg, hl.opens⟩
    | unwind hh => exact ⟨hl.listed, fun hg => Stage.noConfusion hg, hl.opens⟩
  | close k hk =>
    exact ⟨hl.listed.congr rfl rfl rfl, fun hg => Stage.noConfusion hg,
      opensListed_snoc (opensListed_snoc hl.opens (.silent rfl)) (.silent rfl)⟩
  | @reset c hc =>
    refine ⟨⟨?_, fun _ => rfl⟩, fun hg => Stage.noConfusion hg, hl.opens⟩
    rcases hl.listed.whole with ⟨hs, hz⟩ | ⟨rows, hP, hs, hlen, hi, -⟩
    · exact .inl ⟨hs, hz⟩
    · exact .filled hP hs hlen (Nat.lt_of_le_of_lt (Nat.zero_le _) hi)
  | @free c hc hidx =>
    have hnone : c.bs.hosts = none → c.bs.nhosts = 0 := by
      intro hs
      rcases hl.listed.whole with ⟨-, hz⟩ | ⟨rows, -, hsome, -⟩
      · exact hz
      · exact absurd (hs.symm.trans hsome) (by simp)
    have hkept : c.freed.bs.idx = c.bs.idx := by
      simp only [Cell.freed, Cell.modified_bs]
      split <;> rfl
    exact ⟨⟨.inl ⟨c.freed_hosts, c.freed_nhosts hnone⟩, fun _ => hkept.trans hidx⟩,
      fun hg => Stage.noConfusion hg, hl.opens⟩

theorem Chain.listing (hL : Lists P L o) (h : Chain L o p q) (hl : Listing P p) : Listing P q :=
  h.keeps (fun _ _ => Change.listing hL) hl

theorem listed_start {bs : BrokerState} {linked : Bool} {k : Backend} (h : Listed P bs) :
    Listing P (.rest, Session.start bs linked k) :=
  ⟨h, fun hg => Stage.noConfusion hg, fun _ he => nomatch he⟩

theorem listed_lasting : Lasting (Lists P) fun _ bs => Listed P bs where
  fresh := fun _ _ => ⟨.inl ⟨rfl, rfl⟩, fun _ => rfl⟩
  grow := fun _ _ h => h
  chain := fun hL h hc => (Chain.listing hL hc (listed_start h)).listed

end Chains

/-- No load of the step stays partly filled, and `P` knows the rows that its lookups answer. -/
def FillsWhole (P : Int → List BrokerRow → Prop) (s : Session) (st : Step) : Prop :=
  ∀ b, s.fillsPartly st b = false ∧ ∀ n rows, (st.outcomes b).spi n = .rows rows → P b rows

section Runs

variable {P : Int → List BrokerRow → Prop} {s : Session}

theorem FillsWhole.lists {st : Step} (h : FillsWhole P s st) (b : Int) :
    Lists (P b) (s.lapses st b) (st.outcomes b) :=
  ⟨fun hp => by simp [Session.lapses, (h b).1] at hp, (h b).2⟩

theorem Runs.listed (hs : Runs (FillsWhole P) s) (b : Int) : Listed (P b) (s.entry b) :=
  listed_lasting.holds (fun _ _ h => h.lists b) hs

/-- A load leaves the cache complete or absent exactly where no cancel is taken inside the
fill loop. In a run of such loads the cache of every broker is complete or absent, and
every socket is opened to a host of a complete list. -/
theorem loadHosts_whole (hs : Runs (FillsWhole P) s) (b : Int) (o : Outcomes)
    (ho : ∀ n rows, o.spi n = .rows rows → P b rows) :
    (Whole (P b) (final (localAmqpLoadHosts o) (s.cell b)).bs ↔ (s.cell b).loadsAll o = true) ∧
    Whole (P b) (s.entry b) ∧
    ∀ st, FillsWhole P s st → ∀ e ∈ logOf b (trace st s).log, e.OpensListed (P b) := by
  have hl := Runs.listed hs b
  refine ⟨localAmqpLoadHosts_whole (c := s.cell b) hl ho, hl.whole, fun st hst => ?_⟩
  exact listed_lasting.events (fun hL hI hc => (Chain.listing hL hc (listed_start hI)).opens)
    (fun _ _ h => h.lists b) hs hst

end Runs

/-- Without a cancel the loop comes to its end. -/
theorem fillsAll_calm (brokerId : Int) (n : Nat) (rows : List BrokerRow) :
    fillsAll (fun _ _ => false) brokerId n rows = true := by
  induction rows generalizing n with
  | nil => rfl
  | cons row rest ih => simpa [fillsAll] using ih _

theorem fillsPartly_calm {s : Session} {st : Step} {b : Int}
    (h : ∀ n r, (st.outcomes b).unwind n r = false) : s.fillsPartly st b = false := by
  have hall : ∀ id n rows, fillsAll (fun n r => !s.backend.holdoff && (st.outcomes b).unwind n r) id n
      rows = true := by
    intro id n rows
    have hfun : (fun n r => !s.backend.holdoff && (st.outcomes b).unwind n r) = fun _ _ => false := by
      funext n r
      rw [h, Bool.and_false]
    rw [hfun]
    exact fillsAll_calm id n rows
  have hpartly : (s.cell b).leavesPartly (st.outcomes b) = false := by
    unfold Cell.leavesPartly
    split
    · rw [show (s.cell b).backend = s.backend from rfl, hall]
      simp
    · simp
  unfold Session.fillsPartly
  rw [hpartly, Bool.and_false, Bool.false_and]

/-- The rows that the lookup of a good step answers. -/
def goodRows (rows : List BrokerRow) : Prop := Outcomes.good.spi 0 = .rows rows

theorem Step.good_fillsWhole (s : Session) (a : Action) : FillsWhole (fun _ => goodRows) s (.good a) :=
  fun _ => ⟨fillsPartly_calm fun _ _ => rfl, fun _ _ h => h⟩

theorem oneAcknowledged_listed :
    (Whole goodRows (final (localAmqpLoadHosts .good) (oneAcknowledged.cell 1)).bs ↔
      (oneAcknowledged.cell 1).loadsAll .good = true) ∧
    Whole goodRows (oneAcknowledged.entry 1) ∧
    ∀ st, FillsWhole (fun _ => goodRows) oneAcknowledged st →
      ∀ e ∈ logOf 1 (trace st oneAcknowledged).log, e.OpensListed goodRows :=
  loadHosts_whole (oneAcknowledged_runs Step.good_fillsWhole) 1 .good fun _ _ h => h

/-- Two rows, the first with a port out of range, and a cancel that is pending at its warning. -/
def Outcomes.cancelledFill : Outcomes := { Outcomes.good with
  unwind := fun n _ => n == 0
  spi := fun _ => .rows
    [⟨some "b", some 0, none, none, none, none, none, none, none, none⟩,
      ⟨some "a", none, none, none, none, none, none, none, none, none⟩] }

theorem cancelledFill_entry :
    ((run next [⟨.publish (.to1 "a"), fun _ => .cancelledFill⟩] (Session.loaded {} 0)).entry 1).hosts =
      some [{ BrokerHost.zero with host := some "b" }, .zero] ∧
    (1, Event.socketOpen .zero 2000 true) ∈ (trace (.good (.publish (.to1 "b")))
      (run next [⟨.publish (.to1 "a"), fun _ => .cancelledFill⟩] (Session.loaded {} 0))).log := by
  decide +kernel

/-- The cancelled load leaves a host without a name, and the next call connects to it. -/
theorem loadHosts_left_partly :
    (¬ ∀ s, Runs (fun _ _ => True) s → ∀ b, Whole (fun _ => True) (s.entry b)) ∧
    ¬ ∀ s, Runs (fun _ _ => True) s → ∀ b st, ∀ e ∈ logOf b (trace st s).log,
      e.OpensListed fun _ => True := by
  obtain ⟨hhosts, hopens⟩ := cancelledFill_entry
  have hreached : Runs (fun _ _ => True)
      (run next [⟨.publish (.to1 "a"), fun _ => .cancelledFill⟩] (Session.loaded {} 0)) :=
    .run (.init (Session.loaded_initial {} 0)) _ (Admits.always _ _)
  refine ⟨fun h => ?_, fun h => ?_⟩
  · exact zero_incomplete ((h _ hreached 1).complete hhosts .zero (by simp))
  · exact zero_incomplete (h _ hreached 1 _ _ (mem_logOf.mpr hopens) .zero rfl).1

end PgAmqp
