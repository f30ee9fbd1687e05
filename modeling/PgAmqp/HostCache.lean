import PgAmqp.Changes

/-!
# Filling the host list

`local_amqp_load_hosts` puts a zeroed list in place and then fills it row by row. Two
warnings stand inside the loop, and a cancel at one of them leaves the list as it is
then. `fillRows` says what the list is in the end, from the rows and the cancels alone.
-/
namespace PgAmqp

open ProgramLogic

namespace BrokerRow

/-- The host and the port that the loop sets first. -/
def hostName (row : BrokerRow) : Option String := some (row.host.getD "localhost")

def portNumber (row : BrokerRow) : Int := row.port.getD 5672

def badPort (row : BrokerRow) : Bool := row.portNumber < 1 ∨ 65535 < row.portNumber

/-- TLS without a check of the certificate. -/
def insecure (row : BrokerRow) : Bool := row.ssl.getD false && !row.sslVerify.getD true

/-- The entry at the warning about the port. -/
def begun (row : BrokerRow) : BrokerHost :=
  { BrokerHost.zero with host := row.hostName, port := row.portNumber }

end BrokerRow

/-- The list after the loop, and whether a warning raised; `n` counts the warnings. -/
def fillRows (unwind : Nat → Report → Bool) (brokerId : Int) (n : Nat) :
    List BrokerRow → List BrokerHost × Bool
  | [] => ([], false)
  | row :: rest =>
    if row.badPort && unwind n (.invalidPort brokerId row.hostName row.portNumber) then
      (row.begun :: List.replicate rest.length .zero, true)
    else if row.insecure && unwind (n + row.badPort.toNat) (.insecureTls brokerId row.hostName) then
      (row.toHost :: List.replicate rest.length .zero, true)
    else
      let r := fillRows unwind brokerId (n + row.badPort.toNat + row.insecure.toNat) rest
      (row.toHost :: r.1, r.2)

/-- No cancel takes effect inside the loop, except perhaps at the very last warning,
behind which nothing is left to fill. -/
def fillsAll (unwind : Nat → Report → Bool) (brokerId : Int) (n : Nat) : List BrokerRow → Bool
  | [] => true
  | row :: rest =>
    !(row.badPort && unwind n (.invalidPort brokerId row.hostName row.portNumber)) &&
      if row.insecure && unwind (n + row.badPort.toNat) (.insecureTls brokerId row.hostName) then
        rest.isEmpty
      else fillsAll unwind brokerId (n + row.badPort.toNat + row.insecure.toNat) rest

section Rows

variable {unwind : Nat → Report → Bool} {brokerId : Int}

theorem fillRows_length (n : Nat) (rows : List BrokerRow) :
    (fillRows unwind brokerId n rows).1.length = rows.length := by
  induction rows generalizing n with
  | nil => rfl
  | cons row rest ih =>
    unfold fillRows
    split
    · simp
    · split <;> simp [ih]

theorem toHost_ne_zero (row : BrokerRow) : BrokerHost.zero ≠ row.toHost := by
  intro h
  have := congrArg BrokerHost.host h
  simp [BrokerHost.zero, BrokerRow.toHost] at this

theorem begun_ne_toHost (row : BrokerRow) : row.begun ≠ row.toHost := by
  intro h
  have := congrArg BrokerHost.vhost h
  simp [BrokerRow.begun, BrokerHost.zero, BrokerRow.toHost] at this

/-- The list is complete exactly where the loop was not left too early. -/
theorem fillRows_complete (n : Nat) (rows : List BrokerRow) :
    (fillRows unwind brokerId n rows).1 = rows.map BrokerRow.toHost ↔
      fillsAll unwind brokerId n rows = true := by
  induction rows generalizing n with
  | nil => simp [fillRows, fillsAll]
  | cons row rest ih =>
    unfold fillRows fillsAll
    split
    · rename_i hbad
      simp [hbad, begun_ne_toHost]
    · rename_i hbad
      rw [Bool.not_eq_true] at hbad
      rw [hbad]
      split
      · cases rest with
        | nil => simp
        | cons row' rest => simp [List.replicate_succ, toHost_ne_zero]
      · simpa using ih _

/-- A loop that came to its end has filled the list. -/
theorem fillRows_done {n : Nat} {rows : List BrokerRow}
    (h : (fillRows unwind brokerId n rows).2 = false) :
    (fillRows unwind brokerId n rows).1 = rows.map BrokerRow.toHost := by
  induction rows generalizing n with
  | nil => rfl
  | cons row rest ih =>
    unfold fillRows at h ⊢
    split at h
    · cases h
    · rename_i hbad
      rw [if_neg hbad]
      split at h
      · cases h
      · rename_i htls
        rw [if_neg htls, List.map_cons]
        exact congrArg (row.toHost :: ·) (ih h)

end Rows

/-- The cell after a list of warnings. -/
def Cell.warnedAll (c : Cell) (rs : List Report) : Cell := rs.foldl Cell.warned c

section WarnedAll

variable (c : Cell) (rs rs' : List Report)

@[simp] theorem Cell.warnedAll_nil : c.warnedAll [] = c := rfl

theorem Cell.warnedAll_append : c.warnedAll (rs ++ rs') = (c.warnedAll rs).warnedAll rs' :=
  List.foldl_append

theorem Cell.warnedAll_modified (f : BrokerState → BrokerState) :
    (c.modified f).warnedAll rs = (c.warnedAll rs).modified f := by
  induction rs generalizing c with
  | nil => rfl
  | cons r rs ih => exact ih (c.warned r)

@[simp] theorem Cell.warnedAll_bs : (c.warnedAll rs).bs = c.bs := by
  induction rs generalizing c with
  | nil => rfl
  | cons r rs ih => exact ih (c.warned r)

@[simp] theorem Cell.warnedAll_backend : (c.warnedAll rs).backend = c.backend := by
  induction rs generalizing c with
  | nil => rfl
  | cons r rs ih => exact ih (c.warned r)

@[simp] theorem Cell.warnedAll_linked : (c.warnedAll rs).linked = c.linked := by
  induction rs generalizing c with
  | nil => rfl
  | cons r rs ih => exact ih (c.warned r)

theorem Cell.warnedAll_elog : (c.warnedAll rs).counts .elog = c.counts .elog + rs.length := by
  induction rs generalizing c with
  | nil => rfl
  | cons r rs ih =>
    rw [List.length_cons]
    have h := ih (c.warned r)
    rw [c.warned_counts] at h
    rw [← Nat.add_assoc, Nat.add_right_comm]
    exact h

end WarnedAll

/-- Warnings that say nothing about a returned message. -/
def Unreturned (rs : List Report) : Prop := ∀ r ∈ rs, Report.isReturned r = false

theorem Unreturned.append {rs rs' : List Report} (h : Unreturned rs) (h' : Unreturned rs') :
    Unreturned (rs ++ rs') := fun r hr => (List.mem_append.mp hr).elim (h r) (h' r)

theorem Served.warnedAll {L : Lapses} (g : Stage) (c : Cell) {rs : List Report} (h : Unreturned rs) :
    Served L (g, c) (g, c.warnedAll rs) := by
  induction rs generalizing c with
  | nil => exact .refl
  | cons r rs ih =>
    exact .head (.warn r (h r (List.mem_cons_self ..))) (ih _ fun r' hr' => h r' (List.mem_cons_of_mem _ hr'))

section Fill

variable {o : Outcomes} {c : Cell}

/-- The list that the loop leaves when it starts in this cell. -/
def Cell.fillRows (c : Cell) (o : Outcomes) (rows : List BrokerRow) : List BrokerHost × Bool :=
  PgAmqp.fillRows (fun n r => !c.backend.holdoff && o.unwind n r) c.bs.brokerId (c.counts .elog) rows

def Cell.withHosts (c : Cell) (hosts : List BrokerHost) : Cell :=
  c.modified fun bs => { bs with hosts := some hosts }

/-- The loop added warnings and left this host list. -/
def Filling (c : Cell) (hosts : List BrokerHost) (c' : Cell) : Prop :=
  ∃ rs, Unreturned rs ∧ c' = (c.warnedAll rs).withHosts hosts

theorem modify_append (hs : List BrokerHost) (h : BrokerHost) (rest : List BrokerHost)
    (f : BrokerHost → BrokerHost) :
    (hs ++ h :: rest).modify hs.length f = hs ++ f h :: rest := by
  induction hs with
  | nil => rfl
  | cons a hs ih => exact congrArg (a :: ·) ih

theorem wp_modifyHost {hs rest : List BrokerHost} {h : BrokerHost} {i : Nat} (hi : i = hs.length)
    (f : BrokerHost → BrokerHost) {Q : Unit → Cell → Prop} {E : Raised → Cell → Prop} :
    wp (modifyHost i f) Q E (c.withHosts (hs ++ h :: rest)) =
      Q () (c.withHosts (hs ++ f h :: rest)) := by
  unfold modifyHost
  rw [wp_modifyBs]
  congr 1
  simp only [Cell.withHosts, Cell.modified, hi, Option.map_some, modify_append]

theorem Cell.warnedAll_snoc (rs : List Report) (r : Report) (hosts : List BrokerHost) :
    ((c.warnedAll rs).withHosts hosts).warned r = (c.warnedAll (rs ++ [r])).withHosts hosts := by
  rw [Cell.warnedAll_append]
  rfl

theorem Cell.warnedAll_unwinds (rs : List Report) (r : Report) (hosts : List BrokerHost) :
    ((c.warnedAll rs).withHosts hosts).unwinds o r =
      (!c.backend.holdoff && o.unwind (c.counts .elog + rs.length) r) := by
  rw [← Cell.warnedAll_elog, ← c.warnedAll_backend rs]
  rfl

/-- The assignments of a turn behind the check of the port. -/
def BrokerRow.rest (row : BrokerRow) (h : BrokerHost) : BrokerHost := { h with
  vhost := some (row.vhost.getD "/")
  user := some (row.username.getD "guest")
  pass := some (row.password.getD "guest")
  useSsl := row.ssl.getD false
  sslVerify := row.sslVerify.getD true
  sslCacert := row.sslCacert
  sslCert := row.sslCert
  sslKey := row.sslKey }

theorem BrokerRow.rest_toHost {row : BrokerRow} {h : BrokerHost} (hhost : h.host = row.hostName)
    (hport : h.port = row.toHost.port) : row.rest h = row.toHost := by
  unfold BrokerRow.rest
  rw [hhost, hport]
  rfl

theorem localAmqpFillHost_eq (brokerId : Int) (i : Nat) (row : BrokerRow) :
    localAmqpFillHost o brokerId i row = (do
      modifyHost i fun h => { h with host := row.hostName, port := row.portNumber }
      if row.badPort = true then
        elog o (.invalidPort brokerId row.hostName row.portNumber)
        modifyHost i fun h => { h with port := 5672 }
      modifyHost i row.rest
      if row.insecure = true then elog o (.insecureTls brokerId row.hostName)) := by
  unfold localAmqpFillHost BrokerRow.badPort
  simp only [decide_eq_true_eq]
  rfl

/-- A cancel takes effect at the warning about the port of a row. -/
abbrev Cell.portUnwinds (c : Cell) (o : Outcomes) (row : BrokerRow) : Bool :=
  row.badPort && (!c.backend.holdoff && o.unwind (c.counts .elog)
    (.invalidPort c.bs.brokerId row.hostName row.portNumber))

/-- A cancel takes effect at the warning about the TLS settings of a row. -/
abbrev Cell.tlsUnwinds (c : Cell) (o : Outcomes) (row : BrokerRow) : Bool :=
  row.insecure && (!c.backend.holdoff && o.unwind (c.counts .elog + row.badPort.toNat)
    (.insecureTls c.bs.brokerId row.hostName))

/-- The turn behind the check of the port. -/
theorem wp_fillRest {hs rest : List BrokerHost} {h : BrokerHost} {rs : List Report} {i : Nat}
    (row : BrokerRow) (hi : i = hs.length) {Q : Unit → Cell → Prop} {E : Raised → Cell → Prop}
    (hrs : Unreturned rs) (hlen : rs.length = row.badPort.toNat) (hhost : h.host = row.hostName)
    (hport : h.port = row.toHost.port)
    (htls : c.tlsUnwinds o row = true →
      ∀ e rs, Unreturned rs → E e ((c.warnedAll rs).withHosts (hs ++ row.toHost :: rest)))
    (hdone : c.tlsUnwinds o row = false →
      ∀ rs, Unreturned rs → rs.length = row.badPort.toNat + row.insecure.toNat →
        Q () ((c.warnedAll rs).withHosts (hs ++ row.toHost :: rest))) :
    wp (do
      modifyHost i row.rest
      if row.insecure = true then elog o (.insecureTls c.bs.brokerId row.hostName)) Q E
      ((c.warnedAll rs).withHosts (hs ++ h :: rest)) := by
  rw [wp_bind, wp_modifyHost hi, BrokerRow.rest_toHost hhost hport, wp_ite]
  split
  · rename_i htrue
    have hsnoc : Unreturned (rs ++ [.insecureTls c.bs.brokerId row.hostName]) :=
      hrs.append (by simp [Unreturned, Report.isReturned])
    rw [wp_elog, Cell.warnedAll_unwinds, Cell.warnedAll_snoc, hlen]
    split
    · rename_i hu
      exact htls (by rw [Cell.tlsUnwinds, htrue, hu]; rfl) _ _ hsnoc
    · rename_i hu
      refine hdone (by rw [Cell.tlsUnwinds, htrue]; simpa using hu) _ hsnoc ?_
      rw [List.length_append, hlen, htrue]
      rfl
  · rename_i hfalse
    have hfalse := Bool.eq_false_iff.mpr hfalse
    exact hdone (by rw [Cell.tlsUnwinds, hfalse]; rfl) rs hrs (by rw [hlen, hfalse]; rfl)

/-- One turn, by the two cancels that may end it. -/
theorem localAmqpFillHost_spec {hs rest : List BrokerHost} {i : Nat} (row : BrokerRow)
    (hi : i = hs.length) {Q : Unit → Cell → Prop} {E : Raised → Cell → Prop}
    (hport : c.portUnwinds o row = true →
      ∀ e rs, Unreturned rs → E e ((c.warnedAll rs).withHosts (hs ++ row.begun :: rest)))
    (htls : c.portUnwinds o row = false → c.tlsUnwinds o row = true →
      ∀ e rs, Unreturned rs → E e ((c.warnedAll rs).withHosts (hs ++ row.toHost :: rest)))
    (hdone : c.portUnwinds o row = false → c.tlsUnwinds o row = false →
      ∀ rs, Unreturned rs → rs.length = row.badPort.toNat + row.insecure.toNat →
        Q () ((c.warnedAll rs).withHosts (hs ++ row.toHost :: rest))) :
    wp (localAmqpFillHost o c.bs.brokerId i row) Q E (c.withHosts (hs ++ .zero :: rest)) := by
  rw [localAmqpFillHost_eq, wp_bind, wp_modifyHost hi, wp_ite]
  have hbegun : ({ BrokerHost.zero with host := row.hostName, port := row.portNumber } : BrokerHost) =
    row.begun := rfl
  rw [hbegun]
  split
  · rename_i hbad
    have hone : Unreturned [.invalidPort c.bs.brokerId row.hostName row.portNumber] := by
      simp [Unreturned, Report.isReturned]
    have hcell : c.withHosts (hs ++ row.begun :: rest) =
      (c.warnedAll []).withHosts (hs ++ row.begun :: rest) := rfl
    rw [hcell, wp_bind, wp_elog, Cell.warnedAll_unwinds, Cell.warnedAll_snoc, List.nil_append,
      List.length_nil, Nat.add_zero]
    split
    · rename_i hu
      exact hport (by rw [Cell.portUnwinds, hbad, hu]; rfl) _ _ hone
    · rename_i hu
      have hcalm : c.portUnwinds o row = false := by
        rw [Cell.portUnwinds, hbad]
        simpa using hu
      rw [wp_bind, wp_modifyHost hi]
      refine wp_fillRest row hi hone (by rw [hbad]; rfl) rfl ?_ (htls hcalm) (hdone hcalm)
      have hrange : row.port.getD 5672 < 1 ∨ 65535 < row.port.getD 5672 := of_decide_eq_true hbad
      exact (if_pos hrange).symm
  · rename_i hbad
    have hbad := Bool.eq_false_iff.mpr hbad
    have hcalm : c.portUnwinds o row = false := by
      rw [Cell.portUnwinds, hbad]
      rfl
    have hnone : Unreturned [] := by simp [Unreturned]
    refine wp_fillRest row hi hnone (by rw [hbad]; rfl) rfl ?_ (htls hcalm) (hdone hcalm)
    have hrange : ¬ (row.port.getD 5672 < 1 ∨ 65535 < row.port.getD 5672) := of_decide_eq_false hbad
    exact (if_neg hrange).symm

theorem localAmqpFillHosts_spec (rows : List BrokerRow) {hs : List BrokerHost} {i : Nat}
    (hi : i = hs.length) :
    wp (localAmqpFillHosts o c.bs.brokerId i rows)
      (fun _ c' => (c.fillRows o rows).2 = false ∧ Filling c (hs ++ (c.fillRows o rows).1) c')
      (fun _ c' => (c.fillRows o rows).2 = true ∧ Filling c (hs ++ (c.fillRows o rows).1) c')
      (c.withHosts (hs ++ List.replicate rows.length .zero)) := by
  induction rows generalizing c hs i with
  | nil => exact ⟨rfl, [], by simp [Unreturned], rfl⟩
  | cons row rows ih =>
    unfold localAmqpFillHosts Cell.fillRows PgAmqp.fillRows
    rw [List.length_cons, List.replicate_succ, wp_bind]
    refine localAmqpFillHost_spec row hi (fun hu _ rs hrs => ?_) (fun hn hu _ rs hrs => ?_)
      (fun hn hn' rs hrs hlen => ?_)
    · rw [if_pos hu]
      exact ⟨rfl, rs, hrs, rfl⟩
    · rw [if_neg (Bool.eq_false_iff.mp hn), if_pos hu]
      exact ⟨rfl, rs, hrs, rfl⟩
    · rw [if_neg (Bool.eq_false_iff.mp hn), if_neg (Bool.eq_false_iff.mp hn')]
      have hlen' : i + 1 = (hs ++ [row.toHost]).length := by rw [hi, List.length_append]; rfl
      have hrest := ih (c := c.warnedAll rs) hlen'
      have hrows : (c.warnedAll rs).fillRows o rows =
          PgAmqp.fillRows (fun n r => !c.backend.holdoff && o.unwind n r) c.bs.brokerId
            (c.counts .elog + row.badPort.toNat + row.insecure.toNat) rows := by
        unfold Cell.fillRows
        rw [Cell.warnedAll_backend, Cell.warnedAll_bs, Cell.warnedAll_elog, hlen, Nat.add_assoc]
      rw [hrows, Cell.warnedAll_bs, List.append_assoc, List.append_assoc] at hrest
      have filling : ∀ c' hosts, Filling (c.warnedAll rs) hosts c' → Filling c hosts c' := by
        rintro c' hosts ⟨rs', hrs', rfl⟩
        exact ⟨rs ++ rs', hrs.append hrs', by rw [Cell.warnedAll_append]⟩
      exact wp_mono hrest (fun _ c' h => ⟨h.1, filling c' _ h.2⟩) (fun _ c' h => ⟨h.1, filling c' _ h.2⟩)

/-- What `local_amqp_load_hosts` returns with. -/
inductive Loaded (o : Outcomes) (c : Cell) : Int → Cell → Prop where
  | cached : c.bs.hosts.isSome = true → Loaded o c c.bs.nhosts c
  | unconnected : c.bs.hosts = none → o.spi (c.counts .spi) = .connectError →
      Loaded o c (-1) (c.ticked .spi)
  | missing (r : Report) : c.bs.hosts = none → r.isReturned = false →
      o.spi (c.counts .spi) = .executeError ∨ o.spi (c.counts .spi) = .rows [] →
      Loaded o c c.bs.nhosts ((c.ticked .spi).warned r)
  | filled (rows : List BrokerRow) (rs : List Report) : c.bs.hosts = none →
      o.spi (c.counts .spi) = .rows rows → rows ≠ [] → Unreturned rs →
      (c.fillRows o rows).2 = false →
      Loaded o c rows.length (((c.ticked .spi).warnedAll rs).filled (rows.map BrokerRow.toHost)
        (c.backend.myProcPid % rows.length))

/-- What it raises with. -/
inductive LoadRaised (o : Outcomes) (c : Cell) : Raised → Cell → Prop where
  | spi : c.bs.hosts = none → o.spi (c.counts .spi) = .raised → LoadRaised o c .spi (c.ticked .spi)
  | missing (r : Report) : c.bs.hosts = none → r.isReturned = false →
      o.spi (c.counts .spi) = .executeError ∨ o.spi (c.counts .spi) = .rows [] →
      LoadRaised o c .canceled ((c.ticked .spi).warned r)
  | partly (rows : List BrokerRow) (rs : List Report) (e : Raised) : c.bs.hosts = none →
      o.spi (c.counts .spi) = .rows rows → rows ≠ [] → Unreturned rs →
      (c.fillRows o rows).2 = true →
      LoadRaised o c e (((c.ticked .spi).warnedAll rs).filled (c.fillRows o rows).1 c.bs.idx)

theorem localAmqpLoadHosts_spec : wp (localAmqpLoadHosts o) (Loaded o c) (LoadRaised o c) c := by
  unfold localAmqpLoadHosts
  rw [wp_bind, wp_getBs, wp_ite]
  split
  · rename_i hs
    exact .cached hs
  rename_i hs
  have hs : c.bs.hosts = none := by simpa using hs
  rw [wp_bind, wp_tick]
  have missing : ∀ r : Report, r.isReturned = false →
      o.spi (c.counts .spi) = .executeError ∨ o.spi (c.counts .spi) = .rows [] → wp (do
      elog o r
      return ((← getBs).nhosts : Int)) (Loaded o c) (LoadRaised o c) (c.ticked .spi) := by
    intro r hr hspi
    rw [wp_bind, wp_elog]
    split
    · exact .missing r hs hr hspi
    · exact .missing r hs hr hspi
  cases hspi : o.spi (c.counts .spi) with
  | connectError => exact .unconnected hs hspi
  | raised => exact .spi hs hspi
  | executeError => exact missing _ rfl (.inl hspi)
  | rows rows =>
    cases rows with
    | nil => exact missing _ rfl (.inr hspi)
    | cons row rest =>
      have hne : row :: rest ≠ [] := by simp
      have hempty : 0 = ([] : List BrokerHost).length := rfl
      have hrows := localAmqpFillHosts_spec (o := o) (c := (c.ticked .spi).modified fun bs =>
        { bs with nhosts := (row :: rest).length }) (row :: rest) hempty
      have hfill : ((c.ticked .spi).modified fun bs =>
          { bs with nhosts := (row :: rest).length }).fillRows o (row :: rest) =
          c.fillRows o (row :: rest) := by
        unfold Cell.fillRows
        rw [Cell.modified_counts, c.ticked_other (by decide)]
        rfl
      rw [hfill, List.nil_append, List.nil_append] at hrows
      dsimp only
      rw [wp_bind, wp_modifyBs, wp_bind]
      refine wp_mono hrows (fun _ c' h => ?_) (fun e c' h => ?_)
      · obtain ⟨hdone, rs, hrs, rfl⟩ := h
        have hlen : (c.fillRows o (row :: rest)).1 = (row :: rest).map BrokerRow.toHost := fillRows_done hdone
        have h := Loaded.filled (o := o) (c := c) _ rs hs hspi hne hrs hdone
        have hpid : c.backend.myProcPid = ((c.ticked .spi).warnedAll rs).backend.myProcPid := by simp
        unfold Cell.filled at h
        rw [List.length_map, hpid] at h
        rw [Cell.warnedAll_modified, hlen]
        exact h
      · obtain ⟨hdone, rs, hrs, rfl⟩ := h
        have h := LoadRaised.partly (o := o) (c := c) _ rs e hs hspi hne hrs hdone
        have hlen : (c.fillRows o (row :: rest)).1.length = (row :: rest).length := fillRows_length _ _
        have hidx : c.bs.idx = ((c.ticked .spi).warnedAll rs).bs.idx := by simp
        unfold Cell.filled at h
        rw [hlen, hidx] at h
        rw [Cell.warnedAll_modified]
        exact h

end Fill

end PgAmqp
